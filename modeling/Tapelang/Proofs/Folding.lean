import Mathlib.Data.List.Chain
import Tapelang.Proofs.Assembling

/-!
# What a command adds to code under construction

Read as the commands of its instructions, block by block, an assembly changes in two ways only
(`Assembly.Grows`, `Builds.grows`): a command begins a block of its own, at its own position and
only if it does not fit into the last block, or it lengthens the last block. Closing a loop gives a
jump its target, which no block shows.

`Laid` is what follows for an assembly that has taken the commands at some sites of a text: every
block has one location, that of its first command, and no block is followed by one that it had room
for. Each command keeps that (`Laid.grow`), and so compiled code has it (`compileBytes_laid`).
-/

namespace Tapelang

open LoopTree

/-! ## Blocks -/

/-- The commands of the instructions so far, instruction by instruction. -/
def Assembly.blocks (a : Assembly) : List (List Command) :=
  a.instructions.toList.map Instruction.commands

theorem Assembly.length_blocks (a : Assembly) : a.blocks.length = a.instructions.size := by
  simp [blocks]

/-- The second block had to be begun: it is of another command, or the first block is full. -/
def Separate (block next : List Command) : Prop :=
  ∀ c o most, block.head? = some c → next.head? = some c → c.run? = some (o, most) →
    block.length = most

theorem Instruction.opcode?_of_head {i : Instruction} {c : Command} {o : Opcode} {most : Nat}
    (h : i.commands.head? = some c) (hc : c.run? = some (o, most)) : i.opcode? = some o := by
  cases ho : i.opcode? with
  | none => simp [commands, ho] at h
  | some o' =>
    cases o' <;> simp [commands, ho, List.head?_replicate] at h
    case addByte | subByte | addPointer | subPointer =>
      obtain ⟨-, rfl⟩ := h
      cases hc
      rfl
    all_goals
      subst h
      cases hc

theorem separate_of_no_run {block : List Command} {c : Command} (h : c.run? = none) :
    Separate block [c] := by
  intro c' o most _ hnext hrun
  cases hnext
  rw [h] at hrun
  cases hrun

/-! ## One command -/

/-- What a command written at `p` can do: begin a block, or lengthen the last one. -/
inductive Assembly.Grows (a : Assembly) (c : Command) (p : Position) (a' : Assembly) : Prop
  | begins : a'.blocks = a.blocks ++ [[c]] → a'.locations = a.locations.push p →
      (∀ block ∈ a.blocks.getLast?, Separate block [c]) → Grows a c p a'
  | lengthens (init : List (List Command)) (count : Nat) :
      a.blocks = init ++ [List.replicate (count + 1) c] →
      a'.blocks = init ++ [List.replicate (count + 2) c] → a'.locations = a.locations →
      Grows a c p a'

theorem Assembly.blocks_emit (a : Assembly) {i : Instruction} {c : Command}
    (h : i.commands = [c]) (p : Position) : (a.emit i p).blocks = a.blocks ++ [[c]] := by
  simp [blocks, emit, h]

section
variable {a : Assembly} {n : Nest} {commands : List Command}

/-- The innermost pending loop is a jump in the code. -/
theorem Builds.pending_jump (h : Builds a n commands) {loop : Pending} {outer : List Pending}
    (hp : a.pending = loop :: outer) :
    ∃ before after target, a.instructions.toList = before ++ .jumpIfZero target :: after ∧
      loop.index = before.length := by
  obtain ⟨hcode, hpending, -, -⟩ := h
  rcases n with ⟨level, _ | ⟨⟨trees, target⟩, rest⟩⟩
  · simp [hp, Nest.openLoops] at hpending
  · obtain ⟨before, after, hlen, hsplit⟩ := Nest.layout_split level trees rest
    rw [hp, Nest.openLoops, List.map_cons, List.map_cons] at hpending
    obtain ⟨hindex, -⟩ := List.cons.inj hpending
    exact ⟨before, after, target, by rw [hcode, hsplit], by rw [hlen]; exact hindex⟩

theorem Builds.blocks_closeLoop (h : Builds a n commands) (hp : a.pending ≠ []) (p : Position) :
    (a.closeLoop p).blocks = a.blocks ++ [[.loopClose]] ∧
      (a.closeLoop p).locations = a.locations.push p := by
  cases hpend : a.pending with
  | nil => exact absurd hpend hp
  | cons loop outer =>
    obtain ⟨before, after, target, hcode, hindex⟩ := h.pending_jump hpend
    unfold Assembly.closeLoop
    rw [hpend]
    refine ⟨?_, rfl⟩
    simp [Assembly.blocks, Assembly.emit, hcode, hindex]

/-- A last instruction of a folded operation is a run of at least one command. -/
theorem Builds.last_run (h : Builds a n commands) {last : Instruction} {o : Opcode} {most : Nat}
    (hback : a.instructions.back? = some last) (ho : last.opcode? = some o)
    (hcap : o.capacity? = some most) :
    ∃ count, count + 1 ≤ most ∧ last = .of o (count + 1 : Nat) := by
  have hl : n.layout.getLast? = some last := by
    rw [← h.code, Array.getLast?_toList, hback]
  have hfilled : 1 ≤ last.operand :=
    h.filled last (List.mem_of_getLast? hl) (by simp [Instruction.capacity?, ho, hcap])
  obtain ⟨n', count, -, hle, rfl⟩ := Nest.last_run hl ho hcap
  simp only [Instruction.of] at hfilled
  obtain ⟨k, rfl⟩ : ∃ k, count = k + 1 := ⟨count - 1, by omega⟩
  exact ⟨k, hle, rfl⟩

theorem Assembly.blocks_of_back {last : Instruction} (h : a.instructions.back? = some last) :
    ∃ init, a.instructions.toList = init ++ [last] ∧
      a.blocks = init.map Instruction.commands ++ [last.commands] := by
  rw [← Array.getLast?_toList, List.getLast?_eq_some_iff] at h
  obtain ⟨init, hinit⟩ := h
  exact ⟨init, hinit, by simp [blocks, hinit]⟩

/-- A command that is folded begins a block only if it does not fit into the last one. -/
theorem Builds.grows_extend (h : Builds a n commands) {c : Command} {o : Opcode} {most : Nat}
    (hc : c.run? = some (o, most)) (p : Position) : a.Grows c p (a.extend o most p) := by
  obtain ⟨hcap, -⟩ := Command.capacity?_run hc
  have hnew := a.blocks_emit (Command.commands_run hc 1) p
  unfold Assembly.extend
  split
  · rename_i last hback
    obtain ⟨init, hinit, hblocks⟩ := Assembly.blocks_of_back hback
    split
    · rename_i hroom
      obtain ⟨count, -, rfl⟩ := h.last_run hback (Instruction.opcode?_of_code hroom.1) hcap
      refine .lengthens (init.map Instruction.commands) count ?_ ?_ rfl
      · rw [hblocks, Command.commands_run hc]
      · simp only [Assembly.blocks, Array.toList_push, Array.toList_pop, hinit,
          List.dropLast_concat, List.map_append, List.map_cons, List.map_nil]
        rw [← Command.commands_run hc]
        rfl
    · rename_i hfull
      refine .begins hnew rfl ?_
      intro block hblock c' o' most' hhead hnext hrun
      cases hnext
      rw [hc] at hrun
      cases hrun
      rw [hblocks, List.getLast?_concat] at hblock
      cases hblock
      obtain ⟨count, hle, rfl⟩ := h.last_run hback (Instruction.opcode?_of_head hhead hc) hcap
      rw [Command.commands_run hc, List.length_replicate]
      -- of the same operation and not lengthened, so there was no room
      have : ¬ ((count + 1 : Nat) : Int) < most := fun hlt => hfull ⟨rfl, hlt⟩
      omega
  · rename_i hback
    rw [← Array.getLast?_toList, List.getLast?_eq_none_iff] at hback
    exact .begins hnew rfl (by simp [Assembly.blocks, hback])

/-- **A command that is not rejected** begins a block or lengthens the last one. -/
theorem Builds.grows (h : Builds a n commands) {c : Command} (hr : a.rejects c = false)
    (p : Position) : a.Grows c p (a.add c p) := by
  cases hc : c.run? with
  | some run =>
    obtain ⟨o, most⟩ := run
    rw [a.add_run hc]
    exact h.grows_extend hc p
  | none =>
    have hsep : ∀ block ∈ a.blocks.getLast?, Separate block [c] :=
      fun _ _ => separate_of_no_run hc
    cases c with
    | output | input => exact .begins (a.blocks_emit rfl p) rfl hsep
    | loopOpen => exact .begins (Assembly.blocks_emit _ rfl p) rfl hsep
    | loopClose =>
      obtain ⟨hb, hl⟩ := h.blocks_closeLoop (by simpa [Assembly.rejects] using hr) p
      exact .begins hb hl hsep
    | increment | decrement | right | left => cases hc

end

/-! ## Whole texts -/

/-- The assembly has taken the commands at the sites `done` of `text`: its blocks spell them out,
each block has the position of its first command, and none had room for the next one. -/
structure Laid (text : Bytes) (a : Assembly) (done : List (Command × Nat)) : Prop where
  count : a.locations.size = a.blocks.length
  spelled : a.blocks.flatten = done.map (·.1)
  separate : a.blocks.IsChain Separate
  placed : ∀ k block, a.blocks[k]? = some block → ∃ c offset, block.head? = some c ∧
    done[(a.blocks.take k).flatten.length]? = some (c, offset) ∧
    a.locations[k]? = some (.ofOffset text offset)

theorem Laid.start (text : Bytes) : Laid text {} [] :=
  ⟨rfl, rfl, .nil, fun k block h => by simp [Assembly.blocks] at h⟩

section
variable {text : Bytes} {a a' : Assembly} {done : List (Command × Nat)} {c : Command}
  {offset : Nat}

/-- A new block is placed where its command was written. -/
theorem Laid.begin (h : Laid text a done) (hb : a'.blocks = a.blocks ++ [[c]])
    (hl : a'.locations = a.locations.push (.ofOffset text offset))
    (hs : ∀ block ∈ a.blocks.getLast?, Separate block [c]) :
    Laid text a' (done ++ [(c, offset)]) := by
  have hdone : a.blocks.flatten.length = done.length := by rw [h.spelled, List.length_map]
  refine ⟨by simp [hb, hl, h.count], by simp [hb, h.spelled], ?_, fun k block hk => ?_⟩
  · rw [hb, List.isChain_append]
    exact ⟨h.separate, .singleton _, fun block hblock next hnext => by
      cases hnext
      exact hs block hblock⟩
  · rw [hb] at hk ⊢
    rw [hl]
    rcases Nat.lt_trichotomy k a.blocks.length with hlt | rfl | hgt
    · rw [List.getElem?_append_left hlt] at hk
      obtain ⟨c', offset', hhead, hsite, hloc⟩ := h.placed k block hk
      refine ⟨c', offset', hhead, ?_, ?_⟩
      · rw [List.take_append_of_le_length (Nat.le_of_lt hlt),
          List.getElem?_append_left (List.getElem?_eq_some_iff.1 hsite).1, hsite]
      · rw [Array.getElem?_push_lt (by rw [h.count]; exact hlt), ← hloc,
          Array.getElem?_eq_getElem]
    · rw [List.getElem?_concat_length, Option.some.injEq] at hk
      refine ⟨c, offset, by rw [← hk]; rfl, ?_, ?_⟩
      · rw [List.take_left, hdone, List.getElem?_concat_length]
      · rw [← h.count, Array.getElem?_push_size]
    · rw [List.getElem?_eq_none (by simp; omega)] at hk
      cases hk

/-- A longer block stays where its first command was written. -/
theorem Laid.lengthen (h : Laid text a done) {init : List (List Command)} {count : Nat}
    (hold : a.blocks = init ++ [List.replicate (count + 1) c])
    (hnew : a'.blocks = init ++ [List.replicate (count + 2) c]) (hl : a'.locations = a.locations) :
    Laid text a' (done ++ [(c, offset)]) := by
  have hspelled := h.spelled
  have hchain := h.separate
  rw [hold] at hspelled hchain
  refine ⟨by rw [hl, h.count, hold, hnew]; simp, ?_, ?_, fun k block hk => ?_⟩
  · rw [List.map_append, ← hspelled, hnew, List.replicate_succ']
    simp
  · rw [hnew, List.isChain_append]
    rw [List.isChain_append] at hchain
    refine ⟨hchain.1, .singleton _, fun block hblock next hnext => ?_⟩
    cases hnext
    intro c' o most hhead hnext
    exact hchain.2.2 block hblock _ rfl c' o most hhead hnext
  · have hk' : k ≤ init.length := by
      have := (List.getElem?_eq_some_iff.1 hk).1
      rw [hnew] at this
      simpa using Nat.le_of_lt_succ (by simpa using this)
    -- the block had the same first command, and the blocks before it are the same
    obtain ⟨block', hk₀, hhead₀⟩ : ∃ block', a.blocks[k]? = some block' ∧
        block'.head? = block.head? := by
      rw [hnew] at hk
      rw [hold]
      rcases Nat.lt_or_eq_of_le hk' with hlt | rfl
      · rw [List.getElem?_append_left hlt] at hk ⊢
        exact ⟨block, hk, rfl⟩
      · rw [List.getElem?_concat_length, Option.some.injEq] at hk
        exact ⟨_, List.getElem?_concat_length, by rw [← hk]; rfl⟩
    obtain ⟨c', offset', hhead, hsite, hloc⟩ := h.placed k block' hk₀
    refine ⟨c', offset', by rw [← hhead₀, hhead], ?_, by rw [hl, hloc]⟩
    rw [hold, List.take_append_of_le_length hk'] at hsite
    rw [hnew, List.take_append_of_le_length hk',
      List.getElem?_append_left (List.getElem?_eq_some_iff.1 hsite).1, hsite]

theorem Laid.grow (h : Laid text a done) (hg : a.Grows c (.ofOffset text offset) a') :
    Laid text a' (done ++ [(c, offset)]) := by
  cases hg with
  | begins hb hl hs => exact h.begin hb hl hs
  | lengthens init count hold hnew hl => exact h.lengthen hold hnew hl

end

/-- Assembling sites keeps the assembly laid out, and ends it with an `END`. -/
theorem Laid.assembleSites {filename text : Bytes} {list done : List (Command × Nat)}
    {a a' : Assembly} {n : Nest} {p : Position} (h : Laid text a done)
    (hb : Builds a n (done.map (·.1)))
    (hok : Compiler.assembleSites filename text none a list = (a', .ok p)) :
    ∃ a₁ n₁, Builds a₁ n₁ ((done ++ list).map (·.1)) ∧ Laid text a₁ (done ++ list) ∧
      a' = a₁.emit .finish (.ofLast text) := by
  induction list generalizing a n done with
  | nil =>
    simp only [Compiler.assembleSites, Compiler.endAssembly] at hok
    split at hok
    · cases hok
    · cases hok
      exact ⟨a, n, by simpa using hb, by simpa using h, rfl⟩
  | cons site rest ih =>
    obtain ⟨c, k⟩ := site
    rw [Compiler.assembleSites] at hok
    split at hok
    · cases hok
    · rename_i hr
      have hr : a.rejects c = false := by simpa using hr
      obtain ⟨n', hb'⟩ := hb.add hr (.ofOffset text k)
      have hb' : Builds (a.add c (.ofOffset text k)) n' ((done ++ [(c, k)]).map (·.1)) := by
        simpa using hb'
      have := ih (h.grow (hb.grows hr _)) hb' hok
      simpa using this

/-- **Compiled code** is a laid-out assembly of the commands of the text, and an `END` at the
position of the last byte. -/
theorem compileBytes_laid {naming : Naming} {text : Bytes} {code : Code}
    (h : compileBytes naming text = .ok code) :
    ∃ a n, Builds a n (commandsOf text) ∧ Laid text a (sites text) ∧
      code.instructions = a.instructions.push .finish ∧
      code.locations = a.locations.push (.ofLast text) := by
  rw [compileBytes_eq] at h
  rcases hs : Compiler.assembleSites naming.filename text none {} (sites text) with ⟨a', r⟩
  rw [hs] at h
  cases r with
  | error e => cases h
  | ok p =>
    cases h
    obtain ⟨a, n, hb, hl, rfl⟩ := (Laid.start text).assembleSites Builds.start hs
    rw [List.nil_append, map_fst_sites] at hb
    exact ⟨a, n, hb, hl, rfl, rfl⟩

end Tapelang
