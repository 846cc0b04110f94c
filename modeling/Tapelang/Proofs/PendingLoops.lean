import Mathlib.Data.List.Sort
import Tapelang.Proofs.BracketMatching
import Tapelang.Proofs.Instructions

/-!
# Pending loops

While a text is compiled, the code under construction has jumps without a target. These are exactly
the jumps of the pending loops, and the pending loops are exactly the `[` that have no `]` yet.

* `OpenAtEnd.unclosedIn_eq`: the loops that a text is inside of at its end, by counting brackets.
* `Stacked.add`: each command keeps them the pending loops, in the same order.
* `Bracketed.add`: each command keeps the jumps of the pending loops without a target, and all other
  jumps in nested pairs that lead to each other.
* `Compiler.compile_bracketed`: so it is after every command of a compilation, and code that is
  given out has no jump without a target.
-/

namespace Tapelang

/-! ## Brackets that have no partner yet -/

instance (text : Bytes) (k : Nat) : Decidable (IsUnclosed text k) :=
  inferInstanceAs (Decidable (text[k]? = some Command.loopOpen.toByte ∧
    ∀ j, k + 1 ≤ j → j ≤ text.length → depthAt text k < depthAt text j))

/-- The offsets of the `[` of a text that have no `]`, in order. -/
def unclosedIn (text : Bytes) : List Nat :=
  (List.range text.length).filter fun k => IsUnclosed text k

/-- At its end a text is inside the loops that began at `marks`, the innermost first. -/
structure OpenAtEnd (text : Bytes) (marks : List Nat) : Prop where
  depth : depthAt text text.length = marks.length
  positive : ∀ j ≤ text.length, 0 ≤ depthAt text j
  opened : OpenLoops text text.length marks

section
variable {text : Bytes} {marks : List Nat}

theorem OpenLoops.append {k : Nat} (h : OpenLoops text k marks) (hk : k ≤ text.length)
    (more : Bytes) : OpenLoops (text ++ more) k marks := by
  induction marks with
  | nil => trivial
  | cons o outer ih =>
    obtain ⟨hbyte, hdepth, hin, houter⟩ := h
    have ho := (List.getElem?_eq_some_iff.1 hbyte).1
    refine ⟨by rw [List.getElem?_append_left ho, hbyte], ?_, ?_, ih houter⟩
    · rw [depthAt_append_left more (Nat.le_of_lt ho), hdepth]
    · intro j hoj hj
      rw [depthAt_append_left more (Nat.le_trans hj hk)]
      exact hin j hoj hj

theorem OpenLoops.mark_lt {k : Nat} (h : OpenLoops text k marks) {m : Nat} (hm : m ∈ marks) :
    m < text.length ∧ depthAt text m < marks.length := by
  induction marks with
  | nil => cases hm
  | cons o outer ih =>
    obtain ⟨hbyte, hdepth, -, houter⟩ := h
    rw [List.length_cons]
    rcases List.mem_cons.1 hm with rfl | hm
    · exact ⟨(List.getElem?_eq_some_iff.1 hbyte).1, by omega⟩
    · have := ih houter hm
      exact ⟨this.1, by omega⟩

theorem OpenLoops.pairwise (h : OpenLoops text text.length marks) : marks.Pairwise (· > ·) := by
  induction marks with
  | nil => exact .nil
  | cons o outer ih =>
    obtain ⟨-, hdepth, hin, houter⟩ := h
    refine List.pairwise_cons.2 ⟨fun m hm => ?_, ih houter⟩
    -- an outer loop that began later would be too deep
    obtain ⟨hlt, hm⟩ := houter.mark_lt hm
    rcases Nat.lt_trichotomy m o with h | rfl | h
    · exact h
    · omega
    · have := hin m h (Nat.le_of_lt hlt)
      omega

theorem OpenLoops.isUnclosed (h : OpenLoops text text.length marks) {m : Nat} (hm : m ∈ marks) :
    IsUnclosed text m := by
  induction marks with
  | nil => cases hm
  | cons o outer ih =>
    obtain ⟨hbyte, hdepth, hin, houter⟩ := h
    rcases List.mem_cons.1 hm with rfl | hm
    · exact ⟨hbyte, fun j hj hle => by rw [hdepth]; exact hin j hj hle⟩
    · exact ih houter hm

/-- Of the loops that are open at the end, one began at each depth. -/
theorem OpenLoops.mem_of_isUnclosed (h : OpenLoops text text.length marks) {m : Nat}
    (hu : IsUnclosed text m) (hpos : 0 ≤ depthAt text m) (hlt : depthAt text m < marks.length) :
    m ∈ marks := by
  induction marks with
  | nil =>
    rw [List.length_nil] at hlt
    omega
  | cons o outer ih =>
    obtain ⟨hbyte, hdepth, hin, houter⟩ := h
    have hm := (List.getElem?_eq_some_iff.1 hu.1).1
    have ho := (List.getElem?_eq_some_iff.1 hbyte).1
    rw [List.length_cons] at hlt
    by_cases he : depthAt text m = outer.length
    · rcases Nat.lt_trichotomy m o with h | rfl | h
      · have := hu.2 o h (Nat.le_of_lt ho)
        omega
      · exact List.mem_cons_self
      · have := hin m h (Nat.le_of_lt hm)
        omega
    · exact List.mem_cons_of_mem _ (ih houter (by omega))

/-- **The loops that a text is inside of at its end** are its `[` without a `]`. -/
theorem OpenAtEnd.unclosedIn_eq (h : OpenAtEnd text marks) : unclosedIn text = marks.reverse := by
  have hsorted : (unclosedIn text).Pairwise (· < ·) := List.pairwise_lt_range.filter _
  refine hsorted.eq_of_mem_iff (List.pairwise_reverse.2 h.opened.pairwise) fun m => ?_
  rw [unclosedIn, List.mem_filter, List.mem_range, decide_eq_true_iff, List.mem_reverse]
  constructor
  · rintro ⟨hm, hu⟩
    have hend := hu.2 text.length hm (Nat.le_refl _)
    rw [h.depth] at hend
    exact h.opened.mem_of_isUnclosed hu (h.positive m (Nat.le_of_lt hm)) hend
  · intro hm
    exact ⟨(h.opened.mark_lt hm).1, h.opened.isUnclosed hm⟩

example : unclosedIn (utf8 "[+[-].[") = [0, 6] := by decide

/-! ## One more byte -/

theorem depthAt_concat (text : Bytes) (b : UInt8) :
    depthAt (text ++ [b]) (text.length + 1) = depthAt text text.length + bracketWeight b := by
  have hb : (text ++ [b]).drop text.length = b :: [] := by simp
  rw [depthAt_succ hb, depthAt_append_left [b] (Nat.le_refl _)]

theorem OpenAtEnd.start : OpenAtEnd [] [] := by
  refine ⟨rfl, fun j hj => ?_, trivial⟩
  obtain rfl : j = 0 := by simpa using hj
  exact Int.le_refl _

theorem OpenAtEnd.positive_concat (h : OpenAtEnd text marks) (b : UInt8)
    (hd : 0 ≤ depthAt (text ++ [b]) (text.length + 1)) :
    ∀ j ≤ (text ++ [b]).length, 0 ≤ depthAt (text ++ [b]) j := by
  intro j hj
  rw [List.length_append, List.length_singleton] at hj
  rcases Nat.lt_or_ge text.length j with hlt | hle
  · obtain rfl : j = text.length + 1 := by omega
    exact hd
  · rw [depthAt_append_left [b] hle]
    exact h.positive j hle

/-- Loops stay open behind a byte that leaves the text as deep as they are. -/
theorem OpenAtEnd.concat (h : OpenAtEnd text marks) (b : UInt8) {kept : List Nat}
    (hk : OpenLoops text text.length kept)
    (hd : depthAt text text.length + bracketWeight b = kept.length) :
    OpenAtEnd (text ++ [b]) kept := by
  have hdepth := depthAt_concat text b
  rw [hd] at hdepth
  have hlen : (text ++ [b]).length = text.length + 1 := by simp
  refine ⟨by rw [hlen, hdepth], h.positive_concat b (by omega), ?_⟩
  rw [hlen]
  exact (hk.append (Nat.le_refl _) [b]).succ (by omega)

theorem OpenAtEnd.concat_open (h : OpenAtEnd text marks) :
    OpenAtEnd (text ++ [Command.loopOpen.toByte]) (text.length :: marks) := by
  have hdepth := depthAt_concat text Command.loopOpen.toByte
  rw [bracketWeight_loopOpen, h.depth] at hdepth
  have hlen : (text ++ [Command.loopOpen.toByte]).length = text.length + 1 := by simp
  refine ⟨?_, h.positive_concat _ (by omega), ?_⟩
  · rw [hlen, hdepth, List.length_cons]
    omega
  · rw [hlen]
    refine ⟨List.getElem?_concat_length, ?_, ?_, ?_⟩
    · rw [depthAt_append_left _ (Nat.le_refl _), h.depth]
    · intro j hj hle
      obtain rfl : j = text.length + 1 := by omega
      omega
    · exact (h.opened.append (Nat.le_refl _) _).succ (by omega)

end

/-! ## Commands that have been taken -/

/-- The commands alone, as a text. -/
def spelling (taken : List (Command × Position)) : Bytes := taken.map (·.1.toByte)

theorem spelling_concat (taken : List (Command × Position)) (c : Command) (p : Position) :
    spelling (taken ++ [(c, p)]) = spelling taken ++ [c.toByte] := by
  simp [spelling]

/-- The pending loops are those that began with the commands at `marks`, which have no end among the
commands `taken`. -/
structure Stacked (taken : List (Command × Position)) (marks : List Nat) (a : Assembly) : Prop where
  opened : OpenAtEnd (spelling taken) marks
  pending : a.pending.map (fun loop => some (Command.loopOpen, loop.position)) =
    marks.map (taken[·]?)

section
variable {taken : List (Command × Position)} {marks : List Nat} {a : Assembly}

theorem Stacked.start : Stacked [] [] {} := ⟨OpenAtEnd.start, rfl⟩

/-- Commands that have been taken stay where they are. -/
theorem OpenAtEnd.map_getElem? (h : OpenAtEnd (spelling taken) marks)
    (more : List (Command × Position)) :
    marks.map ((taken ++ more)[·]?) = marks.map (taken[·]?) := by
  refine List.map_congr_left fun m hm => List.getElem?_append_left ?_
  simpa [spelling] using (h.opened.mark_lt hm).1

/-- **A command that is not rejected** keeps the pending loops those without an end. -/
theorem Stacked.add (h : Stacked taken marks a) {c : Command} (hr : a.rejects c = false)
    (p : Position) : ∃ marks', Stacked (taken ++ [(c, p)]) marks' (a.add c p) := by
  have hp := a.pending_add c p
  have hsame := h.opened.map_getElem? [(c, p)]
  have hmarks := congrArg List.length h.pending
  rw [List.length_map, List.length_map] at hmarks
  cases c with
  | loopOpen =>
    refine ⟨taken.length :: marks, ?_, ?_⟩
    · have hlen : (spelling taken).length = taken.length := by simp [spelling]
      rw [spelling_concat, ← hlen]
      exact h.opened.concat_open
    · rw [hp, List.map_cons, List.map_cons, hsame, h.pending, List.getElem?_concat_length]
  | loopClose =>
    cases marks with
    | nil =>
      have hnil : a.pending = [] := List.length_eq_zero_iff.1 hmarks
      simp [Assembly.rejects, hnil] at hr
    | cons m outer =>
      rw [List.map_cons, List.map_cons] at hsame
      refine ⟨outer, ?_, ?_⟩
      · rw [spelling_concat]
        refine h.opened.concat _ h.opened.opened.2.2.2 ?_
        rw [h.opened.depth, bracketWeight_loopClose, List.length_cons]
        omega
      · rw [hp, List.map_tail, h.pending, List.map_cons, List.tail_cons]
        exact (List.cons.inj hsame).2.symm
  | increment | decrement | right | left | output | input =>
    refine ⟨marks, ?_, by rw [hp, hsame, h.pending]⟩
    rw [spelling_concat]
    refine h.opened.concat _ h.opened.opened ?_
    rw [h.opened.depth, bracketWeight_of_ne (by decide) (by decide), Int.add_zero]

end

/-! ## Jumps -/

namespace Instruction

theorem jumpIfZero_inj {target target' : Int} :
    jumpIfZero target = jumpIfZero target' ↔ target = target' := by
  simp [jumpIfZero, of_inj]

theorem jump_inj {target target' : Int} : jump target = jump target' ↔ target = target' := by
  simp [jump, of_inj]

theorem jump_ne_jumpIfZero (target target' : Int) : jump target ≠ jumpIfZero target' := by
  simp [jump, jumpIfZero, of_inj]

end Instruction

/-- The jumps of a loop that lead to each other: the one at `i` behind the one at `j`, and that one
back to `i`. -/
structure Paired (code : Array Instruction) (i j : Nat) : Prop where
  before : i < j
  ahead : code[i]? = some (.jumpIfZero (j + 1 : Nat))
  back : code[j]? = some (.jump i)

/-- The jumps of the second code are those of the first, at the same places. -/
def SameJumps (code code' : Array Instruction) : Prop :=
  ∀ (k : Nat) (i : Instruction), i.kind = .target → (code'[k]? = some i ↔ code[k]? = some i)

section
variable {code code' : Array Instruction} {i j : Nat}

theorem Paired.existsUnique_end (h : Paired code i j) : ∃! j, Paired code i j := by
  refine ⟨j, h, fun j' h' => ?_⟩
  have := h'.ahead
  rw [h.ahead, Option.some.injEq, Instruction.jumpIfZero_inj] at this
  omega

theorem Paired.existsUnique_start (h : Paired code i j) : ∃! i, Paired code i j := by
  refine ⟨i, h, fun i' h' => ?_⟩
  have := h'.back
  rw [h.back, Option.some.injEq, Instruction.jump_inj] at this
  omega

theorem Paired.end_lt (h : Paired code i j) : j < code.size :=
  (Array.getElem?_eq_some_iff.1 h.back).1

theorem Paired.ne_zero (h : Paired code i j) : code[i]? ≠ some (.jumpIfZero 0) := by
  rw [h.ahead, Ne, Option.some.injEq, Instruction.jumpIfZero_inj]
  omega

theorem SameJumps.paired_iff (h : SameJumps code code') : Paired code' i j ↔ Paired code i j := by
  constructor
  · rintro ⟨hlt, ha, hb⟩
    exact ⟨hlt, (h _ _ rfl).1 ha, (h _ _ rfl).1 hb⟩
  · rintro ⟨hlt, ha, hb⟩
    exact ⟨hlt, (h _ _ rfl).2 ha, (h _ _ rfl).2 hb⟩

theorem SameJumps.trans {code'' : Array Instruction} (h : SameJumps code code')
    (h' : SameJumps code' code'') : SameJumps code code'' :=
  fun k i hi => (h' k i hi).trans (h k i hi)

theorem SameJumps.push {last : Instruction} (h : last.kind ≠ .target) :
    SameJumps code (code.push last) := by
  intro k i hi
  rw [Array.getElem?_push]
  split
  · rename_i hk
    subst hk
    rw [Array.getElem?_eq_none (Nat.le_refl _)]
    simp only [Option.some.injEq, reduceCtorEq, iff_false]
    rintro rfl
    exact h hi
  · exact Iff.rfl

theorem SameJumps.pop {last : Instruction} (hback : code.back? = some last)
    (h : last.kind ≠ .target) : SameJumps code code.pop := by
  intro k i hi
  rw [Array.getElem?_pop]
  split
  · exact Iff.rfl
  · simp only [reduceCtorEq, false_iff]
    intro hk
    -- the only index that `pop` removes is that of the last instruction
    have hlt := (Array.getElem?_eq_some_iff.1 hk).1
    obtain rfl : k = code.size - 1 := by omega
    rw [← Array.back?_eq_getElem?, hback, Option.some.injEq] at hk
    subst hk
    exact h hi

end

/-! ## Code under construction -/

/-- The pending loops are in the order of their jumps, which have no target yet and are located where
the `[` was written. All other jumps are in pairs that lead to each other, one pair inside or behind
the other, and no pending loop is inside a pair. -/
structure Bracketed (a : Assembly) : Prop where
  located : a.locations.size = a.instructions.size
  increasing : (a.pending.reverse.map (·.index)).Pairwise (· < ·)
  placeholder : ∀ loop ∈ a.pending, a.instructions[loop.index]? = some (.jumpIfZero 0) ∧
    a.locations[loop.index]? = some loop.position
  opened : ∀ (i : Nat) (target : Int), a.instructions[i]? = some (.jumpIfZero target) →
    i ∉ a.pending.map (·.index) → ∃! j, Paired a.instructions i j
  closed : ∀ (j : Nat) (target : Int), a.instructions[j]? = some (.jump target) →
    ∃! i, Paired a.instructions i j
  nested : ∀ i j i' j', Paired a.instructions i j → Paired a.instructions i' j' → i < i' →
    j < i' ∨ j' < j
  outside : ∀ loop ∈ a.pending, ∀ i j, Paired a.instructions i j →
    j < loop.index ∨ loop.index < i

theorem Bracketed.start : Bracketed {} := by
  constructor
  case located => rfl
  case increasing => exact .nil
  case placeholder =>
    intro loop hloop
    cases hloop
  case opened =>
    intro i target hi
    simp at hi
  case closed =>
    intro j target hj
    simp at hj
  case nested =>
    intro i j i' j' h
    exact absurd h.end_lt (Nat.not_lt_zero j)
  case outside =>
    intro loop hloop
    cases hloop

section
variable {a : Assembly}

theorem Bracketed.index_lt (h : Bracketed a) {loop : Pending} (hloop : loop ∈ a.pending) :
    loop.index < a.instructions.size :=
  (Array.getElem?_eq_some_iff.1 (h.placeholder loop hloop).1).1

/-- Nothing changes with instructions that are no jumps. -/
theorem Bracketed.sameJumps (h : Bracketed a) {a' : Assembly} (hp : a'.pending = a.pending)
    (hj : SameJumps a.instructions a'.instructions)
    (hl : a'.locations.size = a'.instructions.size)
    (hk : ∀ k < a.locations.size, a'.locations[k]? = a.locations[k]?) : Bracketed a' := by
  constructor
  case located => exact hl
  case increasing =>
    rw [hp]
    exact h.increasing
  case placeholder =>
    intro loop hloop
    rw [hp] at hloop
    obtain ⟨hcode, hplace⟩ := h.placeholder loop hloop
    refine ⟨(hj _ _ rfl).2 hcode, ?_⟩
    rw [hk _ (by rw [h.located]; exact h.index_lt hloop), hplace]
  case opened =>
    intro i target hi hne
    rw [hp] at hne
    obtain ⟨j, hpair, -⟩ := h.opened i target ((hj _ _ rfl).1 hi) hne
    exact (hj.paired_iff.2 hpair).existsUnique_end
  case closed =>
    intro j target hjump
    obtain ⟨i, hpair, -⟩ := h.closed j target ((hj _ _ rfl).1 hjump)
    exact (hj.paired_iff.2 hpair).existsUnique_start
  case nested =>
    intro i j i' j' hpair hpair'
    exact h.nested i j i' j' (hj.paired_iff.1 hpair) (hj.paired_iff.1 hpair')
  case outside =>
    intro loop hloop i j hpair
    rw [hp] at hloop
    exact h.outside loop hloop i j (hj.paired_iff.1 hpair)

theorem Bracketed.emit (h : Bracketed a) {i : Instruction} (hi : i.kind ≠ .target) (p : Position) :
    Bracketed (a.emit i p) := by
  refine h.sameJumps rfl (.push hi) ?_ fun k hk => ?_
  · simp [Assembly.emit, h.located]
  · simp [Assembly.emit, Array.getElem?_push, Nat.ne_of_lt hk]

theorem Bracketed.extend (h : Bracketed a) {o : Opcode} (ho : o.operandKind ≠ .target)
    (most : Nat) (p : Position) : Bracketed (a.extend o most p) := by
  have hkind : ∀ i : Instruction, i.code = o.toByte → i.kind ≠ .target := by
    intro i hi
    rw [Instruction.kind_of_opcode? (Instruction.opcode?_of_code hi)]
    exact ho
  have hnew : Bracketed (a.emit (.of o 1) p) := h.emit (hkind _ rfl) p
  unfold Assembly.extend
  split
  · rename_i last hback
    split
    · rename_i hroom
      refine h.sameJumps rfl ?_ ?_ fun _ _ => rfl
      · exact (SameJumps.pop hback (hkind last hroom.1)).trans (.push (hkind _ hroom.1))
      · have hpos : 0 < a.instructions.size := by
          rw [Array.back?_eq_getElem?] at hback
          have := (Array.getElem?_eq_some_iff.1 hback).1
          omega
        simp only [h.located, Array.size_push, Array.size_pop]
        omega
    · exact hnew
  · exact hnew

/-! ## Opening and closing -/

theorem paired_push_open {code : Array Instruction} {i j : Nat} :
    Paired (code.push (.jumpIfZero 0)) i j ↔ Paired code i j := by
  constructor
  · rintro ⟨hlt, ha, hb⟩
    rw [Array.getElem?_push] at ha hb
    -- the new jump has neither the target of a first jump nor the operation of a second one
    split at ha
    · rw [Option.some.injEq, Instruction.jumpIfZero_inj] at ha
      omega
    · split at hb
      · exact absurd (Option.some.inj hb).symm (Instruction.jump_ne_jumpIfZero _ _)
      · exact ⟨hlt, ha, hb⟩
  · intro h
    have hj := h.end_lt
    have hi := h.before
    exact ⟨hi, by rw [Array.getElem?_push, if_neg (by omega), h.ahead],
      by rw [Array.getElem?_push, if_neg (by omega), h.back]⟩

/-- A `[` adds a jump without a target inside all loops that are pending. -/
theorem Bracketed.openLoop (h : Bracketed a) (p : Position) : Bracketed (a.openLoop p) := by
  have hopen : a.openLoop p = ⟨a.instructions.push (.jumpIfZero 0), a.locations.push p,
      ⟨p, a.instructions.size⟩ :: a.pending⟩ := rfl
  rw [hopen]
  constructor
  case located => simp [h.located]
  case increasing =>
    rw [List.reverse_cons, List.map_append, List.pairwise_append]
    refine ⟨h.increasing, List.pairwise_singleton _ _, fun m hm n hn => ?_⟩
    obtain ⟨loop, hloop, rfl⟩ := List.mem_map.1 hm
    obtain rfl : n = a.instructions.size := by simpa using hn
    exact h.index_lt (List.mem_reverse.1 hloop)
  case placeholder =>
    intro loop hloop
    rcases List.mem_cons.1 hloop with rfl | hloop
    · rw [Array.getElem?_push_size, ← h.located, Array.getElem?_push_size]
      exact ⟨rfl, rfl⟩
    · have hlt := h.index_lt hloop
      rw [Array.getElem?_push, if_neg (by omega), Array.getElem?_push,
        if_neg (by rw [h.located]; omega)]
      exact h.placeholder loop hloop
  case opened =>
    intro i target hi hne
    rw [List.map_cons, List.mem_cons, not_or] at hne
    rw [Array.getElem?_push, if_neg hne.1] at hi
    obtain ⟨j, hpair, -⟩ := h.opened i target hi hne.2
    exact (paired_push_open.2 hpair).existsUnique_end
  case closed =>
    intro j target hj
    rw [Array.getElem?_push] at hj
    split at hj
    · exact absurd (Option.some.inj hj).symm (Instruction.jump_ne_jumpIfZero _ _)
    · obtain ⟨i, hpair, -⟩ := h.closed j target hj
      exact (paired_push_open.2 hpair).existsUnique_start
  case nested =>
    intro i j i' j' hpair hpair'
    exact h.nested i j i' j' (paired_push_open.1 hpair) (paired_push_open.1 hpair')
  case outside =>
    intro loop hloop i j hpair
    have hpair := paired_push_open.1 hpair
    rcases List.mem_cons.1 hloop with rfl | hloop
    · exact .inl hpair.end_lt
    · exact h.outside loop hloop i j hpair

/-- The code after a `]` that ends the loop at `start`. -/
def closedAt (code : Array Instruction) (start : Nat) : Array Instruction :=
  (code.setIfInBounds start (.jumpIfZero (code.size + 1 : Nat))).push (.jump start)

theorem getElem?_closedAt {code : Array Instruction} {start : Nat} (h : start < code.size)
    (k : Nat) :
    (closedAt code start)[k]? =
      if k = code.size then some (.jump start)
      else if k = start then some (.jumpIfZero (code.size + 1 : Nat)) else code[k]? := by
  rw [closedAt, Array.getElem?_push, Array.size_setIfInBounds, Array.getElem?_setIfInBounds]
  by_cases hk : k = start
  · subst hk
    simp [h]
  · simp [hk, Ne.symm hk]

/-- A `]` makes a pair of its own, and leaves the others as they are. -/
theorem paired_closedAt {code : Array Instruction} {start : Nat}
    (h : code[start]? = some (.jumpIfZero 0)) {i j : Nat} :
    Paired (closedAt code start) i j ↔ Paired code i j ∨ (i = start ∧ j = code.size) := by
  have hstart := (Array.getElem?_eq_some_iff.1 h).1
  constructor
  · rintro ⟨hlt, ha, hb⟩
    rw [getElem?_closedAt hstart] at ha hb
    split at ha
    · exact absurd (Option.some.inj ha) (Instruction.jump_ne_jumpIfZero _ _)
    · split at ha
      · rw [Option.some.injEq, Instruction.jumpIfZero_inj] at ha
        exact .inr ⟨‹_›, by omega⟩
      · split at hb
        · rw [Option.some.injEq, Instruction.jump_inj] at hb
          omega
        · split at hb
          · exact absurd (Option.some.inj hb).symm (Instruction.jump_ne_jumpIfZero _ _)
          · exact .inl ⟨hlt, ha, hb⟩
  · rintro (hpair | ⟨rfl, rfl⟩)
    · have hj := hpair.end_lt
      have hi := hpair.before
      -- a jump without a target is in no pair
      have hia : i ≠ start := by
        rintro rfl
        exact hpair.ne_zero h
      have hjb : j ≠ start := by
        rintro rfl
        have hb := hpair.back
        rw [h] at hb
        exact Instruction.jump_ne_jumpIfZero _ _ (Option.some.inj hb).symm
      refine ⟨hi, ?_, ?_⟩
      · rw [getElem?_closedAt hstart, if_neg (by omega), if_neg hia, hpair.ahead]
      · rw [getElem?_closedAt hstart, if_neg (by omega), if_neg hjb, hpair.back]
    · refine ⟨hstart, ?_, ?_⟩
      · rw [getElem?_closedAt hstart, if_neg (by omega), if_pos rfl]
      · rw [getElem?_closedAt hstart, if_pos rfl]

theorem Assembly.closeLoop_eq {loop : Pending} {outer : List Pending}
    (hp : a.pending = loop :: outer) (p : Position) :
    a.closeLoop p = ⟨closedAt a.instructions loop.index, a.locations.push p, outer⟩ := by
  rw [closeLoop, hp]
  rfl

theorem Bracketed.innermost (h : Bracketed a) {loop : Pending} {outer : List Pending}
    (hp : a.pending = loop :: outer) :
    (outer.reverse.map (·.index)).Pairwise (· < ·) ∧ ∀ other ∈ outer, other.index < loop.index := by
  have hincreasing := h.increasing
  rw [hp, List.reverse_cons, List.map_append, List.pairwise_append] at hincreasing
  refine ⟨hincreasing.1, fun other ho => ?_⟩
  exact hincreasing.2.2 _ (List.mem_map_of_mem (List.mem_reverse.2 ho)) _ (by simp)

/-- A `]` gives the jump of the innermost pending loop its target. -/
theorem Bracketed.closeLoop (h : Bracketed a) (hne : a.pending ≠ []) (p : Position) :
    Bracketed (a.closeLoop p) := by
  obtain ⟨loop, outer, hp⟩ := List.exists_cons_of_ne_nil hne
  obtain ⟨hincreasing, hlt⟩ := h.innermost hp
  have hmem : ∀ other, other ∈ a.pending ↔ other = loop ∨ other ∈ outer := by simp [hp]
  have hloop := (hmem loop).2 (.inl rfl)
  have hstart := h.index_lt hloop
  have hpaired : ∀ {i j}, Paired (closedAt a.instructions loop.index) i j ↔
      Paired a.instructions i j ∨ (i = loop.index ∧ j = a.instructions.size) :=
    paired_closedAt (h.placeholder loop hloop).1
  rw [Assembly.closeLoop_eq hp]
  constructor
  case located => simp [closedAt, h.located]
  case increasing => exact hincreasing
  case placeholder =>
    intro other ho
    have hother := hlt other ho
    rw [getElem?_closedAt hstart, if_neg (by omega), if_neg (by omega), Array.getElem?_push,
      if_neg (by rw [h.located]; omega)]
    exact h.placeholder other ((hmem other).2 (.inr ho))
  case opened =>
    intro i target hi hout
    rw [getElem?_closedAt hstart] at hi
    split at hi
    · exact absurd (Option.some.inj hi) (Instruction.jump_ne_jumpIfZero _ _)
    · split at hi
      · exact (hpaired.2 (.inr ⟨‹_›, rfl⟩)).existsUnique_end
      · rename_i hi'
        have hnot : i ∉ a.pending.map (·.index) := by
          rw [hp, List.map_cons, List.mem_cons, not_or]
          exact ⟨hi', hout⟩
        obtain ⟨j, hpair, -⟩ := h.opened i target hi hnot
        exact (hpaired.2 (.inl hpair)).existsUnique_end
  case closed =>
    intro j target hj
    rw [getElem?_closedAt hstart] at hj
    split at hj
    · exact (hpaired.2 (.inr ⟨rfl, ‹_›⟩)).existsUnique_start
    · split at hj
      · exact absurd (Option.some.inj hj).symm (Instruction.jump_ne_jumpIfZero _ _)
      · obtain ⟨i, hpair, -⟩ := h.closed j target hj
        exact (hpaired.2 (.inl hpair)).existsUnique_start
  case nested =>
    intro i j i' j' hpair hpair' hii'
    rcases hpaired.1 hpair with hpair | ⟨rfl, rfl⟩
    · rcases hpaired.1 hpair' with hpair' | ⟨rfl, rfl⟩
      · exact h.nested i j i' j' hpair hpair' hii'
      · -- the loop was pending, so the old pair is not around it
        have := h.outside loop hloop i j hpair
        omega
    · rcases hpaired.1 hpair' with hpair' | ⟨rfl, rfl⟩
      · exact .inr hpair'.end_lt
      · omega
  case outside =>
    intro other ho i j hpair
    rcases hpaired.1 hpair with hpair | ⟨rfl, rfl⟩
    · exact h.outside other ((hmem other).2 (.inr ho)) i j hpair
    · exact .inr (hlt other ho)

/-- **A command that is not rejected** keeps the brackets of the code in order. -/
theorem Bracketed.add (h : Bracketed a) {c : Command} (hr : a.rejects c = false) (p : Position) :
    Bracketed (a.add c p) := by
  cases c with
  | increment | decrement | right | left => exact h.extend (by decide) _ p
  | output | input => exact h.emit (by decide) p
  | loopOpen => exact h.openLoop p
  | loopClose => exact h.closeLoop (by simpa [Assembly.rejects] using hr) p

end

/-! ## Compilations -/

/-- Takes the command at a site of a text, unless it is rejected. -/
def Assembly.take? (text : Bytes) (a : Assembly) (site : Command × Nat) : Option Assembly :=
  if a.rejects site.1 then none else some (a.add site.1 (.ofOffset text site.2))

theorem Assembly.take?_eq_some {text : Bytes} {a a' : Assembly} {site : Command × Nat}
    (h : a.take? text site = some a') :
    a.rejects site.1 = false ∧ a.add site.1 (.ofOffset text site.2) = a' := by
  unfold take? at h
  split at h
  · cases h
  · rename_i hr
    exact ⟨by simpa using hr, Option.some.inj h⟩

namespace Compiler

/-- A compilation of the text at `source` has taken the commands `taken`, which are not rejected; they
have built `a`, and the text goes on at `c`. A run of commands is taken one by one, so that what it
has built as a whole is reached with its last command. -/
inductive Reached (source : Cursor) : List (Command × Position) → Assembly → Cursor → Prop
  | start : Reached source [] {} source
  | take {taken : List (Command × Position)} {a : Assembly} {c c' : Cursor} {command : Command}
      {p : Position} : Reached source taken a c → c.token = (⟨.command command, p⟩, c') →
      a.rejects command = false →
      Reached source (taken ++ [(command, p)]) (a.add command p) c'

section
variable {source c : Cursor} {taken : List (Command × Position)} {a : Assembly}

/-- From what has been reached the compilation goes on. -/
theorem Reached.assemble_eq (h : Reached source taken a c) (filename : Bytes) :
    assemble filename {} source = assemble filename a c := by
  induction h with
  | start => rfl
  | take _ htoken hr ih => rw [ih, assemble_command filename _ htoken, if_neg (by simp [hr])]

/-- A compilation that succeeds has reached the end of the text with no loop pending. -/
theorem Reached.of_ok {filename : Bytes} {a' : Assembly} {p : Position}
    (h : Reached source taken a c) (hok : assemble filename a c = (a', .ok p)) :
    ∃ taken' a₁ c₁, Reached source taken' a₁ c₁ ∧ c₁.token.1 = ⟨.ending, p⟩ ∧ a₁.pending = [] ∧
      a' = a₁.emit .finish p := by
  fun_induction assemble filename a c generalizing taken with
  | case1 a c command p c' htoken hr => cases hok
  | case2 a c command p c' htoken hr ih => exact ih (h.take htoken (by simpa using hr)) hok
  | case3 a c p c' htoken loop hout => cases hok
  | case4 a c p c' htoken hout =>
    cases hok
    exact ⟨taken, a, c, h, by rw [htoken], by simpa [Assembly.outermost?] using hout, rfl⟩
  | case5 a c why p c' htoken => cases hok

/-- Commands that are not rejected are taken one after the other. -/
theorem Reached.of_sites {text : Bytes} {fault : Option ReadFault} {k : Nat}
    {list rest : List (Command × Nat)} {a' : Assembly} (h : Reached source taken a c)
    (hat : c.At text fault k) (hs : sitesFrom k (text.drop k) = list ++ rest)
    (ha : list.foldlM (Assembly.take? text) a = some a') :
    ∃ c', Reached source (taken ++ list.map fun site => (site.1, .ofOffset text site.2)) a' c' := by
  induction list generalizing k c a taken with
  | nil =>
    cases ha
    exact ⟨c, by simpa using h⟩
  | cons site list ih =>
    obtain ⟨command, j⟩ := site
    obtain ⟨c₁, htoken, hat₁, hs₁⟩ := hat.token_site hs
    obtain ⟨a₁, htake, ha₁⟩ := Option.bind_eq_some_iff.1 ha
    obtain ⟨hr, rfl⟩ := Assembly.take?_eq_some htake
    obtain ⟨c', h'⟩ := ih (h.take htoken hr) hat₁ hs₁ ha₁
    exact ⟨c', by simpa using h'⟩

theorem Reached.stacked (h : Reached source taken a c) : ∃ marks, Stacked taken marks a := by
  induction h with
  | start => exact ⟨[], .start⟩
  | take _ _ hr ih =>
    obtain ⟨marks, hm⟩ := ih
    exact hm.add hr _

theorem Reached.bracketed (h : Reached source taken a c) : Bracketed a := by
  induction h with
  | start => exact .start
  | take _ _ hr ih => exact ih.add hr _

theorem Reached.pending_eq (h : Reached source taken a c) :
    a.pending.reverse.map (fun loop => some (Command.loopOpen, loop.position)) =
      (unclosedIn (spelling taken)).map (taken[·]?) := by
  obtain ⟨marks, hm⟩ := h.stacked
  rw [List.map_reverse, hm.pending, hm.opened.unclosedIn_eq, List.map_reverse]

end

/-- **The brackets of a text while it is compiled.** After every command that a compilation has taken,
the pending loops are, from the outermost to the innermost, the `[` that have no `]` among the
commands so far, with their positions, and the code under construction is bracketed accordingly.
Code that is given out is built from all commands up to the end of the text, with no loop pending, so
it has no jump without a target. -/
theorem compile_bracketed (source : Cursor) :
    (∀ taken a c, Reached source taken a c →
      (∀ filename, assemble filename {} source = assemble filename a c) ∧
      a.pending.reverse.map (fun loop => some (Command.loopOpen, loop.position)) =
        (unclosedIn (spelling taken)).map (taken[·]?) ∧
      Bracketed a) ∧
    ∀ (k : Compiler) (code : Code), (k.compile source).1 = .ok code →
      (∃ taken a c p, Reached source taken a c ∧ c.token.1 = ⟨.ending, p⟩ ∧ a.pending = [] ∧
        code.instructions = a.instructions.push .finish ∧
        code.locations = a.locations.push p) ∧
      ∀ i : Nat, code.instructions[i]? ≠ some (.jumpIfZero 0) := by
  refine ⟨fun taken a c h => ⟨h.assemble_eq, h.pending_eq, h.bracketed⟩, fun k code hok => ?_⟩
  obtain ⟨a', p, hassemble, rfl⟩ := compile_ok hok
  obtain ⟨taken, a, c, h, hend, hnone, rfl⟩ := Reached.start.of_ok hassemble
  refine ⟨⟨taken, a, c, p, h, hend, hnone, rfl, rfl⟩, fun i hi => ?_⟩
  have hfinished : Bracketed (a.emit .finish p) := h.bracketed.emit (by decide) p
  have hnot : i ∉ (a.emit .finish p).pending.map (·.index) := by simp [Assembly.emit, hnone]
  obtain ⟨j, hpair, -⟩ := hfinished.opened i 0 hi hnot
  exact hpair.ne_zero hi

/-- Two loops are pending, the one inside the other, and a third one between them has its end. -/
theorem compile_bracketed_nested : ∃ taken a c,
    Reached (.ofFeed (.ofBytes (utf8 "[\n[-]["))) taken a c ∧
      a.instructions = #[.jumpIfZero 0, .jumpIfZero 4, .subByte 1, .jump 1, .jumpIfZero 0] ∧
      a.pending.reverse.map (fun loop => some (Command.loopOpen, loop.position)) =
        [some (.loopOpen, ⟨1, 1⟩), some (.loopOpen, ⟨2, 4⟩)] ∧
      Bracketed a := by
  let text := utf8 "[\n[-]["
  have hat : (Cursor.ofFeed (.ofBytes text)).At text none 0 := by
    have h := Cursor.At.ofFeed (.ofBytes text)
    rwa [Feed.lead_ofBytes] at h
  obtain ⟨a, ha⟩ : ∃ a, (sites text).foldlM (Assembly.take? text) {} = some a := ⟨_, rfl⟩
  have hs : sitesFrom 0 (text.drop 0) = sites text ++ [] := (List.append_nil _).symm
  obtain ⟨c, h⟩ := Reached.start.of_sites hat hs ha
  obtain ⟨-, hpending, hbracketed⟩ := (compile_bracketed _).1 _ _ _ h
  refine ⟨_, a, c, h, ?_, hpending.trans (by decide), hbracketed⟩
  cases ha
  rfl

end Compiler

end Tapelang
