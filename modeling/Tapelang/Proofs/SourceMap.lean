import Tapelang.Proofs.Recompiling

/-!
# Source maps

Compiled code holds the program text but for its comments: the expansion of the instructions is the
commands of the text, and the source map says where in the text each instruction was begun.

* `sites_getElem?`: a site is the place of a command, and the commands before it are those of the
  sites before it.
* `compileBytes_recompile`: compiled code is compiled again from its expansion, so texts with the
  same commands give the same instructions.
* `compileBytes_sourceMap`: all of it.
-/

namespace Tapelang

/-! ## Commands and their bytes -/

/-- The bytes of a text that are commands, in order. -/
def commandBytes (text : Bytes) : Bytes := text.filter fun b => (Command.ofByte? b).isSome

theorem map_toByte_commandsOf (text : Bytes) :
    (commandsOf text).map Command.toByte = commandBytes text := by
  induction text with
  | nil => rfl
  | cons b rest ih =>
    rw [commandsOf, List.filterMap_cons, commandBytes, List.filter_cons]
    cases hb : Command.ofByte? b with
    | none => exact ih
    | some c =>
      simp only [Option.isSome_some, if_true, List.map_cons, Command.toByte_of_ofByte? hb]
      exact congrArg (b :: ·) ih

theorem commandsOf_commandBytes (text : Bytes) :
    commandsOf (commandBytes text) = commandsOf text := by
  rw [← map_toByte_commandsOf, commandsOf_map_toByte]

theorem sitesFrom_getElem? {text : Bytes} {k m : Nat} {c : Command} {offset : Nat}
    (h : (sitesFrom k text)[m]? = some (c, offset)) :
    ∃ d, offset = k + d ∧ text[d]? = some c.toByte ∧
      commandsOf (text.take d) = (commandsOf text).take m := by
  induction text generalizing k m with
  | nil => simp [sitesFrom] at h
  | cons b rest ih =>
    rw [sitesFrom] at h
    cases hb : Command.ofByte? b with
    | none =>
      simp only [hb] at h
      obtain ⟨d, rfl, hd, htake⟩ := ih h
      refine ⟨d + 1, by omega, hd, ?_⟩
      simpa [commandsOf, List.filterMap_cons, hb] using htake
    | some c' =>
      simp only [hb] at h
      cases m with
      | zero =>
        simp only [List.getElem?_cons_zero, Option.some.injEq, Prod.mk.injEq] at h
        obtain ⟨rfl, rfl⟩ := h
        exact ⟨0, rfl, by simp [Command.toByte_of_ofByte? hb], rfl⟩
      | succ m =>
        rw [List.getElem?_cons_succ] at h
        obtain ⟨d, rfl, hd, htake⟩ := ih h
        refine ⟨d + 1, by omega, hd, ?_⟩
        simpa [commandsOf, List.filterMap_cons, hb] using htake

/-- A site is the place of a command, behind the commands of the sites before it. -/
theorem sites_getElem? {text : Bytes} {m : Nat} {c : Command} {offset : Nat}
    (h : (sites text)[m]? = some (c, offset)) :
    text[offset]? = some c.toByte ∧
      commandsOf (text.take offset) = (commandsOf text).take m := by
  obtain ⟨d, rfl, hd, htake⟩ := sitesFrom_getElem? h
  rw [Nat.zero_add]
  exact ⟨hd, htake⟩

/-! ## Compiled code -/

theorem compileBytes_expand {naming : Naming} {text : Bytes} {code : Code}
    (h : compileBytes naming text = .ok code) :
    expand code.instructions.toList = commandsOf text := by
  obtain ⟨trees, hcode, hspelled, -⟩ := compileBytes_trees h
  rw [hcode, expand_append, hspelled]
  exact List.append_nil _

/-- Compiled code is compiled again from its own expansion. -/
theorem compileBytes_recompile {naming : Naming} {text : Bytes} {code : Code}
    (h : compileBytes naming text = .ok code) (naming' : Naming) :
    ∃ code', compileBytes naming' (expansion code.instructions.toList) = .ok code' ∧
      code'.instructions = code.instructions := by
  obtain ⟨trees, hcode, -, -⟩ := compileBytes_trees h
  have hv : ({ instructions := code.instructions.toList.toArray } : Code).IsValid :=
    Code.isValid_of_flattens (.inl rfl) (by simpa using hcode)
  obtain ⟨code', hc, hi⟩ := compileBytes_expansion naming' hv (compileBytes_isFolded h)
  refine ⟨code', hc, ?_⟩
  rw [← Array.toList_inj, hi, hcode, List.map_append, LoopTree.map_shown_flattenAll]
  rfl

theorem compileBytes_congr {naming naming' : Naming} {text text' : Bytes} {code code' : Code}
    (h : compileBytes naming text = .ok code) (h' : compileBytes naming' text' = .ok code')
    (hc : commandsOf text = commandsOf text') : code.instructions = code'.instructions := by
  obtain ⟨c, hc₁, hi₁⟩ := compileBytes_recompile h naming
  obtain ⟨c', hc₂, hi₂⟩ := compileBytes_recompile h' naming
  -- both are compiled again from the same expansion
  have he : expansion code.instructions.toList = expansion code'.instructions.toList := by
    rw [expansion, expansion, compileBytes_expand h, compileBytes_expand h', hc]
  rw [he, hc₂] at hc₁
  cases hc₁
  rw [← hi₁, hi₂]

theorem Code.locationAt_natCast {c : Code} {k : Nat} {p : Position} (h : c.locations[k]? = some p) :
    c.locationAt k = p := by
  rw [locationAt, if_neg (by omega), Int.toNat_natCast, h, Option.getD_some]

/-- The first command of an instruction, and where it stands in the text. -/
theorem compileBytes_place {naming : Naming} {text : Bytes} {code : Code}
    (h : compileBytes naming text = .ok code) {k : Nat} {i : Instruction}
    (hi : code.instructions[k]? = some i) :
    (k + 1 = code.size ∧ i = .finish ∧ code.locationAt k = .ofLast text) ∨
      ∃ offset c, i.commands.head? = some c ∧ text[offset]? = some c.toByte ∧
        commandsOf (text.take offset) = expand (code.instructions.toList.take k) ∧
        code.locationAt k = .ofOffset text offset := by
  obtain ⟨a, n, -, hl, hcode, hloc⟩ := compileBytes_laid h
  have hsize : a.locations.size = a.instructions.size := by rw [hl.count, a.length_blocks]
  rw [hcode] at hi
  rcases Nat.lt_trichotomy k a.instructions.size with hlt | rfl | hgt
  · rw [Array.getElem?_push_lt hlt] at hi
    have hblock : a.blocks[k]? = some i.commands := by
      rw [Assembly.blocks, List.getElem?_map, Array.getElem?_toList, Array.getElem?_eq_getElem hlt,
        hi]
      rfl
    obtain ⟨c, offset, hhead, hsite, hplace⟩ := hl.placed k _ hblock
    obtain ⟨hbyte, hbefore⟩ := sites_getElem? hsite
    refine .inr ⟨offset, c, hhead, hbyte, ?_, Code.locationAt_natCast ?_⟩
    · have htake : (a.blocks.take k).flatten = expand (code.instructions.toList.take k) := by
        rw [hcode, Array.toList_push,
          List.take_append_of_le_length (by simpa using Nat.le_of_lt hlt), Assembly.blocks,
          ← List.map_take, ← List.flatMap_def]
        rfl
      have hsplit : a.blocks.flatten = (a.blocks.take k).flatten ++ (a.blocks.drop k).flatten := by
        rw [← List.flatten_append, List.take_append_drop]
      rw [hbefore, ← map_fst_sites, ← hl.spelled, hsplit, List.take_left, htake]
    · rw [hloc, Array.getElem?_push_lt (by omega), ← hplace, Array.getElem?_eq_getElem]
  · rw [Array.getElem?_push_size, Option.some.injEq] at hi
    refine .inl ⟨by simp [Code.size, hcode], hi.symm, Code.locationAt_natCast ?_⟩
    rw [hloc, ← hsize, Array.getElem?_push_size]
  · rw [Array.getElem?_eq_none (by simp; omega)] at hi
    cases hi

/-- **Compiled code and its source map determine the text**, comments apart. The expansion of the
instructions is the command bytes of the text. Every instruction but the `END` has the position of
the byte that its first command was written with: the commands before that byte are the expansion
of the instructions before. The `END` has the position of the last byte. So two texts compile to
the same instructions exactly if they have the same command bytes. -/
theorem compileBytes_sourceMap {naming : Naming} {text : Bytes} {code : Code}
    (h : compileBytes naming text = .ok code) :
    expansion code.instructions.toList = commandBytes text ∧
    (∀ (k : Nat) (i : Instruction), code.instructions[k]? = some i → i.opcode? ≠ some .finish →
      ∃ offset c, i.commands.head? = some c ∧ text[offset]? = some c.toByte ∧
        commandBytes (text.take offset) = expansion (code.instructions.toList.take k) ∧
        code.locationAt k = .ofOffset text offset) ∧
    (code.instructions.back? = some .finish ∧
      code.locationAt (code.size - 1 : Nat) = .ofLast text) ∧
    ∀ (naming' : Naming) (text' : Bytes) (code' : Code), compileBytes naming' text' = .ok code' →
      (code.instructions = code'.instructions ↔ commandBytes text = commandBytes text') := by
  have hexp : ∀ {naming text code}, compileBytes naming text = .ok code →
      expansion code.instructions.toList = commandBytes text := by
    intro naming text code h
    rw [expansion, compileBytes_expand h, map_toByte_commandsOf]
  refine ⟨hexp h, fun k i hi hne => ?_, ?_,
    fun naming' text' code' h' => ⟨fun he => ?_, fun he => ?_⟩⟩
  · rcases compileBytes_place h hi with ⟨-, rfl, -⟩ | ⟨offset, c, hhead, hbyte, hbefore, hplace⟩
    · exact absurd rfl hne
    · refine ⟨offset, c, hhead, hbyte, ?_, hplace⟩
      rw [← map_toByte_commandsOf, hbefore, expansion]
  · obtain ⟨a, n, -, hl, hcode, hloc⟩ := compileBytes_laid h
    refine ⟨by rw [hcode, Array.back?_push], Code.locationAt_natCast ?_⟩
    rw [hloc, Code.size, hcode, Array.size_push, Nat.add_sub_cancel, ← a.length_blocks, ← hl.count,
      Array.getElem?_push_size]
  · rw [← hexp h, ← hexp h', he]
  · refine compileBytes_congr h h' ?_
    rw [← commandsOf_commandBytes text, he, commandsOf_commandBytes]

/-- Two commands around a comment, and one on the next line. -/
theorem compileBytes_sourceMap_lines : ∃ code, compileBytes {} (utf8 "+ +\n.") = .ok code ∧
    expansion code.instructions.toList = utf8 "++." ∧
    code.locationAt (code.size - 1 : Nat) = ⟨2, 1⟩ := by
  obtain ⟨code, hc⟩ : ∃ code, compileBytes {} (utf8 "+ +\n.") = .ok code := by
    rw [compileBytes_eq]
    exact ⟨_, rfl⟩
  obtain ⟨hexp, -, ⟨-, hlast⟩, -⟩ := compileBytes_sourceMap hc
  exact ⟨code, hc, hexp.trans (by decide), hlast.trans (by decide)⟩

end Tapelang
