import Mathlib.Algebra.BigOperators.Group.List.Basic
import Mathlib.Algebra.Ring.Int.Defs
import Tapelang.Code.Statistics
import Tapelang.Proofs.BracketMatching
import Tapelang.Proofs.SafeRuns
import Tapelang.Proofs.SourceMap

/-!
# Statistics

The statistics of code are counted instruction by instruction, with a counter for the depth. What the
counter shows is a sum of weights: 1 for the first instruction of a loop, -1 for the last one. Brackets
of a text have the same weights, and compiling keeps those that are not 0.

* `Tally.Counts.add`: a tally counts names.
* `StatisticsWalk.Covers.add`: what is known of a walk after one more instruction.
* `LoopTree.flattenAll_isHill`: the weights of loop trees never fall below 0, and their peak is the
  height of the trees.
* `compileBytes_weights`: a text and its code have the same weights.
* `statistics_describe`: what the statistics say of a text, and of valid code.
-/

namespace Tapelang

/-! ## Counts by name -/

theorem Bytes.le_iff {a b : Bytes} : Bytes.le a b = true ↔ a ≤ b := by
  induction a generalizing b with
  | nil => simp [Bytes.le]
  | cons x as ih =>
    cases b with
    | nil => simp [Bytes.le]
    | cons y bs => simp [Bytes.le, ih, List.cons_le_cons_iff]

namespace Tally

/-- Every name comes before the next one. -/
def IsOrdered (t : Tally) : Prop := t.Pairwise fun a b => a.1 < b.1

/-- The tally holds how often each name stands in `names`, and nothing else. -/
structure Counts (t : Tally) (names : List Bytes) : Prop where
  ordered : t.IsOrdered
  lookup : ∀ x, t.lookup x = if names.count x = 0 then none else some (names.count x)
  total : t.total = names.length

variable {t : Tally} {name : Bytes}

/-- Where a name goes, by its order and the first known one's. -/
theorem add_cons (name known : Bytes) (n : Nat) (rest : Tally) :
    (known = name ∧ add name ((known, n) :: rest) = (known, n + 1) :: rest) ∨
    (name < known ∧ add name ((known, n) :: rest) = (name, 1) :: (known, n) :: rest) ∨
    (known < name ∧ add name ((known, n) :: rest) = (known, n) :: add name rest) := by
  rw [add]
  by_cases heq : known = name
  · exact .inl ⟨heq, if_pos heq⟩
  · by_cases hle : Bytes.le name known = true
    · refine .inr (.inl ⟨?_, by rw [if_neg heq, if_pos hle]⟩)
      exact List.not_le.1 fun hge => heq (List.le_antisymm hge (Bytes.le_iff.1 hle))
    · refine .inr (.inr ⟨?_, by rw [if_neg heq, if_neg hle]⟩)
      rw [Bytes.le_iff] at hle
      exact List.not_le.1 hle

theorem total_add (t : Tally) (name : Bytes) : (t.add name).total = t.total + 1 := by
  induction t with
  | nil => rfl
  | cons entry rest ih =>
    unfold total at ih ⊢
    rcases add_cons name entry.1 entry.2 rest with ⟨-, h⟩ | ⟨-, h⟩ | ⟨-, h⟩ <;>
      simp only [h, List.foldr_cons] <;> omega

theorem lt_of_mem_add {least : Bytes} (hname : least < name) (ht : ∀ e ∈ t, least < e.1) :
    ∀ e ∈ t.add name, least < e.1 := by
  induction t with
  | nil => simpa [add] using hname
  | cons entry rest ih =>
    rw [List.forall_mem_cons] at ht
    rcases add_cons name entry.1 entry.2 rest with ⟨-, h⟩ | ⟨-, h⟩ | ⟨-, h⟩
    · simpa [h] using ht
    · simpa [h, hname] using ht
    · rw [h, List.forall_mem_cons]
      exact ⟨ht.1, ih ht.2⟩

theorem IsOrdered.add (h : t.IsOrdered) (name : Bytes) : (t.add name).IsOrdered := by
  induction t with
  | nil => exact List.pairwise_singleton _ _
  | cons entry rest ih =>
    unfold IsOrdered at *
    obtain ⟨hfirst, hrest⟩ := List.pairwise_cons.1 h
    rcases add_cons name entry.1 entry.2 rest with ⟨-, h'⟩ | ⟨hlt, h'⟩ | ⟨hlt, h'⟩ <;> rw [h']
    · exact List.pairwise_cons.2 ⟨hfirst, hrest⟩
    · refine List.pairwise_cons.2 ⟨?_, h⟩
      rw [List.forall_mem_cons]
      exact ⟨hlt, fun e he => List.lt_trans hlt (hfirst e he)⟩
    · exact List.pairwise_cons.2 ⟨lt_of_mem_add hlt hfirst, ih hrest⟩

theorem lookup_cons (known x : Bytes) (n : Nat) (rest : Tally) :
    List.lookup x ((known, n) :: rest) = if x = known then some n else rest.lookup x := by
  by_cases h : x = known
  · simp [h]
  · simp [List.lookup_cons, h, beq_false_of_ne h]

theorem lookup_eq_none (h : ∀ e ∈ t, name < e.1) : t.lookup name = none := by
  induction t with
  | nil => rfl
  | cons entry rest ih =>
    rw [List.forall_mem_cons] at h
    rw [lookup_cons, if_neg, ih h.2]
    rintro rfl
    exact List.lt_irrefl _ h.1

theorem lookup_add (h : t.IsOrdered) (name x : Bytes) :
    (t.add name).lookup x =
      if x = name then some ((t.lookup name).getD 0 + 1) else t.lookup x := by
  induction t with
  | nil => simp [add, lookup_cons]
  | cons entry rest ih =>
    obtain ⟨known, n⟩ := entry
    obtain ⟨hfirst, hrest⟩ := List.pairwise_cons.1 h
    rcases add_cons name known n rest with ⟨rfl, h'⟩ | ⟨hlt, h'⟩ | ⟨hlt, h'⟩
    · simp only [h', lookup_cons, if_true, Option.getD_some]
      split <;> rfl
    · have hnone : List.lookup name ((known, n) :: rest) = none := by
        apply lookup_eq_none
        rw [List.forall_mem_cons]
        exact ⟨hlt, fun e he => List.lt_trans hlt (hfirst e he)⟩
      rw [h', lookup_cons, hnone]
      rfl
    · have hne : name ≠ known := by
        rintro rfl
        exact List.lt_irrefl _ hlt
      simp only [h', lookup_cons, ih hrest, if_neg hne]
      by_cases hx : x = known
      · simp [hx, hne.symm]
      · simp [hx]

theorem Counts.add {names : List Bytes} (h : t.Counts names) (name : Bytes) :
    (t.add name).Counts (names ++ [name]) := by
  refine ⟨h.ordered.add name, ?_, ?_⟩
  · intro x
    have hcount : (t.lookup name).getD 0 = names.count name := by
      rw [h.lookup]
      split
      · rename_i hzero
        rw [hzero]
        rfl
      · rfl
    rw [lookup_add h.ordered, hcount, h.lookup, List.count_append, List.count_singleton]
    by_cases hx : x = name
    · simp [hx]
    · have hbeq : (name == x) = false := by simpa using Ne.symm hx
      simp [hx, hbeq]
  · rw [total_add, h.total, List.length_append, List.length_singleton]

end Tally

/-! ## Sums of weights -/

/-- The largest of the sums of a list's first numbers. -/
def peak : List Int → Int
  | [] => 0
  | w :: ws => max 0 (w + peak ws)

section

variable (us vs ws : List Int)

theorem peak_nonneg : 0 ≤ peak ws := by
  cases ws with
  | nil => exact Int.le_refl 0
  | cons w ws => exact Int.le_max_left _ _

theorem sum_le_peak : ws.sum ≤ peak ws := by
  induction ws with
  | nil => exact Int.le_refl 0
  | cons w ws ih =>
    rw [List.sum_cons, peak]
    omega

theorem peak_append : peak (us ++ vs) = max (peak us) (us.sum + peak vs) := by
  have hpos := peak_nonneg vs
  induction us with
  | nil =>
    rw [List.nil_append, peak, List.sum_nil]
    omega
  | cons u us ih =>
    rw [List.cons_append, peak, peak, ih, List.sum_cons]
    omega

theorem peak_concat (w : Int) : peak (ws ++ [w]) = max (peak ws) (ws.sum + w) := by
  have hsum := sum_le_peak ws
  rw [peak_append, peak, peak]
  omega

theorem peak_filter : peak (ws.filter (· ≠ 0)) = peak ws := by
  induction ws with
  | nil => rfl
  | cons w ws ih =>
    have hpos := peak_nonneg ws
    by_cases hw : w = 0
    · rw [List.filter_cons_of_neg (by simpa using hw), ih, peak, hw]
      omega
    · rw [List.filter_cons_of_pos (by simpa using hw), peak, ih, peak]

theorem peak_eq_foldl : peak ws =
    ((List.range (ws.length + 1)).map fun k => (ws.take k).sum).foldl max 0 := by
  induction ws using List.reverseRecOn with
  | nil => rfl
  | append_singleton ws w ih =>
    have hshort : (List.range (ws.length + 1)).map (fun k => ((ws ++ [w]).take k).sum) =
        (List.range (ws.length + 1)).map fun k => (ws.take k).sum := by
      apply List.map_congr_left
      intro k hk
      rw [List.take_append_of_le_length (Nat.le_of_lt_succ (List.mem_range.1 hk))]
    rw [peak_concat, List.length_append, List.length_singleton, List.range_succ, List.map_append,
      List.foldl_append, hshort, ← ih]
    simp

end

/-- Weights that never fall below 0 and come back to it. -/
structure IsHill (ws : List Int) (height : Int) : Prop where
  nonneg : ∀ k, 0 ≤ (ws.take k).sum
  sum : ws.sum = 0
  peak : peak ws = height

namespace IsHill

variable {us vs : List Int} {a b : Int}

theorem nil : IsHill [] 0 := ⟨by simp, rfl, rfl⟩

theorem flat : IsHill [0] 0 := ⟨fun k => by cases k <;> simp, rfl, rfl⟩

theorem append (hu : IsHill us a) (hv : IsHill vs b) : IsHill (us ++ vs) (max a b) := by
  refine ⟨fun k => ?_, ?_, ?_⟩
  · have hnu := hu.nonneg k
    have hnv := hv.nonneg (k - us.length)
    rw [List.take_append, List.sum_append]
    omega
  · rw [List.sum_append, hu.sum, hv.sum, Int.add_zero]
  · rw [peak_append, hu.sum, Int.zero_add, hu.peak, hv.peak]

theorem loop (hu : IsHill us a) : IsHill (1 :: (us ++ [-1])) (a + 1) := by
  have hdown : ∀ k, -1 ≤ (([-1] : List Int).take k).sum := by
    intro k
    cases k <;> simp
  refine ⟨fun k => ?_, ?_, ?_⟩
  · cases k with
    | zero => simp
    | succ k =>
      have hnu := hu.nonneg k
      have hlast := hdown (k - us.length)
      rw [List.take_succ_cons, List.sum_cons, List.take_append, List.sum_append]
      omega
  · simp [hu.sum]
  · have hpos := peak_nonneg us
    rw [Tapelang.peak, peak_concat, hu.sum, ← hu.peak]
    omega

end IsHill

/-! ## Instructions and trees -/

namespace Instruction

/-- What an instruction adds to the number of open loops. -/
def weight (i : Instruction) : Int :=
  match i.opcode? with
  | some .jumpIfZero => 1
  | some .jump => -1
  | _ => 0

theorem weight_eq_one_iff {i : Instruction} : i.weight = 1 ↔ i.opcode? = some .jumpIfZero := by
  unfold weight
  split <;> simp_all

theorem weight_eq_neg_one_iff {i : Instruction} : i.weight = -1 ↔ i.opcode? = some .jump := by
  unfold weight
  split <;> simp_all

theorem weight_eq_zero {i : Instruction} (ho : i.opcode? ≠ some .jumpIfZero)
    (hj : i.opcode? ≠ some .jump) : i.weight = 0 := by
  unfold weight
  split <;> simp_all

theorem name_of_opcode? {i : Instruction} {o : Opcode} (h : i.opcode? = some o) :
    i.name = o.name := by
  unfold opcode? at h
  simp [name, opcodeName, h]

theorem name_eq_iff {i : Instruction} {o : Opcode} : i.name = o.name ↔ i.opcode? = some o := by
  refine ⟨fun h => ?_, name_of_opcode?⟩
  cases ho : i.opcode? with
  | none =>
    unfold opcode? at ho
    have hname : o.name = utf8 "INVALID" := by simpa [name, opcodeName, ho] using h.symm
    cases o <;> exact absurd hname (by decide)
  | some o' =>
    rw [name_of_opcode? ho] at h
    have hsame := congrArg Opcode.ofName? h
    rwa [Opcode.ofName?_name, Opcode.ofName?_name] at hsame

end Instruction

namespace LoopTree

mutual

theorem flatten_isHill : ∀ (tree : LoopTree) (index : Nat),
    IsHill ((flatten index tree).map Instruction.weight) tree.height
  | loop body, index => by
    rw [flatten_loop, height, List.map_cons, List.map_append]
    exact (flattenAll_isHill body (index + 1)).loop
  | addByte _, _ | subByte _, _ | addPointer _, _ | subPointer _, _ | write, _ | read, _ => .flat

/-- **The weights of loop trees** go up as high as the trees nest. -/
theorem flattenAll_isHill : ∀ (trees : List LoopTree) (index : Nat),
    IsHill ((flattenAll index trees).map Instruction.weight) (heightAll trees)
  | [], _ => .nil
  | tree :: rest, index => by
    have hmax : ((max tree.height (heightAll rest) : Nat) : Int) =
        max (tree.height : Int) (heightAll rest) := by omega
    rw [flattenAll_cons, List.map_append, heightAll, hmax]
    exact (flatten_isHill tree index).append (flattenAll_isHill rest _)

end

/-- Every instruction of loop trees has an operation, and it is no `END`. -/
theorem opcode?_of_mem {trees : List LoopTree} {i : Instruction} (h : i ∈ flattenAll 0 trees) :
    ∃ o, i.opcode? = some o ∧ o ≠ .finish := by
  obtain ⟨k, hk⟩ := List.getElem?_of_mem h
  have hlt := (List.getElem?_eq_some_iff.1 hk).1
  rcases (spot_flattenAll trees hlt).get hlt with ⟨tree, j, hj, hget⟩ | ⟨target, -, hget⟩
  · cases hk.symm.trans hget
    obtain ⟨o, ho, -, hf⟩ := opcode?_instruction hj
    exact ⟨o, ho, hf⟩
  · rw [hk, Option.some.injEq, Option.some.injEq] at hget
    rcases hget with rfl | rfl
    · exact ⟨.jumpIfZero, Instruction.opcode?_of _ _, by decide⟩
    · exact ⟨.jump, Instruction.opcode?_of _ _, by decide⟩

end LoopTree

/-! ## Walks -/

/-- What is known of a walk over `is`. -/
structure StatisticsWalk.Covers (w : StatisticsWalk) (is : List Instruction) : Prop where
  count : w.done.instructionCount = is.length
  names : w.done.opCounts.Counts (is.map Instruction.name)
  loops : w.done.loopCount = is.countP (·.opcode? = some .jumpIfZero)
  depth : w.depth = (is.map Instruction.weight).sum
  peak : w.done.maxLoopDepth = peak (is.map Instruction.weight)

namespace StatisticsWalk.Covers

variable {w : StatisticsWalk} {is : List Instruction}

theorem start : Covers {} [] := ⟨rfl, ⟨.nil, fun _ => rfl, rfl⟩, rfl, rfl, rfl⟩

/-- **One more instruction.** -/
theorem add (h : w.Covers is) (i : Instruction) : (w.add i).Covers (is ++ [i]) := by
  have hcount : w.done.instructionCount + 1 = (is ++ [i]).length := by
    rw [h.count, List.length_append, List.length_singleton]
  have hnames : (w.done.opCounts.add i.name).Counts ((is ++ [i]).map Instruction.name) := by
    rw [List.map_append]
    exact h.names.add i.name
  have hloops : (is ++ [i]).countP (·.opcode? = some .jumpIfZero) =
      w.done.loopCount + if i.opcode? = some .jumpIfZero then 1 else 0 := by
    rw [List.countP_append, h.loops, List.countP_singleton]
    simp
  have hdepth : ((is ++ [i]).map Instruction.weight).sum = w.depth + i.weight := by
    rw [List.map_append, List.sum_append, h.depth, List.map_singleton, List.sum_singleton]
  have hpeak : Tapelang.peak ((is ++ [i]).map Instruction.weight) =
      max w.done.maxLoopDepth (w.depth + i.weight) := by
    rw [List.map_append, List.map_singleton, peak_concat, h.peak, h.depth]
  -- where the depth does not rise, the peak stays
  have hstays (hw : i.weight ≤ 0) :
      w.done.maxLoopDepth = Tapelang.peak ((is ++ [i]).map Instruction.weight) := by
    have hle := sum_le_peak (is.map Instruction.weight)
    rw [← h.depth, ← h.peak] at hle
    rw [hpeak]
    omega
  unfold StatisticsWalk.add
  split
  · rename_i ho
    rw [Instruction.weight_eq_one_iff.2 ho] at hdepth hpeak
    exact ⟨hcount, hnames, by rw [hloops, if_pos ho], hdepth.symm, hpeak.symm⟩
  · rename_i ho
    have hw : i.weight = -1 := Instruction.weight_eq_neg_one_iff.2 ho
    rw [if_neg (by simp [ho])] at hloops
    rw [hw] at hdepth hstays
    exact ⟨hcount, hnames, hloops.symm, hdepth.symm, hstays (by decide)⟩
  · rename_i ho hj
    have hw : i.weight = 0 := Instruction.weight_eq_zero ho hj
    rw [if_neg ho] at hloops
    rw [hw, Int.add_zero] at hdepth
    exact ⟨hcount, hnames, hloops.symm, hdepth.symm, hstays (Int.le_of_eq hw)⟩

/-- **A whole walk.** -/
theorem foldl (h : w.Covers is) (more : List Instruction) :
    (more.foldl StatisticsWalk.add w).Covers (is ++ more) := by
  induction more generalizing w is with
  | nil => rwa [List.append_nil]
  | cons i rest ih =>
    rw [List.foldl_cons, ← List.singleton_append, ← List.append_assoc]
    exact ih (h.add i)

end StatisticsWalk.Covers

theorem Code.walk_covers (c : Code) :
    (c.instructions.foldl StatisticsWalk.add {}).Covers c.instructions.toList := by
  rw [← Array.foldl_toList]
  exact StatisticsWalk.Covers.start.foldl c.instructions.toList

/-! ## Texts and their code -/

theorem bracketWeight_eq_one_iff {b : UInt8} :
    bracketWeight b = 1 ↔ b = Command.loopOpen.toByte := by
  unfold bracketWeight
  split
  · simp_all
  · split <;> simp_all

theorem bracketWeight_eq_neg_one_iff {b : UInt8} :
    bracketWeight b = -1 ↔ b = Command.loopClose.toByte := by
  unfold bracketWeight
  split
  · rename_i ho
    subst ho
    decide
  · split <;> simp_all

theorem openings_eq (text : Bytes) : openings text = (text.map bracketWeight).count 1 := by
  rw [openings, List.count, List.count, List.countP_map]
  apply List.countP_congr
  intro b _
  simp [bracketWeight_eq_one_iff]

theorem closings_eq (text : Bytes) : closings text = (text.map bracketWeight).count (-1) := by
  rw [closings, List.count, List.count, List.countP_map]
  apply List.countP_congr
  intro b _
  simp [bracketWeight_eq_neg_one_iff]

theorem depthAt_eq_sum (text : Bytes) (k : Nat) :
    depthAt text k = ((text.map bracketWeight).take k).sum := by
  rw [← List.map_take]
  induction k with
  | zero => rfl
  | succ k ih =>
    cases hd : text.drop k with
    | nil =>
      have hle := List.drop_eq_nil_iff.1 hd
      have hsame : text.take (k + 1) = text.take k := by
        rw [List.take_of_length_le hle, List.take_of_length_le (by omega)]
      rw [depthAt, hsame]
      exact ih
    | cons b rest =>
      rw [depthAt_succ hd, ih, (drop_eq_cons hd).2.2]
      simp

theorem nesting_eq_peak (text : Bytes) : nesting text = peak (text.map bracketWeight) := by
  rw [peak_eq_foldl, nesting, List.length_map]
  simp only [← depthAt_eq_sum]

theorem filter_weights_expansion (is : List Instruction) :
    ((expansion is).map bracketWeight).filter (· ≠ 0) =
      (is.map Instruction.weight).filter (· ≠ 0) := by
  induction is with
  | nil => rfl
  | cons i rest ih =>
    have hfirst : ((i.commands.map Command.toByte).map bracketWeight).filter (· ≠ 0) =
        [i.weight].filter (· ≠ 0) := by
      have hzero : ∀ (n : Nat) (c : Command), bracketWeight c.toByte = 0 →
          (((List.replicate n c).map Command.toByte).map bracketWeight).filter (· ≠ 0) = [] := by
        intro n c hc
        simp [hc]
      unfold Instruction.commands Instruction.weight
      cases i.opcode? with
      | none => rfl
      | some o =>
        cases o with
        | addByte | subByte | addPointer | subPointer => exact hzero _ _ rfl
        | write | read | jumpIfZero | jump | finish => rfl
    rw [expansion, expand_cons, List.map_append, List.map_append, List.filter_append, hfirst,
      ← expansion, ih, ← List.filter_append]
    rfl

theorem filter_weights_commandBytes (text : Bytes) :
    ((commandBytes text).map bracketWeight).filter (· ≠ 0) =
      (text.map bracketWeight).filter (· ≠ 0) := by
  rw [commandBytes, List.filter_map, List.filter_map, List.filter_filter]
  congr 1
  apply List.filter_congr
  intro b _
  cases hb : Command.ofByte? b with
  | some c => simp
  | none => simp [bracketWeight_of_ne (b := b) (by simp [hb]) (by simp [hb])]

/-- **A text and its code** have the same weights, but for those that are 0. -/
theorem compileBytes_weights {naming : Naming} {text : Bytes} {code : Code}
    (h : compileBytes naming text = .ok code) :
    (code.instructions.toList.map Instruction.weight).filter (· ≠ 0) =
      (text.map bracketWeight).filter (· ≠ 0) := by
  rw [← filter_weights_expansion, expansion, compileBytes_expand h, map_toByte_commandsOf,
    filter_weights_commandBytes]

theorem compileBytes_count {naming : Naming} {text : Bytes} {code : Code}
    (h : compileBytes naming text = .ok code) {o : Opcode} {w : Int} (hw : w ≠ 0)
    (ho : ∀ i : Instruction, i.weight = w ↔ i.opcode? = some o) :
    code.instructions.toList.countP (·.opcode? = some o) = (text.map bracketWeight).count w := by
  have hkept : ∀ ws : List Int, (ws.filter (· ≠ 0)).count w = ws.count w :=
    fun ws => List.count_filter (by simpa using hw)
  rw [← hkept, ← compileBytes_weights h, hkept, List.count, List.countP_map]
  apply List.countP_congr
  intro i _
  simp [ho i]

theorem compileBytes_jumps {naming : Naming} {text : Bytes} {code : Code}
    (h : compileBytes naming text = .ok code) :
    code.instructions.toList.countP (·.opcode? = some .jumpIfZero) = openings text ∧
      code.instructions.toList.countP (·.opcode? = some .jump) = closings text := by
  rw [openings_eq, closings_eq]
  constructor
  · exact compileBytes_count h (by decide) fun i => Instruction.weight_eq_one_iff
  · exact compileBytes_count h (by decide) fun i => Instruction.weight_eq_neg_one_iff

theorem compileBytes_maxLoopDepth {naming : Naming} {text : Bytes} {code : Code}
    (h : compileBytes naming text = .ok code) : code.statistics.maxLoopDepth = nesting text := by
  rw [nesting_eq_peak, ← peak_filter, ← compileBytes_weights h, peak_filter]
  exact code.walk_covers.peak

theorem compileBytes_openings {naming : Naming} {text : Bytes} {code : Code}
    (h : compileBytes naming text = .ok code) : openings text = closings text := by
  rcases compileBytes_outcome naming text with ⟨code', -, hb⟩ | ⟨k, hc, -⟩ | ⟨k, hc, -⟩
  · have hzero := hb.2
    rw [depthAt, List.take_length] at hzero
    omega
  · rw [h] at hc
    cases hc
  · rw [h] at hc
    cases hc

/-! ## Statistics -/

namespace Code

open LoopTree

variable {c : Code} {trees : List LoopTree}

theorem weights_isHill
    (h : c.instructions.toList.map Instruction.shown = flattenAll 0 trees ++ [.finish]) :
    IsHill (c.instructions.toList.map Instruction.weight) (heightAll trees) := by
  -- a weight does not depend on the operand
  have hweights : c.instructions.toList.map Instruction.weight =
      (flattenAll 0 trees ++ [Instruction.finish]).map Instruction.weight := by
    rw [← h, List.map_map]
    rfl
  have hhill := (flattenAll_isHill trees 0).append .flat
  rw [Int.max_eq_left (Int.natCast_nonneg _)] at hhill
  rw [hweights, List.map_append]
  exact hhill

theorem lookup_opCounts (c : Code) {o : Opcode} {n : Nat}
    (h : c.instructions.toList.countP (·.opcode? = some o) = n) :
    c.statistics.opCounts.lookup o.name = if n = 0 then none else some n := by
  have hcount : (c.instructions.toList.map Instruction.name).count o.name = n := by
    rw [← h, List.count, List.countP_map]
    apply List.countP_congr
    intro i _
    simp [Instruction.name_eq_iff]
  rw [← hcount]
  exact c.walk_covers.names.lookup o.name

theorem lookup_finish (h : c.instructions.toList = flattenAll 0 trees ++ [.finish]) :
    c.statistics.opCounts.lookup (utf8 "END") = some 1 := by
  have hnone : (flattenAll 0 trees).countP (·.opcode? = some .finish) = 0 := by
    rw [List.countP_eq_zero]
    intro i hi
    obtain ⟨o, ho, hf⟩ := opcode?_of_mem hi
    simp [ho, hf]
  have hone : c.instructions.toList.countP (·.opcode? = some .finish) = 1 := by
    rw [h, List.countP_append, hnone]
    rfl
  exact c.lookup_opCounts hone

theorem lookup_invalid (h : c.instructions.toList = flattenAll 0 trees ++ [.finish]) :
    c.statistics.opCounts.lookup (utf8 "INVALID") = none := by
  have hknown : ∀ o : Opcode, o.name ≠ utf8 "INVALID" := by
    intro o
    cases o <;> decide
  have hcount : (c.instructions.toList.map Instruction.name).count (utf8 "INVALID") = 0 := by
    rw [List.count_eq_zero, List.mem_map]
    rintro ⟨i, hi, hname⟩
    obtain ⟨o, ho⟩ : ∃ o, i.opcode? = some o := by
      rw [h, List.mem_append, List.mem_singleton] at hi
      rcases hi with hi | rfl
      · obtain ⟨o, ho, -⟩ := opcode?_of_mem hi
        exact ⟨o, ho⟩
      · exact ⟨.finish, rfl⟩
    rw [Instruction.name_of_opcode? ho] at hname
    exact hknown o hname
  exact (c.walk_covers.names.lookup _).trans (if_pos hcount)

end Code

open LoopTree in
/-- **Statistics describe the source.** The loops of compiled code are the `[` of the text and the
`]` of the text, and its depth is the largest number of brackets open at once. The counts by name add
up to the number of instructions, `JUMP_IF_ZERO` is counted as often as `JUMP`, `END` once and
`INVALID` not at all. In valid code the depth never falls below 0, is 0 at the end, and goes up as high
as the loop trees nest. -/
theorem statistics_describe :
    (∀ (naming : Naming) (text : Bytes) (code : Code), compileBytes naming text = .ok code →
      code.statistics.loopCount = openings text ∧ code.statistics.loopCount = closings text ∧
      code.statistics.maxLoopDepth = nesting text ∧
      code.statistics.instructionCount = code.size ∧
      code.statistics.opCounts.total = code.statistics.instructionCount ∧
      code.statistics.opCounts.lookup (utf8 "JUMP_IF_ZERO") =
        code.statistics.opCounts.lookup (utf8 "JUMP") ∧
      code.statistics.opCounts.lookup (utf8 "END") = some 1 ∧
      code.statistics.opCounts.lookup (utf8 "INVALID") = none) ∧
    ∀ c : Code, c.IsValid →
      (∀ k, 0 ≤ ((c.instructions.toList.take k).foldl StatisticsWalk.add {}).depth) ∧
      (c.instructions.foldl StatisticsWalk.add {}).depth = 0 ∧
      ∃ trees, c.instructions.toList.map Instruction.shown = flattenAll 0 trees ++ [.finish] ∧
        c.statistics.maxLoopDepth = heightAll trees ∧
        ∀ trees', c.instructions.toList.map Instruction.shown = flattenAll 0 trees' ++ [.finish] →
          trees' = trees := by
  constructor
  · intro naming text code h
    have hcovers := code.walk_covers
    have hclosings := compileBytes_openings h
    obtain ⟨hopen, hclose⟩ := compileBytes_jumps h
    have hloops : code.statistics.loopCount = openings text := hcovers.loops.trans hopen
    have hcount : code.statistics.instructionCount = code.instructions.toList.length :=
      hcovers.count
    have htotal := hcovers.names.total
    rw [List.length_map, ← hcount] at htotal
    have hpairs : code.statistics.opCounts.lookup (utf8 "JUMP_IF_ZERO") =
        code.statistics.opCounts.lookup (utf8 "JUMP") :=
      (code.lookup_opCounts (hopen.trans hclosings)).trans (code.lookup_opCounts hclose).symm
    obtain ⟨trees, hcode, -, -⟩ := compileBytes_trees h
    exact ⟨hloops, hloops.trans hclosings, compileBytes_maxLoopDepth h, hcount, htotal, hpairs,
      Code.lookup_finish hcode, Code.lookup_invalid hcode⟩
  · intro c h
    obtain ⟨trees, htrees⟩ := h.trees
    have hhill := Code.weights_isHill htrees
    have hcovers := c.walk_covers
    refine ⟨fun k => ?_, hcovers.depth.trans hhill.sum, trees, htrees, hcovers.peak.trans hhill.peak,
      fun trees' htrees' => ?_⟩
    · have hfirst := StatisticsWalk.Covers.start.foldl (c.instructions.toList.take k)
      rw [List.nil_append] at hfirst
      rw [hfirst.depth, List.map_take]
      exact hhill.nonneg k
    · rw [htrees] at htrees'
      exact flattenAll_inj trees' trees 0 (List.append_cancel_right htrees'.symm)

/-- A loop in a loop, as a text and as code. -/
theorem statistics_describe_nested : ∃ code c : Code,
    compileBytes {} (utf8 "[+[-]]") = .ok code ∧ code.statistics.loopCount = 2 ∧
      code.statistics.maxLoopDepth = 2 ∧
      code.statistics.opCounts.lookup (utf8 "END") = some 1 ∧
      c.instructions = #[.jumpIfZero 4, .jumpIfZero 3, .jump 1, .jump 0, .finish] ∧ c.IsValid ∧
      (c.instructions.foldl StatisticsWalk.add {}).depth = 0 := by
  let c : Code := { instructions := #[.jumpIfZero 4, .jumpIfZero 3, .jump 1, .jump 0, .finish] }
  have hvalid : c.IsValid := rfl
  obtain ⟨code, hc⟩ : ∃ code, compileBytes {} (utf8 "[+[-]]") = .ok code := by
    rw [compileBytes_eq]
    exact ⟨_, rfl⟩
  obtain ⟨htext, hcode⟩ := statistics_describe
  obtain ⟨hloops, -, hdepth, -, -, -, hend, -⟩ := htext _ _ _ hc
  obtain ⟨-, hlast, -⟩ := hcode c hvalid
  exact ⟨code, c, hc, hloops.trans (by decide), hdepth.trans (by decide), hend, rfl, hvalid, hlast⟩

end Tapelang
