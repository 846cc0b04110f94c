import Tapelang.Proofs.Folding
import Tapelang.Proofs.LoopGrammar

/-!
# Folded code and the compiler

The compiler makes exactly the valid codes that are folded (`IsFolded`).

* `compileBytes_isFolded`: compiled code is folded, since a block is begun only where the last one
  has no room (`Laid.separate`).
* `assembles_flattenAll`: the commands that folded trees expand to build these trees again, from any
  assembly whose last instruction has no room for the first of them. A run of commands grows into
  its instruction, and a loop gets back the targets that its place and length give it.
* `compileBytes_image`: both directions.
-/

namespace Tapelang

open LoopTree

/-! ## Folded instructions -/

/-- The first instruction is of another operation than the second, or full. -/
def Instruction.Closed (i j : Instruction) : Prop :=
  ∀ most : Nat, i.code = j.code → i.capacity? = some most → i.operand = most

theorem isFolded_iff {is : List Instruction} :
    IsFolded is ↔
      (∀ i ∈ is, i.capacity?.isSome → 1 ≤ i.operand) ∧ is.IsChain Instruction.Closed := by
  refine and_congr_right fun _ => ?_
  rw [List.isChain_iff_getElem]
  constructor
  · intro h k hk most hcode hcap
    exact h k _ _ most (List.getElem?_eq_getElem (by omega)) (List.getElem?_eq_getElem hk) hcode
      hcap
  · intro h k i j most hi hj hcode hcap
    obtain ⟨hk, rfl⟩ := List.getElem?_eq_some_iff.1 hj
    obtain ⟨_, rfl⟩ := List.getElem?_eq_some_iff.1 hi
    exact h k hk most hcode hcap

theorem IsFolded.left {is js : List Instruction} (h : IsFolded (is ++ js)) : IsFolded is := by
  rw [isFolded_iff] at h ⊢
  exact ⟨fun i hi => h.1 i (List.mem_append_left _ hi), h.2.left_of_append⟩

theorem Instruction.run_of_capacity {i : Instruction} {most : Nat} (h : i.capacity? = some most) :
    ∃ (c : Command) (o : Opcode), c.run? = some (o, most) ∧ i.opcode? = some o := by
  obtain ⟨o, ho, hcap⟩ := Option.bind_eq_some_iff.1 h
  cases o <;> cases hcap
  · exact ⟨.increment, _, rfl, ho⟩
  · exact ⟨.decrement, _, rfl, ho⟩
  · exact ⟨.right, _, rfl, ho⟩
  · exact ⟨.left, _, rfl, ho⟩

theorem Command.commands_eq {c : Command} {o : Opcode} {most : Nat} (hc : c.run? = some (o, most))
    {i : Instruction} (hi : i.opcode? = some o) :
    i.commands = List.replicate i.operand.toNat c := by
  cases c <;> cases hc <;> simp [Instruction.commands, hi]

theorem Instruction.closed_of_separate {i j : Instruction}
    (hi : i.capacity?.isSome → 1 ≤ i.operand) (hj : j.capacity?.isSome → 1 ≤ j.operand)
    (h : Separate i.commands j.commands) : i.Closed j := by
  intro most hcode hcap
  obtain ⟨c, o, hc, ho⟩ := run_of_capacity hcap
  have ho' : j.opcode? = some o := by rw [← ho, opcode?, opcode?, hcode]
  have hi := hi (by rw [hcap]; rfl)
  have hj := hj (by rw [capacity?, ho', ← ho, ← capacity?, hcap]; rfl)
  have hfull := h c o most
    (by rw [Command.commands_eq hc ho, List.head?_replicate, if_neg (by omega)])
    (by rw [Command.commands_eq hc ho', List.head?_replicate, if_neg (by omega)]) hc
  rw [Command.commands_eq hc ho, List.length_replicate] at hfull
  omega

/-- Compiled code is folded. -/
theorem compileBytes_isFolded {naming : Naming} {text : Bytes} {code : Code}
    (h : compileBytes naming text = .ok code) : IsFolded code.instructions.toList := by
  obtain ⟨a, n, hb, hl, hcode, -⟩ := compileBytes_laid h
  have hfilled : ∀ i ∈ a.instructions.toList, i.capacity?.isSome → 1 ≤ i.operand := by
    rw [hb.code]
    exact hb.filled
  have hchain : a.instructions.toList.IsChain Instruction.Closed := by
    refine ((List.isChain_map _).1 hl.separate).imp_of_mem_imp fun i j hi hj hs => ?_
    exact Instruction.closed_of_separate (hfilled i hi) (hfilled j hj) hs
  rw [hcode, Array.toList_push, isFolded_iff, List.isChain_append]
  refine ⟨fun i hi => ?_, hchain, .singleton _, fun i _ j hj most hc hcap => ?_⟩
  · rcases List.mem_append.1 hi with hi | hi
    · exact hfilled i hi
    · rw [List.mem_singleton.1 hi]
      intro hcap
      cases hcap
  · -- nothing is folded into an `END`
    cases hj
    rw [Instruction.capacity?, Instruction.opcode?_of_code (o := .finish) hc] at hcap
    cases hcap

/-! ## Operands that mean nothing -/

namespace Instruction

theorem operand_shown {i : Instruction} (h : i.capacity?.isSome) : i.shown.operand = i.operand := by
  obtain ⟨most, hcap⟩ := Option.isSome_iff_exists.1 h
  obtain ⟨o, ho, hcap⟩ := Option.bind_eq_some_iff.1 hcap
  have hk : o.operandKind ≠ .none := by cases o <;> cases hcap <;> decide
  rw [shown_eq ho, if_neg hk, of]

theorem commands_shown (i : Instruction) : i.shown.commands = i.commands := by
  cases ho : i.opcode? with
  | none => simp [commands, opcode?_shown, ho]
  | some o =>
    have hs : i.shown.operand = if o.operandKind = .none then 0 else i.operand := by
      rw [shown_eq ho, of]
    simp only [commands, opcode?_shown, ho, hs]
    cases o <;> rfl

end Instruction

theorem expand_map_shown (is : List Instruction) :
    expand (is.map Instruction.shown) = expand is := by
  induction is with
  | nil => rfl
  | cons i rest ih => rw [List.map_cons, expand_cons, expand_cons, ih, Instruction.commands_shown]

/-- Folded instructions stay folded when only operands that are no counts are changed. -/
theorem IsFolded.map {is : List Instruction} {f : Instruction → Instruction} (h : IsFolded is)
    (hcode : ∀ i, (f i).code = i.code)
    (hoperand : ∀ i : Instruction, i.capacity?.isSome → (f i).operand = i.operand) :
    IsFolded (is.map f) := by
  have hcap : ∀ i, (f i).capacity? = i.capacity? := by
    intro i
    rw [Instruction.capacity?, Instruction.opcode?, hcode]
    rfl
  rw [isFolded_iff] at h ⊢
  refine ⟨fun i hi hsome => ?_, ?_⟩
  · obtain ⟨j, hj, rfl⟩ := List.mem_map.1 hi
    rw [hcap] at hsome
    rw [hoperand j hsome]
    exact h.1 j hj hsome
  · rw [List.isChain_map]
    refine h.2.imp fun i j hclosed most hij hmost => ?_
    rw [hcode, hcode] at hij
    rw [hcap] at hmost
    rw [hoperand i (by rw [hmost]; rfl)]
    exact hclosed most hij hmost

theorem IsFolded.map_shown {is : List Instruction} (h : IsFolded is) :
    IsFolded (is.map Instruction.shown) :=
  h.map (fun _ => rfl) fun _ => Instruction.operand_shown

/-! ## Assembling an expansion -/

/-- The instructions are folded, and the last one of the assembly has no room for the first. -/
structure Assembly.Fits (a : Assembly) (code : List Instruction) : Prop where
  filled : ∀ i ∈ code, i.capacity?.isSome → 1 ≤ i.operand
  closed : code.IsChain Instruction.Closed
  joint : ∀ last ∈ a.instructions.back?, ∀ i ∈ code.head?, last.Closed i

theorem Assembly.Fits.left {a : Assembly} {first rest : List Instruction}
    (h : a.Fits (first ++ rest)) : a.Fits first := by
  refine ⟨fun i hi => h.filled i (List.mem_append_left _ hi), h.closed.left_of_append,
    fun last hlast i hi => h.joint last hlast i ?_⟩
  rw [Option.mem_def] at hi ⊢
  rw [List.head?_append, hi]
  rfl

theorem Assembly.Fits.right {a a' : Assembly} {first rest : List Instruction}
    (h : a.Fits (first ++ rest))
    (ha : a'.instructions.toList = a.instructions.toList ++ first) : a'.Fits rest := by
  refine ⟨fun i hi => h.filled i (List.mem_append_right _ hi), h.closed.right_of_append,
    fun last hlast i hi => ?_⟩
  rw [Option.mem_def, ← Array.getLast?_toList, ha, List.getLast?_append] at hlast
  cases hf : first.getLast? with
  | some l =>
    rw [hf] at hlast
    cases hlast
    exact (List.isChain_append.1 h.closed).2.2 _ hf i hi
  | none =>
    obtain rfl := List.getLast?_eq_none_iff.1 hf
    exact h.joint last (by simpa using hlast) i hi

section
variable {filename text : Bytes} {fault : Option ReadFault} {a : Assembly}

theorem Compiler.assembleSites_cons {c : Command} {k : Nat} {rest : List (Command × Nat)}
    (h : a.rejects c = false) :
    assembleSites filename text fault a ((c, k) :: rest) =
      assembleSites filename text fault (a.add c (.ofOffset text k)) rest := by
  rw [assembleSites]
  simp [h]

/-- Taking the commands at the sites `list` makes `a'` of `a`, whatever comes behind them. -/
def Assembles (filename text : Bytes) (fault : Option ReadFault) (a : Assembly)
    (list : List (Command × Nat)) (a' : Assembly) : Prop :=
  ∀ more, Compiler.assembleSites filename text fault a (list ++ more) =
    Compiler.assembleSites filename text fault a' more

theorem Assembles.cons {c : Command} {k : Nat} {list : List (Command × Nat)} {a' : Assembly}
    (hr : a.rejects c = false)
    (h : Assembles filename text fault (a.add c (.ofOffset text k)) list a') :
    Assembles filename text fault a ((c, k) :: list) a' := by
  intro more
  rw [List.cons_append, Compiler.assembleSites_cons hr, h more]

theorem Assembles.append {list list' : List (Command × Nat)} {a₁ a₂ : Assembly}
    (h : Assembles filename text fault a list a₁) (h' : Assembles filename text fault a₁ list' a₂) :
    Assembles filename text fault a (list ++ list') a₂ := by
  intro more
  rw [List.append_assoc, h, h']

theorem Assembly.rejects_run {c : Command} {run : Opcode × Nat} (h : c.run? = some run) :
    a.rejects c = false := by
  cases c <;> cases h <;> rfl

theorem Assembly.extend_closed {o : Opcode} {most : Nat} {i : Instruction}
    (ho : o.capacity? = some most) (hi : i.opcode? = some o)
    (h : ∀ last ∈ a.instructions.back?, last.Closed i) (p : Position) :
    a.extend o most p = a.emit (.of o 1) p := by
  unfold extend
  split
  · rename_i last hback
    rw [if_neg]
    rintro ⟨hcode, hroom⟩
    have hcap : last.capacity? = some most := by
      rw [Instruction.capacity?, Instruction.opcode?_of_code hcode, Option.bind_some, ho]
    have := h last hback most (by rw [hcode, Instruction.code_of_opcode? hi]) hcap
    omega
  · rfl

/-- Further commands of an operation lengthen a last run that has room for them. -/
theorem assembles_run {c : Command} {o : Opcode} {most : Nat} (hc : c.run? = some (o, most))
    {list : List (Command × Nat)} {more count : Nat} (hl : list.map (·.1) = List.replicate more c)
    (hle : count + more ≤ most) (is : Array Instruction) :
    Assembles filename text fault { a with instructions := is.push (.of o count) } list
      { a with instructions := is.push (.of o (count + more : Nat)) } := by
  induction more generalizing list count with
  | zero =>
    rw [List.replicate_zero, List.map_eq_nil_iff] at hl
    subst hl
    exact fun _ => rfl
  | succ more ih =>
    rw [List.replicate_succ, List.map_eq_cons_iff] at hl
    obtain ⟨⟨_, k⟩, rest, rfl, rfl, hrest⟩ := hl
    refine .cons (Assembly.rejects_run hc) ?_
    rw [Assembly.add_run _ hc]
    have hlong : ({ a with instructions := is.push (.of o count) } : Assembly).extend o most
        (.ofOffset text k) = { a with instructions := is.push (.of o (count + 1 : Nat)) } := by
      have hroom : (Instruction.of o count).code = o.toByte ∧
          (Instruction.of o count).operand < most := by
        refine ⟨rfl, ?_⟩
        simp only [Instruction.of]
        omega
      simp only [Assembly.extend, Array.back?_push, if_pos hroom, Array.pop_push]
      rfl
    rw [hlong, show count + (more + 1) = count + 1 + more by omega]
    exact ih hrest (by omega)

/-- The commands of an instruction that is a tree of its own build it again. -/
theorem assembles_leaf (tree : LoopTree) {i : Instruction} (hi : tree.instruction? = some i)
    {list : List (Command × Nat)} {index : Nat} (hl : list.map (·.1) = expand (tree.flatten index))
    (hf : a.Fits (tree.flatten index)) :
    ∃ a', Assembles filename text fault a list a' ∧
      a'.instructions.toList = a.instructions.toList ++ tree.flatten index ∧
      a'.pending = a.pending := by
  rw [flatten_instruction hi] at hl hf ⊢
  rw [expand_cons, expand_nil, List.append_nil] at hl
  have hjoint : ∀ last ∈ a.instructions.back?, last.Closed i := fun last h => hf.joint last h i rfl
  cases hcap : i.capacity? with
  | some most =>
    obtain ⟨c, o, hc, ho⟩ := Instruction.run_of_capacity hcap
    obtain ⟨hmost, -⟩ := Command.capacity?_run hc
    have hpos := hf.filled i (List.mem_singleton.2 rfl) (by rw [hcap]; rfl)
    obtain ⟨count, hle, -, rfl⟩ := eq_run hi ho hmost
    simp only [Instruction.of] at hpos
    obtain ⟨more, rfl⟩ : ∃ more, count = 1 + more := ⟨count - 1, by omega⟩
    rw [Command.commands_run hc, Nat.add_comm, List.replicate_succ, List.map_eq_cons_iff] at hl
    obtain ⟨⟨_, k⟩, rest, rfl, rfl, hrest⟩ := hl
    -- the first command begins the run, and the others lengthen it
    refine ⟨{ a with instructions := a.instructions.push (.of o (1 + more : Nat))
                     locations := a.locations.push (.ofOffset text k) },
      .cons (Assembly.rejects_run hc) ?_, Array.toList_push, rfl⟩
    rw [Assembly.add_run _ hc, Assembly.extend_closed hmost ho hjoint]
    exact assembles_run (a := a.emit (.of o 1) (.ofOffset text k)) hc hrest hle a.instructions
  | none =>
    cases tree with
    | write | read =>
      cases hi
      obtain ⟨⟨_, k⟩, rest, rfl, rfl, hrest⟩ := List.map_eq_cons_iff.1 hl
      obtain rfl := List.map_eq_nil_iff.1 hrest
      exact ⟨_, .cons rfl fun _ => rfl, Array.toList_push, rfl⟩
    | addByte n | subByte n | addPointer n | subPointer n =>
      cases hi
      cases hcap
    | loop body => cases hi

/-- Closing a loop whose body has been assembled. -/
theorem Assembly.closeLoop_flatten {index : Nat} {before : List Instruction} {body : List LoopTree}
    {p : Position} {outer : List Pending} (hindex : before.length = index)
    (hcode : a.instructions.toList =
      before ++ [.jumpIfZero 0] ++ flattenAll (index + 1) body)
    (hp : a.pending = ⟨p, index⟩ :: outer) (p' : Position) :
    (a.closeLoop p').instructions.toList = before ++ flatten index (loop body) ∧
      (a.closeLoop p').pending = outer := by
  have hsize : a.instructions.size = index + (flattenAll (index + 1) body).length + 1 := by
    have := congrArg List.length hcode
    simp only [Array.length_toList, List.length_append, List.length_singleton] at this
    omega
  unfold closeLoop
  rw [hp]
  refine ⟨?_, rfl⟩
  simp only [emit, Array.toList_push, Array.toList_setIfInBounds, hcode, hsize, flatten_loop]
  subst hindex
  rw [List.append_assoc, List.set_append_right _ _ (Nat.le_refl _), Nat.sub_self, List.append_assoc]
  rfl

mutual

theorem assembles_flatten : ∀ (tree : LoopTree) (a : Assembly) {list : List (Command × Nat)},
    list.map (·.1) = expand (tree.flatten a.instructions.size) →
    a.Fits (tree.flatten a.instructions.size) →
    ∃ a', Assembles filename text fault a list a' ∧
      a'.instructions.toList =
        a.instructions.toList ++ tree.flatten a.instructions.size ∧
      a'.pending = a.pending
  | .loop body, a, list, hl, hf => by
    rw [flatten_loop, expand_cons, expand_append, commands_jumpIfZero, List.singleton_append,
      List.map_eq_cons_iff] at hl
    obtain ⟨⟨_, k⟩, rest, rfl, rfl, hrest⟩ := hl
    obtain ⟨inner, last, rfl, hinner, hlast⟩ := List.map_eq_append_iff.1 hrest
    obtain ⟨⟨_, k'⟩, rest, rfl, rfl, hnil⟩ := List.map_eq_cons_iff.1 hlast
    obtain rfl := List.map_eq_nil_iff.1 hnil
    -- the jump without a target stands before the body
    have hopen : (a.add .loopOpen (.ofOffset text k)).instructions =
        a.instructions.push (.jumpIfZero 0) := rfl
    have hfits : (a.add .loopOpen (.ofOffset text k)).Fits
        (flattenAll (a.instructions.size + 1) body) := by
      rw [flatten_loop, ← List.singleton_append] at hf
      have hin : ∀ i ∈ flattenAll (a.instructions.size + 1) body, i.capacity?.isSome →
          1 ≤ i.operand := fun i hi =>
        hf.filled i (List.mem_append_right _ (List.mem_append_left _ hi))
      refine ⟨hin, hf.closed.right_of_append.left_of_append, fun last hlast i _ most _ hcap => ?_⟩
      rw [hopen, Array.back?_push, Option.mem_def, Option.some.injEq] at hlast
      rw [← hlast] at hcap
      cases hcap
    have hsize : (a.add .loopOpen (.ofOffset text k)).instructions.size =
        a.instructions.size + 1 := by
      rw [hopen, Array.size_push]
    rw [← hsize] at hinner hfits
    obtain ⟨a₂, ha₂, hcode₂, hpend₂⟩ := assembles_flattenAll body _ hinner hfits
    rw [hopen, Array.toList_push, Array.size_push] at hcode₂
    obtain ⟨hcode, hpend⟩ :=
      a₂.closeLoop_flatten Array.length_toList hcode₂ hpend₂ (.ofOffset text k')
    refine ⟨a₂.closeLoop (.ofOffset text k'), .cons rfl (ha₂.append (.cons ?_ fun _ => rfl)), hcode,
      hpend⟩
    simp [Assembly.rejects, hpend₂, Assembly.add, Assembly.openLoop, Assembly.emit]
  | .addByte n, _, _, hl, hf => assembles_leaf (.addByte n) rfl hl hf
  | .subByte n, _, _, hl, hf => assembles_leaf (.subByte n) rfl hl hf
  | .addPointer n, _, _, hl, hf => assembles_leaf (.addPointer n) rfl hl hf
  | .subPointer n, _, _, hl, hf => assembles_leaf (.subPointer n) rfl hl hf
  | .write, _, _, hl, hf => assembles_leaf .write rfl hl hf
  | .read, _, _, hl, hf => assembles_leaf .read rfl hl hf

/-- **The expansion of folded trees** builds these trees again. -/
theorem assembles_flattenAll : ∀ (trees : List LoopTree) (a : Assembly)
    {list : List (Command × Nat)},
    list.map (·.1) = expand (flattenAll a.instructions.size trees) →
    a.Fits (flattenAll a.instructions.size trees) →
    ∃ a', Assembles filename text fault a list a' ∧
      a'.instructions.toList =
        a.instructions.toList ++ flattenAll a.instructions.size trees ∧
      a'.pending = a.pending
  | [], a, list, hl, _ => by
    obtain rfl : list = [] := by simpa [flattenAll] using hl
    exact ⟨a, fun _ => rfl, by simp [flattenAll], rfl⟩
  | tree :: trees, a, list, hl, hf => by
    rw [flattenAll_cons] at hf ⊢
    rw [flattenAll_cons, expand_append] at hl
    obtain ⟨first, rest, rfl, hfirst, hrest⟩ := List.map_eq_append_iff.1 hl
    obtain ⟨a₁, ha₁, hcode₁, hpend₁⟩ := assembles_flatten tree a hfirst hf.left
    have hsize : a₁.instructions.size =
        a.instructions.size + (tree.flatten a.instructions.size).length := by
      rw [← Array.length_toList, hcode₁, List.length_append, Array.length_toList]
    rw [← hsize] at hrest hf
    obtain ⟨a₂, ha₂, hcode₂, hpend₂⟩ := assembles_flattenAll trees a₁ hrest (hf.right hcode₁)
    refine ⟨a₂, ha₁.append ha₂, ?_, by rw [hpend₂, hpend₁]⟩
    rw [hcode₂, hcode₁, hsize, List.append_assoc]

end

end

/-! ## The image of the compiler -/

theorem commandsOf_map_toByte (commands : List Command) :
    commandsOf (commands.map Command.toByte) = commands := by
  induction commands with
  | nil => rfl
  | cons c rest ih =>
    rw [List.map_cons, commandsOf, List.filterMap_cons, Command.ofByte?_toByte]
    exact congrArg (c :: ·) ih

/-- **Folded trees are compiled from any text with their commands.** -/
theorem compileBytes_flattenAll (naming : Naming) {text : Bytes} {trees : List LoopTree}
    (hc : commandsOf text = expand (flattenAll 0 trees)) (hf : IsFolded (flattenAll 0 trees)) :
    ∃ code, compileBytes naming text = .ok code ∧
      code.instructions.toList = flattenAll 0 trees ++ [.finish] := by
  rw [isFolded_iff] at hf
  have hfits : ({} : Assembly).Fits (flattenAll 0 trees) :=
    ⟨hf.1, hf.2, fun last hlast => by cases hlast⟩
  have hsites : (sites text).map (·.1) = expand (flattenAll 0 trees) := by
    rw [map_fst_sites, hc]
  obtain ⟨a, ha, hcode, hpend⟩ : ∃ a, Assembles naming.filename text none {} (sites text) a ∧
      a.instructions.toList = flattenAll 0 trees ∧ a.pending = [] :=
    assembles_flattenAll trees {} hsites hfits
  have hend := ha []
  rw [List.append_nil, Compiler.assembleSites, Compiler.endAssembly, Assembly.outermost?, hpend]
    at hend
  rw [compileBytes_eq, hend]
  refine ⟨_, rfl, ?_⟩
  exact Array.toList_push.trans (congrArg (· ++ [Instruction.finish]) hcode)

/-- **Folded code is compiled from its own expansion.** -/
theorem compileBytes_expansion (naming : Naming) {is : List Instruction}
    (hv : ({ instructions := is.toArray } : Code).IsValid) (hf : IsFolded is) :
    ∃ code, compileBytes naming (expansion is) = .ok code ∧
      code.instructions.toList = is.map Instruction.shown := by
  obtain ⟨trees, ht⟩ := hv.trees
  have hfold := hf.map_shown
  rw [ht] at hfold ⊢
  refine compileBytes_flattenAll naming ?_ hfold.left
  rw [expansion, commandsOf_map_toByte, ← expand_map_shown, ht, expand_append]
  exact List.append_nil _

/-- **The compiler makes exactly the valid codes that are folded.** What it makes of a text is valid,
has one location for each instruction and is folded: no instruction stands for nothing, and none is
followed by one that it had room for. And all valid instructions that are folded are made of their
own expansion, up to operands that mean nothing. -/
theorem compileBytes_image (naming : Naming) :
    (∀ text code, compileBytes naming text = .ok code →
      code.IsValid ∧ code.locations.size = code.size ∧ IsFolded code.instructions.toList) ∧
    ∀ is : List Instruction, ({ instructions := is.toArray } : Code).IsValid → IsFolded is →
      ∃ code, compileBytes naming (expansion is) = .ok code ∧
        code.instructions.toList = is.map Instruction.shown ∧
        ((∀ i ∈ is, i.kind = .none → i.operand = 0) → code.instructions.toList = is) := by
  refine ⟨fun text code h => ?_, fun is hv hf => ?_⟩
  · obtain ⟨a, n, -, hl, hcode, hloc⟩ := compileBytes_laid h
    have hsize : code.locations.size = code.size := by
      rw [Code.size, hcode, hloc, Array.size_push, Array.size_push, hl.count, a.length_blocks]
    obtain ⟨trees, htrees, -, -⟩ := compileBytes_trees h
    exact ⟨Code.isValid_of_flattens (.inr hsize) htrees, hsize, compileBytes_isFolded h⟩
  · obtain ⟨code, hc, hi⟩ := compileBytes_expansion naming hv hf
    exact ⟨code, hc, hi, fun hplain => by rw [hi, Instruction.map_shown_of_plain hplain]⟩

end Tapelang
