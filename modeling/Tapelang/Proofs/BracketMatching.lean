import Tapelang.Brackets
import Tapelang.Proofs.Lexing

/-!
# Which brackets the compiler complains about

While a text is compiled, the pending loops are the `[` that have no `]` yet. `OpenLoops` says so
by counting brackets, `Matched` relates it to an assembly, and `Matched.add` keeps it command by
command. From it follows what compiling a text gives:

* `assembleSites_outcome`: code if the brackets are balanced, else the first `]` without its `[`,
  else the leftmost `[` without its `]`.
* `compileBytes_brackets`: the same of a text in memory, with the position of the bracket.
-/

namespace Tapelang

/-! ## Counting brackets -/

theorem Command.ofByte?_eq_some_iff {b : UInt8} {c : Command} :
    Command.ofByte? b = some c ↔ b = c.toByte :=
  ⟨fun h => (Command.toByte_of_ofByte? h).symm, fun h => h ▸ Command.ofByte?_toByte c⟩

/-- What a byte adds to the number of open loops. -/
def bracketWeight (b : UInt8) : Int :=
  if b = Command.loopOpen.toByte then 1 else if b = Command.loopClose.toByte then -1 else 0

@[simp] theorem bracketWeight_loopOpen : bracketWeight Command.loopOpen.toByte = 1 := rfl

@[simp] theorem bracketWeight_loopClose : bracketWeight Command.loopClose.toByte = -1 := rfl

theorem bracketWeight_of_ne {b : UInt8} (ho : Command.ofByte? b ≠ some .loopOpen)
    (hc : Command.ofByte? b ≠ some .loopClose) : bracketWeight b = 0 := by
  rw [Ne, Command.ofByte?_eq_some_iff] at ho hc
  rw [bracketWeight, if_neg ho, if_neg hc]

theorem depthAt_zero (text : Bytes) : depthAt text 0 = 0 := rfl

theorem depthAt_succ {text : Bytes} {k : Nat} {b : UInt8} {rest : Bytes}
    (h : text.drop k = b :: rest) : depthAt text (k + 1) = depthAt text k + bracketWeight b := by
  obtain ⟨-, -, htake⟩ := drop_eq_cons h
  have hne : Command.loopOpen.toByte ≠ Command.loopClose.toByte := by decide
  simp only [depthAt, openings, closings, htake, List.count_append, List.count_singleton,
    bracketWeight]
  by_cases ho : b = Command.loopOpen.toByte
  · subst ho
    simp [hne]
    omega
  · by_cases hc : b = Command.loopClose.toByte
    · subst hc
      simp [hne.symm]
      omega
    · simp [ho, hc]

theorem depthAt_append_left {first : Bytes} (rest : Bytes) {k : Nat} (h : k ≤ first.length) :
    depthAt (first ++ rest) k = depthAt first k := by
  rw [depthAt, depthAt, List.take_append_of_le_length h]

theorem depthAt_append_right (first rest : Bytes) (k : Nat) :
    depthAt (first ++ rest) (first.length + k) = depthAt first first.length + depthAt rest k := by
  simp only [depthAt, openings, closings, List.take_length_add_append, List.take_length,
    List.count_append]
  omega

/-! ## Open loops -/

/-- Behind the first `k` bytes of a text the loops that began at these offsets are open, the
innermost first. -/
def OpenLoops (text : Bytes) (k : Nat) : List Nat → Prop
  | [] => True
  | o :: outer =>
    text[o]? = some Command.loopOpen.toByte ∧ depthAt text o = outer.length ∧
      (∀ j, o < j → j ≤ k → (outer.length : Int) < depthAt text j) ∧ OpenLoops text k outer

/-- Loops stay open as long as the depth does not fall to theirs. -/
theorem OpenLoops.succ {text : Bytes} {k : Nat} {offsets : List Nat}
    (h : OpenLoops text k offsets) (hd : (offsets.length : Int) ≤ depthAt text (k + 1)) :
    OpenLoops text (k + 1) offsets := by
  induction offsets with
  | nil => trivial
  | cons o outer ih =>
    obtain ⟨hbyte, hdepth, hin, houter⟩ := h
    rw [List.length_cons] at hd
    refine ⟨hbyte, hdepth, fun j hoj hj => ?_, ih houter (by omega)⟩
    rcases Nat.lt_or_ge k j with hk | hk
    · obtain rfl : j = k + 1 := by omega
      omega
    · exact hin j hoj hk

/-- The outermost of the open loops is the leftmost `[` without its `]`. -/
theorem OpenLoops.first {text : Bytes} (hpos : ∀ j ≤ text.length, 0 ≤ depthAt text j)
    {offsets : List Nat} (h : OpenLoops text text.length offsets) {o : Nat}
    (ho : offsets.getLast? = some o) : IsFirstUnclosed text o := by
  induction offsets with
  | nil => simp at ho
  | cons o' outer ih =>
    obtain ⟨hbyte, hdepth, hin, houter⟩ := h
    cases outer with
    | cons o'' more => exact ih houter (by simpa using ho)
    | nil =>
      simp only [List.getLast?_singleton, Option.some.injEq] at ho
      subst ho
      simp only [List.length_nil, Int.ofNat_zero] at hdepth hin
      refine ⟨⟨hbyte, fun j hoj hj => by rw [hdepth]; exact hin j hoj hj⟩, fun j hj hu => ?_⟩
      -- an earlier `[` would be deeper than the text is at `o'`
      have ho' : o' < text.length := (List.getElem?_eq_some_iff.1 hbyte).1
      have h1 := hu.2 o' hj (by omega)
      have h2 := hpos j (by omega)
      omega

/-! ## Assemblies -/

theorem Assembly.pending_extend (a : Assembly) (o : Opcode) (most : Nat) (p : Position) :
    (a.extend o most p).pending = a.pending := by
  unfold Assembly.extend
  split
  · split <;> rfl
  · rfl

/-- What a command does to the pending loops. -/
theorem Assembly.pending_add (a : Assembly) (c : Command) (p : Position) :
    (a.add c p).pending = match c with
      | .loopOpen => ⟨p, a.instructions.size⟩ :: a.pending
      | .loopClose => a.pending.tail
      | _ => a.pending := by
  cases c with
  | loopClose =>
    rcases a with ⟨instructions, locations, _ | ⟨loop, outer⟩⟩ <;> rfl
  | loopOpen | output | input => rfl
  | increment | decrement | right | left => exact a.pending_extend _ _ _

/-- The assembly has taken the first `k` bytes of a text, and the loops at `offsets` are pending. -/
structure Matched (text : Bytes) (k : Nat) (a : Assembly) (offsets : List Nat) : Prop where
  pending : a.pending.map (·.position) = offsets.map (Position.ofOffset text)
  depth : depthAt text k = offsets.length
  positive : ∀ j ≤ k, 0 ≤ depthAt text j
  opened : OpenLoops text k offsets

theorem Matched.start (text : Bytes) : Matched text 0 {} [] := by
  refine ⟨rfl, depthAt_zero text, fun j hj => ?_, trivial⟩
  obtain rfl : j = 0 := by omega
  exact Int.le_of_eq (depthAt_zero text).symm

section
variable {text : Bytes} {k : Nat} {a : Assembly} {offsets : List Nat}

theorem Matched.positive_succ (h : Matched text k a offsets)
    (hd : 0 ≤ depthAt text (k + 1)) : ∀ j ≤ k + 1, 0 ≤ depthAt text j := by
  intro j hj
  rcases Nat.lt_or_ge k j with hk | hk
  · obtain rfl : j = k + 1 := by omega
    exact hd
  · exact h.positive j hk

theorem Matched.isEmpty (h : Matched text k a offsets) : a.pending.isEmpty = offsets.isEmpty := by
  have := congrArg List.isEmpty h.pending
  simpa using this

/-- A byte that is no bracket leaves the loops as they are. -/
theorem Matched.skip (h : Matched text k a offsets) {b : UInt8} {rest : Bytes}
    (hb : text.drop k = b :: rest) (hw : bracketWeight b = 0) :
    Matched text (k + 1) a offsets := by
  have hd := depthAt_succ hb
  rw [hw, Int.add_zero, h.depth] at hd
  exact ⟨h.pending, hd, h.positive_succ (by omega), h.opened.succ (by omega)⟩

/-- A command that is not rejected opens a loop, closes one, or leaves them as they are. -/
theorem Matched.add (h : Matched text k a offsets) {b : UInt8} {rest : Bytes} {c : Command}
    (hb : text.drop k = b :: rest) (hc : Command.ofByte? b = some c)
    (hr : a.rejects c = false) :
    ∃ offsets', Matched text (k + 1) (a.add c (.ofOffset text k)) offsets' := by
  have hd := depthAt_succ hb
  have hbc := Command.ofByte?_eq_some_iff.1 hc
  have hp := a.pending_add c (.ofOffset text k)
  by_cases hopen : c = .loopOpen
  · subst hopen
    rw [hbc, bracketWeight_loopOpen, h.depth] at hd
    have hk : text[k]? = some Command.loopOpen.toByte := hbc ▸ (drop_eq_cons hb).1
    refine ⟨k :: offsets, ?_, by simpa using hd, h.positive_succ (by omega), hk, h.depth, ?_,
      h.opened.succ (by omega)⟩
    · rw [hp]
      simp [h.pending]
    · intro j hkj hj
      obtain rfl : j = k + 1 := by omega
      omega
  · by_cases hclose : c = .loopClose
    · subst hclose
      rw [hbc, bracketWeight_loopClose, h.depth] at hd
      cases offsets with
      | nil => simp [Assembly.rejects, h.isEmpty] at hr
      | cons o outer =>
        rw [List.length_cons] at hd
        refine ⟨outer, ?_, by omega, h.positive_succ (by omega), h.opened.2.2.2.succ (by omega)⟩
        rw [hp, List.map_tail, h.pending]
        rfl
    · have hsame : (a.add c (.ofOffset text k)).pending = a.pending := by
        rw [hp]
        cases c <;> simp_all
      have hw : bracketWeight b = 0 := bracketWeight_of_ne (by simpa [hc] using hopen)
        (by simpa [hc] using hclose)
      have hs := h.skip hb hw
      exact ⟨offsets, hsame ▸ hs.pending, hs.depth, hs.positive, hs.opened⟩

/-- A command is rejected only if it is a `]` without its `[`. -/
theorem Matched.unopened (h : Matched text k a offsets) {b : UInt8} {rest : Bytes} {c : Command}
    (hb : text.drop k = b :: rest) (hc : Command.ofByte? b = some c) (hr : a.rejects c = true) :
    IsFirstUnopened text k := by
  have hd := depthAt_succ hb
  simp only [Assembly.rejects, Bool.and_eq_true, beq_iff_eq, h.isEmpty, List.isEmpty_iff] at hr
  obtain ⟨rfl, rfl⟩ := hr
  rw [Command.ofByte?_eq_some_iff.1 hc, bracketWeight_loopClose, h.depth] at hd
  refine ⟨(List.getElem?_eq_some_iff.1 (drop_eq_cons hb).1).1, h.positive, ?_⟩
  rw [hd]
  decide

end

/-! ## Outcomes -/

/-- A position in a named file. -/
def Position.inFile (p : Position) (filename : Bytes) : Place := ⟨filename, p.line, p.column⟩

/-- What the brackets of a text make of its compilation. -/
inductive BracketOutcome (filename text : Bytes) : Except CompileError Position → Prop
  | balanced {p : Position} : IsBalanced text → BracketOutcome filename text (.ok p)
  | unopened {k : Nat} : IsFirstUnopened text k →
      BracketOutcome filename text (.error (.unopened ((Position.ofOffset text k).inFile filename)))
  | unclosed {k : Nat} : (∀ j ≤ text.length, 0 ≤ depthAt text j) → IsFirstUnclosed text k →
      BracketOutcome filename text (.error (.unclosed ((Position.ofOffset text k).inFile filename)))

/-- The end of a text: the brackets are balanced if no loop is pending. -/
theorem Matched.finish {text : Bytes} {a : Assembly} {offsets : List Nat}
    (h : Matched text text.length a offsets) (filename : Bytes) :
    BracketOutcome filename text (Compiler.endAssembly filename text none a).2 := by
  have hlast := congrArg List.getLast? h.pending
  rw [List.getLast?_map, List.getLast?_map] at hlast
  simp only [Compiler.endAssembly, Assembly.outermost?]
  cases hp : a.pending.getLast? with
  | none =>
    rw [hp] at hlast
    have hnil : offsets = [] := by simpa using hlast.symm
    subst hnil
    exact .balanced ⟨h.positive, h.depth⟩
  | some loop =>
    rw [hp, Option.map_some] at hlast
    obtain ⟨o, ho, hpos⟩ := Option.map_eq_some_iff.1 hlast.symm
    simp only [← hpos]
    exact .unclosed h.positive (h.opened.first h.positive ho)

/-- **Assembling the sites of a text** goes the way of its brackets. -/
theorem assembleSites_outcome (filename : Bytes) {text : Bytes} {k : Nat} {a : Assembly}
    {offsets : List Nat} (hk : k ≤ text.length) (h : Matched text k a offsets) :
    BracketOutcome filename text
      (Compiler.assembleSites filename text none a (sitesFrom k (text.drop k))).2 := by
  generalize hd : text.drop k = bytes
  induction bytes generalizing k a offsets with
  | nil =>
    obtain rfl : k = text.length := Nat.le_antisymm hk (List.drop_eq_nil_iff.1 hd)
    exact h.finish filename
  | cons b rest ih =>
    obtain ⟨hb, hrest, -⟩ := drop_eq_cons hd
    have hlt := (List.getElem?_eq_some_iff.1 hb).1
    rw [sitesFrom]
    cases hc : Command.ofByte? b with
    | none =>
      have hw := bracketWeight_of_ne (b := b) (by simp [hc]) (by simp [hc])
      exact ih hlt (h.skip hd hw) hrest
    | some c =>
      simp only [Compiler.assembleSites]
      by_cases hr : a.rejects c = true
      · rw [if_pos hr]
        exact .unopened (h.unopened hd hc hr)
      · rw [if_neg hr]
        obtain ⟨offsets', h'⟩ := h.add hd hc (by simpa using hr)
        exact ih hlt h' hrest

/-- Compiling a text in memory goes the way of its brackets. -/
theorem compileBytes_outcome (naming : Naming) (text : Bytes) :
    (∃ code, compileBytes naming text = .ok code ∧ IsBalanced text) ∨
    (∃ k, compileBytes naming text =
        .error (.unopened ((Position.ofOffset text k).inFile naming.filename)) ∧
      IsFirstUnopened text k) ∨
    (∃ k, compileBytes naming text =
        .error (.unclosed ((Position.ofOffset text k).inFile naming.filename)) ∧
      (∀ j ≤ text.length, 0 ≤ depthAt text j) ∧ IsFirstUnclosed text k) := by
  have h := assembleSites_outcome naming.filename (Nat.zero_le _) (Matched.start text)
  have heq := compileBytes_eq naming text
  rw [List.drop_zero] at h
  rw [sites] at heq
  generalize Compiler.assembleSites naming.filename text none {} (sitesFrom 0 text) = built at h heq
  obtain ⟨a, r⟩ := built
  cases h with
  | balanced hb => exact .inl ⟨_, heq, hb⟩
  | unopened hk => exact .inr (.inl ⟨_, heq, hk⟩)
  | unclosed hpos hk => exact .inr (.inr ⟨_, heq, hpos, hk⟩)

theorem IsFirstUnopened.depth_neg {text : Bytes} {k : Nat} (h : IsFirstUnopened text k) :
    ∃ j ≤ text.length, depthAt text j < 0 :=
  ⟨k + 1, h.1, h.2.2⟩

theorem IsUnclosed.depth_pos {text : Bytes} {k : Nat} (h : IsUnclosed text k)
    (hpos : ∀ j ≤ text.length, 0 ≤ depthAt text j) : 0 < depthAt text text.length := by
  have hk := (List.getElem?_eq_some_iff.1 h.1).1
  have h1 := h.2 text.length hk (Nat.le_refl _)
  have h2 := hpos k (Nat.le_of_lt hk)
  omega

/-- The byte of the first `]` without its `[`. -/
theorem IsFirstUnopened.byte {text : Bytes} {k : Nat} (h : IsFirstUnopened text k) :
    text[k]? = some Command.loopClose.toByte := by
  obtain ⟨hk, hpos, hneg⟩ := h
  have hd := depthAt_succ (List.drop_eq_getElem_cons hk)
  have hk0 := hpos k (Nat.le_refl _)
  rw [List.getElem?_eq_getElem hk]
  by_cases hc : text[k] = Command.loopClose.toByte
  · rw [hc]
  · -- any other byte leaves the depth or raises it
    have hw : 0 ≤ bracketWeight text[k] := by
      unfold bracketWeight
      rw [if_neg hc]
      split <;> decide
    omega

/-- **The compiler accepts exactly the texts with balanced brackets**, and otherwise names the first
`]` without its `[`, or else the leftmost `[` without its `]`, by line and column. -/
theorem compileBytes_brackets (naming : Naming) (text : Bytes) :
    ((∃ code, compileBytes naming text = .ok code) ↔ IsBalanced text) ∧
    ((∃ k ≤ text.length, depthAt text k < 0) →
      ∃ k e, IsFirstUnopened text k ∧ text[k]? = some Command.loopClose.toByte ∧
        compileBytes naming text = .error e ∧
        e.toFailure = .report ⟨.brackets, utf8 "E2002", utf8 "no matching '['",
          (Position.ofOffset text k).inFile naming.filename⟩) ∧
    ((∀ k ≤ text.length, 0 ≤ depthAt text k) → (∃ k, IsUnclosed text k) →
      ∃ k e, IsFirstUnclosed text k ∧ compileBytes naming text = .error e ∧
        e.toFailure = .report ⟨.brackets, utf8 "E2001", utf8 "no matching ']'",
          (Position.ofOffset text k).inFile naming.filename⟩) ∧
    (∀ e, compileBytes naming text = .error e →
      (∃ k ≤ text.length, depthAt text k < 0) ∨ ∃ k, IsUnclosed text k) ∧
    ∀ k < text.length,
      (Position.ofOffset text k).line = 1 + ((text.take k).count newline : Nat) ∧
      (∀ n < k, text[n]? = some newline → (∀ j, n < j → j < k → text[j]? ≠ some newline) →
        (Position.ofOffset text k).column = k - n) ∧
      ((∀ n < k, text[n]? ≠ some newline) → (Position.ofOffset text k).column = k + 1) := by
  have hplace : ∀ k < text.length,
      (Position.ofOffset text k).line = 1 + ((text.take k).count newline : Nat) ∧
      (∀ n < k, text[n]? = some newline → (∀ j, n < j → j < k → text[j]? ≠ some newline) →
        (Position.ofOffset text k).column = k - n) ∧
      ((∀ n < k, text[n]? ≠ some newline) → (Position.ofOffset text k).column = k + 1) :=
    fun k hk => ⟨Int.add_comm _ _,
      fun n hn hnl hlast => Position.column_ofOffset (Nat.le_of_lt hk) hn hnl hlast,
      fun h => Position.column_ofOffset_first (Nat.le_of_lt hk) h⟩
  rcases compileBytes_outcome naming text with ⟨code, hc, hb⟩ | ⟨k, hc, hk⟩ | ⟨k, hc, hpos, hk⟩
  · refine ⟨⟨fun _ => hb, fun _ => ⟨code, hc⟩⟩, fun ⟨k, hk, hneg⟩ => ?_, fun hpos ⟨k, hk⟩ => ?_,
      fun e he => ?_, hplace⟩
    · have := hb.1 k hk
      omega
    · have := hk.depth_pos hpos
      rw [hb.2] at this
      omega
    · rw [hc] at he
      cases he
  · refine ⟨⟨fun ⟨code, h⟩ => ?_, fun hb => ?_⟩, fun _ => ⟨k, _, hk, hk.byte, hc, rfl⟩,
      fun hpos => ?_, fun _ _ => .inl hk.depth_neg, hplace⟩
    · rw [hc] at h
      cases h
    · have := hb.1 (k + 1) hk.1
      have := hk.2.2
      omega
    · have := hpos (k + 1) hk.1
      have := hk.2.2
      omega
  · refine ⟨⟨fun ⟨code, h⟩ => ?_, fun hb => ?_⟩, fun ⟨j, hj, hneg⟩ => ?_,
      fun _ _ => ⟨k, _, hk, hc, rfl⟩, fun _ _ => .inr ⟨k, hk.1⟩, hplace⟩
    · rw [hc] at h
      cases h
    · have := hk.1.depth_pos hpos
      rw [hb.2] at this
      omega
    · have := hpos j hj
      omega

end Tapelang
