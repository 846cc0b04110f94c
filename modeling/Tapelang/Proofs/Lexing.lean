import Tapelang.Compiler
import Tapelang.Proofs.Reading

/-!
# The commands of a text, with their places

`sites text` lists the commands of a text with their offsets. A cursor that has passed the first
`k` bytes of a text (`Cursor.At`) is at the position of the last of them, finds the commands from
offset `k` on one after the other, and at the end what ended the text.

* `Position.following_ofLast`: the position that is kept byte by byte is the one counted from the
  start of the text.
* `Cursor.token_site`, `Cursor.token_end`: what the next token is.
* `Compiler.assemble_sites`: assembling a text is assembling its sites (`Compiler.assembleSites`).
-/

namespace Tapelang

/-- The byte of a text behind its first `k` bytes. -/
theorem drop_eq_cons {text : Bytes} {k : Nat} {b : UInt8} {rest : Bytes}
    (h : text.drop k = b :: rest) :
    text[k]? = some b ∧ text.drop (k + 1) = rest ∧ text.take (k + 1) = text.take k ++ [b] := by
  have hk : text[k]? = some b := by
    have := congrArg (·[0]?) h
    simpa [List.getElem?_drop] using this
  refine ⟨hk, ?_, ?_⟩
  · rw [← List.tail_drop, h, List.tail_cons]
  · rw [List.take_add_one, hk, Option.toList_some]

/-! ## Positions -/

namespace Position

theorem ofOffset_length (text : Bytes) :
    ofOffset text text.length = ⟨text.count newline + 1, (lastLine text).length + 1⟩ := by
  rw [ofOffset, List.take_length]

/-- Bytes that are no newlines go on in the last line. -/
theorem lastLine_append {line : Bytes} (h : newline ∉ line) (before : Bytes) :
    lastLine (before ++ line) = lastLine before ++ line := by
  have hall : ∀ b ∈ line.reverse, decide (b ≠ newline) = true := by
    intro b hb
    rw [List.mem_reverse] at hb
    simpa using fun he : b = newline => h (he ▸ hb)
  rw [lastLine, List.reverse_append, List.takeWhile_append_of_pos hall, List.reverse_append,
    List.reverse_reverse]
  rfl

/-- A stretch of a text without a newline. -/
theorem newline_notMem_drop_take (text : Bytes) (n k : Nat)
    (h : ∀ j, n ≤ j → j < k → text[j]? ≠ some newline) : newline ∉ (text.take k).drop n := by
  intro hm
  obtain ⟨j, hj⟩ := List.mem_iff_getElem?.1 hm
  rw [List.getElem?_drop] at hj
  have hjk : n + j < k := by
    have := (List.getElem?_eq_some_iff.1 hj).1
    rw [List.length_take] at this
    omega
  rw [List.getElem?_take_of_lt hjk] at hj
  exact h _ (by omega) hjk hj

/-- Columns count from the last newline before the byte. -/
theorem column_ofOffset {text : Bytes} {k n : Nat} (hk : k ≤ text.length) (hn : n < k)
    (hnl : text[n]? = some newline)
    (hlast : ∀ j, n < j → j < k → text[j]? ≠ some newline) :
    (ofOffset text k).column = k - n := by
  have hline := newline_notMem_drop_take text (n + 1) k hlast
  have hsplit : text.take k = text.take n ++ [newline] ++ (text.take k).drop (n + 1) := by
    have h := List.take_append_drop (n + 1) (text.take k)
    rw [List.take_take, Nat.min_eq_left hn, List.take_add_one, hnl] at h
    exact h.symm
  have hfresh : lastLine (text.take n ++ [newline]) = [] := by simp [lastLine]
  have hlen : (lastLine (text.take k)).length + 1 = k - n := by
    rw [hsplit, lastLine_append hline, hfresh, List.nil_append, List.length_drop, List.length_take]
    omega
  simp only [ofOffset]
  omega

/-- On the first line columns count from the start of the text. -/
theorem column_ofOffset_first {text : Bytes} {k : Nat} (hk : k ≤ text.length)
    (h : ∀ n < k, text[n]? ≠ some newline) : (ofOffset text k).column = k + 1 := by
  have hline := newline_notMem_drop_take text 0 k fun j _ hj => h j hj
  rw [List.drop_zero] at hline
  have hlen : (lastLine (text.take k)).length = k := by
    have hall := lastLine_append hline []
    rw [List.nil_append] at hall
    rw [hall, show lastLine [] = [] from rfl, List.nil_append, List.length_take,
      Nat.min_eq_left hk]
  simp only [ofOffset, hlen]

theorem ofLast_append_singleton (text : Bytes) (b : UInt8) :
    ofLast (text ++ [b]) = ofOffset text text.length := by
  have hl : (text ++ [b]).length - 1 = text.length := by simp
  rw [ofLast, if_neg (by simp), hl]
  simp [ofOffset]

/-- A byte after a newline begins a line, and every other byte goes on in the line. -/
theorem following_ofLast (text : Bytes) :
    (ofLast text).following (text.getLast? == some newline) = ofOffset text text.length := by
  rcases List.eq_nil_or_concat text with rfl | ⟨init, b, rfl⟩
  · rfl
  · rw [List.concat_eq_append, ofLast_append_singleton, List.getLast?_concat, ofOffset_length,
      ofOffset_length]
    by_cases hb : b = newline
    · subst hb
      simp [following, lastLine]
    · simp [following, lastLine, hb, List.count_append]

/-- The position at an offset depends only on what stands before it. -/
theorem ofOffset_take (text : Bytes) (k : Nat) :
    ofOffset (text.take k) (text.take k).length = ofOffset text k := by
  rw [ofOffset_length, ofOffset]

end Position

/-! ## Sites -/

/-- The commands of a text whose first byte has offset `k`, each with its offset. -/
def sitesFrom (k : Nat) : Bytes → List (Command × Nat)
  | [] => []
  | b :: rest =>
    match Command.ofByte? b with
    | some c => (c, k) :: sitesFrom (k + 1) rest
    | none => sitesFrom (k + 1) rest

/-- The commands of a text, each with its offset. -/
def sites (text : Bytes) : List (Command × Nat) := sitesFrom 0 text

theorem map_fst_sitesFrom (k : Nat) (text : Bytes) :
    (sitesFrom k text).map (·.1) = commandsOf text := by
  induction text generalizing k with
  | nil => rfl
  | cons b rest ih =>
    rw [sitesFrom, commandsOf, List.filterMap_cons]
    split
    · rename_i c hc
      simp only [hc, List.map_cons, ih]
      rfl
    · rename_i hc
      simp only [hc, ih]
      rfl

theorem map_fst_sites (text : Bytes) : (sites text).map (·.1) = commandsOf text :=
  map_fst_sitesFrom 0 text

/-! ## Cursors -/

namespace Cursor

/-- The cursor has passed the first `k` bytes of `text`, which is followed by `fault`, or by its
end. -/
structure At (c : Cursor) (text : Bytes) (fault : Option ReadFault) (k : Nat) : Prop where
  inside : k ≤ text.length
  lead : c.reader.lead = ⟨text.drop k, fault⟩
  position : c.position = .ofLast (text.take k)
  fresh : c.fresh = ((text.take k).getLast? == some newline)

theorem At.ofFeed (feed : Feed) : (ofFeed feed).At feed.lead.bytes feed.lead.fault 0 :=
  ⟨Nat.zero_le _, rfl, rfl, rfl⟩

variable {c : Cursor} {text : Bytes} {fault : Option ReadFault} {k : Nat}

/-- The next byte is passed, and the cursor is at its position. -/
theorem At.next_byte (h : c.At text fault k) {b : UInt8} {rest : Bytes}
    (hb : text.drop k = b :: rest) :
    ∃ c', c.next = (.byte b, c') ∧ c'.At text fault (k + 1) ∧
      c'.position = .ofOffset text k := by
  obtain ⟨hk, hdrop, htake⟩ := drop_eq_cons hb
  have hlead := h.lead
  rw [hb] at hlead
  have harr : c.reader.next.1 = .byte b := by rw [Reader.next_arrival, hlead]; rfl
  rcases hn : c.reader.next with ⟨arrival, reader⟩
  rw [hn] at harr
  simp only at harr
  subst harr
  have hpos : c.position.following c.fresh = .ofOffset text k := by
    rw [h.position, h.fresh, Position.following_ofLast, Position.ofOffset_take]
  refine ⟨_, by rw [next, hn], ⟨(List.getElem?_eq_some_iff.1 hk).1, ?_, ?_, ?_⟩, hpos⟩
  · have hr := Reader.next_lead hlead
    rw [hn] at hr
    rw [hdrop]
    exact hr
  · rw [htake, Position.ofLast_append_singleton, Position.ofOffset_take]
    exact hpos
  · rw [htake, List.getLast?_concat]
    rfl

/-- The token after a byte: that of the byte, or the next one if the byte is a comment. -/
theorem token_of_byte {b : UInt8} {c' : Cursor} (hn : c.next = (.byte b, c')) :
    c.token = match Command.ofByte? b with
      | some command => (⟨.command command, c'.position⟩, c')
      | none => c'.token := by
  rw [token]
  split
  · rename_i b₁ c₁ hn₁
    rw [hn] at hn₁
    cases hn₁
    rfl
  · rename_i hn₁
    rw [hn] at hn₁
    cases hn₁
  · rename_i hn₁
    rw [hn] at hn₁
    cases hn₁

/-- **The next command** of a text is the next token, with the command's position. -/
theorem At.token_site (h : c.At text fault k) {command : Command} {j : Nat}
    {rest : List (Command × Nat)} (hs : sitesFrom k (text.drop k) = (command, j) :: rest) :
    ∃ c', c.token = (⟨.command command, .ofOffset text j⟩, c') ∧ c'.At text fault (j + 1) ∧
      sitesFrom (j + 1) (text.drop (j + 1)) = rest := by
  -- on the bytes up to the command
  generalize hd : text.drop k = bytes at hs
  induction bytes generalizing c k with
  | nil => simp [sitesFrom] at hs
  | cons b more ih =>
    obtain ⟨c', hn, hc', hp⟩ := h.next_byte hd
    obtain ⟨-, hmore, -⟩ := drop_eq_cons hd
    rw [token_of_byte hn]
    rw [sitesFrom] at hs
    cases hb : Command.ofByte? b with
    | some found =>
      simp only [hb, List.cons.injEq, Prod.mk.injEq] at hs
      obtain ⟨⟨rfl, rfl⟩, rfl⟩ := hs
      exact ⟨c', by rw [hp], hc', by rw [hmore]⟩
    | none =>
      simp only [hb] at hs
      exact ih hc' hmore hs

/-- What stands behind the last byte of a text. -/
def endLexeme : Option ReadFault → Lexeme
  | none => .ending
  | some why => .fault why

/-- **Behind the last command** the next token is the end, at the position of the last byte. -/
theorem At.token_end (h : c.At text fault k) (hs : sitesFrom k (text.drop k) = []) :
    c.token.1 = ⟨endLexeme fault, .ofLast text⟩ := by
  generalize hd : text.drop k = bytes at hs
  induction bytes generalizing c k with
  | nil =>
    have hlead := h.lead
    rw [hd] at hlead
    have harr := Reader.next_arrival c.reader
    rw [hlead] at harr
    have hall : text.take k = text :=
      List.take_of_length_le (List.drop_eq_nil_iff.1 hd)
    have hpos := h.position
    rw [hall] at hpos
    rcases hn : c.reader.next with ⟨arrival, reader⟩
    rw [hn] at harr
    rw [token]
    cases fault with
    | none =>
      have : c.next = (.ending, { c with reader }) := by simp_all [next, Feed.Lead.first]
      split <;> simp_all [endLexeme]
    | some why =>
      have : c.next = (.fault why, { c with reader }) := by simp_all [next, Feed.Lead.first]
      split <;> simp_all [endLexeme]
  | cons b more ih =>
    obtain ⟨c', hn, hc', -⟩ := h.next_byte hd
    rw [token_of_byte hn]
    rw [sitesFrom] at hs
    cases hb : Command.ofByte? b with
    | some found => simp [hb] at hs
    | none =>
      simp only [hb] at hs
      exact ih hc' (drop_eq_cons hd).2.1 hs

end Cursor

/-! ## Assembling -/

namespace Compiler

/-- Ends the assembly of a text that is followed by `fault`, or by its end. -/
def endAssembly (filename text : Bytes) (fault : Option ReadFault) (a : Assembly) :
    Assembly × Except CompileError Position :=
  match fault with
  | some why => (a, .error (.unreadable why))
  | none =>
    match a.outermost? with
    | some loop => (a, .error (.unclosed ⟨filename, loop.position.line, loop.position.column⟩))
    | none => (a.emit .finish (.ofLast text), .ok (.ofLast text))

/-- Takes the commands at sites of a text into an assembly. -/
def assembleSites (filename text : Bytes) (fault : Option ReadFault) :
    Assembly → List (Command × Nat) → Assembly × Except CompileError Position
  | a, (command, k) :: rest =>
    let p := Position.ofOffset text k
    if a.rejects command then (a, .error (.unopened ⟨filename, p.line, p.column⟩))
    else assembleSites filename text fault (a.add command p) rest
  | a, [] => endAssembly filename text fault a

theorem assemble_command (filename : Bytes) (a : Assembly) {c c' : Cursor} {command : Command}
    {p : Position} (h : c.token = (⟨.command command, p⟩, c')) :
    assemble filename a c =
      if a.rejects command then (a, .error (.unopened ⟨filename, p.line, p.column⟩))
      else assemble filename (a.add command p) c' := by
  rw [assemble]
  split <;> simp_all

theorem assemble_end (filename : Bytes) (a : Assembly) {c : Cursor} {text : Bytes}
    {fault : Option ReadFault} (h : c.token.1 = ⟨Cursor.endLexeme fault, .ofLast text⟩) :
    assemble filename a c = endAssembly filename text fault a := by
  rcases hc : c.token with ⟨token, c'⟩
  rw [hc] at h
  subst h
  rw [assemble]
  cases fault with
  | some why =>
    simp only [Cursor.endLexeme] at hc
    split <;> simp_all [endAssembly]
  | none =>
    simp only [Cursor.endLexeme] at hc
    split
    · simp_all
    · simp_all only [Prod.mk.injEq, Token.mk.injEq, true_and]
      rfl
    · simp_all

/-- **Assembling a text** is assembling its sites. -/
theorem assemble_sites (filename : Bytes) {a : Assembly} {c : Cursor} {text : Bytes}
    {fault : Option ReadFault} {k : Nat} (h : c.At text fault k) :
    assemble filename a c = assembleSites filename text fault a (sitesFrom k (text.drop k)) := by
  generalize hs : sitesFrom k (text.drop k) = list
  induction list generalizing a c k with
  | nil => exact assemble_end filename a (h.token_end hs)
  | cons site rest ih =>
    obtain ⟨command, j⟩ := site
    obtain ⟨c', hc, hc', hrest⟩ := h.token_site hs
    rw [assemble_command filename a hc, assembleSites]
    split
    · rfl
    · exact ih hc' hrest

theorem compile_fst (k : Compiler) (source : Cursor) :
    (k.compile source).1 =
      let (a, outcome) := assemble (k.reset source).filename {} source
      outcome.map fun _ =>
        { name := k.programName, filename := (k.reset source).filename,
          instructions := a.instructions, locations := a.locations } := rfl

/-- Code that is given out is what the commands of the text have built. -/
theorem compile_ok {k : Compiler} {source : Cursor} {code : Code}
    (h : (k.compile source).1 = .ok code) :
    ∃ a p, assemble (k.reset source).filename {} source = (a, .ok p) ∧
      code = { name := k.programName, filename := (k.reset source).filename,
               instructions := a.instructions, locations := a.locations } := by
  rw [compile_fst] at h
  rcases hs : assemble (k.reset source).filename {} source with ⟨a, e | p⟩
  · rw [hs] at h
    cases h
  · rw [hs] at h
    cases h
    exact ⟨a, p, rfl, rfl⟩

/-- A text without a file is compiled under the file name asked for. -/
theorem reset_new (naming : Naming) (feed : Feed) :
    (new naming).reset (.ofFeed feed) = { naming, filename := naming.filename } := by
  rcases naming with ⟨_ | ⟨b, rest⟩, name⟩ <;> rfl

end Compiler

/-- **Compiling what a feed delivers**: the sites of its lead are assembled, and the code is named as
asked. -/
theorem compileFeed_eq (naming : Naming) (feed : Feed) :
    compileFeed naming feed =
      let (a, outcome) := Compiler.assembleSites naming.filename feed.lead.bytes feed.lead.fault {}
        (sites feed.lead.bytes)
      outcome.map fun _ =>
        { name := if naming.name.isEmpty then defaultName else naming.name
          filename := naming.filename
          instructions := a.instructions
          locations := a.locations } := by
  have ha := Compiler.assemble_sites naming.filename (a := {}) (Cursor.At.ofFeed feed)
  rw [List.drop_zero] at ha
  unfold compileFeed Compiler.compile
  rw [Compiler.reset_new, sites, ← ha]
  rfl

/-- **Compiling a text in memory**: its sites are assembled, and the code is named as asked. -/
theorem compileBytes_eq (naming : Naming) (text : Bytes) :
    compileBytes naming text =
      let (a, outcome) := Compiler.assembleSites naming.filename text none {} (sites text)
      outcome.map fun _ =>
        { name := if naming.name.isEmpty then defaultName else naming.name
          filename := naming.filename
          instructions := a.instructions
          locations := a.locations } := by
  rw [compileBytes, compileFeed_eq, Feed.lead_ofBytes]

end Tapelang
