import Tapelang.Proofs.CodeRoundTrip

/-!
# What is read from JSON

Whatever the text is, every text in the value that `Json.parse` makes of it is UTF-8
(`Json.parse_mended`).

* `Json.Body`: what the tokenizer lets stand between quotes, one unit after the other; every string
  token is such a body (`Json.tokenize_body`).
* `Json.Body.isUtf8_unescape`: reading a body gives UTF-8. Stray bytes and lone surrogates are
  replaced, and no unit is read from its middle.
* `Json.Parse.take_mended`: the parser only puts such texts together.
-/

namespace Tapelang

/-! ## UTF-8 -/

namespace Text

theorem isUtf8_append {a b : Bytes} (ha : isUtf8 a = true) (hb : isUtf8 b = true) :
    isUtf8 (a ++ b) = true := by
  obtain ⟨as, rfl⟩ := (isUtf8_iff a).1 ha
  obtain ⟨bs, rfl⟩ := (isUtf8_iff b).1 hb
  exact (isUtf8_iff _).2 ⟨as ++ bs, List.flatMap_append⟩

theorem isUtf8_encodeChar (code : Nat) : isUtf8 (encodeChar code) = true :=
  (isUtf8_iff _).2 ⟨[Char.ofNat code], List.flatMap_singleton ..⟩

end Text

/-- The bytes of a character behind its first are not ASCII. -/
theorem Text.Spells.tail_ge {code : Nat} {b : UInt8} {more : Bytes} (h : Spells code (b :: more))
    {c : UInt8} (hc : c ∈ more) : 0x80 ≤ c.toNat := by
  rcases h.byte (List.mem_cons_of_mem b hc) with hcode | hge
  · -- a character in ASCII has one byte only
    apply Nat.le_of_not_lt
    intro hlt
    obtain ⟨-, he⟩ := h.encodeChar_eq
    rw [encodeChar_one (by omega), List.cons.injEq] at he
    rw [← he.2] at hc
    cases hc
  · exact hge

namespace Json

open Text

/-! ## Between quotes -/

/-- What may stand between quotes: bytes that are no backslash, short escapes, and escapes with four
digits. -/
inductive Body : Bytes → Prop
  | nil : Body []
  | plain {b : UInt8} {rest : Bytes} : b ≠ 92 → Body rest → Body (b :: rest)
  | short {letter : UInt8} {rest : Bytes} : letter ∈ utf8 "\"\\/bfnrt" → Body rest →
      Body (92 :: letter :: rest)
  | unicode {digits rest : Bytes} : digits.length = 4 → (∀ d ∈ digits, d ≠ 92) → Body rest →
      Body (92 :: 117 :: (digits ++ rest))

namespace Body

theorem append {a b : Bytes} (ha : Body a) (hb : Body b) : Body (a ++ b) := by
  induction ha with
  | nil => exact hb
  | plain hne _ ih => exact .plain hne ih
  | short hl _ ih => exact .short hl ih
  | @unicode digits rest hlen hd _ ih =>
    rw [List.cons_append, List.cons_append, List.append_assoc]
    exact .unicode hlen hd ih

theorem plain_append {bytes rest : Bytes} (h : ∀ b ∈ bytes, b ≠ 92) (hr : Body rest) :
    Body (bytes ++ rest) := by
  induction bytes with
  | nil => exact hr
  | cons b bytes ih =>
    exact .plain (h b List.mem_cons_self) (ih fun b' hb => h b' (List.mem_cons_of_mem b hb))

theorem tail {b : UInt8} {rest : Bytes} (hne : b ≠ 92) (h : Body (b :: rest)) : Body rest := by
  cases h with
  | plain _ hr => exact hr
  | short | unicode => exact absurd rfl hne

/-- Bytes that are no backslash are units of their own. -/
theorem drop {bytes rest : Bytes} (h : ∀ b ∈ bytes, b ≠ 92) (hb : Body (bytes ++ rest)) :
    Body rest := by
  induction bytes with
  | nil => exact hb
  | cons b bytes ih =>
    have hrest : Body (bytes ++ rest) := hb.tail (h b List.mem_cons_self)
    exact ih (fun b' hb' => h b' (List.mem_cons_of_mem b hb')) hrest

/-- A `\u` in front of a body has its four digits behind it. -/
theorem drop_unicode {rest : Bytes} (h : Body (92 :: 117 :: rest)) : Body (rest.drop 4) := by
  generalize hraw : 92 :: 117 :: rest = raw at h
  cases h with
  | nil => cases hraw
  | plain hne _ =>
    cases hraw
    exact absurd rfl hne
  | short hl _ =>
    cases hraw
    exact absurd hl (by decide)
  | @unicode digits rest' hlen _ hr =>
    cases hraw
    rw [List.drop_left' hlen]
    exact hr

/-- **What stands in front of a body** is read as UTF-8, and a body is left. -/
theorem unescapeAt {b : UInt8} {rest : Bytes} (h : Body (b :: rest)) :
    isUtf8 (Json.unescapeAt b rest).1 = true ∧ Body (rest.drop (Json.unescapeAt b rest).2) := by
  generalize hraw : b :: rest = raw at h
  cases h with
  | nil => cases hraw
  | plain hne hr =>
    cases hraw
    unfold Json.unescapeAt
    rw [if_neg hne]
    cases hc : charAt? b rest with
    | none => exact ⟨isUtf8_encodeChar replacement, hr⟩
    | some found =>
      obtain ⟨code, more⟩ := found
      have hs := charAt?_spells hc
      obtain ⟨-, he⟩ := hs.encodeChar_eq
      have hsplit : Body (rest.take more ++ rest.drop more) := by
        rw [List.take_append_drop]
        exact hr
      refine ⟨?_, drop (fun b' hb => ?_) hsplit⟩
      · simp only
        rw [← he]
        exact isUtf8_encodeChar code
      · rintro rfl
        exact absurd (hs.tail_ge hb) (by decide)
  | @short letter more hl hr =>
    cases hraw
    have hletters : ∀ l ∈ utf8 "\"\\/bfnrt", l ≠ 'u'.toUInt8 ∧ isUtf8 [unescapeByte l] = true := by
      decide +kernel
    obtain ⟨hu, hutf8⟩ := hletters letter hl
    unfold Json.unescapeAt
    rw [if_pos rfl]
    simp only [if_neg hu]
    exact ⟨hutf8, hr⟩
  | @unicode digits more hlen hd hr =>
    cases hraw
    unfold Json.unescapeAt
    rw [if_pos rfl]
    simp only
    rw [if_pos (by decide)]
    have hdrop : (digits ++ more).drop 4 = more := List.drop_left' hlen
    split
    · exact ⟨rfl, plain_append hd hr⟩
    · split
      · split
        · rename_i pair hpair
          refine ⟨isUtf8_encodeChar pair, ?_⟩
          rw [hdrop] at hpair
          obtain ⟨low, hlow, -⟩ := Option.bind_eq_some_iff.1 hpair
          obtain ⟨rest, rfl⟩ : ∃ rest, more = 92 :: 117 :: rest := by
            unfold unicodeEscape? at hlow
            split at hlow
            · exact ⟨_, rfl⟩
            · cases hlow
          have hleft : (117 :: (digits ++ 92 :: 117 :: rest)).drop 11 = rest.drop 4 := by
            simp [List.drop_append, hlen]
          rw [hleft]
          exact hr.drop_unicode
        · refine ⟨isUtf8_encodeChar replacement, ?_⟩
          simpa [hdrop] using hr
      · refine ⟨isUtf8_encodeChar _, ?_⟩
        simpa [hdrop] using hr

/-- **What is read between quotes** is UTF-8. -/
theorem isUtf8_unescape {raw : Bytes} (h : Body raw) : isUtf8 (unescape raw) = true := by
  -- on the length of the body, since a unit takes several bytes at once
  induction hn : raw.length using Nat.strongRecOn generalizing raw with
  | ind n ih =>
    cases raw with
    | nil => rfl
    | cons b rest =>
      obtain ⟨hfirst, hleft⟩ := h.unescapeAt
      rw [unescape_cons]
      refine isUtf8_append hfirst (ih _ ?_ hleft rfl)
      rw [List.length_cons] at hn
      rw [List.length_drop]
      omega

end Body

/-! ## Tokens -/

/-- Every string among the tokens is a body. -/
def Bodies (tokens : Array Token) : Prop := ∀ raw, .string raw ∈ tokens → Body raw

theorem Bodies.push {done : Array Token} (h : Bodies done) {t : Token}
    (ht : ∀ raw, t = .string raw → Body raw) : Bodies (done.push t) := by
  intro raw hmem
  rcases Array.mem_push.1 hmem with hmem | rfl
  · exact h raw hmem
  · exact ht raw rfl

/-- Words, numbers and marks are no strings. -/
theorem wordToken?_ne {word : Bytes} {t : Token} (h : wordToken? word = some t) (raw : Bytes) :
    t ≠ .string raw := by
  rintro rfl
  unfold wordToken? at h
  repeat' split at h
  all_goals cases h

theorem numberToken?_ne {literal : Bytes} {t : Token} (h : numberToken? literal = some t)
    (raw : Bytes) : t ≠ .string raw := by
  rintro rfl
  unfold numberToken? at h
  split at h <;> cases h

theorem mark?_ne {b : UInt8} {t : Token} (h : mark? b = some t) (raw : Bytes) :
    t ≠ .string raw := by
  rintro rfl
  unfold mark? at h
  repeat' split at h
  all_goals cases h

theorem Bodies.push_ne {done : Array Token} (h : Bodies done) {t : Token}
    (ht : ∀ raw, t ≠ .string raw) : Bodies (done.push t) :=
  h.push fun raw hraw => absurd hraw (ht raw)

/-- What has been seen of a string is a body, but for an escape that is not complete. -/
def Scan.Seen : Scan → Prop
  | .between | .word _ | .numeral _ => True
  | .quoted seen => Body seen.reverse
  | .escaped seen => ∃ before, seen = 92 :: before ∧ Body before.reverse
  | .digits more seen => ∃ ds before, seen = ds ++ 117 :: 92 :: before ∧ Body before.reverse ∧
      ds.length + more = 4 ∧ 0 < more ∧ ∀ d ∈ ds, d ≠ 92

namespace Scan

theorem begin_seen {done done' : Array Token} {b : UInt8} {scan : Scan} (h : Bodies done)
    (hb : begin done b = some (scan, done')) : scan.Seen ∧ Bodies done' := by
  unfold begin at hb
  repeat' split at hb
  · cases hb
    exact ⟨trivial, h⟩
  · cases hb
    exact ⟨.nil, h⟩
  · cases hb
    exact ⟨trivial, h⟩
  · cases hb
    exact ⟨trivial, h⟩
  · obtain ⟨t, ht, heq⟩ := Option.map_eq_some_iff.1 hb
    cases heq
    exact ⟨trivial, h.push_ne (mark?_ne ht)⟩

theorem inQuotes_seen {done done' : Array Token} {seen : Bytes} {b : UInt8} {scan : Scan}
    (h : Bodies done) (hs : Body seen.reverse)
    (hb : inQuotes done seen b = some (scan, done')) : scan.Seen ∧ Bodies done' := by
  unfold inQuotes at hb
  split at hb
  · cases hb
    refine ⟨trivial, h.push ?_⟩
    rintro raw ⟨⟩
    exact hs
  split at hb
  · rename_i hbackslash
    cases hb
    exact ⟨⟨seen, by rw [hbackslash], hs⟩, h⟩
  split at hb
  · cases hb
  · rename_i hbackslash _
    cases hb
    refine ⟨?_, h⟩
    rw [Seen, List.reverse_cons]
    exact hs.append (.plain hbackslash .nil)

theorem afterBackslash_seen {done done' : Array Token} {before : Bytes} {b : UInt8} {scan : Scan}
    (h : Bodies done) (hs : Body before.reverse)
    (hb : afterBackslash done (92 :: before) b = some (scan, done')) :
    scan.Seen ∧ Bodies done' := by
  unfold afterBackslash at hb
  split at hb
  · rename_i hu
    cases hb
    have hnone : ∀ d ∈ ([] : Bytes), d ≠ 92 := fun d hd => absurd hd List.not_mem_nil
    exact ⟨⟨[], before, by rw [hu]; rfl, hs, rfl, by decide, hnone⟩, h⟩
  split at hb
  · rename_i hletter
    cases hb
    refine ⟨?_, h⟩
    rw [Seen, List.reverse_cons, List.reverse_cons, List.append_assoc]
    exact hs.append (.short (List.contains_iff_mem.1 hletter) .nil)
  · cases hb

/-- A digit of an escape. -/
theorem digits_seen {done done' : Array Token} {seen : Bytes} {more : Nat} {b : UInt8}
    {scan : Scan} (h : Bodies done) (hs : (digits more seen).Seen)
    (hb : step (digits more seen) done b = some (scan, done')) : scan.Seen ∧ Bodies done' := by
  obtain ⟨ds, before, rfl, hbefore, hlen, hpos, hds⟩ := hs
  have hmore : isHexDigit b = true → ∀ d ∈ b :: ds, d ≠ 92 := by
    intro hhex d hd
    rcases List.mem_cons.1 hd with rfl | hd
    · rintro rfl
      exact absurd hhex (by decide)
    · exact hds d hd
  rcases more with _ | _ | more
  · exact absurd hpos (Nat.lt_irrefl 0)
  · rw [step] at hb
    split at hb
    · rename_i hhex
      cases hb
      refine ⟨?_, h⟩
      have hbody : Body (before.reverse ++ 92 :: 117 :: ((b :: ds).reverse ++ [])) := by
        refine hbefore.append (.unicode ?_ (fun d hd => ?_) .nil)
        · rw [List.length_reverse, List.length_cons, hlen]
        · exact hmore hhex d (List.mem_reverse.1 hd)
      rw [Seen]
      simpa using hbody
    · cases hb
  · rw [step] at hb
    split at hb
    · rename_i hhex
      cases hb
      refine ⟨⟨b :: ds, before, rfl, hbefore, ?_, Nat.succ_pos _, hmore hhex⟩, h⟩
      rw [List.length_cons]
      omega
    · cases hb

/-- **A byte that is taken** keeps what has been seen of a string a body. -/
theorem step_seen {scan scan' : Scan} {done done' : Array Token} {b : UInt8} (hs : scan.Seen)
    (h : Bodies done) (hb : step scan done b = some (scan', done')) :
    scan'.Seen ∧ Bodies done' := by
  cases scan with
  | between => exact begin_seen h hb
  | word seen =>
    rw [step] at hb
    split at hb
    · cases hb
      exact ⟨trivial, h⟩
    · obtain ⟨t, ht, hbegin⟩ := Option.bind_eq_some_iff.1 hb
      exact begin_seen (h.push_ne (wordToken?_ne ht)) hbegin
  | numeral seen =>
    rw [step] at hb
    split at hb
    · cases hb
      exact ⟨trivial, h⟩
    · obtain ⟨t, ht, hbegin⟩ := Option.bind_eq_some_iff.1 hb
      exact begin_seen (h.push_ne (numberToken?_ne ht)) hbegin
  | quoted seen => exact inQuotes_seen h hs hb
  | escaped seen =>
    obtain ⟨before, rfl, hbefore⟩ := hs
    exact afterBackslash_seen h hbefore hb
  | digits more seen => exact digits_seen h hs hb

theorem finish?_bodies {scan : Scan} {done tokens : Array Token} (h : Bodies done)
    (hf : scan.finish? done = some tokens) : Bodies tokens := by
  cases scan with
  | between =>
    cases hf
    exact h
  | word seen =>
    obtain ⟨t, ht, rfl⟩ := Option.map_eq_some_iff.1 hf
    exact h.push_ne (wordToken?_ne ht)
  | numeral seen =>
    obtain ⟨t, ht, rfl⟩ := Option.map_eq_some_iff.1 hf
    exact h.push_ne (numberToken?_ne ht)
  | quoted | escaped | digits => cases hf

theorem run_bodies {text : Bytes} {scan : Scan} {done tokens : Array Token} (hs : scan.Seen)
    (h : Bodies done) (hr : run scan done text = some tokens) : Bodies tokens := by
  induction text generalizing scan done with
  | nil => exact finish?_bodies h hr
  | cons b rest ih =>
    rw [run] at hr
    cases hb : step scan done b with
    | none =>
      rw [hb] at hr
      cases hr
    | some next =>
      rw [hb] at hr
      obtain ⟨hs', h'⟩ := step_seen hs h hb
      exact ih hs' h' hr

end Scan

/-- **Every string token** is a body. -/
theorem tokenize_body {text raw : Bytes} {tokens : List Token} (h : tokenize text = some tokens)
    (hr : .string raw ∈ tokens) : Body raw := by
  obtain ⟨all, hall, rfl⟩ := Option.map_eq_some_iff.1 h
  have hempty : Bodies #[] := fun raw hmem => absurd hmem (Array.not_mem_empty _)
  have hstart : Scan.between.Seen := trivial
  exact Scan.run_bodies hstart hempty hall raw (Array.mem_toList_iff.1 hr)

/-! ## Values -/

theorem mended_array {items : List Json} (h : ∀ v ∈ items, v.mended = v) :
    (Json.array items).mended = .array items := by
  rw [mended, mendedItems_eq, List.map_congr_left h, List.map_id']

theorem mended_object {members : List (Bytes × Json)}
    (h : ∀ m ∈ members, mend m.1 = m.1 ∧ m.2.mended = m.2) :
    (Json.object members).mended = .object members := by
  have hsame : ∀ m ∈ members, (mend m.1, m.2.mended) = m := fun m hm =>
    Prod.ext (h m hm).1 (h m hm).2
  rw [mended, mendedMembers_eq, List.map_congr_left hsame, List.map_id']

/-- The texts in what is open are UTF-8. -/
def Frame.IsMended : Frame → Prop
  | .array items => ∀ v ∈ items, v.mended = v
  | .object members => ∀ m ∈ members, mend m.1 = m.1 ∧ m.2.mended = m.2
  | .member members key =>
    (∀ m ∈ members, mend m.1 = m.1 ∧ m.2.mended = m.2) ∧ mend key = key

/-- The texts in what has been read, and is not in a frame yet, are UTF-8. -/
def Due.IsMended : Due → Prop
  | .colon name => mend name = name
  | .nothing v => v.mended = v
  | .value | .first | .key | .more => True

namespace Parse

/-- All texts that have been read are UTF-8. -/
structure IsMended (p : Parse) : Prop where
  stack : ∀ f ∈ p.stack, f.IsMended
  due : p.due.IsMended

theorem complete_mended {v : Json} {stack : List Frame} {depth : Nat} {q : Parse}
    (hv : v.mended = v) (hs : ∀ f ∈ stack, f.IsMended)
    (h : complete v stack depth = some q) : q.IsMended := by
  unfold complete at h
  split at h
  · cases h
    exact ⟨hs, hv⟩
  · rename_i items outer
    cases h
    obtain ⟨hitems, houter⟩ := List.forall_mem_cons.1 hs
    refine ⟨List.forall_mem_cons.2 ⟨fun w hw => ?_, houter⟩, trivial⟩
    rcases Array.mem_push.1 hw with hw | rfl
    · exact hitems w hw
    · exact hv
  · rename_i members key outer
    cases h
    obtain ⟨⟨hmembers, hkey⟩, houter⟩ := List.forall_mem_cons.1 hs
    refine ⟨List.forall_mem_cons.2 ⟨fun m hm => ?_, houter⟩, trivial⟩
    rcases Array.mem_push.1 hm with hm | rfl
    · exact hmembers m hm
    · exact ⟨hkey, hv⟩
  · cases h

theorem enter_mended {p q : Parse} {frame : Frame} (hp : p.IsMended) (hf : frame.IsMended)
    (h : p.enter frame = some q) : q.IsMended := by
  unfold enter at h
  split at h
  · cases h
    exact ⟨List.forall_mem_cons.2 ⟨hf, hp.stack⟩, trivial⟩
  · cases h

theorem takeValue_mended {p q : Parse} {t : Token} (hp : p.IsMended)
    (ht : ∀ raw, t = .string raw → Body raw) (h : p.takeValue t = some q) : q.IsMended := by
  cases t with
  | null | bool b | number literal => exact complete_mended rfl hp.stack h
  | string raw =>
    have htext := (mend_eq_self _).2 (ht raw rfl).isUtf8_unescape
    have hvalue : (Json.string (unescape raw)).mended = .string (unescape raw) :=
      congrArg Json.string htext
    exact complete_mended hvalue hp.stack h
  | openArray =>
    have hframe : (Frame.array #[]).IsMended := fun v hv => absurd hv (Array.not_mem_empty v)
    exact enter_mended hp hframe h
  | openObject =>
    have hframe : (Frame.object #[]).IsMended := fun m hm => absurd hm (Array.not_mem_empty m)
    exact enter_mended hp hframe h
  | closeArray | closeObject | comma | colon => cases h

theorem closeArray_mended {items : Array Json} {outer : List Frame} {depth : Nat} {q : Parse}
    (hs : ∀ f ∈ Frame.array items :: outer, f.IsMended)
    (h : complete (.array items.toList) outer depth = some q) : q.IsMended := by
  obtain ⟨hitems, houter⟩ := List.forall_mem_cons.1 hs
  exact complete_mended (mended_array fun v hv => hitems v (Array.mem_toList_iff.1 hv)) houter h

theorem closeObject_mended {members : Array (Bytes × Json)} {outer : List Frame} {depth : Nat}
    {q : Parse} (hs : ∀ f ∈ Frame.object members :: outer, f.IsMended)
    (h : complete (.object members.toList) outer depth = some q) : q.IsMended := by
  obtain ⟨hmembers, houter⟩ := List.forall_mem_cons.1 hs
  exact complete_mended (mended_object fun m hm => hmembers m (Array.mem_toList_iff.1 hm)) houter h

/-- **A token that is taken** adds texts that are UTF-8 only. -/
theorem take_mended {p q : Parse} {t : Token} (hp : p.IsMended)
    (ht : ∀ raw, t = .string raw → Body raw) (h : p.take t = some q) : q.IsMended := by
  have htext : ∀ raw, t = .string raw → mend (unescape raw) = unescape raw := fun raw hraw =>
    (mend_eq_self _).2 (ht raw hraw).isUtf8_unescape
  rcases p with ⟨stack, depth, due⟩
  obtain ⟨hstack, hdue⟩ := hp
  simp only [take] at h hstack hdue
  split at h
  · exact takeValue_mended ⟨hstack, hdue⟩ ht h
  · exact closeArray_mended hstack h
  · exact takeValue_mended ⟨hstack, hdue⟩ ht h
  · exact closeObject_mended hstack h
  · cases h
    exact ⟨hstack, htext _ rfl⟩
  · cases h
    exact ⟨hstack, htext _ rfl⟩
  · cases h
    obtain ⟨hmembers, houter⟩ := List.forall_mem_cons.1 hstack
    exact ⟨List.forall_mem_cons.2 ⟨⟨hmembers, hdue⟩, houter⟩, trivial⟩
  · cases h
    exact ⟨hstack, trivial⟩
  · exact closeArray_mended hstack h
  · cases h
    exact ⟨hstack, trivial⟩
  · exact closeObject_mended hstack h
  · cases h

theorem takeAll_mended {p q : Parse} {tokens : List Token} (hp : p.IsMended)
    (ht : ∀ raw, .string raw ∈ tokens → Body raw) (h : p.takeAll tokens = some q) :
    q.IsMended := by
  induction tokens generalizing p with
  | nil =>
    cases h
    exact hp
  | cons t rest ih =>
    rw [takeAll] at h
    cases htake : p.take t with
    | none =>
      rw [htake] at h
      cases h
    | some p' =>
      rw [htake] at h
      have hp' := take_mended hp (fun raw hraw => ht raw (hraw ▸ List.mem_cons_self)) htake
      exact ih hp' (fun raw hmem => ht raw (List.mem_cons_of_mem t hmem)) h

end Parse

/-- **All texts of a value that is read** are UTF-8. -/
theorem parse_mended {text : Bytes} {v : Json} (h : parse text = some v) : v.mended = v := by
  obtain ⟨tokens, htokens, hvalue⟩ := Option.bind_eq_some_iff.1 h
  obtain ⟨p, hp, hv⟩ := Option.bind_eq_some_iff.1 hvalue
  have hstart : ({} : Parse).IsMended := ⟨fun f hf => absurd hf List.not_mem_nil, trivial⟩
  have hmended := Parse.takeAll_mended hstart (fun raw hr => tokenize_body htokens hr) hp
  unfold Parse.value? at hv
  split at hv
  · rename_i w hdue
    cases hv
    have hw := hmended.due
    rw [hdue] at hw
    exact hw
  · cases hv

end Json

end Tapelang
