import Tapelang.Proofs.JsonReading

/-!
# Code that is read, written and read again

Whatever is in a text, code that is read from it is the same when it is written and read again
(`Code.read_fixed`).

* `Document.ofJson?_isRead`: the fields of a document are UTF-8 and integers of 64 bits, in whatever
  order, case and number its members stand.
* `Document.toCode_isBuilt`: the instructions of valid code that is read can be built.
* `Code.restored_eq_self`: writing and reading changes nothing about it.
-/

namespace Tapelang

open Text

/-! ## Fields -/

theorem int64?_isInt64 {literal : Bytes} {n : Int} (h : int64? literal = some n) : IsInt64 n := by
  simp only [int64?, Option.ite_none_right_eq_some, Option.some.injEq] at h
  obtain ⟨-, hfits, rfl⟩ := h
  exact hfits

theorem isInt64_zero : IsInt64 0 := by
  unfold IsInt64
  decide

theorem readText?_mended {old text : Bytes} {v : Json} (ho : mend old = old) (hv : v.mended = v)
    (h : readText? old v = some text) : mend text = text := by
  cases v with
  | null =>
    cases h
    exact ho
  | string s =>
    cases h
    exact Json.string.inj hv
  | bool | number | array | object => cases h

theorem readInt?_isInt64 {old n : Int} {v : Json} (ho : IsInt64 old)
    (h : readInt? old v = some n) : IsInt64 n := by
  cases v with
  | null =>
    cases h
    exact ho
  | number literal => exact int64?_isInt64 h
  | bool | string | array | object => cases h

theorem readOperand?_isInt64 {operand : Option Int} {v : Json}
    (h : readOperand? v = some operand) {n : Int} (hn : operand = some n) : IsInt64 n := by
  subst hn
  cases v with
  | null => cases h
  | number literal =>
    obtain ⟨k, hk, heq⟩ := Option.map_eq_some_iff.1 h
    cases heq
    exact int64?_isInt64 hk
  | bool | string | array | object => cases h

/-! ## Members -/

/-- What each member keeps, all members keep. -/
theorem foldlM_keeps {α β : Type} {P : α → Prop} {f : α → β → Option α} {bs : List β}
    (hf : ∀ b ∈ bs, ∀ a a', P a → f a b = some a' → P a') {a a' : α} (ha : P a)
    (h : bs.foldlM f a = some a') : P a' := by
  induction bs generalizing a with
  | nil =>
    cases h
    exact ha
  | cons b rest ih =>
    rw [List.foldlM_cons] at h
    obtain ⟨a₁, hb, hrest⟩ := Option.bind_eq_some_iff.1 h
    have ha₁ := hf b List.mem_cons_self a a₁ ha hb
    exact ih (fun b' hb' => hf b' (List.mem_cons_of_mem b hb')) ha₁ hrest

namespace DocumentItem

/-- The numbers of an item are integers of 64 bits. -/
structure IsRead (item : DocumentItem) : Prop where
  operand : ∀ n, item.operand = some n → IsInt64 n
  line : IsInt64 item.line
  column : IsInt64 item.column

theorem isRead_default : ({} : DocumentItem).IsRead where
  operand n hn := by cases hn
  line := isInt64_zero
  column := isInt64_zero

theorem readMember?_isRead {item item' : DocumentItem} {key : Bytes} {v : Json}
    (hi : item.IsRead) (h : item.readMember? key v = some item') : item'.IsRead := by
  unfold readMember? at h
  split at h
  · obtain ⟨op, -, rfl⟩ := Option.map_eq_some_iff.1 h
    exact ⟨hi.operand, hi.line, hi.column⟩
  split at h
  · obtain ⟨operand, hread, rfl⟩ := Option.map_eq_some_iff.1 h
    exact ⟨fun n hn => readOperand?_isInt64 hread hn, hi.line, hi.column⟩
  split at h
  · obtain ⟨line, hread, rfl⟩ := Option.map_eq_some_iff.1 h
    exact ⟨hi.operand, readInt?_isInt64 hi.line hread, hi.column⟩
  split at h
  · obtain ⟨column, hread, rfl⟩ := Option.map_eq_some_iff.1 h
    exact ⟨hi.operand, hi.line, readInt?_isInt64 hi.column hread⟩
  · cases h
    exact hi

theorem read?_isRead {item item' : DocumentItem} {v : Json} (hi : item.IsRead)
    (h : item.read? v = some item') : item'.IsRead := by
  cases v with
  | null =>
    cases h
    exact hi
  | object members =>
    exact foldlM_keeps (fun _ _ _ _ ha hread => readMember?_isRead ha hread) hi h
  | bool | number | string | array => cases h

theorem readAll?_isRead {items items' : List DocumentItem} {vs : List Json}
    (hi : ∀ item ∈ items, item.IsRead) (h : readAll? items vs = some items') :
    ∀ item ∈ items', item.IsRead := by
  induction vs generalizing items items' with
  | nil =>
    cases h
    exact hi
  | cons v rest ih =>
    rw [readAll?] at h
    obtain ⟨item, hitem, h⟩ := Option.bind_eq_some_iff.1 h
    obtain ⟨more, hmore, h⟩ := Option.bind_eq_some_iff.1 h
    cases h
    have hfirst : (items.headD {}).IsRead := by
      cases items with
      | nil => exact isRead_default
      | cons first _ => exact hi first List.mem_cons_self
    have hrest := ih (fun item hitem => hi item (List.mem_of_mem_tail hitem)) hmore
    exact List.forall_mem_cons.2 ⟨read?_isRead hfirst hitem, hrest⟩

end DocumentItem

namespace Document

/-- The texts of a document are UTF-8, and its numbers integers of 64 bits. -/
structure IsRead (d : Document) : Prop where
  name : mend d.name = d.name
  filename : mend d.filename = d.filename
  items : ∀ item ∈ d.items, item.IsRead

theorem readItems?_isRead {d d' : Document} {v : Json} (hd : d.IsRead)
    (h : d.readItems? v = some d') : d'.IsRead := by
  unfold readItems? at h
  split at h
  · cases h
    exact ⟨hd.name, hd.filename, fun _ hmem => absurd hmem List.not_mem_nil⟩
  · cases h
    exact ⟨hd.name, hd.filename, fun _ hmem => absurd hmem List.not_mem_nil⟩
  · obtain ⟨items, hitems, rfl⟩ := Option.map_eq_some_iff.1 h
    exact ⟨hd.name, hd.filename, DocumentItem.readAll?_isRead hd.items hitems⟩
  · cases h

theorem readMember?_isRead {d d' : Document} {key : Bytes} {v : Json} (hd : d.IsRead)
    (hv : v.mended = v) (h : d.readMember? key v = some d') : d'.IsRead := by
  unfold readMember? at h
  split at h
  · obtain ⟨name, hread, rfl⟩ := Option.map_eq_some_iff.1 h
    exact ⟨readText?_mended hd.name hv hread, hd.filename, hd.items⟩
  split at h
  · obtain ⟨filename, hread, rfl⟩ := Option.map_eq_some_iff.1 h
    exact ⟨hd.name, readText?_mended hd.filename hv hread, hd.items⟩
  split at h
  · exact readItems?_isRead hd h
  · cases h
    exact hd

/-- **The fields of a document** that is read are UTF-8 and integers of 64 bits. -/
theorem ofJson?_isRead {v : Json} {d : Document} (hv : v.mended = v) (h : ofJson? v = some d) :
    d.IsRead := by
  have hempty : ({} : Document).IsRead :=
    ⟨rfl, rfl, fun _ hmem => absurd hmem List.not_mem_nil⟩
  cases v with
  | null =>
    cases h
    exact hempty
  | object members =>
    rw [Json.mended, Json.mendedMembers_eq, Json.object.injEq] at hv
    have hmembers := List.map_inj_left.1 (hv.trans (List.map_id' members).symm)
    refine foldlM_keeps (fun m hm a a' ha hread => ?_) hempty h
    exact readMember?_isRead ha (congrArg Prod.snd (hmembers m hm)) hread
  | bool | number | string | array => cases h

end Document

/-! ## Instructions -/

/-- An instruction that is read has no operand that means nothing. -/
theorem DocumentItem.instruction_shown {item : DocumentItem} {index : Nat} {i : Instruction}
    (hi : item.IsRead) (h : item.instruction index = .ok i) :
    i.shown = i ∧ IsInt64 i.operand := by
  unfold instruction at h
  split at h
  · cases h
  · rename_i o _
    split at h
    · rename_i hk
      cases h
      rw [Instruction.shown_eq (Instruction.opcode?_of o 0), if_pos hk]
      exact ⟨rfl, isInt64_zero⟩
    · rename_i hk
      split at h
      · cases h
      · rename_i n hn
        cases h
        rw [Instruction.shown_eq (Instruction.opcode?_of o n), if_neg hk]
        exact ⟨rfl, hi.operand n hn⟩

theorem Document.instructions_ok {items : List DocumentItem} {index : Nat}
    {is : List Instruction} (h : instructions index items = .ok is) :
    is.length = items.length ∧
      ∀ i ∈ is, ∃ item ∈ items, ∃ k, item.instruction k = .ok i := by
  induction items generalizing index is with
  | nil =>
    cases h
    exact ⟨rfl, fun _ hmem => absurd hmem List.not_mem_nil⟩
  | cons item rest ih =>
    rw [instructions] at h
    cases hi : item.instruction index with
    | error e =>
      rw [hi] at h
      cases h
    | ok i =>
      cases hm : instructions (index + 1) rest with
      | error e =>
        rw [hi, hm] at h
        cases h
      | ok more =>
        rw [hi, hm] at h
        cases h
        obtain ⟨hlength, hmore⟩ := ih hm
        refine ⟨by rw [List.length_cons, List.length_cons, hlength], fun j hj => ?_⟩
        rcases List.mem_cons.1 hj with rfl | hj
        · exact ⟨item, List.mem_cons_self, index, hi⟩
        · obtain ⟨item', hmem, hread⟩ := hmore j hj
          exact ⟨item', List.mem_cons_of_mem item hmem, hread⟩

/-- Instructions of valid code can be built, but for operands that mean nothing and targets that are
too large. -/
theorem Code.IsValid.isBuilt_of_target {c : Code} (h : c.IsValid) {i : Instruction}
    (hi : i ∈ c.instructions) (hs : i.shown = i)
    (hint : i.kind = .target → IsInt64 i.operand) : i.IsBuilt := by
  obtain ⟨trees, ht⟩ := h.trees
  have hmem : i ∈ LoopTree.flattenAll 0 trees ++ [.finish] := by
    rw [← ht]
    exact List.mem_map.2 ⟨i, Array.mem_toList_iff.2 hi, hs⟩
  rcases List.mem_append.1 hmem with hmem | hmem
  · obtain ⟨k, hk⟩ := List.getElem?_of_mem hmem
    have hlt := (List.getElem?_eq_some_iff.1 hk).1
    rcases (LoopTree.spot_flattenAll trees hlt).get hlt with ⟨tree, j, hj, hget⟩ | ⟨target, -, hget⟩
    · cases hk.symm.trans hget
      cases tree with
      | addByte n => cases hj; exact .addByte n
      | subByte n => cases hj; exact .subByte n
      | addPointer n => cases hj; exact .addPointer n
      | subPointer n => cases hj; exact .subPointer n
      | write => cases hj; exact .write
      | read => cases hj; exact .read
      | loop body => cases hj
    · rw [hk, Option.some.injEq, Option.some.injEq] at hget
      rcases hget with rfl | rfl
      · exact .jumpIfZero (hint rfl)
      · exact .jump (hint rfl)
  · rw [List.mem_singleton.1 hmem]
    exact .finish

theorem Code.IsValid.isBuilt {c : Code} (h : c.IsValid) {i : Instruction}
    (hi : i ∈ c.instructions) (hs : i.shown = i) (hint : IsInt64 i.operand) : i.IsBuilt :=
  h.isBuilt_of_target hi hs fun _ => hint

/-! ## Source maps -/

theorem Position.isUnknown_iff {p : Position} : p.isUnknown = true ↔ p = .unknown := by
  rcases p with ⟨line, column⟩
  simp [isUnknown, unknown]

namespace Code

theorem locationAt_eq (c : Code) (k : Nat) : c.locationAt k = (c.locations[k]?).getD .unknown := by
  rw [locationAt, if_neg (by omega), Int.toNat_natCast]

/-- A source map is known by its size and by the positions that it gives. -/
theorem locations_ext {c c' : Code} (hsize : c.locations.size = c'.locations.size)
    (h : ∀ k : Nat, k < c.locations.size → c.locationAt k = c'.locationAt k) :
    c.locations = c'.locations := by
  apply Array.ext hsize
  intro k hk hk'
  have hat := h k hk
  rw [locationAt_eq, locationAt_eq, Array.getElem?_eq_getElem hk, Array.getElem?_eq_getElem hk']
    at hat
  exact hat

/-- There is a source map for all instructions, or none because no position is known. -/
structure HasWholeMap (c : Code) : Prop where
  size : c.locations.size = 0 ∨ c.locations.size = c.size
  unknown : c.locations.size = 0 ↔ ∀ k : Nat, k < c.size → c.locationAt k = .unknown

/-- **Code that is written and read again** is the same if its texts are UTF-8, its instructions can
be built and its source map is whole. -/
theorem restored_eq_self {c : Code} (hname : mend c.name = c.name)
    (hfile : mend c.filename = c.filename) (hi : ∀ i ∈ c.instructions, i.IsBuilt)
    (hmap : c.HasWholeMap) : c.restored = c := by
  obtain ⟨hall, hnone⟩ := size_locations_restored c
  have hsize : c.restored.locations.size = c.locations.size := by
    by_cases h : ∀ k : Nat, k < c.size → c.locationAt k = .unknown
    · rw [hnone h, hmap.unknown.2 h]
    · have hfull : c.locations.size = c.size :=
        hmap.size.resolve_left fun h0 => h (hmap.unknown.1 h0)
      simp only [Classical.not_forall, exists_prop] at h
      rw [hall h, hfull]
  have hlocations : c.restored.locations = c.locations := by
    refine locations_ext hsize fun k hk => locationAt_restored c ?_
    rw [hsize] at hk
    rcases hmap.size with h | h <;> omega
  have hinstructions := instructions_restored hi
  rcases c with ⟨name, filename, instructions, locations⟩
  simp only [restored] at hlocations hinstructions ⊢
  rw [hlocations, hinstructions, hname, hfile]

end Code

/-! ## Code that is read -/

namespace Document

variable {d : Document} {c : Code}

/-- What the code of a document takes from it. -/
theorem toCode_ok (h : d.toCode = .ok c) :
    c.name = d.name ∧ c.filename = d.filename ∧
      (∃ is, instructions 0 (d.items.take d.count) = .ok is ∧ c.instructions = is.toArray) ∧
      c.locations = (if (d.items.take d.count).any fun item => !item.position.isUnknown then
        (d.items.take d.count).map DocumentItem.position else []).toArray := by
  unfold toCode at h
  cases his : instructions 0 (d.items.take d.count) with
  | error e =>
    simp only [his] at h
    cases h
  | ok is =>
    simp only [his] at h
    cases h
    exact ⟨rfl, rfl, ⟨is, rfl, rfl⟩, rfl⟩

/-- **The source map of a document** is whole. -/
theorem toCode_hasWholeMap (h : d.toCode = .ok c) : c.HasWholeMap := by
  obtain ⟨-, -, ⟨is, his, hinstructions⟩, hlocations⟩ := toCode_ok h
  have hsize : c.size = (d.items.take d.count).length := by
    rw [Code.size, hinstructions, List.size_toArray, (instructions_ok his).1]
  split at hlocations
  · rename_i hknown
    obtain ⟨item, hmem, hitem⟩ := List.any_eq_true.1 hknown
    obtain ⟨k, hk⟩ := List.getElem?_of_mem hmem
    have hlt := (List.getElem?_eq_some_iff.1 hk).1
    have hfull : c.locations.size = c.size := by
      rw [hlocations, List.size_toArray, List.length_map, hsize]
    have hat : c.locationAt k ≠ .unknown := by
      rw [Code.locationAt_eq, hlocations, List.getElem?_toArray, List.getElem?_map, hk]
      intro hunknown
      have hunknown : item.position = .unknown := hunknown
      rw [Position.isUnknown_iff.2 hunknown] at hitem
      cases hitem
    refine ⟨.inr hfull, fun h0 => ?_, fun hall => absurd (hall k (by omega)) hat⟩
    omega
  · have hnone : c.locations.size = 0 := by
      rw [hlocations]
      rfl
    refine ⟨.inl hnone, fun _ k _ => ?_, fun _ => hnone⟩
    rw [Code.locationAt_eq, hlocations]
    rfl

theorem toCode_isInt64 (hd : d.IsRead) (h : d.toCode = .ok c) :
    (∀ i ∈ c.instructions, i.shown = i ∧ IsInt64 i.operand) ∧
      ∀ p ∈ c.locations, p.IsInt64 := by
  obtain ⟨-, -, ⟨is, his, hinstructions⟩, hlocations⟩ := toCode_ok h
  have hitem : ∀ item ∈ d.items.take d.count, item.IsRead := fun item hmem =>
    hd.items item (List.mem_of_mem_take hmem)
  constructor
  · intro i hi
    rw [hinstructions, List.mem_toArray] at hi
    obtain ⟨item, hmem, k, hread⟩ := (instructions_ok his).2 i hi
    exact DocumentItem.instruction_shown (hitem item hmem) hread
  · intro p hp
    rw [hlocations, List.mem_toArray] at hp
    split at hp
    · obtain ⟨item, hmem, rfl⟩ := List.mem_map.1 hp
      exact ⟨(hitem item hmem).line, (hitem item hmem).column⟩
    · cases hp

end Document

namespace Code

theorem read_ok {text : Bytes} {c : Code} (h : read text = .ok c) :
    ∃ d : Document, d.IsRead ∧ d.toCode = .ok c ∧ c.IsValid := by
  unfold read at h
  cases hparse : Json.parse text with
  | none =>
    rw [hparse] at h
    cases h
  | some v =>
    rw [hparse] at h
    simp only [ofJson] at h
    cases hd : Document.ofJson? v with
    | none =>
      rw [hd] at h
      cases h
    | some d =>
      have hread := Document.ofJson?_isRead (Json.parse_mended hparse) hd
      rw [hd] at h
      cases hc : d.toCode with
      | error e =>
        simp only [hc] at h
        cases h
      | ok c' =>
        simp only [hc] at h
        cases hv : c'.validate with
        | error e =>
          rw [hv] at h
          cases h
        | ok u =>
          rw [hv] at h
          cases h
          exact ⟨d, hread, hc, hv⟩

/-- **Whatever is read is valid and stays the same.** Code that is read from any text is valid, has
a position for every instruction or, exactly if none of them is known, no source map, and is read as
it is when it has been written. -/
theorem read_fixed {text : Bytes} {c : Code} (h : read text = .ok c) :
    c.IsValid ∧ (c.locations.size = 0 ∨ c.locations.size = c.size) ∧
      (c.locations.size = 0 ↔ ∀ k : Nat, k < c.size → c.locationAt k = .unknown) ∧
      read c.write = .ok c := by
  obtain ⟨d, hd, hc, hv⟩ := read_ok h
  obtain ⟨hname, hfile, -⟩ := Document.toCode_ok hc
  obtain ⟨hshown, hpositions⟩ := Document.toCode_isInt64 hd hc
  have hmap := Document.toCode_hasWholeMap hc
  have hbuilt : ∀ i ∈ c.instructions, i.IsBuilt := fun i hi =>
    hv.isBuilt hi (hshown i hi).1 (hshown i hi).2
  have halone : ({ instructions := c.instructions } : Code).IsValid := by
    rw [IsValid, ← validate_locations hmap.size]
    exact hv
  have hsame := restored_eq_self (hname ▸ hd.name) (hfile ▸ hd.filename) hbuilt hmap
  refine ⟨hv, hmap.size, hmap.unknown, ?_⟩
  exact (read_write_eq hbuilt hpositions c).2 ⟨halone, hsame.symm⟩

/-- Keys in another case, half of a surrogate pair and an operand that means nothing. -/
theorem read_fixed_odd : ∃ c,
    read (utf8 "\x7b\"Name\":\"\\ud800\",\"instructions\":[\x7b\"OP\":\"END\",\"operand\":7\x7d]\x7d") =
      .ok c ∧ c.name = [0xef, 0xbf, 0xbd] ∧ c.locations.size = 0 ∧ c.IsValid ∧
      read c.write = .ok c := by
  generalize htext : utf8
    "\x7b\"Name\":\"\\ud800\",\"instructions\":[\x7b\"OP\":\"END\",\"operand\":7\x7d]\x7d" = text
  have hfields : (read text).toOption.map (fun c => (c.name, c.locations.size)) =
      some ([0xef, 0xbf, 0xbd], 0) := by
    rw [← htext]
    decide +kernel
  cases hread : read text with
  | error e =>
    rw [hread] at hfields
    cases hfields
  | ok c =>
    rw [hread] at hfields
    obtain ⟨hname, hsize⟩ := Prod.mk.inj (Option.some.inj hfields)
    obtain ⟨hvalid, -, -, hagain⟩ := read_fixed hread
    exact ⟨c, rfl, hname, hsize, hvalid, hagain⟩

end Code

end Tapelang
