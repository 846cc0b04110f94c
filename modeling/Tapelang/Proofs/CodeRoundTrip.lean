import Tapelang.Proofs.SafeRuns
import Tapelang.Proofs.JsonRoundTrip
import Tapelang.Proofs.Numerals

/-!
# Code that is written and read again

* `Instruction.read?_toJson`: an instruction in a document is read with its name, operand and
  position.
* `Document.ofJson?_toJson`: the document of code is read with all its fields, the texts mended.
* `Code.toCode_document`: it gives the instructions back exactly if all of them have an operation.
* `Code.read_of_parse`: what is read is `Code.restored`, if the instructions alone are valid.
* `Code.read_write`: what that means for everything that code shows.
-/

namespace Tapelang

open Text

/-! ## What can be built -/

/-- The instructions that there are constructors for, and the one that is no instruction. -/
inductive Instruction.IsBuilt : Instruction → Prop
  | addByte (n : UInt8) : IsBuilt (.addByte n)
  | subByte (n : UInt8) : IsBuilt (.subByte n)
  | addPointer (n : UInt16) : IsBuilt (.addPointer n)
  | subPointer (n : UInt16) : IsBuilt (.subPointer n)
  | write : IsBuilt .write
  | read : IsBuilt .read
  | jumpIfZero {target : Int} : IsInt64 target → IsBuilt (.jumpIfZero target)
  | jump {target : Int} : IsInt64 target → IsBuilt (.jump target)
  | finish : IsBuilt .finish
  | none : IsBuilt {}

theorem Instruction.IsBuilt.shown {i : Instruction} (h : i.IsBuilt) : i.shown = i := by
  cases h <;> rfl

theorem Instruction.IsBuilt.isInt64 {i : Instruction} (h : i.IsBuilt) : IsInt64 i.operand := by
  have hsmall : ∀ {n : Nat}, n < 65536 → IsInt64 n := by
    intro n hn
    unfold IsInt64
    omega
  cases h with
  | addByte n | subByte n => exact hsmall (Nat.lt_trans n.toNat_lt (by decide))
  | addPointer n | subPointer n => exact hsmall n.toNat_lt
  | jumpIfZero h | jump h => exact h
  | write | read | finish | none => exact hsmall (n := 0) (by decide)

/-- Line and column are integers of 64 bits. -/
def Position.IsInt64 (p : Position) : Prop := Tapelang.IsInt64 p.line ∧ Tapelang.IsInt64 p.column

theorem Position.isInt64_unknown : Position.unknown.IsInt64 := by
  constructor <;> constructor <;> decide

/-! ## Optional members -/

namespace Json

theorem mendedMembers_eq (members : List (Bytes × Json)) :
    mendedMembers members = members.map fun m => (mend m.1, m.2.mended) := by
  induction members with
  | nil => rfl
  | cons m rest ih => rw [mendedMembers, ih, List.map_cons]

theorem mendedItems_eq (items : List Json) : mendedItems items = items.map mended := by
  induction items with
  | nil => rfl
  | cons v rest ih => rw [mendedItems, ih, List.map_cons]

theorem fitsMembers_iff {members : List (Bytes × Json)} {room : Nat} :
    FitsMembers members room ↔ ∀ m ∈ members, m.2.Fits room := by
  induction members with
  | nil => simp [FitsMembers]
  | cons m rest ih => simp [FitsMembers, ih]

theorem fitsItems_iff {items : List Json} {room : Nat} :
    FitsItems items room ↔ ∀ v ∈ items, v.Fits room := by
  induction items with
  | nil => simp [FitsItems]
  | cons v rest ih => simp [FitsItems, ih]

theorem fits_int (n : Int) (room : Nat) : (int n).Fits room := by
  rw [int, Fits]
  obtain ⟨hnumeral, hne⟩ := signed_numeral n
  exact ⟨hne, hnumeral, isNumber_signed n⟩

theorem fits_ofMembers {members : List (Option (Bytes × Json))} {room : Nat} (hr : 0 < room)
    (h : ∀ m, some m ∈ members → m.2.Fits (room - 1)) : (ofMembers members).Fits room := by
  rw [ofMembers, Fits, fitsMembers_iff]
  refine ⟨hr, fun m hm => h m ?_⟩
  obtain ⟨member, hmember, rfl⟩ := List.mem_filterMap.1 hm
  exact hmember

theorem fits_intMember {key : String} {n : Int} {m : Bytes × Json}
    (h : intMember key n = some m) (room : Nat) : m.2.Fits room := by
  unfold intMember at h
  split at h <;> cases h
  exact fits_int n room

theorem fits_textMember {key : String} {text : Bytes} {m : Bytes × Json}
    (h : textMember key text = some m) (room : Nat) : m.2.Fits room := by
  unfold textMember at h
  split at h <;> cases h
  exact trivial

/-- Reads one member more, if it is present. -/
def readPresent {α : Type} (read : α → Bytes → Json → Option α) (a : α)
    (member : Option (Bytes × Json)) : Option α :=
  match member with
  | none => some a
  | some (key, v) => read a (mend key) v.mended

theorem readPresent_textMember {α : Type} {read : α → Bytes → Json → Option α} {a : α}
    {key : String} {text : Bytes} (set : Bytes → α) (h : set [] = a)
    (hread : read a (mend (utf8 key)) (.string (mend text)) = some (set (mend text))) :
    readPresent read a (textMember key text) = some (set (mend text)) := by
  unfold textMember
  split
  · rename_i he
    rw [List.isEmpty_iff.1 he, show mend [] = [] from rfl, h]
    rfl
  · exact hread

theorem readPresent_intMember {α : Type} {read : α → Bytes → Json → Option α} {a : α}
    {key : String} {n : Int} (set : Int → α) (h : set 0 = a)
    (hread : read a (mend (utf8 key)) (.int n) = some (set n)) :
    readPresent read a (intMember key n) = some (set n) := by
  unfold intMember
  split
  · rename_i hn
    rw [hn, h]
    rfl
  · exact hread

/-- The members that are present are read one after the other. -/
theorem foldlM_mended {α : Type} (read : α → Bytes → Json → Option α) (a : α)
    (members : List (Option (Bytes × Json))) :
    (mendedMembers (members.filterMap id)).foldlM (fun a (key, v) => read a key v) a =
      members.foldlM (readPresent read) a := by
  rw [mendedMembers_eq, List.foldlM_map, List.foldlM_filterMap]
  congr 1
  funext a member
  cases member <;> rfl

end Json

/-! ## Instructions -/

/-- The item of a document that an instruction is written as. -/
def Instruction.item (i : Instruction) (p : Position) : DocumentItem :=
  { op := i.name, operand := i.operand?, line := p.line, column := p.column }

theorem mend_opcodeName (b : UInt8) : mend (opcodeName b) = opcodeName b := by
  unfold opcodeName
  split
  · rename_i o _
    cases o <;> decide
  · decide

theorem readInt?_int (old : Int) {n : Int} (h : IsInt64 n) : readInt? old (.int n) = some n :=
  int64?_signed h

namespace DocumentItem

theorem read_op (item : DocumentItem) (text : Bytes) :
    Json.readPresent readMember? item (some (utf8 "op", .string text)) =
      some { item with op := mend text } := rfl

theorem read_operand {item : DocumentItem} (ho : item.operand = none) {operand : Option Int}
    (h : ∀ n, operand = some n → IsInt64 n) :
    Json.readPresent readMember? item (operand.map fun n => (utf8 "operand", .int n)) =
      some { item with operand } := by
  cases operand with
  | none =>
    have hitem : { item with operand := none } = item := by rw [← ho]
    rw [hitem]
    rfl
  | some n =>
    have hread : readOperand? (.int n) = some (some n) := by
      simp [readOperand?, Json.int, int64?_signed (h n rfl)]
    have hm : readMember? item (mend (utf8 "operand")) (.int n) =
        (readOperand? (.int n)).map ({ item with operand := · }) := rfl
    exact hm.trans (by rw [hread]; rfl)

theorem read_line {item : DocumentItem} (hl : item.line = 0) {n : Int} (h : IsInt64 n) :
    Json.readPresent readMember? item (intMember "line" n) = some { item with line := n } := by
  have hm : readMember? item (mend (utf8 "line")) (.int n) =
      (readInt? item.line (.int n)).map ({ item with line := · }) := rfl
  rw [readInt?_int _ h] at hm
  exact Json.readPresent_intMember ({ item with line := · }) (by rw [← hl]) hm

theorem read_column {item : DocumentItem} (hc : item.column = 0) {n : Int} (h : IsInt64 n) :
    Json.readPresent readMember? item (intMember "column" n) = some { item with column := n } := by
  have hm : readMember? item (mend (utf8 "column")) (.int n) =
      (readInt? item.column (.int n)).map ({ item with column := · }) := rfl
  rw [readInt?_int _ h] at hm
  exact Json.readPresent_intMember ({ item with column := · }) (by rw [← hc]) hm

end DocumentItem

/-- **An instruction in a document** is read as it was written. -/
theorem Instruction.read?_toJson {i : Instruction} {p : Position} (hi : IsInt64 i.operand)
    (hp : p.IsInt64) : DocumentItem.read? {} (i.toJson p).mended = some (i.item p) := by
  have hoperand : ∀ n, i.operand? = some n → IsInt64 n := by
    intro n hn
    unfold operand? at hn
    split at hn <;> cases hn
    exact hi
  rw [toJson, Json.ofMembers, Json.mended, DocumentItem.read?, Json.foldlM_mended]
  simp only [List.foldlM_cons, List.foldlM_nil, DocumentItem.read_op, Option.bind_eq_bind,
    Option.bind_some]
  rw [DocumentItem.read_operand rfl hoperand, Option.bind_some, DocumentItem.read_line rfl hp.1,
    Option.bind_some, DocumentItem.read_column rfl hp.2, Option.bind_some]
  simp [item, name, mend_opcodeName]

theorem Instruction.fits_toJson (i : Instruction) (p : Position) {room : Nat} (hr : 0 < room) :
    (i.toJson p).Fits room := by
  refine Json.fits_ofMembers hr fun m hm => ?_
  simp only [List.mem_cons, List.not_mem_nil, or_false] at hm
  rcases hm with hm | hm | hm | hm
  · cases hm
    exact trivial
  · obtain ⟨n, -, rfl⟩ := Option.map_eq_some_iff.1 hm.symm
    exact Json.fits_int n _
  · exact Json.fits_intMember hm.symm _
  · exact Json.fits_intMember hm.symm _

/-! ## Documents -/

/-- The document that code is written as. -/
def Code.document (c : Code) : Document :=
  { name := mend c.name, filename := mend c.filename
    items := c.placed.map fun (i, p) => i.item p, count := c.placed.length }

namespace Document

theorem read_name {d : Document} (h : d.name = []) (text : Bytes) :
    Json.readPresent readMember? d (textMember "name" text) =
      some { d with name := mend text } :=
  Json.readPresent_textMember ({ d with name := · }) (by rw [← h]) rfl

theorem read_filename {d : Document} (h : d.filename = []) (text : Bytes) :
    Json.readPresent readMember? d (textMember "filename" text) =
      some { d with filename := mend text } :=
  Json.readPresent_textMember ({ d with filename := · }) (by rw [← h]) rfl

theorem readAll?_placed {placed : List (Instruction × Position)}
    (h : ∀ ip ∈ placed, IsInt64 ip.1.operand ∧ ip.2.IsInt64) :
    DocumentItem.readAll? [] (placed.map fun (i, p) => (i.toJson p).mended) =
      some (placed.map fun (i, p) => i.item p) := by
  induction placed with
  | nil => rfl
  | cons ip rest ih =>
    obtain ⟨hi, hp⟩ := h ip List.mem_cons_self
    rw [List.map_cons, DocumentItem.readAll?, List.headD_nil, Instruction.read?_toJson hi hp,
      List.tail_nil, ih fun ip' hip' => h ip' (List.mem_cons_of_mem ip hip')]
    rfl

theorem read_instructions {d : Document} (hd : d.items = [])
    {placed : List (Instruction × Position)}
    (h : ∀ ip ∈ placed, IsInt64 ip.1.operand ∧ ip.2.IsInt64) :
    Json.readPresent readMember? d
        (some (utf8 "instructions", .array (placed.map fun (i, p) => i.toJson p))) =
      some { d with items := placed.map fun (i, p) => i.item p, count := placed.length } := by
  have hm : ∀ v, readMember? d (mend (utf8 "instructions")) v = d.readItems? v := fun _ => rfl
  rw [Json.readPresent, hm, Json.mended, Json.mendedItems_eq, List.map_map]
  have hall := readAll?_placed h
  cases placed with
  | nil => rfl
  | cons ip rest =>
    rw [← hd] at hall
    have hitems : ∀ v vs, d.readItems? (.array (v :: vs)) =
        (DocumentItem.readAll? d.items (v :: vs)).map
          fun items => { d with items, count := (v :: vs).length } := fun _ _ => rfl
    rw [List.map_cons, hitems]
    rw [List.map_cons] at hall
    simp only [Function.comp_def]
    rw [hall]
    simp

end Document

/-- The instructions of code are placed at integers of 64 bits. -/
theorem Code.placed_isInt64 {c : Code} (hi : ∀ i ∈ c.instructions, IsInt64 i.operand)
    (hl : ∀ p ∈ c.locations, p.IsInt64) :
    ∀ ip ∈ c.placed, IsInt64 ip.1.operand ∧ ip.2.IsInt64 := by
  intro ip hip
  simp only [placed, List.mem_map] at hip
  obtain ⟨⟨i, k⟩, hmem, rfl⟩ := hip
  refine ⟨hi i (Array.mem_toList_iff.1 (List.fst_mem_of_mem_zipIdx hmem)), ?_⟩
  simp only [locationAt]
  rw [if_neg (by omega), Int.toNat_natCast]
  cases hk : c.locations[k]? with
  | none => exact Position.isInt64_unknown
  | some p => exact hl p (Array.mem_of_getElem? hk)

/-- The document of code is a value that can be read again. -/
theorem Code.fits_toJson (c : Code) : c.toJson.Fits Json.maxDepth := by
  refine Json.fits_ofMembers (by decide) fun m hm => ?_
  simp only [List.mem_cons, List.not_mem_nil, or_false] at hm
  rcases hm with hm | hm | hm
  · exact Json.fits_textMember hm.symm _
  · exact Json.fits_textMember hm.symm _
  · cases hm
    rw [Json.Fits, Json.fitsItems_iff]
    refine ⟨by decide, fun v hv => ?_⟩
    obtain ⟨⟨i, p⟩, -, rfl⟩ := List.mem_map.1 hv
    exact i.fits_toJson p (by decide)

/-- **The document of code** is read as it was written, its texts mended. -/
theorem Document.ofJson?_toJson {c : Code} (hi : ∀ i ∈ c.instructions, IsInt64 i.operand)
    (hl : ∀ p ∈ c.locations, p.IsInt64) :
    Document.ofJson? c.toJson.mended = some c.document := by
  rw [Code.toJson, Json.ofMembers, Json.mended, ofJson?, Json.foldlM_mended]
  simp only [List.foldlM_cons, List.foldlM_nil, Option.bind_eq_bind]
  rw [read_name rfl, Option.bind_some, read_filename rfl, Option.bind_some,
    read_instructions rfl (Code.placed_isInt64 hi hl), Option.bind_some]
  rfl

/-! ## Code -/

namespace Code

theorem placed_fst (c : Code) : c.placed.map Prod.fst = c.instructions.toList := by
  simp [placed, Function.comp_def]

theorem placed_getElem? (c : Code) (k : Nat) :
    c.placed[k]? = c.instructions[k]?.map fun i => (i, c.locationAt k) := by
  simp [placed, Function.comp_def]

theorem length_placed (c : Code) : c.placed.length = c.size := by
  simp [placed, size]

end Code

/-- An instruction is read from its item if it has an operation, and then as it is shown. -/
theorem Instruction.instruction_item (i : Instruction) (p : Position) (index : Nat) :
    (i.item p).instruction index =
      if i.opcode?.isSome then .ok i.shown else .error (.unknownName i.name index) := by
  cases ho : i.opcode? with
  | none =>
    have hname : i.name = utf8 "INVALID" := by
      unfold opcode? at ho
      rw [name, opcodeName, ho]
    have hnone : Opcode.ofName? (utf8 "INVALID") = none := by decide
    simp only [DocumentItem.instruction, item, hname, hnone]
    rfl
  | some o =>
    have hname : i.name = o.name := by
      unfold opcode? at ho
      rw [name, opcodeName, ho]
    simp only [DocumentItem.instruction, item, hname, Opcode.ofName?_name, Option.isSome_some,
      if_true, shown_eq ho]
    by_cases hk : o.operandKind = .none
    · simp [hk]
    · simp [hk, operand?, kind_of_opcode? ho]

/-- The instructions of items are read exactly if all of them have an operation. -/
theorem Document.instructions_items (placed : List (Instruction × Position)) (index : Nat)
    (is : List Instruction) :
    instructions index (placed.map fun (i, p) => i.item p) = .ok is ↔
      (∀ ip ∈ placed, ip.1.opcode?.isSome = true) ∧ is = placed.map fun ip => ip.1.shown := by
  induction placed generalizing index is with
  | nil =>
    constructor
    · intro h
      cases h
      exact ⟨fun _ h => (List.not_mem_nil h).elim, rfl⟩
    · rintro ⟨-, rfl⟩
      rfl
  | cons ip rest ih =>
    rw [List.map_cons, instructions, Instruction.instruction_item]
    by_cases hk : ip.1.opcode?.isSome = true
    · rw [if_pos hk]
      have hrest := ih (index + 1)
      cases hr : instructions (index + 1) (rest.map fun (i, p) => i.item p) with
      | error e =>
        rw [hr] at hrest
        simp only [reduceCtorEq, false_iff, not_and] at hrest
        constructor
        · intro h
          cases h
        · rintro ⟨hall, -⟩
          exact absurd rfl (hrest _ fun ip' h => hall ip' (List.mem_cons_of_mem ip h))
      | ok more =>
        rw [hr] at hrest
        obtain ⟨hknown, hmore⟩ := (hrest more).1 rfl
        have hdo : (do
            let i ← (.ok ip.1.shown : Except DocumentError Instruction)
            let more ← (.ok more : Except DocumentError (List Instruction))
            return i :: more) = .ok (ip.1.shown :: more) := rfl
        rw [hdo, Except.ok.injEq, List.map_cons, ← hmore]
        constructor
        · rintro rfl
          refine ⟨fun ip' h => ?_, rfl⟩
          rcases List.mem_cons.1 h with rfl | h
          · exact hk
          · exact hknown ip' h
        · rintro ⟨-, rfl⟩
          rfl
    · rw [if_neg hk]
      constructor
      · intro h
        cases h
      · rintro ⟨hall, -⟩
        exact absurd (hall ip List.mem_cons_self) hk

namespace Code

/-- What code is read as when it has been written: its texts mended, its operands as they are shown,
and a source map for all instructions or none. -/
def restored (c : Code) : Code :=
  { name := mend c.name, filename := mend c.filename
    instructions := (c.placed.map fun ip => ip.1.shown).toArray
    locations := (if c.placed.any fun ip => !ip.2.isUnknown then c.placed.map Prod.snd
      else []).toArray }

theorem toCode_document (c c' : Code) :
    c.document.toCode = .ok c' ↔
      (∀ ip ∈ c.placed, ip.1.opcode?.isSome = true) ∧ c' = c.restored := by
  have his := Document.instructions_items c.placed 0
  have hitems : c.document.items.take c.document.count =
      c.placed.map fun (i, p) => i.item p :=
    List.take_of_length_le (by simp [document])
  have hany : (c.placed.map fun (i, p) => i.item p).any (fun item => !item.position.isUnknown) =
      c.placed.any fun ip => !ip.2.isUnknown := by
    rw [List.any_map]
    rfl
  have hpos : (c.placed.map fun (i, p) => i.item p).map DocumentItem.position =
      c.placed.map Prod.snd := by
    rw [List.map_map]
    rfl
  simp only [Document.toCode, hitems, hany, hpos]
  cases hr : Document.instructions 0 (c.placed.map fun (i, p) => i.item p) with
  | error e =>
    rw [hr] at his
    simp only [reduceCtorEq, false_iff, not_and] at his
    constructor
    · intro h
      cases h
    · rintro ⟨hall, -⟩
      exact absurd rfl (his _ hall)
  | ok is =>
    rw [hr] at his
    obtain ⟨hall, rfl⟩ := (his is).1 rfl
    constructor
    · intro h
      cases h
      exact ⟨hall, rfl⟩
    · rintro ⟨-, rfl⟩
      rfl

/-- A source map that is there for all instructions or for none makes no difference. -/
theorem validate_locations {c : Code} (h : c.locations.size = 0 ∨ c.locations.size = c.size) :
    c.validate = ({ instructions := c.instructions } : Code).validate := by
  unfold validate
  have hl : ¬ (c.locations.size ≠ 0 ∧ c.locations.size ≠ c.size) := by omega
  have hn : ¬ ((#[] : Array Position).size ≠ 0 ∧
      (#[] : Array Position).size ≠ ({ instructions := c.instructions } : Code).size) := by simp
  simp only [if_neg hl, if_neg hn]

theorem any_known_iff (c : Code) :
    (c.placed.any fun ip => !ip.2.isUnknown) = true ↔
      ∃ k : Nat, k < c.size ∧ c.locationAt k ≠ .unknown := by
  have hknown : ∀ p : Position, (!p.isUnknown) = true ↔ p ≠ .unknown := by
    intro p
    rcases p with ⟨line, column⟩
    by_cases hl : line = 0 <;> simp [Position.isUnknown, Position.unknown, hl]
  simp only [List.any_eq_true, hknown]
  constructor
  · rintro ⟨ip, hip, hne⟩
    obtain ⟨k, hk⟩ := List.getElem?_of_mem hip
    have hlt := (List.getElem?_eq_some_iff.1 hk).1
    rw [length_placed] at hlt
    rw [placed_getElem?, Option.map_eq_some_iff] at hk
    obtain ⟨i, -, rfl⟩ := hk
    exact ⟨k, hlt, hne⟩
  · rintro ⟨k, hk, hne⟩
    refine ⟨(c.instructions[k], c.locationAt k), List.mem_of_getElem? (i := k) ?_, hne⟩
    rw [placed_getElem?, Array.getElem?_eq_getElem hk]
    rfl

/-- How many positions are read back. -/
theorem size_locations_restored (c : Code) :
    ((∃ k : Nat, k < c.size ∧ c.locationAt k ≠ .unknown) → c.restored.locations.size = c.size) ∧
      ((∀ k : Nat, k < c.size → c.locationAt k = .unknown) → c.restored.locations.size = 0) := by
  constructor
  · intro h
    simp only [restored]
    rw [if_pos ((any_known_iff c).2 h)]
    simp [length_placed]
  · intro h
    simp only [restored]
    rw [if_neg]
    · rfl
    · rw [any_known_iff]
      rintro ⟨k, hk, hne⟩
      exact hne (h k hk)

/-- Every instruction is read back with its position. -/
theorem locationAt_restored (c : Code) {k : Nat} (hk : k < c.size) :
    c.restored.locationAt k = c.locationAt k := by
  have hat : c.restored.locationAt k = (c.restored.locations[k]?).getD .unknown := by
    rw [locationAt, if_neg (by omega), Int.toNat_natCast]
  rw [hat]
  simp only [restored]
  split
  · rw [List.getElem?_toArray, List.getElem?_map, placed_getElem?, Array.getElem?_eq_getElem hk]
    rfl
  · rename_i hnone
    rw [any_known_iff] at hnone
    by_cases h : c.locationAt k = .unknown
    · rw [h]
      rfl
    · exact absurd ⟨k, hk, h⟩ hnone

theorem instructions_restored {c : Code} (h : ∀ i ∈ c.instructions, i.IsBuilt) :
    c.restored.instructions = c.instructions := by
  have hshown : c.placed.map (fun ip => ip.1.shown) = c.instructions.toList := by
    rw [← placed_fst]
    refine List.map_congr_left fun ip hip => ?_
    refine (h ip.1 ?_).shown
    have hmem : ip.1 ∈ c.placed.map Prod.fst := List.mem_map_of_mem hip
    rwa [placed_fst, Array.mem_toList_iff] at hmem
  simp only [restored]
  rw [hshown]

/-- The source map that is read back is there for all instructions or for none. -/
theorem size_locations_restored_cases (c : Code) :
    c.restored.locations.size = 0 ∨ c.restored.locations.size = c.restored.size := by
  simp only [restored, size]
  split
  · exact .inr (by simp)
  · exact .inl rfl

/-- Valid code has known operations only. -/
theorem IsValid.known {c : Code} (h : c.IsValid) {i : Instruction} (hi : i ∈ c.instructions) :
    i.opcode?.isSome = true := by
  obtain ⟨k, hk⟩ := Array.getElem?_of_mem hi
  rcases h.goesOn hk with ⟨hf, -⟩ | ⟨-, hgo⟩
  · rw [Instruction.opcode?_of_code hf]
    rfl
  · obtain ⟨o, ho, -⟩ := hgo.known
    rw [ho]
    rfl

/-- **What is read back** from any text of the document is the restored code, if the instructions
alone are valid. -/
theorem read_of_parse {c : Code} (hi : ∀ i ∈ c.instructions, i.IsBuilt)
    (hl : ∀ p ∈ c.locations, p.IsInt64) {text : Bytes}
    (hparse : Json.parse text = some c.toJson.mended) (c' : Code) :
    read text = .ok c' ↔
      ({ instructions := c.instructions } : Code).IsValid ∧ c' = c.restored := by
  have hdoc := Document.ofJson?_toJson (fun i h => (hi i h).isInt64) hl
  have hvalidate : c.restored.validate =
      ({ instructions := c.instructions } : Code).validate := by
    rw [validate_locations (size_locations_restored_cases c), instructions_restored hi]
  rw [read, hparse]
  simp only [ofJson, hdoc]
  have hto := toCode_document c
  cases ht : c.document.toCode with
  | error e =>
    rw [ht] at hto
    simp only [reduceCtorEq, false_iff, not_and] at hto ⊢
    intro hv
    refine absurd rfl (hto _ fun ip hip => ?_)
    have hmem : ip.1 ∈ c.placed.map Prod.fst := List.mem_map_of_mem hip
    rw [placed_fst, Array.mem_toList_iff] at hmem
    exact hv.known hmem
  | ok d =>
    rw [ht] at hto
    obtain ⟨-, rfl⟩ := (hto d).1 rfl
    simp only [hvalidate]
    rw [IsValid]
    cases ({ instructions := c.instructions } : Code).validate with
    | error e =>
      constructor
      · intro h
        cases h
      · rintro ⟨h, -⟩
        cases h
    | ok u =>
      constructor
      · intro h
        cases h
        exact ⟨rfl, rfl⟩
      · rintro ⟨-, rfl⟩
        rfl

theorem read_write_eq {c : Code} (hi : ∀ i ∈ c.instructions, i.IsBuilt)
    (hl : ∀ p ∈ c.locations, p.IsInt64) (c' : Code) :
    read c.write = .ok c' ↔
      ({ instructions := c.instructions } : Code).IsValid ∧ c' = c.restored :=
  read_of_parse hi hl (Json.parse_compact c.fits_toJson) c'

/-- **Code that is written and read again.** It is read exactly if the instructions alone, without a
source map, are valid. Then the instructions are the same, every one of them has its position, there
is a source map for all of them if a position is known and none otherwise, and the names are the
same exactly if they are UTF-8. -/
theorem read_write {c : Code} (hi : ∀ i ∈ c.instructions, i.IsBuilt)
    (hl : ∀ p ∈ c.locations, p.IsInt64) :
    ((∃ c', read c.write = .ok c') ↔ ({ instructions := c.instructions } : Code).IsValid) ∧
    ∀ c', read c.write = .ok c' →
      c'.instructions = c.instructions ∧
      (∀ k : Nat, k < c.size → c'.locationAt k = c.locationAt k) ∧
      ((∃ k : Nat, k < c.size ∧ c.locationAt k ≠ .unknown) → c'.locations.size = c.size) ∧
      ((∀ k : Nat, k < c.size → c.locationAt k = .unknown) → c'.locations.size = 0) ∧
      (c'.name = c.name ↔ isUtf8 c.name = true) ∧
      (c'.filename = c.filename ↔ isUtf8 c.filename = true) := by
  refine ⟨⟨?_, fun hv => ⟨c.restored, (read_write_eq hi hl _).2 ⟨hv, rfl⟩⟩⟩, fun c' h => ?_⟩
  · rintro ⟨c', h⟩
    exact ((read_write_eq hi hl c').1 h).1
  · obtain ⟨-, rfl⟩ := (read_write_eq hi hl c').1 h
    obtain ⟨hall, hnone⟩ := size_locations_restored c
    exact ⟨instructions_restored hi, fun k hk => locationAt_restored c hk, hall, hnone,
      mend_eq_self c.name, mend_eq_self c.filename⟩

/-- A position for the first of two instructions, and a name that is not UTF-8. -/
theorem read_write_stray : ∃ c' : Code,
    read (write ⟨[255], utf8 "a.bf", #[.addByte 3, .finish], #[⟨1, 1⟩]⟩) = .ok c' ∧
      c'.instructions = #[.addByte 3, .finish] ∧ c'.locations.size = 2 ∧ c'.name ≠ [255] ∧
      c'.filename = utf8 "a.bf" := by
  have hi : ∀ i ∈ #[Instruction.addByte 3, .finish], i.IsBuilt := by
    intro i h
    simp only [List.mem_toArray, List.mem_cons, List.not_mem_nil, or_false] at h
    rcases h with rfl | rfl
    · exact .addByte 3
    · exact .finish
  have hl : ∀ p ∈ #[(⟨1, 1⟩ : Position)], p.IsInt64 := by
    intro p h
    simp only [List.mem_toArray, List.mem_singleton] at h
    subst h
    constructor <;> constructor <;> decide
  obtain ⟨hiff, hall⟩ :=
    read_write (c := ⟨[255], utf8 "a.bf", #[.addByte 3, .finish], #[⟨1, 1⟩]⟩) hi hl
  obtain ⟨c', h⟩ := hiff.2 (by decide)
  obtain ⟨his, -, hsize, -, hname, hfile⟩ := hall c' h
  refine ⟨c', h, his, hsize ⟨0, by decide, by decide⟩, fun hn => ?_, hfile.2 (by decide)⟩
  exact absurd (hname.1 hn) (by decide)

end Code

end Tapelang
