import Mathlib.Algebra.Order.BigOperators.Group.List
import Tapelang.Disassembly
import Tapelang.Proofs.CodeRereading
import Tapelang.Proofs.JsonIndented
import Tapelang.Proofs.ReadFailures
import Tapelang.Proofs.SourceMap

/-!
# Disassemblies that are read again

Compiled code has everything that code needs to be read as it was written (`Code.IsWritable`): its
targets and positions are no larger than the text (`compileBytes_size_le`,
`compileBytes_locationAt`), and the position of every instruction is known. So its disassembly as
JSON is read as the code itself, as is the document without blanks (`Code.read_disassembly`).
-/

namespace Tapelang

open Text

/-! ## Code that can be written -/

namespace Code

/-- Valid code whose document says everything about it. -/
structure IsWritable (c : Code) : Prop where
  valid : c.IsValid
  name : isUtf8 c.name = true
  filename : isUtf8 c.filename = true
  built : ∀ i ∈ c.instructions, i.IsBuilt
  placed : ∀ p ∈ c.locations, p.IsInt64
  whole : c.HasWholeMap

/-- **Code that can be written** is read from any text of its document. -/
theorem IsWritable.read_eq {c : Code} (h : c.IsWritable) {text : Bytes}
    (hparse : Json.parse text = some c.toJson.mended) : read text = .ok c := by
  have halone : ({ instructions := c.instructions } : Code).IsValid := by
    rw [IsValid, ← validate_locations h.whole.size]
    exact h.valid
  have hsame : c.restored = c :=
    restored_eq_self ((mend_eq_self c.name).2 h.name) ((mend_eq_self c.filename).2 h.filename)
      h.built h.whole
  exact (read_of_parse h.built h.placed hparse c).2 ⟨halone, hsame.symm⟩

theorem parse_disassembly (c : Code) :
    Json.parse (c.disassembly .json false false) = some c.toJson.mended :=
  Json.parse_indented c.fits_toJson (List.all_eq_true.1 (by decide))

/-- The targets of valid code are below its size. -/
theorem IsValid.isBuilt_of_size {c : Code} (h : c.IsValid) (hsize : c.size ≤ 2 ^ 63)
    {i : Instruction} (hi : i ∈ c.instructions) (hs : i.shown = i) : i.IsBuilt := by
  refine h.isBuilt_of_target hi hs fun hkind => ?_
  obtain ⟨k, hk⟩ := Array.getElem?_of_mem hi
  rcases h.goesOn hk with ⟨hf, -⟩ | ⟨-, hgo⟩
  · rw [Instruction.kind_of_opcode? (Instruction.opcode?_of_code hf)] at hkind
    cases hkind
  · obtain ⟨target, hop, hlt⟩ := hgo.target hkind
    rw [hop]
    unfold IsInt64
    omega

end Code

/-! ## Positions -/

namespace Position

theorem length_lastLine_le (text : Bytes) : (lastLine text).length ≤ text.length := by
  rw [lastLine, List.length_reverse, ← text.length_reverse]
  exact (List.takeWhile_sublist _).length_le

/-- A line and a column that a document can hold, and that are not both missing from it. -/
structure IsWritable (p : Position) : Prop where
  isInt64 : p.IsInt64
  known : p ≠ .unknown

variable {text : Bytes} (hsize : text.length < 2 ^ 63)
include hsize

theorem ofOffset_isWritable {offset : Nat} (h : offset < text.length) :
    (ofOffset text offset).IsWritable := by
  have hbefore : (text.take offset).length ≤ offset := List.length_take_le offset text
  have hline : (text.take offset).count newline ≤ (text.take offset).length := List.count_le_length
  have hcolumn := length_lastLine_le (text.take offset)
  constructor
  · simp only [Position.IsInt64, ofOffset, Tapelang.IsInt64]
    omega
  · intro hunknown
    have hzero : (ofOffset text offset).line = 0 := congrArg line hunknown
    simp only [ofOffset] at hzero
    omega

theorem ofLast_isWritable : (ofLast text).IsWritable := by
  rw [ofLast]
  split
  · exact ⟨by constructor <;> constructor <;> decide, by decide⟩
  · rename_i hne
    have hpos : 0 < text.length := List.length_pos_iff.2 fun h => hne (List.isEmpty_iff.2 h)
    exact ofOffset_isWritable hsize (by omega)

end Position

/-! ## Compiled code -/

section
variable {naming : Naming} {text : Bytes} {code : Code} (h : compileBytes naming text = .ok code)
include h

theorem compileBytes_names :
    code.name = (if naming.name.isEmpty then defaultName else naming.name) ∧
      code.filename = naming.filename := by
  rw [compileBytes_eq] at h
  rcases hs : Compiler.assembleSites naming.filename text none {} (sites text) with ⟨a, r⟩
  rw [hs] at h
  cases r with
  | error e => cases h
  | ok p =>
    cases h
    exact ⟨rfl, rfl⟩

theorem compileBytes_size_locations : code.locations.size = code.size := by
  obtain ⟨a, n, -, hl, hcode, hloc⟩ := compileBytes_laid h
  rw [Code.size, hcode, hloc, Array.size_push, Array.size_push, hl.count, a.length_blocks]

/-- There are no more instructions than bytes, the `END` apart. -/
theorem compileBytes_size_le : code.size ≤ text.length + 1 := by
  obtain ⟨a, n, -, hl, hcode, -⟩ := compileBytes_laid h
  have hblock : ∀ block ∈ a.blocks, 1 ≤ block.length := by
    intro block hmem
    obtain ⟨k, hk⟩ := List.getElem?_of_mem hmem
    obtain ⟨c, -, hhead, -⟩ := hl.placed k block hk
    cases block with
    | nil => cases hhead
    | cons => exact Nat.succ_pos _
  have hblocks : a.blocks.length ≤ a.blocks.flatten.length := by
    have hsum := List.length_le_sum_of_one_le (a.blocks.map List.length) (by simpa using hblock)
    rwa [List.length_map, ← List.length_flatten] at hsum
  have hsites : a.blocks.flatten.length ≤ text.length := by
    rw [hl.spelled, map_fst_sites]
    exact List.length_filterMap_le _ _
  rw [Code.size, hcode, Array.size_push, ← a.length_blocks]
  omega

/-- **The source map of compiled code** knows the position of every instruction. -/
theorem compileBytes_locationAt (hsize : text.length < 2 ^ 63) {k : Nat} (hk : k < code.size) :
    (code.locationAt k).IsWritable := by
  rcases compileBytes_place h (Array.getElem?_eq_getElem hk) with
    ⟨-, -, hat⟩ | ⟨offset, c, -, hbyte, -, hat⟩
  · rw [hat]
    exact Position.ofLast_isWritable hsize
  · rw [hat]
    exact Position.ofOffset_isWritable hsize (List.getElem?_eq_some_iff.1 hbyte).1

/-- **Compiled code can be written**, if its names are UTF-8 and its text has a size of 64 bits. -/
theorem compileBytes_isWritable (hname : isUtf8 naming.name = true)
    (hfile : isUtf8 naming.filename = true) (hsize : text.length < 2 ^ 63) :
    code.IsWritable := by
  obtain ⟨trees, htrees, -⟩ := compileBytes_trees h
  obtain ⟨hn, hf⟩ := compileBytes_names h
  have hlocations := compileBytes_size_locations h
  have hbound := compileBytes_size_le h
  have hvalid : code.IsValid := Code.isValid_of_flattens (.inr hlocations) htrees
  have hpos : 0 < code.size := by
    rw [Code.size, ← Array.length_toList, htrees]
    simp
  refine ⟨hvalid, ?_, ?_, fun i hi => ?_, fun p hp => ?_, .inr hlocations, ?_⟩
  · rw [hn]
    split
    · decide
    · exact hname
  · rw [hf]
    exact hfile
  · refine hvalid.isBuilt_of_size (by omega) hi ?_
    have hshown : code.instructions.toList.map Instruction.shown = code.instructions.toList := by
      rw [htrees, List.map_append, LoopTree.map_shown_flattenAll]
      rfl
    exact List.map_inj_left.1 (hshown.trans (List.map_id' _).symm) i (Array.mem_toList_iff.2 hi)
  · obtain ⟨k, hk⟩ := Array.getElem?_of_mem hp
    have hlt : k < code.locations.size := (Array.getElem?_eq_some_iff.1 hk).1
    rw [← Code.locationAt_natCast hk]
    exact (compileBytes_locationAt h hsize (by omega)).isInt64
  · constructor
    · intro h0
      omega
    · intro hall
      exact absurd (hall 0 hpos) (compileBytes_locationAt h hsize hpos).known

end

/-! ## Files -/

/-- A file is compiled under the file name asked for, since its own is asked for only if that is
empty. -/
theorem Compiler.reset_file {naming : Naming} {path : Bytes} (h : naming.filename = [] → path = [])
    (feed : Feed) :
    (new naming).reset { reader := .ofFeed feed, filename := path } =
      { naming, filename := naming.filename } := by
  rcases naming with ⟨_ | ⟨b, rest⟩, name⟩
  · rw [h rfl]
    rfl
  · rfl

/-- **A file** is compiled like what it delivers, and named after its path if no name is asked
for. -/
theorem compileFile_eq {openFile : Bytes → Except OpenFault Feed} {path : Bytes} {feed : Feed}
    (h : openFile path = .ok feed) (naming : Naming) :
    compileFile openFile naming path =
      compileFeed
        { naming with filename := if naming.filename.isEmpty then path else naming.filename }
        feed := by
  have hopen : Cursor.openFile openFile path = .ok { reader := .ofFeed feed, filename := path } := by
    rw [Cursor.openFile, h]
    rfl
  have hat : Cursor.At { reader := .ofFeed feed, filename := path } feed.lead.bytes
      feed.lead.fault 0 := ⟨Nat.zero_le _, rfl, rfl, rfl⟩
  have hname : (if naming.filename.isEmpty then path else naming.filename) = [] → path = [] := by
    split
    · exact id
    · rename_i hne
      exact fun hnil => absurd (List.isEmpty_iff.2 hnil) hne
  rw [compileFile, hopen, compileFeed]
  simp only [Compiler.compile]
  rw [Compiler.reset_file hname, Compiler.reset_new, Compiler.assemble_sites _ hat,
    ← Compiler.assemble_sites _ (.ofFeed feed)]

theorem compileFeed_ok {naming : Naming} {feed : Feed} {code : Code}
    (h : compileFeed naming feed = .ok code) :
    compileBytes naming feed.lead.bytes = .ok code := by
  cases hf : feed.lead.fault with
  | none => rwa [compileFeed_of_end naming hf] at h
  | some why =>
    rw [compileFeed_of_fault naming hf] at h
    split at h <;> cases h

/-- **The disassembly of a program can be read again.** Code that is compiled from a file whose path
is UTF-8 is read from its disassembly as JSON, as it is from its document. The size of a file is a
number of 64 bits, of which one is the sign. -/
theorem Code.read_disassembly {openFile : Bytes → Except OpenFault Feed} {path : Bytes} {feed : Feed}
    {c : Code} (hopen : openFile path = .ok feed) (hsize : feed.lead.bytes.length < 2 ^ 63)
    (hpath : isUtf8 path = true) (hc : compileFile openFile {} path = .ok c) :
    read (c.disassembly .json false false) = .ok c ∧ read c.write = .ok c := by
  rw [compileFile_eq hopen] at hc
  have hwritable : c.IsWritable :=
    compileBytes_isWritable (compileFeed_ok hc) rfl hpath hsize
  exact ⟨hwritable.read_eq c.parse_disassembly,
    hwritable.read_eq (Json.parse_compact c.fits_toJson)⟩

/-- A loop at the start, whose jump back has the operand zero, in a file with a quote in its name. -/
theorem Code.read_disassembly_loop : ∃ c : Code,
    compileFile (FileTree.ofNames [] [(utf8 "\"é\".bf", utf8 "[-]\n")]).openFile {}
        (utf8 "\"é\".bf") = .ok c ∧
      c.instructions = #[.jumpIfZero 3, .subByte 1, .jump 0, .finish] ∧
      read (c.disassembly .json false false) = .ok c ∧ read c.write = .ok c := by
  have hopen : (FileTree.ofNames [] [(utf8 "\"é\".bf", utf8 "[-]\n")]).openFile
      (utf8 "\"é\".bf") = .ok (fileFeed (utf8 "[-]\n")) := by
    decide +kernel
  obtain ⟨c, hc, hi⟩ : ∃ c,
      compileFile (FileTree.ofNames [] [(utf8 "\"é\".bf", utf8 "[-]\n")]).openFile {}
        (utf8 "\"é\".bf") = .ok c ∧
      c.instructions = #[.jumpIfZero 3, .subByte 1, .jump 0, .finish] := by
    rw [compileFile_eq hopen, compileFeed_eq]
    exact ⟨_, rfl, by decide⟩
  exact ⟨c, hc, hi, read_disassembly hopen (by decide) (by decide) hc⟩

end Tapelang
