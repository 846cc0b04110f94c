import Tapelang.Feed

/-! # File trees

Files by name, held in memory. Names are taken apart at `/` and resolved from the working folder;
`OpenFault` says why a name cannot be opened. A folder can be opened, and then every request on
it fails.
-/

namespace Tapelang

/-- Why a file cannot be opened. -/
inductive OpenFault where
  /-- No entry has this name. -/
  | missing
  /-- A part of the name other than the last is not a folder. -/
  | notFolder
  /-- A part of the name is longer than names may be. -/
  | nameTooLong
  /-- The name has a zero byte in it. -/
  | malformed
  /-- The entry may not be read. -/
  | denied
  deriving DecidableEq, Repr, Inhabited

/-- The reason in words. -/
def OpenFault.reason : OpenFault → Bytes
  | missing => utf8 "no such file or directory"
  | notFolder => utf8 "not a directory"
  | nameTooLong => utf8 "file name too long"
  | malformed => utf8 "invalid argument"
  | denied => utf8 "permission denied"

/-- The failure to open the file called `path`. -/
def OpenFault.toFailure (path : Bytes) (why : OpenFault) : Failure :=
  .text (utf8 "open " ++ path ++ utf8 ": " ++ why.reason)

/-- The feed of an opened file. -/
def fileFeed (content : Bytes) : Feed :=
  .ofBytes content

/-- The feed of an opened folder: there is nothing to read. -/
def folderFeed (path : Bytes) : Feed :=
  ⟨[], .fault (utf8 "read " ++ path ++ utf8 ": is a directory")⟩

/-- The feed of a file that has been closed. -/
def closedFeed (path : Bytes) : Feed :=
  ⟨[], .fault (utf8 "read " ++ path ++ utf8 ": file already closed")⟩

/-- An entry of a tree. -/
inductive Entry where
  | file (content : Bytes)
  | folder
  deriving DecidableEq, Repr, Inhabited

/-- Entries by the parts of their absolute names. The working folder, every folder entry and every
folder on the way to an entry exist, and nothing else does. -/
structure FileTree where
  working : List Bytes := []
  entries : List (List Bytes × Entry) := []
  deriving Repr, Inhabited

namespace FileTree

/-- The byte between the parts of a name. -/
def slash : UInt8 := '/'.toUInt8

/-- The parts of a name; empty parts name nothing. -/
def parts (name : Bytes) : List Bytes :=
  (name.splitOn slash).filter (· ≠ [])

/-- A tree with working folder `working` that holds the given names and contents, where a name
that ends in `/` is a folder. -/
def ofNames (working : Bytes) (files : List (Bytes × Bytes)) : FileTree where
  working := parts working
  entries := files.map fun (name, content) =>
    (parts working ++ (parts name).filter (· ≠ utf8 "."),
      if name.getLast? = some slash then .folder else .file content)

/-- The entry at a place in the tree. -/
def find? (t : FileTree) (place : List Bytes) : Option Entry :=
  match t.entries.lookup place with
  | some entry => some entry
  | none =>
    if place.isPrefixOf t.working || t.entries.any fun (known, _) => place.isPrefixOf known then
      some .folder
    else none

/-- Follows the parts of a name from the place `here`, whose own parts are held last first. The
root is its own parent. -/
def walk (t : FileTree) : (here : List Bytes) → List Bytes → Except OpenFault (List Bytes)
  | here, [] => .ok here.reverse
  | here, part :: rest =>
    match t.find? here.reverse with
    | none => .error .missing
    | some (.file _) => .error .notFolder
    | some .folder =>
      if part = utf8 "." then walk t here rest
      else if part = utf8 ".." then walk t here.tail rest
      else if part.length > 255 then .error .nameTooLong
      else walk t (part :: here) rest

/-- Opens the file called `name`: from the root if the name starts with `/`, else from the working
folder. -/
def openFile (t : FileTree) (name : Bytes) : Except OpenFault Feed := do
  if name.contains 0 then throw .malformed
  if name.isEmpty then throw .missing
  if name.length ≥ 4096 then throw .nameTooLong
  let here := if name.head? = some slash then [] else t.working.reverse
  let place ← t.walk here (parts name)
  match t.find? place with
  | none => throw .missing
  | some .folder => return folderFeed name
  | some (.file content) =>
    if name.getLast? = some slash then throw .notFolder else return fileFeed content

end FileTree

end Tapelang
