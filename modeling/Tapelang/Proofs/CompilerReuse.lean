import Tapelang.Proofs.Lexing

/-!
# Compilers that are used again

A compiler keeps what its last compilation has built, however far that has come, and the file name
that it was built under. Both are cleared before the next text is read (`Compiler.reset_congr`), and
what the compiler was made with is never changed (`Compiler.naming_after`). So a compiler has no
memory: `Compiler.compile_after`.
-/

namespace Tapelang

/-- The place that an error names, if it is one of the brackets of a text. -/
def CompileError.place? : CompileError → Option Place
  | unclosed place | unopened place => some place
  | unreadable _ | unopenable _ _ => none

namespace Compiler

/-- A compiler that has compiled the texts at `earlier` one after the other, whatever came of it. -/
def after (k : Compiler) : (earlier : List Cursor) → Compiler
  | [] => k
  | source :: rest => (k.compile source).2.after rest

theorem naming_compile (k : Compiler) (source : Cursor) : (k.compile source).2.naming = k.naming :=
  rfl

theorem naming_after (k : Compiler) (earlier : List Cursor) :
    (k.after earlier).naming = k.naming := by
  induction earlier generalizing k with
  | nil => rfl
  | cons source rest ih => rw [after, ih, naming_compile]

theorem reset_congr {k k' : Compiler} (h : k.naming = k'.naming) (source : Cursor) :
    k.reset source = k'.reset source := by
  rw [reset, reset, h]

/-- What a compilation gives, and what it leaves, depends only on what the compiler was made with. -/
theorem compile_congr {k k' : Compiler} (h : k.naming = k'.naming) (source : Cursor) :
    k.compile source = k'.compile source := by
  rw [compile, compile, reset_congr h]

/-- An error names the file that the text is compiled under. -/
theorem assemble_place {filename : Bytes} {a : Assembly} {c : Cursor} {e : CompileError}
    {place : Place} (h : (assemble filename a c).2 = .error e) (hp : e.place? = some place) :
    place.filename = filename := by
  fun_induction assemble filename a c with
  | case1 a c command p c' htoken hr | case3 a c p c' htoken loop hout =>
    cases h
    cases hp
    rfl
  | case2 a c command p c' htoken hr ih => exact ih h
  | case4 a c p c' htoken hout => cases h
  | case5 a c why p c' htoken =>
    cases h
    cases hp

theorem compile_place {k : Compiler} {source : Cursor} {e : CompileError} {place : Place}
    (h : (k.compile source).1 = .error e) (hp : e.place? = some place) :
    place.filename = (k.reset source).filename := by
  rw [compile_fst] at h
  rcases hs : assemble (k.reset source).filename {} source with ⟨a, e' | p⟩
  · rw [hs] at h
    cases h
    exact assemble_place (by rw [hs]) hp
  · rw [hs] at h
    cases h

/-- **A compiler has no memory.** Whatever texts it has compiled before, and however each of these
compilations has ended, it gives for the next text what a new compiler gives, and is left as that one
is. Code and errors have the names that the compiler was made with, and the file name of the text only
if it was made without one. -/
theorem compile_after (naming : Naming) (earlier : List Cursor) (source : Cursor) :
    ((new naming).after earlier).compile source = (new naming).compile source ∧
    (∀ code, (((new naming).after earlier).compile source).1 = .ok code →
      code.name = (if naming.name.isEmpty then defaultName else naming.name) ∧
      code.filename = if naming.filename.isEmpty then source.filename else naming.filename) ∧
    ∀ e place, (((new naming).after earlier).compile source).1 = .error e →
      e.place? = some place →
      place.filename = if naming.filename.isEmpty then source.filename else naming.filename := by
  have hsame : ((new naming).after earlier).compile source = (new naming).compile source :=
    compile_congr (naming_after _ _) source
  refine ⟨hsame, fun code hok => ?_, fun e place herr hp => ?_⟩
  · rw [hsame] at hok
    obtain ⟨a, p, -, rfl⟩ := compile_ok hok
    exact ⟨rfl, rfl⟩
  · rw [hsame] at herr
    exact compile_place herr hp

-- there is something to forget: a text that ends inside two loops leaves them pending
example : ((new {}).compile (.ofBytes (utf8 "[["))).2.assembly.pending =
    [⟨⟨1, 2⟩, 1⟩, ⟨⟨1, 1⟩, 0⟩] := by
  change (assemble [] {} (.ofBytes (utf8 "[["))).1.pending = _
  rw [Cursor.ofBytes, assemble_sites [] (.ofFeed _)]
  rfl

end Compiler

end Tapelang
