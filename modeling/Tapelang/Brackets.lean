import Tapelang.Command

/-! # Brackets

When the brackets of a text match, and which of them have no partner. Everything is said by
counting brackets in the first bytes of the text.
-/

namespace Tapelang

/-- The number of `[` in a text. -/
def openings (text : Bytes) : Nat := text.count Command.loopOpen.toByte

/-- The number of `]` in a text. -/
def closings (text : Bytes) : Nat := text.count Command.loopClose.toByte

/-- The number of loops that are open behind the first `k` bytes, if none was closed too often. -/
def depthAt (text : Bytes) (k : Nat) : Int := openings (text.take k) - closings (text.take k)

/-- No `]` comes before its `[`, and there are as many of the one as of the other. -/
def IsBalanced (text : Bytes) : Prop :=
  (∀ k ≤ text.length, 0 ≤ depthAt text k) ∧ depthAt text text.length = 0

/-- The byte at `k` is the first `]` that has no `[`. -/
def IsFirstUnopened (text : Bytes) (k : Nat) : Prop :=
  k < text.length ∧ (∀ j ≤ k, 0 ≤ depthAt text j) ∧ depthAt text (k + 1) < 0

/-- The byte at `k` is a `[` that has no `]`: from there on the text stays inside its loop. -/
def IsUnclosed (text : Bytes) (k : Nat) : Prop :=
  text[k]? = some Command.loopOpen.toByte ∧
    ∀ j, k < j → j ≤ text.length → depthAt text k < depthAt text j

/-- The byte at `k` is the leftmost `[` that has no `]`. -/
def IsFirstUnclosed (text : Bytes) (k : Nat) : Prop :=
  IsUnclosed text k ∧ ∀ j < k, ¬ IsUnclosed text j

/-- How deeply the loops of a text nest. -/
def nesting (text : Bytes) : Int :=
  ((List.range (text.length + 1)).map (depthAt text)).foldl max 0

end Tapelang
