/-! # Bounded iteration

A loop is a step that is repeated: each step either gives the state for the next one or ends the
loop. `iterate` repeats a step that may fail, up to a bound that the caller takes from the size of
its input, so every loop is a total function.
-/

namespace Tapelang

/-- What a step of a loop leads to. -/
inductive Next (σ α : Type) where
  /-- The loop goes on from this state. -/
  | again (state : σ)
  /-- The loop is over. -/
  | done (result : α)
  deriving Repr, Inhabited

/-- Repeats a step until the loop is over, `bound` times at most. It fails when a step fails or the
bound is reached. -/
def iterate {σ α : Type} (step : σ → Option (Next σ α)) : (bound : Nat) → σ → Option α
  | 0, _ => none
  | bound + 1, s =>
    match step s with
    | none => none
    | some (.again s) => iterate step bound s
    | some (.done a) => some a

end Tapelang
