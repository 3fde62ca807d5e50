/-!
# Repetition

`repeatWhile` runs a step again and again until the step says stop. Each round has to make the
state smaller, in a size that the caller names; a round that does not is the last one.
-/

namespace Raml

/-- What a round of a repetition says: go on from a state, or stop in one. -/
inductive Round (σ : Type) where
  | more (s : σ)
  | done (s : σ)

/-- Runs `step` from `s` until it stops, or until it fails. -/
def repeatWhile {ε σ : Type} (size : σ → Nat) (step : σ → Except ε (Round σ)) (s : σ) :
    Except ε σ :=
  match step s with
  | .error e => .error e
  | .ok (.done s') => .ok s'
  | .ok (.more s') => if size s' < size s then repeatWhile size step s' else .ok s'
termination_by size s

end Raml
