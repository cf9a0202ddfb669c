import OrbitReplay.Dense.Cursor

namespace OrbitReplay.Dense

/-- A model that moves at a constant rate and fails beyond a limit. -/
structure Linear (α : Type) where
  base : List α
  rate : List α
  limit : α
  failure : Failure α
  elapsed : α
  repositions : Nat := 0

namespace Linear

variable {α : Type} [Scalar α]

def state (m : Linear α) : List α := List.zipWith (fun b r ↦ b + r * m.elapsed) m.base m.rate

def moveTo (elapsed : α) (m : Linear α) : Except (Failure α) Unit × Linear α :=
  if m.limit < Scalar.abs elapsed then (.error m.failure, m)
  else (.ok (), { m with elapsed, repositions := m.repositions + 1 })

variable {elapsed : α} {m m' : Linear α}

theorem moveTo_eq_ok_iff :
    m.moveTo elapsed = (.ok (), m') ↔ ¬ m.limit < Scalar.abs elapsed ∧
      m' = { m with elapsed, repositions := m.repositions + 1 } := by
  by_cases h : m.limit < Scalar.abs elapsed
  · simp [moveTo, h]
  · simp [moveTo, h, eq_comm]

theorem moveTo_eq_error_iff {f : Failure α} :
    m.moveTo elapsed = (.error f, m') ↔ m.limit < Scalar.abs elapsed ∧ f = m.failure ∧ m' = m := by
  by_cases h : m.limit < Scalar.abs elapsed
  · simp [moveTo, h, eq_comm]
  · simp [moveTo, h]

instance : Model (Linear α) α where
  time m := .ok m.elapsed
  state m := .ok m.state
  moveTo := moveTo

end Linear

end OrbitReplay.Dense
