import OrbitReplay.Failure

namespace OrbitReplay.Dense

/-- A raw vector at every time of a span. The start is one end of it. -/
structure Output (α : Type) where
  start : α
  low : α
  high : α
  eval : α → Except (Failure α) (List α)

/-- What a replay asks of a dense output: where it stands, the raw vector there, and to move. Each
may fail. -/
class Model (μ : Type) (α : outParam Type) where
  time : μ → Except (Failure α) α
  state : μ → Except (Failure α) (List α)
  moveTo : α → μ → Except (Failure α) Unit × μ

structure Cursor (α : Type) where
  output : Output α
  elapsed : α
  state : List α
  repositions : Nat

variable {α : Type} [Scalar α]

namespace Output

def tolerance (o : Output α) : α :=
  Scalar.ofNat 8 * Scalar.epsilon *
    Scalar.larger (Scalar.larger (Scalar.ofNat 1) (Scalar.abs o.low)) (Scalar.abs o.high)

def isOutside (o : Output α) (t : α) : Bool := t < o.low - o.tolerance || o.high + o.tolerance < t

def clamp (o : Output α) (t : α) : α := Scalar.smaller (Scalar.larger t o.low) o.high

end Output

namespace Cursor

def open? (o : Output α) : Except (Failure α) (Cursor α) :=
  match o.eval o.start with
  | .ok state => .ok ⟨o, Scalar.ofNat 0, state, 0⟩
  | .error f => .error f

theorem open?_eq_ok_iff {o : Output α} {c : Cursor α} :
    open? o = .ok c ↔ ∃ raw, o.eval o.start = .ok raw ∧ c = ⟨o, Scalar.ofNat 0, raw, 0⟩ := by
  cases h : o.eval o.start with
  | ok raw => simp [open?, h, eq_comm]
  | error f => simp [open?, h]

def moveTo (elapsed : α) (c : Cursor α) : Except (Failure α) Unit × Cursor α :=
  let t := c.output.start + elapsed
  if c.output.isOutside t then
    (.error (Defect.outsideSpan t c.output.low c.output.high).failure, c)
  else
    match c.output.eval (c.output.clamp t) with
    | .ok state => (.ok (), { c with elapsed, state, repositions := c.repositions + 1 })
    | .error f => (.error f, c)

/-- A move is refused by the check of the span, fails in the evaluation, or succeeds. -/
theorem moveTo_cases (c : Cursor α) (elapsed : α) {t : α} (ht : c.output.start + elapsed = t) :
    c.output.isOutside t = true ∧ c.moveTo elapsed =
      (.error (Defect.outsideSpan t c.output.low c.output.high).failure, c) ∨
    (∃ f, c.output.isOutside t = false ∧ c.output.eval (c.output.clamp t) = .error f ∧
      c.moveTo elapsed = (.error f, c)) ∨
    ∃ raw, c.output.isOutside t = false ∧ c.output.eval (c.output.clamp t) = .ok raw ∧
      c.moveTo elapsed =
        (.ok (), { c with elapsed, state := raw, repositions := c.repositions + 1 }) := by
  subst ht
  cases hout : c.output.isOutside (c.output.start + elapsed) with
  | true => exact .inl ⟨rfl, by simp only [moveTo, hout, if_true]⟩
  | false =>
    have hin : ¬ c.output.isOutside (c.output.start + elapsed) = true := Bool.not_eq_true _ ▸ hout
    cases heval : c.output.eval (c.output.clamp (c.output.start + elapsed)) with
    | error f => exact .inr (.inl ⟨f, rfl, rfl, by simp only [moveTo, if_neg hin, heval]⟩)
    | ok raw => exact .inr (.inr ⟨raw, rfl, rfl, by simp only [moveTo, if_neg hin, heval]⟩)

theorem moveTo_of_error {elapsed : α} {c : Cursor α} {f : Failure α}
    (h : (c.moveTo elapsed).1 = .error f) : (c.moveTo elapsed).2 = c := by
  rcases c.moveTo_cases elapsed rfl with ⟨-, he⟩ | ⟨g, -, -, he⟩ | ⟨raw, -, -, he⟩
  · rw [he]
  · rw [he]
  · rw [he] at h
    cases h

theorem moveTo_eq_ok_iff {elapsed : α} {c c' : Cursor α} :
    c.moveTo elapsed = (.ok (), c') ↔ ∃ state,
      c.output.isOutside (c.output.start + elapsed) = false ∧
      c.output.eval (c.output.clamp (c.output.start + elapsed)) = .ok state ∧
      c' = { c with elapsed, state, repositions := c.repositions + 1 } := by
  rcases c.moveTo_cases elapsed rfl with
    ⟨hout, he⟩ | ⟨f, -, hf, he⟩ | ⟨raw, hin, hraw, he⟩
  · simp [he, hout]
  · simp [he, hf]
  · simp [he, hin, hraw, eq_comm]

instance : Model (Cursor α) α where
  time c := .ok c.elapsed
  state c := .ok c.state
  moveTo := moveTo

end Cursor

end OrbitReplay.Dense
