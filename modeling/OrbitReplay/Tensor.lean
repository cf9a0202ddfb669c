namespace OrbitReplay

def volume : List Nat → Nat
  | [] => 1
  | n :: shape => n * volume shape

structure Tensor (α : Type) where
  shape : List Nat
  data : List α
  length_data : data.length = volume shape

namespace Tensor

variable {α : Type}

def scalar (x : α) : Tensor α := ⟨[], [x], rfl⟩

def vector (xs : List α) : Tensor α := ⟨[xs.length], xs, by simp [volume]⟩

def ofShape? (shape : List Nat) (data : List α) : Option (Tensor α) :=
  if h : data.length = volume shape then some ⟨shape, data, h⟩ else none

instance [BEq α] : BEq (Tensor α) where
  beq s t := s.shape == t.shape && s.data == t.data

def raise (t : Tensor α) : Tensor α :=
  match t with
  | ⟨[], data, h⟩ => ⟨[1, 1], data, by simpa [volume] using h⟩
  | ⟨[n], data, h⟩ => ⟨[1, n], data, by simpa [volume] using h⟩
  | t => t

def stretches (d : Nat) : Nat → List α → List (List α)
  | 0, _ => []
  | n + 1, xs => xs.take d :: stretches d n (xs.drop d)

@[simp]
theorem length_stretches (d n : Nat) (xs : List α) : (stretches d n xs).length = n := by
  induction n generalizing xs with
  | zero => rfl
  | succ n ih => simp [stretches, ih]

def rows (t : Tensor α) : List (List α) :=
  match t.shape with
  | [n, d] => stretches d n t.data
  | _ => []

theorem length_rows {t : Tensor α} {n d : Nat} (h : t.shape = [n, d]) : t.rows.length = n := by
  simp [rows, h]

def column (t : Tensor α) (c : Nat) : List α := t.rows.filterMap (·[c]?)

end Tensor

def shapeText : List Nat → String
  | [n] => "(" ++ toString n ++ ",)"
  | shape => "(" ++ ", ".intercalate (shape.map toString) ++ ")"

end OrbitReplay
