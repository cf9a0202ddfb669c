import OrbitReplay.Hermite.Knot

namespace OrbitReplay.Hermite

variable {α : Type} [Scalar α]

def factorial : Nat → Nat
  | 0 => 1
  | n + 1 => (n + 1) * factorial n

/-- The abscissae taken up so far, the leading difference of each, and all differences of the
last. -/
structure Table (α : Type) where
  abscissae : List α
  coefficients : List α
  row : List α

def differences (x v : α) : List α → List α → List α
  | r :: refs, t :: ts => v :: differences x ((r - v) / (t - x)) refs ts
  | _, _ => [v]

namespace Table

def start (x y : α) : Table α := ⟨[x], [y], [y]⟩

def enter (t : Table α) (n : Node α) (y : α) : Table α :=
  let refs := if n.order = 0 then t.coefficients else t.row.drop 1
  let row := differences n.abscissa (y / Scalar.ofNat (factorial n.order)) refs t.abscissae
  ⟨t.abscissae ++ [n.abscissa], t.coefficients ++ [row.getLastD y], row⟩

def ofNodes : List (Node α) → List α → Table α
  | n :: nodes, y :: ys =>
    (nodes.zip ys).foldl (fun t e ↦ t.enter e.1 e.2) (start n.abscissa y)
  | _, _ => ⟨[], [], []⟩

end Table

def addTerms (x p w : α) : List α → List α → α
  | t :: ts, c :: cs => addTerms x (p + (x - t) * w * c) ((x - t) * w) ts cs
  | _, _ => p

def Table.eval (t : Table α) (x : α) : α :=
  match t.coefficients with
  | [] => Scalar.ofNat 0
  | c :: cs => addTerms x (Scalar.ofNat 0 + c) (Scalar.ofNat 1) t.abscissae cs

end OrbitReplay.Hermite
