import OrbitReplay.Hermite.Newton
import OrbitReplay.Defect

namespace OrbitReplay.Hermite

variable {α : Type} [Scalar α]

def fits (samples : Nat) : List Nat → Bool
  | [n] => n == samples
  | [n, _] => n == samples
  | _ => false

/-- The conditions on the samples, in the order in which they are reported. -/
def check (xs : List α) (shape : List Nat) (derivatives : List (List Nat)) :
    Except (Defect α) Unit :=
  if xs.isEmpty then .error .noAbscissa
  else if !fits xs.length shape then .error (.valuesShape shape xs.length)
  else if !distinct xs then .error .repeatedAbscissa
  else
    match derivatives.zipIdx.find? (·.1 != shape) with
    | some (s, j) => .error (.derivativeShape (j + 1) s shape)
    | none => .ok ()

def sampleAt? {β : Type} (xs : List α) (rows : List β) (x : α) : Option β :=
  ((xs.zip rows).find? (·.1 == x)).map Prod.snd

def schedule (xs : List α) (times : Nat) : Except (Defect α) (List (Node α)) :=
  match nodes? ((ascending (xs.map (⟨·, []⟩))).flatMap fun k ↦ List.replicate times k.abscissa) with
  | some nodes => .ok nodes
  | none => .error .negativeFactorial

def polynomial (nodes : List (Node α)) (xs : List α) (orders : List (List α)) (x : α) : α :=
  (Table.ofNodes nodes ((ascending (knots xs orders)).flatMap Knot.jet)).eval x

def scalarAt (xs ys : List α) (derivatives : List (List α)) (x : α) : Except (Defect α) α :=
  match sampleAt? xs ys x with
  | some y => .ok y
  | none =>
    match schedule xs (derivatives.length + 1) with
    | .error d => .error d
    | .ok nodes => .ok (polynomial nodes xs (ys :: derivatives) x)

def vectorAt (xs : List α) (values : Tensor α) (derivatives : List (Tensor α)) (width : Nat)
    (x : α) : Except (Defect α) (List α) :=
  match sampleAt? xs values.rows x with
  | some row => .ok row
  | none =>
    match schedule xs (derivatives.length + 1) with
    | .error d => .error d
    | .ok nodes =>
      .ok ((List.range width).map fun c ↦
        polynomial nodes xs (values.column c :: derivatives.map (·.column c)) x)

def scalar (xs ys : List α) (x : α) : Except (Defect α) α :=
  match check xs [ys.length] [] with
  | .error d => .error d
  | .ok () => scalarAt xs ys [] x

/-- The value at `x` of the polynomial with the given values and derivatives: a number for a vector
of values, a vector for a matrix of them. -/
def value (abscissae values : Tensor α) (derivatives : List (Tensor α)) (x : α) :
    Except (Defect α) (Tensor α) :=
  match abscissae.shape with
  | [_] =>
    match check abscissae.data values.shape (derivatives.map Tensor.shape) with
    | .error d => .error d
    | .ok () =>
      match values.shape with
      | [_, width] => (vectorAt abscissae.data values derivatives width x).map Tensor.vector
      | _ => (scalarAt abscissae.data values.data (derivatives.map Tensor.data) x).map Tensor.scalar
  | _ => .error .noAbscissa

end OrbitReplay.Hermite
