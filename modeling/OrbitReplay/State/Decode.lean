import OrbitReplay.State.Basic

namespace OrbitReplay

def orbitLength : Nat := 7

abbrev Decoder (α : Type) := α → Tensor α → Except (Failure α) (State α)

namespace Decoder

variable {α : Type} [Scalar α]

/-- Reads six elements and a positive mass, all finite; what follows them is not looked at. -/
def elements (orbitType : OrbitType) : Decoder α := fun date raw ↦
  match raw.shape, raw.data[6]? with
  | [_], some mass =>
    let head := raw.data.take orbitLength
    if !head.all Scalar.isFinite then .error (Defect.rawNotFinite head).failure
    else if mass ≤ Scalar.ofNat 0 then .error (Defect.massNotPositive mass).failure
    else .ok { date, elements := .vector (raw.data.take 6), mass, orbitType }
  | _, _ => .error (Defect.rawShape raw.shape).failure

def failing (f : Failure α) : Decoder α := fun _ _ ↦ .error f

end Decoder

end OrbitReplay
