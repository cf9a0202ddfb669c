import OrbitReplay.Failure
import OrbitReplay.Options
import OrbitReplay.Nearest.Locator
import OrbitReplay.Nearest.Neighborhood
import OrbitReplay.Hermite.Interpolate

namespace OrbitReplay

structure Sample (α : Type) where
  date : α
  value : α

/-- The samples by rising date. One list of pairs stands for the two parallel lists of dates and of
values: these are only ever changed together and at one place, so they have one length and are the
projections of the pairs. -/
structure Grid (α : Type) where
  points : Nat
  points_pos : 0 < points
  samples : List (Sample α)
  locator : Nearest.Locator

namespace Grid

variable {α : Type} [Scalar α]

def ofOptions (o : Options α) : Grid α :=
  ⟨o.points, o.points_pos, [], { persistent := o.persistent.isOn }⟩

def size (g : Grid α) : Nat := g.samples.length

def dates (g : Grid α) : List α := g.samples.map Sample.date

def values (g : Grid α) : List α := g.samples.map Sample.value

def hint (g : Grid α) : Int := g.locator.hint

/-- The nearest sample, and the grid with the search remembered. The dates are finite, so no search
leaves the list and the position found is an index. -/
def locate? (g : Grid α) (date : α) : Option Nat × Grid α :=
  let (found, locator) := g.locator.locate? g.dates date
  (found.bind Int.toNat?, { g with locator })

def store (g : Grid α) (closest : Nat) (date value : α) : Grid α :=
  match g.samples[closest]? with
  | none => g
  | some s =>
    if s.date == date then { g with samples := g.samples.set closest { s with value } }
    else
      let i := if date < s.date then closest else closest + 1
      { g with samples := g.samples.insertIdx i ⟨date, value⟩ }

def insert (g : Grid α) (date value : α) : Except (Failure α) Unit × Grid α :=
  if !Scalar.isFinite date then (.error (Defect.dateNotFinite date).failure, g)
  else if g.samples.isEmpty then (.ok (), { g with samples := [⟨date, value⟩] })
  else
    match g.locate? date with
    | (some i, g) => (.ok (), g.store i date value)
    | (none, g) => (.error (.mishap .readPastEnd), g)

/-- The indices of the samples a query at this date uses, closest first. A query that uses the whole
grid needs no search and takes them in order. -/
def neighbors (g : Grid α) (date : α) : Except (Failure α) (List Nat) × Grid α :=
  if !Scalar.isFinite date then (.error (Defect.dateNotFinite date).failure, g)
  else
    let size := min g.points g.size
    if size = 0 then (.error (.fault (.emptyGrid date)), g)
    else if g.size ≤ size then (.ok (List.range size), g)
    else
      match g.locate? date with
      | (some i, g) => (.ok (Nearest.neighborhood g.dates date i size), g)
      | (none, g) => (.error (.mishap .readPastEnd), g)

def interpolate (g : Grid α) (indices : List Nat) (date : α) : Except (Failure α) α :=
  let used := indices.filterMap (g.samples[·]?)
  match Hermite.scalar (used.map (·.date - date)) (used.map Sample.value) (Scalar.ofNat 0) with
  | .ok v => .ok v
  | .error d => .error d.failure

def valueAt (g : Grid α) (date : α) : Except (Failure α) α × Grid α :=
  match g.neighbors date with
  | (.error f, g) => (.error f, g)
  | (.ok indices, g) => (g.interpolate indices date, g)

def clear (g : Grid α) : Grid α := { g with samples := [], locator := g.locator.reset }

end Grid

end OrbitReplay
