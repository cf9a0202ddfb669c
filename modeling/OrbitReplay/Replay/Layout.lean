import OrbitReplay.State.Decode

namespace OrbitReplay.Replay

structure Channel where
  name : String
  offset : Nat
  length : Nat
deriving DecidableEq

namespace Channel

def stop (c : Channel) : Nat := c.offset + c.length

def slice {α : Type} (c : Channel) (raw : List α) : List α := (raw.drop c.offset).take c.length

def describe (c : Channel) : String :=
  "ChannelExtractor(name=" ++ Text.quoted c.name ++ ", offset=" ++ toString c.offset ++
    ", length=" ++ toString c.length ++ ")"

end Channel

structure Layout where
  channels : List Channel := []
  next : Nat := orbitLength

namespace Layout

variable {α : Type}

def find? (l : Layout) (name : String) : Option Channel := l.channels.find? (·.name == name)

def channel (l : Layout) (name : String) : Except (Failure α) Channel :=
  match l.find? name with
  | some c => .ok c
  | none => .error (.fault (.unknownChannel name))

/-- Gives the next entries to a new channel. A name that is taken is refused before the length is
looked at. -/
def register (l : Layout) (name : String) (length : Int) : Except (Failure α) (Channel × Layout) :=
  if (l.find? name).isSome then .error (.fault (.duplicateChannel name))
  else if length ≤ 0 then .error (Defect.channelLength name length).failure
  else
    let c : Channel := ⟨name, l.next, length.toNat⟩
    .ok (c, { channels := l.channels ++ [c], next := c.stop })

def registerAll (l : Layout) : List (String × Int) → Except (Failure α) Layout
  | [] => .ok l
  | (name, length) :: rest =>
    match l.register name length with
    | .ok (_, l) => registerAll l rest
    | .error f => .error f

def requests (l : Layout) : List (String × Int) := l.channels.map fun c ↦ (c.name, c.length)

end Layout

end OrbitReplay.Replay
