import OrbitReplay.Replay.Session
import OrbitReplay.Proofs.Scalar.Alike

namespace OrbitReplay

open Scalar

variable {α : Type} [Scalar α]

structure Tensor.Alike (s t : Tensor α) : Prop where
  shape : s.shape = t.shape
  data : AlikeAll s.data t.data

theorem AlikeAll.vector {xs ys : List α} (h : AlikeAll xs ys) :
    Tensor.Alike (.vector xs) (.vector ys) :=
  ⟨congrArg (fun n ↦ [n]) h.length_eq, h⟩

structure State.Alike (s t : State α) : Prop where
  date : Scalar.Alike s.date t.date
  elements : Tensor.Alike s.elements t.elements
  mass : Scalar.Alike s.mass t.mass
  orbitType : s.orbitType = t.orbitType
  additional : List.Forall₂ (fun e f ↦ e.1 = f.1 ∧ Tensor.Alike e.2 f.2) s.additional.entries
    t.additional.entries

theorem Tensor.Alike.rfl {t : Tensor α} : Tensor.Alike t t := ⟨Eq.refl _, AlikeAll.rfl⟩

theorem State.Alike.rfl {s : State α} : State.Alike s s :=
  ⟨.rfl, .rfl, .rfl, Eq.refl _, List.forall₂_same.2 fun _ _ ↦ ⟨Eq.refl _, .rfl⟩⟩

theorem put_alike (name : String) {v w : Tensor α} (hv : Tensor.Alike v w)
    {es fs : List (String × Tensor α)}
    (h : List.Forall₂ (fun e f ↦ e.1 = f.1 ∧ Tensor.Alike e.2 f.2) es fs) :
    List.Forall₂ (fun e f ↦ e.1 = f.1 ∧ Tensor.Alike e.2 f.2) (Named.put name v es)
      (Named.put name w fs) := by
  induction h with
  | nil => exact .cons ⟨rfl, hv⟩ .nil
  | @cons e f es fs he hs ih =>
    obtain ⟨n, x⟩ := e
    obtain ⟨n', y⟩ := f
    obtain ⟨rfl, hx⟩ : n = n' ∧ Tensor.Alike x y := he
    rw [Named.put, Named.put]
    split
    · exact .cons ⟨rfl, hv⟩ hs
    · exact .cons ⟨rfl, hx⟩ ih

theorem State.Alike.attach {s t : State α} (h : State.Alike s t) (name : String) {v w : Tensor α}
    (hv : Tensor.Alike v w) : State.Alike (s.attach name v) (t.attach name w) :=
  ⟨h.date, h.elements, h.mass, h.orbitType, put_alike name hv h.additional⟩

/-- Failures that tell the same; only refused raw entries are numbers that a query computes. -/
inductive Failure.Alike : Failure α → Failure α → Prop where
  | refl (f : Failure α) : Failure.Alike f f
  | head {xs ys : List α} : AlikeAll xs ys →
      Failure.Alike (Defect.rawNotFinite xs).failure (Defect.rawNotFinite ys).failure
  | mass {x y : α} : Scalar.Alike x y →
      Failure.Alike (Defect.massNotPositive x).failure (Defect.massNotPositive y).failure
  | undecodable {date : α} {m n : Mishap α} : Failure.Alike (.mishap m) (.mishap n) →
      Failure.Alike (.fault (.undecodable date m)) (.fault (.undecodable date n))

theorem Failure.Alike.symm {f g : Failure α} (h : Failure.Alike f g) : Failure.Alike g f := by
  induction h with
  | refl f => exact .refl f
  | head h => exact .head h.symm
  | mass h => exact .mass h.symm
  | undecodable _ ih => exact .undecodable ih

theorem Failure.Alike.trans {f g k : Failure α} (h : Failure.Alike f g) (h' : Failure.Alike g k) :
    Failure.Alike f k := by
  induction h generalizing k with
  | refl => exact h'
  | head h =>
    cases h' with
    | refl => exact .head h
    | head h' => exact .head (h.trans h')
  | mass h =>
    cases h' with
    | refl => exact .mass h
    | mass h' => exact .mass (h.trans h')
  | undecodable h ih =>
    cases h' with
    | refl => exact .undecodable h
    | undecodable h' => exact .undecodable (ih h')

inductive Agree {β γ : Type} (R : β → γ → Prop) :
    Except (Failure α) β → Except (Failure α) γ → Prop where
  | ok {x : β} {y : γ} : R x y → Agree R (.ok x) (.ok y)
  | error {f g : Failure α} : Failure.Alike f g → Agree R (.error f) (.error g)

namespace Agree

variable {β γ β' γ' : Type} {R : β → γ → Prop} {S : β' → γ' → Prop}

theorem refl {R : β → β → Prop} {r : Except (Failure α) β} (h : ∀ x, R x x) : Agree R r r := by
  cases r with
  | ok x => exact .ok (h x)
  | error f => exact .error (.refl f)

theorem symm {r s : Except (Failure α) (List α)} (h : Agree AlikeAll r s) : Agree AlikeAll s r := by
  cases h with
  | ok h => exact .ok h.symm
  | error h => exact .error h.symm

theorem trans {r s t : Except (Failure α) (List α)} (h : Agree AlikeAll r s)
    (h' : Agree AlikeAll s t) :
    Agree AlikeAll r t := by
  cases h with
  | ok h =>
    cases h' with
    | ok h' => exact .ok (h.trans h')
  | error h =>
    cases h' with
    | error h' => exact .error (h.trans h')

theorem map {r : Except (Failure α) β} {s : Except (Failure α) γ} {f : β → β'} {g : γ → γ'}
    (h : Agree R r s) (hf : ∀ x y, R x y → S (f x) (g y)) : Agree S (r.map f) (s.map g) := by
  cases h with
  | ok h => exact .ok (hf _ _ h)
  | error h => exact .error h

theorem wrap (date : α) {r : Except (Failure α) β} {s : Except (Failure α) γ} (h : Agree R r s) :
    Agree R (Replay.Engine.wrap date r) (Replay.Engine.wrap date s) := by
  cases h with
  | ok h => exact .ok h
  | @error f _ h =>
    cases h with
    | refl => cases f <;> exact .error (.refl _)
    | head h => exact .error (.undecodable (.head h))
    | mass h => exact .error (.undecodable (.mass h))
    | undecodable h => exact .error (.undecodable h)

end Agree

/-- A decoder that is a function of its arguments. These are numbers, and the two zeros are one
number, so the decoder may not tell vectors apart that differ in the signs of zeros only. -/
def Decoder.Respects (d : Decoder α) : Prop :=
  ∀ date s t, Tensor.Alike s t → Agree State.Alike (d date s) (d date t)

theorem Decoder.respects_elements [Congruent α] (orbitType : OrbitType) :
    (Decoder.elements (α := α) orbitType).Respects := by
  intro date s t h
  have hfinite {xs ys : List α} (h : AlikeAll xs ys) : xs.all isFinite = ys.all isFinite := by
    induction h with
    | nil => rfl
    | cons h _ ih => rw [List.all_cons, List.all_cons, isFinite_congr h, ih]
  have htake := hfinite (List.forall₂_take orbitLength h.data)
  have hshape := h.shape
  have hdata := h.data
  rcases s with ⟨sshape, sdata, hs⟩
  rcases t with ⟨tshape, tdata, ht⟩
  simp only at hshape hdata htake
  subst hshape
  rcases sshape with _ | ⟨n, _ | ⟨m, rest⟩⟩
  · exact .error (.refl _)
  · rcases forall₂_getElem? hdata 6 with ⟨h₆, h₆'⟩ | ⟨x, y, h₆, h₆', hxy⟩
    · simp only [elements, h₆, h₆']
      exact .error (.refl _)
    · simp only [elements, h₆, h₆', htake, le_congr hxy .rfl]
      split
      · exact .error (.head (List.forall₂_take orbitLength hdata))
      · split
        · exact .error (.mass hxy)
        · exact .ok ⟨.rfl, AlikeAll.vector (List.forall₂_take 6 hdata), hxy, rfl, .nil⟩
  · exact .error (.refl _)

namespace Replay

inductive Answer.Alike {μ : Type} : Answer μ α → Answer μ α → Prop where
  | done : Answer.Alike .done .done
  | state {s t : State α} : State.Alike s t → Answer.Alike (.state s) (.state t)
  | values {s t : Tensor α} : Tensor.Alike s t → Answer.Alike (.values s) (.values t)
  | number {x y : α} : Scalar.Alike x y → Answer.Alike (.number x) (.number y)
  | engine {e f : Engine μ α} : e.start = f.start → e.low = f.low → e.high = f.high →
      e.layout = f.layout → Answer.Alike (.engine e) (.engine f)
  | extractor (c : Channel) (attached : Bool) :
      Answer.Alike (.extractor c attached) (.extractor c attached)
  | index (i : Nat) : Answer.Alike (.index i) (.index i)
  | absent : Answer.Alike .absent .absent

end Replay

end OrbitReplay
