import OrbitReplay.Dense.Cursor
import OrbitReplay.Proofs.Replay.Agree

namespace OrbitReplay.Dense

open Scalar

variable {μ ν α : Type} [Scalar α] [Model μ α] [Model ν α]

/-- A model whose state is a function of its elapsed time and whose failed moves change nothing.
`path` is that function: whatever moves led to a time, the model shows the same vector there.
`refusal` tells which times it cannot be moved to and why; asked for one of these it stays as it is.
Vectors of equal times are equal as numbers, which leaves the signs of zeros open. -/
structure Tracks (refusal : α → Option (Failure α)) (path : α → Except (Failure α) (List α))
    (Reached : μ → Prop) : Prop where
  stands {m : μ} : Reached m →
    ∃ t, Model.time m = .ok t ∧ refusal t = none ∧ Agree AlikeAll (path t) (Model.state m)
  refused {m : μ} {t e : α} {f : Failure α} : Reached m → Model.time m = .ok t → ¬ t == e → e == e →
    refusal e = some f → Model.moveTo e m = (.error f, m)
  moved {m : μ} {t e : α} : Reached m → Model.time m = .ok t → ¬ t == e → e == e →
    refusal e = none →
    ∃ m', Model.moveTo e m = (.ok (), m') ∧ Reached m' ∧ Model.time m' = .ok e
  congr {t e : α} : t == e → refusal t = none → refusal e = none ∧ Agree AlikeAll (path t) (path e)

variable {refusal : α → Option (Failure α)} {path : α → Except (Failure α) (List α)}
  {Reached : μ → Prop}

theorem Tracks.wrapped (h : Tracks refusal path Reached) {wrap : μ → ν}
    (htime : ∀ m, Model.time (wrap m) = Model.time m)
    (hstate : ∀ m, Model.state (wrap m) = Model.state m)
    (hmove : ∀ e m, Model.moveTo e (wrap m) = ((Model.moveTo e m).1, wrap (Model.moveTo e m).2)) :
    Tracks refusal path (fun n ↦ ∃ m, n = wrap m ∧ Reached m) where
  stands := by
    rintro - ⟨m, rfl, hm⟩
    rw [htime, hstate]
    exact h.stands hm
  refused := by
    rintro - t e f ⟨m, rfl, hm⟩ ht hne hn hf
    rw [htime] at ht
    rw [hmove, h.refused hm ht hne hn hf]
  moved := by
    rintro - t e ⟨m, rfl, hm⟩ ht hne hn hfree
    rw [htime] at ht
    obtain ⟨m', hto, hm', ht'⟩ := h.moved hm ht hne hn hfree
    refine ⟨wrap m', ?_, ⟨m', rfl, hm'⟩, ?_⟩
    · rw [hmove, hto]
    · rw [htime, ht']
  congr := h.congr

end OrbitReplay.Dense
