import OrbitReplay.Dense.Source
import OrbitReplay.Proofs.Replay.Chain

namespace OrbitReplay.Dense

variable {μ ν α : Type} [Scalar α] [Model μ α] [Model ν α]

inductive Brings (elapsed : α) (m : μ) : Except (Failure α) (List α) → μ → Prop
  | lost {f : Failure α} : Model.time m = .error f → Brings elapsed m (.error f) m
  | there {t : α} {r : Except (Failure α) (List α)} :
      Model.time m = .ok t → t == elapsed → Model.state m = r → Brings elapsed m r m
  | refused {t : α} {f : Failure α} {m' : μ} :
      Model.time m = .ok t → ¬ t == elapsed → Model.moveTo elapsed m = (.error f, m') →
      Brings elapsed m (.error f) m'
  | moved {t : α} {m' : μ} {r : Except (Failure α) (List α)} :
      Model.time m = .ok t → ¬ t == elapsed → Model.moveTo elapsed m = (.ok (), m') →
      Model.state m' = r → Brings elapsed m r m'

/-- A model stands where it was moved to. Where no standing model is found again, at what is not a
number, one more move shows the same vector. -/
structure Settles (μ : Type) [Model μ α] : Prop where
  arrives {m m' : μ} {elapsed : α} : Model.moveTo elapsed m = (.ok (), m') →
    Model.time m' = .ok elapsed
  again {m m' : μ} {elapsed : α} : Model.moveTo elapsed m = (.ok (), m') → ¬ elapsed == elapsed →
    ∃ m'', Model.moveTo elapsed m' = (.ok (), m'') ∧ Model.state m'' = Model.state m'

variable {elapsed : α} {m m' : μ}

theorem Brings.again (hs : Settles μ) {raw : List α} (h : Brings elapsed m (.ok raw) m') :
    ∃ m'', Brings elapsed m' (.ok raw) m'' := by
  cases h with
  | there ht he hr => exact ⟨_, .there ht he hr⟩
  | moved ht hne hm hr =>
    have harrived := hs.arrives hm
    by_cases he : elapsed == elapsed
    · exact ⟨_, .there harrived he hr⟩
    · obtain ⟨m'', hagain, hstate⟩ := hs.again hm he
      exact ⟨m'', .moved harrived he hagain (hstate.trans hr)⟩

theorem Brings.unique {r r' : Except (Failure α) (List α)} {m₁ m₂ : μ} (h : Brings elapsed m r m₁)
    (h' : Brings elapsed m r' m₂) : r = r' ∧ m₁ = m₂ := by
  cases h <;> cases h' <;> simp_all

theorem Settles.wrapped (h : Settles μ) (wrap : μ → ν)
    (htime : ∀ m, Model.time (wrap m) = Model.time m)
    (hstate : ∀ m, Model.state (wrap m) = Model.state m)
    (hmove : ∀ e m, Model.moveTo e (wrap m) = ((Model.moveTo e m).1, wrap (Model.moveTo e m).2))
    {n : ν} (hto : Model.moveTo elapsed (wrap m) = (.ok (), n)) :
    Model.time n = .ok elapsed ∧ (¬ elapsed == elapsed →
      ∃ n', Model.moveTo elapsed n = (.ok (), n') ∧ Model.state n' = Model.state n) := by
  rw [hmove] at hto
  obtain ⟨hok, rfl⟩ := Prod.mk.inj hto
  have hm : Model.moveTo elapsed m = (.ok (), (Model.moveTo elapsed m).2) := Prod.ext hok rfl
  refine ⟨(htime _).trans (h.arrives hm), fun he ↦ ?_⟩
  obtain ⟨m'', hagain, hshown⟩ := h.again hm he
  exact ⟨wrap m'', by rw [hmove, hagain], by rw [hstate, hstate, hshown]⟩

theorem Cursor.settles : Settles (α := α) (Cursor α) where
  arrives := by
    intro c c' elapsed h
    obtain ⟨state, -, -, rfl⟩ := moveTo_eq_ok_iff.1 h
    rfl
  again := by
    intro c c' elapsed h _
    obtain ⟨state, hin, heval, rfl⟩ := moveTo_eq_ok_iff.1 h
    exact ⟨_, moveTo_eq_ok_iff.2 ⟨state, hin, heval, rfl⟩, rfl⟩

theorem Linear.settles : Settles (α := α) (Linear α) where
  arrives := by
    intro m m' elapsed h
    obtain ⟨-, rfl⟩ := moveTo_eq_ok_iff.1 h
    rfl
  again := by
    intro m m' elapsed h _
    obtain ⟨hlimit, rfl⟩ := moveTo_eq_ok_iff.1 h
    exact ⟨_, moveTo_eq_ok_iff.2 ⟨hlimit, rfl⟩, rfl⟩

theorem Source.settles : Settles (α := α) (Source α) := by
  have hsource (s : Source α) {n : Source α} {elapsed : α}
      (h : Model.moveTo elapsed s = (.ok (), n)) :
      Model.time n = .ok elapsed ∧ (¬ elapsed == elapsed →
        ∃ n', Model.moveTo elapsed n = (.ok (), n') ∧ Model.state n' = Model.state n) := by
    cases s with
    | cursor c =>
      exact Cursor.settles.wrapped cursor (fun _ ↦ rfl) (fun _ ↦ rfl) (fun _ _ ↦ rfl) h
    | linear m =>
      exact Linear.settles.wrapped linear (fun _ ↦ rfl) (fun _ ↦ rfl) (fun _ _ ↦ rfl) h
  exact ⟨fun h ↦ (hsource _ h).1, fun h he ↦ (hsource _ h).2 he⟩

theorem exists_brings (elapsed : α) (m : μ) : ∃ r m', Brings elapsed m r m' := by
  cases ht : Model.time m with
  | error f => exact ⟨_, _, .lost ht⟩
  | ok t =>
    by_cases he : t == elapsed
    · exact ⟨_, _, .there ht he rfl⟩
    · rcases hm : Model.moveTo elapsed m with ⟨f | _, m'⟩
      · exact ⟨_, _, .refused ht he hm⟩
      · exact ⟨_, _, .moved ht he hm rfl⟩

end OrbitReplay.Dense

namespace OrbitReplay.Replay.Engine

open OrbitReplay.Dense

variable {μ α : Type} [Scalar α]

theorem covers_iff {e : Engine μ α} {date : α} :
    e.covers date = true ↔ e.low ≤ date ∧ date ≤ e.high := by
  simp only [covers, Bool.and_eq_true, decide_eq_true_eq]

variable [Model μ α] {e : Engine μ α} {date : α}

theorem rawAt_of_brings {r : Except (Failure α) (List α)} {m : μ} (hc : e.covers date = true)
    (h : Brings (date - e.start) e.model r m) :
    e.rawAt date = (wrap date r, { e with model := m }) := by
  rw [rawAt, if_pos hc, seek]
  cases h with
  | lost ht => simp only [ht]
  | there ht he hr => simp only [ht, he, hr, if_true]
  | refused ht he hm => simp only [ht, if_neg he, hm]
  | moved ht he hm hr => simp only [ht, if_neg he, hm, hr]

theorem rawAt_of_not_covers (hc : ¬ e.covers date = true) :
    e.rawAt date = (.error (.fault (.outOfRange date e.low e.high)), e) := by
  rw [rawAt, if_neg hc]

omit [Scalar α] [Model μ α] in
theorem wrap_eq_ok {β : Type} {r : Except (Failure α) β} {x : β} :
    wrap date r = .ok x ↔ r = .ok x := by
  rcases r with (f | m) | y <;> simp [wrap]

/-- A raw vector is there exactly if the date is in the span and the model shows one there. -/
theorem rawAt_eq_ok_iff {raw : List α} {e' : Engine μ α} :
    e.rawAt date = (.ok raw, e') ↔ (e.low ≤ date ∧ date ≤ e.high) ∧
      ∃ m, Brings (date - e.start) e.model (.ok raw) m ∧ e' = { e with model := m } := by
  rw [← covers_iff]
  by_cases hc : e.covers date = true
  · obtain ⟨r, m, hb⟩ := exists_brings (date - e.start) e.model
    rw [rawAt_of_brings hc hb]
    refine ⟨fun h ↦ ?_, fun ⟨_, m', hb', he'⟩ ↦ ?_⟩
    · obtain ⟨hr, he'⟩ := Prod.mk.inj h
      rw [wrap_eq_ok.1 hr] at hb
      exact ⟨hc, m, hb, he'.symm⟩
    · rw [← rawAt_of_brings hc hb, rawAt_of_brings hc hb', he']
      rfl
  · rw [rawAt_of_not_covers hc]
    refine ⟨fun h ↦ ?_, fun h ↦ absurd h.1 hc⟩
    cases (Prod.mk.inj h).1

theorem rawAt_again (hs : Settles μ) {raw : List α} (h : (e.rawAt date).1 = .ok raw) :
    ∃ m, e.rawAt date = (.ok raw, { e with model := m }) ∧
      (({ e with model := m } : Engine μ α).rawAt date).1 = .ok raw := by
  have hraw : e.rawAt date = (.ok raw, (e.rawAt date).2) := Prod.ext h rfl
  obtain ⟨hc, m, hb, hm⟩ := rawAt_eq_ok_iff.1 hraw
  obtain ⟨m', hb'⟩ := hb.again hs
  have hagain : ({ e with model := m } : Engine μ α).rawAt date = (.ok raw, { e with model := m' }) :=
    rawAt_eq_ok_iff.2 ⟨hc, m', hb', rfl⟩
  exact ⟨m, hm ▸ hraw, congrArg Prod.fst hagain⟩

end OrbitReplay.Replay.Engine
