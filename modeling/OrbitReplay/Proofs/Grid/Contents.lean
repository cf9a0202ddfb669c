import OrbitReplay.Proofs.Grid.Invariant
import OrbitReplay.Proofs.Binary64.Laws

namespace OrbitReplay.Grid

open Scalar Nearest

variable {α : Type} [Scalar α]

def Holds (samples : List (Sample α)) (date value : α) : Prop :=
  ∃ s ∈ samples, s.date == date ∧ s.value = value

def Request.write (date : α) (held : Option α) : Request α → Option α
  | .insert d v => if isFinite d && d == date then some v else held
  | .clear => none
  | _ => held

/-- The value of the last accepted insertion at a date since the grid was last cleared. -/
def latest (date : α) (rs : List (Request α)) : Option α := rs.foldl (Request.write date) none

def accepted : List (Request α) → List (Sample α)
  | [] => []
  | .insert date value :: rs =>
    if isFinite date then ⟨date, value⟩ :: accepted rs else accepted rs
  | _ :: rs => accepted rs

def Request.isClear : Request α → Bool
  | .clear => true
  | _ => false

theorem holds_append (xs ys : List (Sample α)) (d v : α) :
    Holds (xs ++ ys) d v ↔ Holds xs d v ∨ Holds ys d v := by
  simp only [Holds, List.mem_append, or_and_right, exists_or]

theorem holds_cons (s : Sample α) (xs : List (Sample α)) (d v : α) :
    Holds (s :: xs) d v ↔ s.date == d ∧ s.value = v ∨ Holds xs d v := by
  simp only [Holds, List.mem_cons, or_and_right, exists_or, exists_eq_left]

theorem Stored.perm {date value : α} {xs ys : List (Sample α)} (h : Stored date value xs ys)
    (hne : ∀ s ∈ xs, ¬ s.date == date) : ys.Perm (xs ++ [⟨date, value⟩]) := by
  cases h with
  | new _ _ =>
    rw [List.append_assoc]
    exact (List.perm_append_singleton _ _).symm.append_left _
  | overwritten t ht _ _ => exact absurd ht (hne t (by simp))

section Ordered

variable [Ordered α]

theorem not_holds_of_lt {xs : List (Sample α)} {date d v : α} (h : ∀ s ∈ xs, s.date < date)
    (hd : date == d) : ¬ Holds xs d v := by
  rintro ⟨s, hs, he, -⟩
  exact not_beq_of_lt (h s hs) (beq_trans he (beq_symm hd))

theorem not_holds_of_gt {xs : List (Sample α)} {date d v : α} (h : ∀ s ∈ xs, date < s.date)
    (hd : date == d) : ¬ Holds xs d v := by
  rintro ⟨s, hs, he, -⟩
  exact not_beq_of_lt (h s hs) (beq_trans hd (beq_symm he))

theorem Stored.holds {date value d v : α} {xs ys : List (Sample α)} (h : Stored date value xs ys) :
    Holds ys d v ↔ if date == d then value = v else Holds xs d v := by
  cases h with
  | new hpre hpost =>
    rw [holds_append, holds_cons, holds_append]
    by_cases hd : date == d
    · simp only [hd, not_holds_of_lt hpre hd, not_holds_of_gt hpost hd, if_true, true_and,
        false_or, or_false]
    · simp [hd]
  | overwritten t ht hpre hpost =>
    rw [holds_append, holds_cons, holds_append, holds_cons]
    by_cases hd : date == d
    · simp only [beq_trans ht hd, hd, not_holds_of_lt hpre hd, not_holds_of_gt hpost hd, if_true,
        true_and, false_or, or_false]
    · have hne : ¬ t.date == d := fun he ↦ hd (beq_trans (beq_symm ht) he)
      simp [hne, hd]

end Ordered

variable [Subtractive α]

theorem holds_step {g : Grid α} (hg : g.Sound) (r : Request α) {d : α} {held : Option α}
    (h : ∀ v, Holds g.samples d v ↔ held = some v) (v : α) :
    Holds (g.step r).2.samples d v ↔ r.write d held = some v := by
  cases r with
  | insert date value =>
    cases hd : isFinite date with
    | false => simpa [step, insert, Request.write, hd] using h v
    | true =>
      obtain ⟨g', hi, -, hs⟩ := insert_stored hg hd value
      simp only [step, hi, Request.write, hd, Bool.true_and]
      rw [hs.holds]
      split
      · exact Option.some_inj.symm
      · exact h v
  | valueAt date =>
    simpa only [step, valueAt_snd, (samples_neighbors hg date).1, Request.write] using h v
  | neighbors date =>
    simpa only [step, (samples_neighbors hg date).1, Request.write] using h v
  | clear => simp [step, clear, Holds, Request.write]

theorem holds_run {g : Grid α} (hg : g.Sound) (rs : List (Request α)) {d : α} {held : Option α}
    (h : ∀ v, Holds g.samples d v ↔ held = some v) (v : α) :
    Holds (g.run rs).samples d v ↔ rs.foldl (Request.write d) held = some v := by
  induction rs generalizing g held with
  | nil => exact h v
  | cons r rs ih => exact ih (sound_step hg r) (holds_step hg r h)

/-- Insertions at different dates, with queries between them, lose nothing. -/
theorem perm_run {g : Grid α} (hg : g.Sound) (rs : List (Request α))
    (hc : ∀ r ∈ rs, r.isClear = false)
    (hne : (g.samples ++ accepted rs).Pairwise fun s t ↦ ¬ s.date == t.date) :
    (g.run rs).samples.Perm (g.samples ++ accepted rs) := by
  induction rs generalizing g with
  | nil => simp [run, accepted]
  | cons r rs ih =>
    have hc' : ∀ r ∈ rs, r.isClear = false := fun r hr ↦ hc r (List.mem_cons_of_mem _ hr)
    have same (hs : (g.step r).2.samples = g.samples) (ha : accepted (r :: rs) = accepted rs) :
        (g.run (r :: rs)).samples.Perm (g.samples ++ accepted (r :: rs)) := by
      have := ih (sound_step hg r) hc' (by rwa [hs, ← ha])
      rwa [hs, ← ha] at this
    cases r with
    | insert date value =>
      cases hd : isFinite date with
      | false => exact same (by simp [step, insert, hd]) (by simp [accepted, hd])
      | true =>
        obtain ⟨g', hi, hg', hs⟩ := insert_stored hg hd value
        have ha : accepted (.insert date value :: rs) = ⟨date, value⟩ :: accepted rs := by
          simp [accepted, hd]
        rw [ha] at hne ⊢
        have hnew : g'.samples.Perm (g.samples ++ [⟨date, value⟩]) := by
          refine hs.perm fun s hs ↦ ?_
          exact (List.pairwise_append.1 hne).2.2 s hs _ List.mem_cons_self
        have hall :
            (g'.samples ++ accepted rs).Perm (g.samples ++ ⟨date, value⟩ :: accepted rs) := by
          have := hnew.append_right (accepted rs)
          rwa [List.append_assoc] at this
        have hrun := ih hg' hc' ((hall.pairwise_iff (mt beq_symm)).2 hne)
        have hstep : g.run (.insert date value :: rs) = g'.run rs := by
          simp only [run, List.foldl_cons, step, hi]
        rw [hstep]
        exact hrun.trans hall
    | valueAt date =>
      exact same (by simp only [step, valueAt_snd, (samples_neighbors hg date).1]) rfl
    | neighbors date => exact same (by simp only [step, (samples_neighbors hg date).1]) rfl
    | clear => exact absurd (hc _ List.mem_cons_self) (by simp [Request.isClear])

/-- Two grids with the same samples in any order have them in the same order. -/
theorem samples_eq_of_perm {g h : Grid α} (hg : g.Sound) (hh : h.Sound)
    (hp : g.samples.Perm h.samples) : g.samples = h.samples :=
  List.Perm.eq_of_pairwise (fun _ _ _ _ hlt hgt ↦ absurd hgt (Scalar.lt_asymm hlt)) hg.rising
    hh.rising hp

/-- A grid is a finite map from dates to values, and its hint is an index of it. -/
theorem run_refines_map (o : Options α) (rs : List (Request α)) :
    let g := (ofOptions o).run rs
    g.dates.length = g.values.length ∧
    (∀ d ∈ g.dates, isFinite d) ∧
    (g.dates.Pairwise fun d e ↦ d < e ∧ ¬ d == e) ∧
    (∀ date value, (g.insert date value).1.isOk ↔ isFinite date) ∧
    (∀ date value, Holds g.samples date value ↔ latest date rs = some value) ∧
    (∃ n : Nat, g.hint = n ∧ (n < g.size ∨ g.size = 0 ∧ n = 0)) ∧
    (∀ (o' : Options α) (rs' : List (Request α)),
      (∀ r ∈ rs ++ rs', r.isClear = false) → (accepted rs).Perm (accepted rs') →
      ((accepted rs).Pairwise fun s t ↦ ¬ s.date == t.date) →
      ((ofOptions o').run rs').samples = g.samples) := by
  intro g
  have hg : g.Sound := sound_run (sound_ofOptions o) rs
  refine ⟨?_, ?_, ?_, ?_, ?_, ?_, ?_⟩
  · simp [dates, values]
  · intro d hd
    obtain ⟨s, hs, rfl⟩ := List.mem_map.1 hd
    exact hg.finite s hs
  · exact hg.rising_dates.imp fun h ↦ ⟨h, not_beq_of_lt h⟩
  · intro date value
    cases hd : isFinite date with
    | false => simp [insert, hd, Except.isOk, Except.toBool]
    | true =>
      obtain ⟨g', hi, -⟩ := insert_stored hg hd value
      simp [hi, Except.isOk, Except.toBool]
  · intro date value
    exact holds_run (sound_ofOptions o) rs (by simp [Holds, ofOptions]) value
  · obtain ⟨n, hn, hlt⟩ := hg.hint
    exact ⟨n, hn, by omega⟩
  · intro o' rs' hc hp hne
    have hclear {qs : List (Request α)} (h : ∀ r ∈ qs, r ∈ rs ++ rs') :
        ∀ r ∈ qs, r.isClear = false := fun r hr ↦ hc r (h r hr)
    have hsymm {s t : Sample α} (h : ¬ s.date == t.date) : ¬ t.date == s.date :=
      fun h' ↦ h (beq_symm h')
    have h₁ := perm_run (sound_ofOptions o) rs (hclear fun r hr ↦ List.mem_append_left _ hr) hne
    have h₂ := perm_run (sound_ofOptions o') rs' (hclear fun r hr ↦ List.mem_append_right _ hr)
      ((hp.pairwise_iff hsymm).1 hne)
    exact samples_eq_of_perm (sound_run (sound_ofOptions o') rs') hg
      (h₂.trans (hp.symm.trans h₁.symm))

theorem run_refines_map_binary64 :
    let rs : List (Request Float) := [.insert 2.0 20.0, .valueAt 9.0, .insert 1.0 10.0,
      .insert (-0.0) 5.0, .insert (1.0 / 0.0) 9.0, .insert 0.0 7.0]
    let g := (ofOptions {}).run rs
    g.samples = [⟨-0.0, 7.0⟩, ⟨1.0, 10.0⟩, ⟨2.0, 20.0⟩] ∧
      (∀ value, Holds g.samples (0.0 : Float) value ↔ value = 7.0) ∧
      (∃ n : Nat, g.hint = n ∧ (n < g.size ∨ g.size = 0 ∧ n = 0)) := by
  intro rs g
  obtain ⟨-, -, -, -, hlatest, hhint, -⟩ := run_refines_map ({} : Options Float) rs
  have hlast : latest (0.0 : Float) rs = some 7.0 := rfl
  refine ⟨rfl, fun value ↦ ?_, hhint⟩
  rw [hlatest, hlast, Option.some_inj]
  exact eq_comm

end OrbitReplay.Grid
