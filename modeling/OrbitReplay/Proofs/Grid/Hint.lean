import OrbitReplay.Proofs.Grid.Invariant
import OrbitReplay.Proofs.Hermite.Scalar
import OrbitReplay.Proofs.Binary64.Zeros

namespace OrbitReplay.Grid

open Scalar Nearest

variable {α : Type}

structure InStep (g h : Grid α) : Prop where
  points : g.points = h.points
  samples : g.samples = h.samples
  hint : g.hint = h.hint

theorem InStep.hinted {g h : Grid α} (t : InStep g h) (i : Nat) :
    InStep (g.hinted i) (h.hinted i) :=
  ⟨t.points, t.samples, rfl⟩

variable [Scalar α]

/-- The same samples in the same places; a date that is zero may have either sign. -/
def SameSamples (xs ys : List (Sample α)) : Prop :=
  List.Forall₂ (fun s t ↦ s.date == t.date ∧ s.value = t.value) xs ys

theorem Sound.sameSamples [Ordered α] {g : Grid α} (hg : g.Sound) :
    SameSamples g.samples g.samples :=
  List.forall₂_same.2 fun s hs ↦ ⟨number_of_isFinite (hg.finite s hs), rfl⟩

section Congruent

variable [Congruent α]

theorem SameSamples.alike {xs ys : List (Sample α)} (h : SameSamples xs ys) :
    List.Forall₂ (fun s t ↦ Alike s.date t.date ∧ s.value = t.value) xs ys :=
  h.imp fun _ _ h ↦ ⟨alike_of_beq h.1, h.2⟩

theorem SameSamples.dates {g h : Grid α} (hs : SameSamples g.samples h.samples) :
    AlikeAll g.dates h.dates :=
  List.forall₂_map_left_iff.2 (List.forall₂_map_right_iff.2 (hs.alike.imp fun _ _ h ↦ h.1))

theorem grow_congr {xs ys : List α} (h : AlikeAll xs ys) (date : α) (n lower upper : Nat) :
    grow xs date n lower upper = grow ys date n lower upper := by
  induction n generalizing lower upper with
  | zero => rfl
  | succ n ih =>
    cases lower with
    | zero => simp only [grow, ih]
    | succ lower =>
      rcases forall₂_getElem? h lower with ⟨hl, hl'⟩ | ⟨a, a', hl, hl', ha⟩
      · simp only [grow, ih, hl, hl']
      rcases forall₂_getElem? h upper with ⟨hu, hu'⟩ | ⟨b, b', hu, hu', hb⟩
      · simp only [grow, ih, hl, hl', hu, hu']
      · simp only [grow, ih, hl, hl', hu, hu',
          le_congr (alike_distance ha .rfl) (alike_distance hb .rfl)]

theorem isNearest_congr {xs ys : List α} (h : AlikeAll xs ys) {date : α} {i : Nat}
    (hi : IsNearest xs date i) : IsNearest ys date i := by
  have get {j : Nat} {b : α} (hb : ys[j]? = some b) : ∃ a, xs[j]? = some a ∧ Alike a b := by
    rcases forall₂_getElem? h j with ⟨-, hj⟩ | ⟨a, b', ha, hb', hab⟩
    · rw [hb] at hj
      cases hj
    · rw [hb] at hb'
      cases hb'
      exact ⟨a, ha, hab⟩
  refine ⟨h.length_eq ▸ hi.lt_length, ?_, ?_, ?_, ?_⟩
  · intro j b hb hj
    obtain ⟨a, ha, hab⟩ := get hb
    exact (lt_congr_left hab).1 (hi.before ha hj)
  · intro j b hb hj
    obtain ⟨a, ha, hab⟩ := get hb
    exact (lt_congr_right hab).1 (hi.after ha hj)
  · intro b c hb hc hlt
    obtain ⟨a, ha, hab⟩ := get hb
    obtain ⟨d, hd, hdc⟩ := get hc
    exact (le_congr (alike_distance .rfl hab) (alike_distance hdc .rfl)).1
      (hi.le_upper ha hd ((lt_congr_left hab).2 hlt))
  · intro j b c hb hc hj hlt hle
    obtain ⟨a, ha, hab⟩ := get hb
    obtain ⟨d, hd, hdc⟩ := get hc
    exact hi.not_le_lower ha hd hj ((lt_congr_right hdc).2 hlt)
      ((le_congr (alike_distance .rfl hab) (alike_distance hdc .rfl)).2 hle)

theorem interpolate_congr {g h : Grid α} (hs : SameSamples g.samples h.samples) (is : List Nat)
    (date : α) : g.interpolate is date = h.interpolate is date := by
  have hused : List.Forall₂ (fun s t ↦ Alike s.date t.date ∧ s.value = t.value)
      (is.filterMap (g.samples[·]?)) (is.filterMap (h.samples[·]?)) := by
    induction is with
    | nil => exact .nil
    | cons i is ih =>
      rcases forall₂_getElem? hs.alike i with ⟨hi, hi'⟩ | ⟨s, t, hi, hi', hst⟩
      · rwa [List.filterMap_cons_none hi, List.filterMap_cons_none hi']
      · rw [List.filterMap_cons_some hi, List.filterMap_cons_some hi']
        exact .cons hst ih
  have hoffsets : AlikeAll ((is.filterMap (g.samples[·]?)).map (·.date - date))
      ((is.filterMap (h.samples[·]?)).map (·.date - date)) :=
    List.forall₂_map_left_iff.2 (List.forall₂_map_right_iff.2
      (hused.imp fun _ _ h ↦ alike_sub h.1 .rfl))
  have hvalues : (is.filterMap (g.samples[·]?)).map Sample.value =
      (is.filterMap (h.samples[·]?)).map Sample.value := by
    rw [← List.forall₂_eq_eq_eq, List.forall₂_map_left_iff, List.forall₂_map_right_iff]
    exact hused.imp fun _ _ h ↦ h.2
  simp only [interpolate]
  rw [Hermite.scalar_zero_congr hoffsets (by simp), hvalues]

end Congruent

def withPersistence (g : Grid α) (b : Bool) : Grid α :=
  { g with locator := { g.locator with persistent := b } }

theorem Sound.withPersistence {g : Grid α} (hg : g.Sound) (b : Bool) :
    (g.withPersistence b).Sound :=
  ⟨hg.finite, hg.rising, hg.hint⟩

theorem InStep.store {g h : Grid α} (t : InStep g h) (i : Nat) (date value : α) :
    InStep (g.store i date value) (h.store i date value) := by
  refine ⟨?_, ?_, ?_⟩
  · rw [points_store, points_store, t.points]
  · simp only [Grid.store, t.samples]
    split
    · exact t.samples
    · split <;> rfl
  · rw [hint_store, hint_store, t.hint]

variable [Subtractive α]

theorem InStep.insert {g h : Grid α} (hg : g.Sound) (hh : h.Sound) (t : InStep g h)
    (date value : α) :
    (g.insert date value).1 = (h.insert date value).1 ∧
      InStep (g.insert date value).2 (h.insert date value).2 := by
  rcases insert_cases hg date value with ⟨hd, hi⟩ | ⟨hd, he, hi⟩ | ⟨hd, -, i, hnear, hi⟩
  · rw [hi, insert_of_not_finite hd]
    exact ⟨rfl, t⟩
  · rw [hi, insert_of_empty hd (t.samples ▸ he)]
    exact ⟨rfl, t.points, rfl, t.hint⟩
  · have hdates : g.dates = h.dates := by rw [dates, dates, t.samples]
    rw [hi, insert_of_isNearest hh hd (hdates ▸ hnear)]
    exact ⟨rfl, (t.hinted i).store i date value⟩

theorem InStep.neighbors {g h : Grid α} (hg : g.Sound) (hh : h.Sound) (t : InStep g h) (date : α) :
    InStep (g.neighbors date).2 (h.neighbors date).2 := by
  have hsize : g.size = h.size := by rw [size, size, t.samples]
  rcases neighbors_cases hg date with
    ⟨hd, hi⟩ | ⟨hd, he, hi⟩ | ⟨hd, hne, hle, hi⟩ | ⟨hd, hlt, i, hnear, hi⟩
  · rw [hi, neighbors_of_not_finite hd]
    exact t
  · rw [hi, neighbors_of_empty hd (t.samples ▸ he)]
    exact t
  · rw [hi, neighbors_of_size_le hd (t.samples ▸ hne) (by rw [← hsize, ← t.points]; exact hle)]
    exact t
  · have hdates : g.dates = h.dates := by rw [dates, dates, t.samples]
    rw [hi, neighbors_of_isNearest hh hd (by rw [← hsize, ← t.points]; exact hlt) (hdates ▸ hnear)]
    exact t.hinted i

section Congruent

variable [Congruent α]

theorem neighbors_congr {g h : Grid α} (hg : g.Sound) (hh : h.Sound) (hp : g.points = h.points)
    (hs : SameSamples g.samples h.samples) (date : α) :
    (g.neighbors date).1 = (h.neighbors date).1 := by
  have hsize : g.size = h.size := hs.length_eq
  have hempty : g.samples = [] ↔ h.samples = [] := by
    rw [← List.length_eq_zero_iff, ← List.length_eq_zero_iff, hs.length_eq]
  rcases neighbors_cases hg date with
    ⟨hd, hi⟩ | ⟨hd, he, hi⟩ | ⟨hd, hne, hle, hi⟩ | ⟨hd, hlt, i, hnear, hi⟩
  · rw [hi, neighbors_of_not_finite hd]
  · rw [hi, neighbors_of_empty hd (hempty.1 he)]
  · rw [hi, neighbors_of_size_le hd (fun he ↦ hne (hempty.2 he)) (by omega), hsize]
  · rw [hi, neighbors_of_isNearest hh hd (by omega) (isNearest_congr hs.dates hnear), neighborhood,
      neighborhood, grow_congr hs.dates, hp]

theorem valueAt_congr {g h : Grid α} (hg : g.Sound) (hh : h.Sound) (hp : g.points = h.points)
    (hs : SameSamples g.samples h.samples) (date : α) :
    (g.valueAt date).1 = (h.valueAt date).1 := by
  have hn := neighbors_congr hg hh hp hs date
  have hg' := (samples_neighbors hg date).1
  have hh' := (samples_neighbors hh date).1
  simp only [valueAt]
  generalize g.neighbors date = p at *
  generalize h.neighbors date = q at *
  obtain ⟨r, g'⟩ := p
  obtain ⟨r', h'⟩ := q
  simp only at hn hg' hh'
  subst hn
  cases r with
  | error f => rfl
  | ok is => exact interpolate_congr (by rwa [hg', hh']) is date

theorem InStep.step {g h : Grid α} (hg : g.Sound) (hh : h.Sound) (t : InStep g h) (r : Request α) :
    (g.step r).1 = (h.step r).1 ∧ InStep (g.step r).2 (h.step r).2 := by
  have hs : SameSamples g.samples h.samples := t.samples ▸ hg.sameSamples
  cases r with
  | insert date value =>
    obtain ⟨h₁, h₂⟩ := t.insert hg hh date value
    exact ⟨by simp only [Grid.step, h₁], h₂⟩
  | valueAt date =>
    refine ⟨by simp only [Grid.step, valueAt_congr hg hh t.points hs], ?_⟩
    simpa only [Grid.step, valueAt_snd] using t.neighbors hg hh date
  | neighbors date =>
    exact ⟨by simp only [Grid.step, neighbors_congr hg hh t.points hs], t.neighbors hg hh date⟩
  | clear => exact ⟨rfl, t.points, rfl, rfl⟩

def observed (e : Except (Failure α) (Answer α) × Grid α) :
    Except (Failure α) (Answer α) × List (Sample α) × Int := (e.1, e.2.samples, e.2.hint)

theorem InStep.trace {g h : Grid α} (hg : g.Sound) (hh : h.Sound) (t : InStep g h)
    (rs : List (Request α)) : (g.trace rs).map observed = (h.trace rs).map observed := by
  induction rs generalizing g h with
  | nil => rfl
  | cons r rs ih =>
    obtain ⟨hr, t'⟩ := t.step hg hh r
    have hrest := ih (sound_step hg r) (sound_step hh r) t'
    rw [Grid.trace, Grid.trace, List.map_cons, List.map_cons, hrest, observed, observed, hr,
      t'.samples, t'.hint]

/-- The hint shows in no answer, and neither does whether it is remembered. -/
theorem hint_unobservable (o o' : Options α) (rs rs' : List (Request α)) :
    let g := (ofOptions o).run rs
    let h := (ofOptions o').run rs'
    (o.points = o'.points → SameSamples g.samples h.samples →
      ∀ date, (g.valueAt date).1 = (h.valueAt date).1 ∧
        (g.neighbors date).1 = (h.neighbors date).1) ∧
    (∀ (b : Bool) (qs : List (Request α)),
      (g.trace qs).map observed = ((g.withPersistence b).trace qs).map observed) := by
  intro g h
  have hg : g.Sound := sound_run (sound_ofOptions o) rs
  have hh : h.Sound := sound_run (sound_ofOptions o') rs'
  refine ⟨fun hp hs date ↦ ?_, fun b qs ↦ ?_⟩
  · have hp' : g.points = h.points := by
      rw [points_run (sound_ofOptions o), points_run (sound_ofOptions o')]
      exact hp
    exact ⟨valueAt_congr hg hh hp' hs date, neighbors_congr hg hh hp' hs date⟩
  · have t : InStep g (g.withPersistence b) := ⟨rfl, rfl, rfl⟩
    exact t.trace hg (hg.withPersistence b) qs

end Congruent

theorem hint_unobservable_binary64 :
    let o : Options Float := { points := 1 }
    let o' : Options Float := { points := 1, persistent := .bool false }
    let rs : List (Request Float) := [.insert 1.0 1.0, .insert 0.0 0.0, .neighbors 2.0]
    let rs' : List (Request Float) := [.insert (-0.0) 0.0, .insert 1.0 1.0]
    let g := (ofOptions o).run rs
    let h := (ofOptions o').run rs'
    g.hint = 1 ∧ h.hint = 0 ∧ ∀ date, (g.valueAt date).1 = (h.valueAt date).1 := by
  intro o o' rs rs' g h
  have hg : g.samples = [⟨0.0, 0.0⟩, ⟨1.0, 1.0⟩] := rfl
  have hh : h.samples = [⟨-0.0, 0.0⟩, ⟨1.0, 1.0⟩] := rfl
  have hs : SameSamples g.samples h.samples := by
    rw [hg, hh]
    exact .cons ⟨rfl, rfl⟩ (.cons ⟨rfl, rfl⟩ .nil)
  exact ⟨rfl, rfl, fun date ↦ ((hint_unobservable o o' rs rs').1 rfl hs date).1⟩

end OrbitReplay.Grid
