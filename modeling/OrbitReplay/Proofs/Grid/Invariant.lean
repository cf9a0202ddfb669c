import OrbitReplay.Grid.Run
import OrbitReplay.Proofs.Nearest.Locator

namespace OrbitReplay.Grid

open Scalar Nearest

variable {α : Type}

def hinted (g : Grid α) (i : Nat) : Grid α := { g with locator := { g.locator with hint := i } }

theorem length_dates (g : Grid α) : g.dates.length = g.size := List.length_map _

theorem getElem?_dates (g : Grid α) (i : Nat) : g.dates[i]? = g.samples[i]?.map Sample.date :=
  List.getElem?_map

variable [Scalar α]

theorem hint_store (g : Grid α) (i : Nat) (date value : α) :
    (g.store i date value).hint = g.hint := by
  rw [store]
  split
  · rfl
  · split <;> rfl

theorem points_store (g : Grid α) (i : Nat) (date value : α) :
    (g.store i date value).points = g.points := by
  rw [store]
  split
  · rfl
  · split <;> rfl

theorem valueAt_snd (g : Grid α) (date : α) : (g.valueAt date).2 = (g.neighbors date).2 := by
  rw [valueAt]
  split <;> simp_all

theorem insert_of_not_finite {g : Grid α} {date : α} (hd : isFinite date = false) (value : α) :
    g.insert date value = (.error (Defect.dateNotFinite date).failure, g) := by
  simp [insert, hd]

theorem insert_of_empty {g : Grid α} {date : α} (hd : isFinite date = true) (he : g.samples = [])
    (value : α) : g.insert date value = (.ok (), { g with samples := [⟨date, value⟩] }) := by
  simp [insert, hd, he]

theorem neighbors_of_not_finite {g : Grid α} {date : α} (hd : isFinite date = false) :
    g.neighbors date = (.error (Defect.dateNotFinite date).failure, g) := by
  simp [neighbors, hd]

theorem isFinite_of_neighbors {g : Grid α} {date : α} {is : List Nat}
    (h : (g.neighbors date).1 = .ok is) : isFinite date := by
  cases hd : isFinite date with
  | true => rfl
  | false =>
    rw [neighbors_of_not_finite hd] at h
    cases h

theorem neighbors_of_empty {g : Grid α} {date : α} (hd : isFinite date = true)
    (he : g.samples = []) :
    g.neighbors date = (.error (.fault (.emptyGrid date)), g) := by
  simp [neighbors, hd, size, he]

theorem neighbors_of_size_le {g : Grid α} {date : α} (hd : isFinite date = true)
    (hne : g.samples ≠ [])
    (hle : g.size ≤ g.points) : g.neighbors date = (.ok (List.range g.size), g) := by
  have hpos : 0 < g.size := List.length_pos_iff.2 hne
  have hmin : min g.points g.size = g.size := Nat.min_eq_right hle
  rw [neighbors, if_neg (by simp [hd])]
  simp only [hmin, if_neg (by omega : ¬ g.size = 0), if_pos (Nat.le_refl g.size)]

structure Sound (g : Grid α) : Prop where
  finite : ∀ s ∈ g.samples, isFinite s.date
  rising : g.samples.Pairwise fun s t ↦ s.date < t.date
  hint : ∃ n : Nat, g.hint = n ∧ (n < g.size ∨ n = 0)

theorem Sound.rising_dates {g : Grid α} (hg : g.Sound) : g.dates.Pairwise (· < ·) :=
  List.pairwise_map.2 hg.rising

theorem Sound.hint_nonneg {g : Grid α} (hg : g.Sound) : 0 ≤ g.locator.hint := by
  obtain ⟨n, hn, -⟩ := hg.hint
  have : g.locator.hint = n := hn
  omega

theorem Sound.hinted {g : Grid α} (hg : g.Sound) {i : Nat} (hi : i < g.size) :
    (g.hinted i).Sound :=
  ⟨hg.finite, hg.rising, i, rfl, .inl hi⟩

theorem sound_ofOptions (o : Options α) : (ofOptions o).Sound :=
  ⟨by simp [ofOptions], .nil, 0, rfl, .inr rfl⟩

/-- A sample is stored between those before its date and those after it. A date that is there keeps
its place and its sign of zero. -/
inductive Stored (date value : α) : List (Sample α) → List (Sample α) → Prop where
  | new {pre post : List (Sample α)} : (∀ s ∈ pre, s.date < date) → (∀ s ∈ post, date < s.date) →
      Stored date value (pre ++ post) (pre ++ ⟨date, value⟩ :: post)
  | overwritten {pre post : List (Sample α)} (s : Sample α) : s.date == date →
      (∀ s ∈ pre, s.date < date) → (∀ s ∈ post, date < s.date) →
      Stored date value (pre ++ s :: post) (pre ++ { s with value } :: post)

theorem date_lt_of_mem_take {g : Grid α} {date : α} {i : Nat} (h : IsNearest g.dates date i)
    {s : Sample α} (hs : s ∈ g.samples.take i) : s.date < date := by
  obtain ⟨j, hj, rfl⟩ := List.mem_take_iff_getElem.1 hs
  have hget : g.samples[j]? = some g.samples[j] := List.getElem?_eq_getElem (by omega)
  exact h.before (by rw [getElem?_dates, hget, Option.map_some]) (by omega)

theorem lt_date_of_mem_drop {g : Grid α} {date : α} {i : Nat} (h : IsNearest g.dates date i)
    {s : Sample α} (hs : s ∈ g.samples.drop (i + 1)) : date < s.date := by
  obtain ⟨j, hj, rfl⟩ := List.mem_drop_iff_getElem.1 hs
  refine h.after ?_ (by omega : i < i + 1 + j)
  rw [getElem?_dates, List.getElem?_eq_getElem (by omega), Option.map_some]

theorem lt_size {g : Grid α} {date : α} {i : Nat} (h : IsNearest g.dates date i) : i < g.size := by
  rw [← length_dates]
  exact h.lt_length

theorem stored_nil (date value : α) : Stored date value [] [⟨date, value⟩] :=
  have hnone : ∀ s ∈ ([] : List (Sample α)), False := by simp
  .new (fun s hs ↦ (hnone s hs).elim) (fun s hs ↦ (hnone s hs).elim)

section Ordered

variable [Ordered α]

theorem Sound.number {g : Grid α} (hg : g.Sound) : ∀ d ∈ g.dates, d == d := by
  intro d hd
  obtain ⟨s, hs, rfl⟩ := List.mem_map.1 hd
  exact number_of_isFinite (hg.finite s hs)

theorem store_stored {g : Grid α} (hg : g.Sound) {date value : α} {i : Nat}
    (h : IsNearest g.dates date i) (hd : isFinite date) :
    Stored date value g.samples (g.store i date value).samples := by
  have hi : i < g.samples.length := lt_size h
  obtain ⟨s, hs⟩ : ∃ s, g.samples[i] = s := ⟨_, rfl⟩
  have hget : g.samples[i]? = some s := by rw [List.getElem?_eq_getElem hi, hs]
  have hpre : ∀ t ∈ g.samples.take i, t.date < date := fun _ ↦ date_lt_of_mem_take h
  have hpost : ∀ t ∈ g.samples.drop (i + 1), date < t.date := fun _ ↦ lt_date_of_mem_drop h
  have hdrop : g.samples.drop i = s :: g.samples.drop (i + 1) := by
    rw [List.drop_eq_getElem_cons hi, hs]
  have hnum : s.date == s.date := number_of_isFinite (hg.finite s (List.mem_of_getElem? hget))
  simp only [store, hget]
  by_cases he : s.date == date
  · have hsplit : g.samples = g.samples.take i ++ s :: g.samples.drop (i + 1) := by
      rw [← hdrop, List.take_append_drop]
    simp only [if_pos he, List.set_eq_take_append_cons_drop, if_pos hi]
    have hst : Stored date value (g.samples.take i ++ s :: g.samples.drop (i + 1)) _ :=
      .overwritten s he hpre hpost
    rwa [← hsplit] at hst
  have insertAt {k : Nat} (hk : k ≤ g.samples.length) (hlow : ∀ t ∈ g.samples.take k, t.date < date)
      (hup : ∀ t ∈ g.samples.drop k, date < t.date) :
      Stored date value g.samples (g.samples.insertIdx k ⟨date, value⟩) := by
    have hst : Stored date value (g.samples.take k ++ g.samples.drop k) _ := .new hlow hup
    rwa [List.take_append_drop, ← insertIdx_eq_take_drop _ _ hk] at hst
  simp only [if_neg he]
  by_cases hlt : date < s.date
  · rw [if_pos hlt]
    refine insertAt (Nat.le_of_lt hi) hpre fun t ht ↦ ?_
    rw [hdrop] at ht
    rcases List.mem_cons.1 ht with rfl | ht
    · exact hlt
    · exact hpost t ht
  · rw [if_neg hlt]
    have hlt' : s.date < date := by
      rcases Ordered.trichotomy hnum (number_of_isFinite hd) with h' | h' | h'
      · exact h'
      · exact absurd h' he
      · exact absurd h' hlt
    refine insertAt (Nat.succ_le_of_lt hi) (fun t ht ↦ ?_) hpost
    rw [List.take_succ_eq_append_getElem hi, hs] at ht
    rcases List.mem_append.1 ht with ht | ht
    · exact hpre t ht
    · rw [List.mem_singleton] at ht
      rw [ht]
      exact hlt'

end Ordered

namespace Stored

variable {date value : α} {xs ys : List (Sample α)}

theorem length_le (h : Stored date value xs ys) : xs.length ≤ ys.length := by
  cases h <;> simp

theorem finite (h : Stored date value xs ys) (hd : isFinite date)
    (hx : ∀ s ∈ xs, isFinite s.date) : ∀ s ∈ ys, isFinite s.date := by
  cases h with
  | new _ _ =>
    intro s hs
    rcases List.mem_append.1 hs with hs | hs
    · exact hx s (List.mem_append_left _ hs)
    · rcases List.mem_cons.1 hs with rfl | hs
      · exact hd
      · exact hx s (List.mem_append_right _ hs)
  | overwritten t _ _ _ =>
    intro s hs
    rcases List.mem_append.1 hs with hs | hs
    · exact hx s (List.mem_append_left _ hs)
    · rcases List.mem_cons.1 hs with rfl | hs
      · exact hx t (List.mem_append_right _ List.mem_cons_self)
      · exact hx s (List.mem_append_right _ (List.mem_cons_of_mem _ hs))

theorem rising [Ordered α] (h : Stored date value xs ys)
    (hx : xs.Pairwise fun s t ↦ s.date < t.date) : ys.Pairwise fun s t ↦ s.date < t.date := by
  cases h with
  | new hpre hpost =>
    obtain ⟨h₁, h₂, -⟩ := List.pairwise_append.1 hx
    refine List.pairwise_append.2 ⟨h₁, List.pairwise_cons.2 ⟨hpost, h₂⟩, fun s hs t ht ↦ ?_⟩
    rcases List.mem_cons.1 ht with rfl | ht
    · exact hpre s hs
    · exact Ordered.lt_trans (hpre s hs) (hpost t ht)
  | overwritten u he hpre hpost =>
    obtain ⟨h₁, h₂, h₃⟩ := List.pairwise_append.1 hx
    obtain ⟨h₄, h₅⟩ := List.pairwise_cons.1 h₂
    refine List.pairwise_append.2 ⟨h₁, List.pairwise_cons.2 ⟨h₄, h₅⟩, fun s hs t ht ↦ ?_⟩
    rcases List.mem_cons.1 ht with rfl | ht
    · exact h₃ s hs u List.mem_cons_self
    · exact h₃ s hs t (List.mem_cons_of_mem _ ht)

end Stored

variable [Subtractive α]

theorem locate?_spec {g : Grid α} (hg : g.Sound) (hne : g.samples ≠ []) {date : α}
    (hd : isFinite date) :
    ∃ i : Nat, g.locate? date = (some i, g.hinted i) ∧ IsNearest g.dates date i := by
  have hlen : 0 < g.dates.length := by
    rw [length_dates]
    exact List.length_pos_iff.2 hne
  obtain ⟨i, hi, hnear⟩ := Nearest.Locator.locate?_isNearest hg.rising_dates hg.number
    (number_of_isFinite hd) hlen hg.hint_nonneg
  refine ⟨i, ?_, hnear⟩
  simp only [locate?, hi]
  rfl

theorem locate?_of_isNearest {g : Grid α} (hg : g.Sound) {date : α} (hd : isFinite date) {i : Nat}
    (hi : IsNearest g.dates date i) : g.locate? date = (some i, g.hinted i) := by
  have hne : g.samples ≠ [] := List.length_pos_iff.1 (Nat.zero_lt_of_lt (lt_size hi))
  obtain ⟨j, hl, hj⟩ := locate?_spec hg hne hd
  rw [hl, hj.unique hi]

theorem insert_of_isNearest {g : Grid α} (hg : g.Sound) {date : α} (hd : isFinite date) {i : Nat}
    (hi : IsNearest g.dates date i) (value : α) :
    g.insert date value = (.ok (), (g.hinted i).store i date value) := by
  have hne : g.samples ≠ [] := List.length_pos_iff.1 (Nat.zero_lt_of_lt (lt_size hi))
  simp [insert, hd, hne, locate?_of_isNearest hg hd hi]

/-- An insertion is refused, starts the grid, or stores its sample at the nearest one. -/
theorem insert_cases {g : Grid α} (hg : g.Sound) (date value : α) :
    isFinite date = false ∧ g.insert date value = (.error (Defect.dateNotFinite date).failure, g) ∨
    isFinite date = true ∧ g.samples = [] ∧
      g.insert date value = (.ok (), { g with samples := [⟨date, value⟩] }) ∨
    isFinite date = true ∧ g.samples ≠ [] ∧ ∃ i : Nat, IsNearest g.dates date i ∧
      g.insert date value = (.ok (), (g.hinted i).store i date value) := by
  cases hd : isFinite date with
  | false => exact .inl ⟨rfl, insert_of_not_finite hd value⟩
  | true =>
    refine .inr ?_
    by_cases hne : g.samples = []
    · exact .inl ⟨rfl, hne, insert_of_empty hd hne value⟩
    · obtain ⟨i, -, hnear⟩ := locate?_spec hg hne hd
      exact .inr ⟨rfl, hne, i, hnear, insert_of_isNearest hg hd hnear value⟩

theorem insert_stored {g : Grid α} (hg : g.Sound) {date : α} (hd : isFinite date) (value : α) :
    ∃ g' : Grid α, g.insert date value = (.ok (), g') ∧ g'.Sound ∧
      Stored date value g.samples g'.samples := by
  rcases insert_cases hg date value with ⟨hd', -⟩ | ⟨-, hne, h⟩ | ⟨-, -, i, hi, h⟩
  · rw [hd] at hd'
    cases hd'
  · have hs : Stored date value g.samples [⟨date, value⟩] := by
      rw [hne]
      exact stored_nil date value
    obtain ⟨n, hn, hlt⟩ := hg.hint
    have hn0 : n = 0 := by
      rcases hlt with hlt | hlt
      · simp [size, hne] at hlt
      · exact hlt
    exact ⟨_, h, ⟨hs.finite hd hg.finite, hs.rising hg.rising, n, hn, .inr hn0⟩, hs⟩
  · have hlt := lt_size hi
    have hs : Stored date value g.samples ((g.hinted i).store i date value).samples :=
      store_stored (hg.hinted hlt) hi hd
    exact ⟨_, h, ⟨hs.finite hd hg.finite, hs.rising hg.rising, i, hint_store .., .inl
      (Nat.lt_of_lt_of_le hlt hs.length_le)⟩, hs⟩

theorem neighbors_of_isNearest {g : Grid α} (hg : g.Sound) {date : α} (hd : isFinite date)
    (hlt : g.points < g.size) {i : Nat} (hi : IsNearest g.dates date i) :
    g.neighbors date = (.ok (neighborhood g.dates date i g.points), g.hinted i) := by
  have hpos := g.points_pos
  rw [neighbors, if_neg (by simp [hd])]
  simp only [if_neg (by omega : ¬ min g.points g.size = 0),
    if_neg (by omega : ¬ g.size ≤ min g.points g.size), locate?_of_isNearest hg hd hi]
  rw [Nat.min_eq_left (by omega)]
  rfl

/-- A query is refused, uses the whole grid without a search, or searches and grows a block. -/
theorem neighbors_cases {g : Grid α} (hg : g.Sound) (date : α) :
    isFinite date = false ∧ g.neighbors date = (.error (Defect.dateNotFinite date).failure, g) ∨
    isFinite date = true ∧ g.samples = [] ∧
      g.neighbors date = (.error (.fault (.emptyGrid date)), g) ∨
    isFinite date = true ∧ g.samples ≠ [] ∧ g.size ≤ g.points ∧
      g.neighbors date = (.ok (List.range g.size), g) ∨
    isFinite date = true ∧ g.points < g.size ∧ ∃ i : Nat, IsNearest g.dates date i ∧
      g.neighbors date = (.ok (neighborhood g.dates date i g.points), g.hinted i) := by
  cases hd : isFinite date with
  | false => exact .inl ⟨rfl, neighbors_of_not_finite hd⟩
  | true =>
    refine .inr ?_
    by_cases hne : g.samples = []
    · exact .inl ⟨rfl, hne, neighbors_of_empty hd hne⟩
    refine .inr ?_
    by_cases hle : g.size ≤ g.points
    · exact .inl ⟨rfl, hne, hle, neighbors_of_size_le hd hne hle⟩
    · obtain ⟨i, -, hnear⟩ := locate?_spec hg hne hd
      exact .inr ⟨rfl, by omega, i, hnear, neighbors_of_isNearest hg hd (by omega) hnear⟩

theorem samples_neighbors {g : Grid α} (hg : g.Sound) (date : α) :
    (g.neighbors date).2.samples = g.samples ∧ (g.neighbors date).2.Sound := by
  rcases neighbors_cases hg date with ⟨-, h⟩ | ⟨-, -, h⟩ | ⟨-, -, -, h⟩ | ⟨-, -, i, hi, h⟩
  · rw [h]
    exact ⟨rfl, hg⟩
  · rw [h]
    exact ⟨rfl, hg⟩
  · rw [h]
    exact ⟨rfl, hg⟩
  · rw [h]
    exact ⟨rfl, hg.hinted (lt_size hi)⟩

theorem exists_neighbors {g : Grid α} (hg : g.Sound) (hne : g.samples ≠ []) {date : α}
    (hd : isFinite date) : ∃ is, (g.neighbors date).1 = .ok is := by
  rcases neighbors_cases hg date with ⟨hd', -⟩ | ⟨-, he, -⟩ | ⟨-, -, -, h⟩ | ⟨-, -, i, -, h⟩
  · rw [hd] at hd'
    cases hd'
  · exact absurd he hne
  · exact ⟨_, by rw [h]⟩
  · exact ⟨_, by rw [h]⟩

theorem points_step {g : Grid α} (hg : g.Sound) (r : Request α) :
    (g.step r).2.points = g.points := by
  have hquery (date : α) : (g.neighbors date).2.points = g.points := by
    rcases neighbors_cases hg date with ⟨-, h⟩ | ⟨-, -, h⟩ | ⟨-, -, -, h⟩ | ⟨-, -, i, -, h⟩
    · rw [h]
    · rw [h]
    · rw [h]
    · rw [h]
      rfl
  cases r with
  | insert date value =>
    rw [step]
    rcases insert_cases hg date value with ⟨-, h⟩ | ⟨-, -, h⟩ | ⟨-, -, i, -, h⟩
    · rw [h]
    · rw [h]
    · rw [h]
      exact points_store _ i date value
  | valueAt date =>
    simp only [step, valueAt_snd]
    exact hquery date
  | neighbors date => exact hquery date
  | clear => rfl

theorem sound_step {g : Grid α} (hg : g.Sound) (r : Request α) : (g.step r).2.Sound := by
  cases r with
  | insert date value =>
    cases hd : isFinite date with
    | false => simpa [step, insert, hd] using hg
    | true =>
      obtain ⟨g', h, hg', -⟩ := insert_stored hg hd value
      simpa only [step, h] using hg'
  | valueAt date =>
    simp only [step, valueAt_snd]
    exact (samples_neighbors hg date).2
  | neighbors date => exact (samples_neighbors hg date).2
  | clear => exact ⟨by simp [step, clear], .nil, 0, rfl, .inr rfl⟩

theorem sound_run {g : Grid α} (hg : g.Sound) (rs : List (Request α)) : (g.run rs).Sound := by
  induction rs generalizing g with
  | nil => exact hg
  | cons r rs ih => exact ih (sound_step hg r)

theorem points_run {g : Grid α} (hg : g.Sound) (rs : List (Request α)) :
    (g.run rs).points = g.points := by
  induction rs generalizing g with
  | nil => rfl
  | cons r rs ih => exact (ih (sound_step hg r)).trans (points_step hg r)

end OrbitReplay.Grid
