import OrbitReplay.Proofs.Grid.Outcome
import OrbitReplay.Proofs.Hermite.Reorder
import OrbitReplay.Proofs.Nearest.Outward

namespace OrbitReplay.Grid

open Scalar Nearest

section Selection

variable {β : Type}

theorem filterMap_getElem?_range (xs : List β) :
    (List.range xs.length).filterMap (xs[·]?) = xs := by
  induction xs with
  | nil => rfl
  | cons x xs ih =>
    rw [List.length_cons, List.range_succ_eq_map, List.filterMap_cons_some List.getElem?_cons_zero,
      List.filterMap_map]
    exact congrArg (x :: ·) ih

theorem take_filterMap_getElem? {xs : List β} {is : List Nat} (h : ∀ i ∈ is, i < xs.length)
    (n : Nat) : (is.filterMap (xs[·]?)).take n = (is.take n).filterMap (xs[·]?) := by
  induction is generalizing n with
  | nil => simp
  | cons i is ih =>
    have hi := List.getElem?_eq_getElem (h i List.mem_cons_self)
    cases n with
    | zero => rfl
    | succ n =>
      rw [List.filterMap_cons_some hi, List.take_succ_cons, List.take_succ_cons,
        List.filterMap_cons_some hi, ih fun j hj ↦ h j (List.mem_cons_of_mem _ hj)]

end Selection

variable {α : Type} [Scalar α]

structure LinesUp (date : α) (samples ranked : List (Sample α)) : Prop where
  perm : ranked.Perm samples
  outward : ranked.Pairwise fun s t ↦ Outward date s.date t.date

section Ordered

variable [Ordered α]

theorem LinesUp.unique {date : α} {samples ranked ranked' : List (Sample α)}
    (h : LinesUp date samples ranked) (h' : LinesUp date samples ranked') : ranked = ranked' :=
  List.Perm.eq_of_pairwise (fun _ _ _ _ hst hts ↦ absurd hts hst.asymm) h.outward h'.outward
    (h.perm.trans h'.perm.symm)

/-- What is interpolated are the samples, in whatever order and wherever they stand. -/
theorem interpolate_perm {g h : Grid α} {is js : List Nat} {date : α}
    (hp : (is.filterMap (g.samples[·]?)).Perm (js.filterMap (h.samples[·]?))) :
    g.interpolate is date = h.interpolate js date := by
  simp only [interpolate, Hermite.scalar_perm hp (·.date - date) Sample.value]

end Ordered

theorem perm_used {g : Grid α} (date : α) {i : Nat} (hi : i < g.dates.length) :
    ((neighborhood g.dates date i g.dates.length).filterMap (g.samples[·]?)).Perm g.samples := by
  have h := (perm_neighborhood date hi).filterMap (g.samples[·]?)
  have hlen : g.dates.length = g.samples.length := length_dates g
  rwa [hlen, filterMap_getElem?_range, ← hlen] at h

/-- The block that takes in the whole grid is the line of its samples. -/
theorem linesUp_neighborhood [Mirrored α] {g : Grid α} (hg : g.Sound) {date : α}
    (hd : isFinite date) {i : Nat} (hi : IsNearest g.dates date i) :
    LinesUp date g.samples
      ((neighborhood g.dates date i g.dates.length).filterMap (g.samples[·]?)) := by
  refine ⟨perm_used date hi.lt_length, ?_⟩
  have hdates : (neighborhood g.dates date i g.dates.length).filterMap (g.dates[·]?) =
      ((neighborhood g.dates date i g.dates.length).filterMap (g.samples[·]?)).map
        Sample.date := by
    rw [List.map_filterMap]
    simp only [getElem?_dates]
  have houtward := outward_neighborhood hg.rising_dates hg.number hd hi g.dates.length
  rwa [hdates, List.pairwise_map] at houtward

/-- A query uses the first samples of the line, in some order. -/
theorem neighbors_linesUp [Mirrored α] {g : Grid α} (hg : g.Sound) (hne : g.samples ≠ []) {date : α}
    (hd : isFinite date) : ∃ ranked is, LinesUp date g.samples ranked ∧
      (g.neighbors date).1 = .ok is ∧
        (is.filterMap (g.samples[·]?)).Perm (ranked.take g.points) := by
  obtain ⟨i, -, hi⟩ := locate?_spec hg hne hd
  have hline := linesUp_neighborhood hg hd hi
  have hlen : g.dates.length = g.samples.length := length_dates g
  by_cases hle : g.size ≤ g.points
  · refine ⟨_, List.range g.size, hline, by rw [neighbors_of_size_le hd hne hle], ?_⟩
    rw [List.take_of_length_le (hline.perm.length_eq.trans_le hle), size, filterMap_getElem?_range]
    exact hline.perm.symm
  · have hlt : g.points < g.size := Nat.lt_of_not_le hle
    refine ⟨_, neighborhood g.dates date i g.points, hline,
      by rw [neighbors_of_isNearest hg hd hlt hi], ?_⟩
    have hin : ∀ j ∈ neighborhood g.dates date i g.dates.length, j < g.samples.length :=
      fun j hj ↦ hlen ▸ lt_of_mem_neighborhood hi.lt_length (Nat.le_refl _) hj
    have hpoints : g.points ≤ g.dates.length := hlen ▸ Nat.le_of_lt hlt
    rw [take_filterMap_getElem? hin, take_neighborhood g.dates date i g.points_pos hpoints]

/-- A query that uses the whole grid does no search and changes nothing. Its answer is the one to a
search from any hint that grows its block until the whole grid is taken. -/
theorem valueAt_shortcut [Subtractive α] (o : Options α) (rs : List (Request α)) (date : α)
    (hd : isFinite date) (hne : ((ofOptions o).run rs).samples ≠ [])
    (hle : ((ofOptions o).run rs).size ≤ o.points) :
    let g := (ofOptions o).run rs
    g.neighbors date = (.ok (List.range g.size), g) ∧ (g.valueAt date).2 = g ∧
      ∀ hint < g.size, ∃ c : Nat, nearest? g.dates date hint = some (c : Int) ∧
        (neighborhood g.dates date c g.size).Perm (List.range g.size) ∧
        (g.valueAt date).1 = g.interpolate (neighborhood g.dates date c g.size) date := by
  intro g
  have hg : g.Sound := sound_run (sound_ofOptions o) rs
  have hpoints : g.points = o.points := points_run (sound_ofOptions o) rs
  have hall := neighbors_of_size_le hd hne (hpoints ▸ hle)
  refine ⟨hall, by rw [valueAt_snd, hall], fun hint hh ↦ ?_⟩
  rw [← length_dates] at hh ⊢
  obtain ⟨c, hfound, hc⟩ :=
    nearest?_brackets hg.rising_dates hg.number (number_of_isFinite hd) hh
  have hperm := perm_neighborhood date hc.lt_length
  refine ⟨c, hfound, hperm, ?_⟩
  rw [valueAt_of_neighbors hg (congrArg Prod.fst hall), ← length_dates]
  exact interpolate_perm (hperm.symm.filterMap _)

/-- Three samples, all of them used, and a search that starts at the last one and takes them in
another order. -/
theorem valueAt_shortcut_binary64 :
    let g := (ofOptions {}).run [.insert 2.0 4.0, .insert 0.0 1.0, .insert (10.0 : Float) 0.5]
    (g.neighbors 3.0).1 = .ok [0, 1, 2] ∧ nearest? g.dates 3.0 (2 : Nat) = some (1 : Nat) ∧
      neighborhood g.dates 3.0 1 g.size = [1, 0, 2] ∧
      (g.valueAt 3.0).1 = g.interpolate [1, 0, 2] 3.0 := by
  intro g
  have hne : g.samples ≠ [] := fun h ↦ by cases h
  obtain ⟨hall, -, hsearch⟩ := valueAt_shortcut {} [.insert 2.0 4.0, .insert 0.0 1.0,
    .insert (10.0 : Float) 0.5] 3.0 rfl hne (by decide)
  obtain ⟨c, hfound, -, hvalue⟩ := hsearch 2 (by decide)
  have hone : nearest? g.dates 3.0 (2 : Nat) = some (1 : Nat) := rfl
  obtain rfl : c = 1 := Int.ofNat_inj.1 (Option.some_inj.1 (hfound.symm.trans hone))
  exact ⟨congrArg Prod.fst hall, hone, rfl, hvalue⟩

end OrbitReplay.Grid
