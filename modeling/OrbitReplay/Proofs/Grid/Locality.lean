import OrbitReplay.Proofs.Binary64.Signs
import OrbitReplay.Proofs.Grid.Contents
import OrbitReplay.Proofs.Grid.Lineup

namespace OrbitReplay.Grid

open Scalar Nearest

variable {α : Type} [Scalar α] [Mirrored α]

omit [Mirrored α] in
theorem LinesUp.without {date : α} {samples samples' pre post : List (Sample α)} {s : Sample α}
    (h : LinesUp date samples' (pre ++ s :: post)) (hp : samples'.Perm (samples ++ [s])) :
    LinesUp date samples (pre ++ post) := by
  have hperm : (s :: (pre ++ post)).Perm (s :: samples) :=
    (List.perm_middle.symm.trans h.perm).trans (hp.trans (List.perm_append_singleton s samples))
  have hsub : (pre ++ post).Sublist (pre ++ s :: post) :=
    (List.sublist_cons_self s post).append_left pre
  exact ⟨hperm.cons_inv, h.outward.sublist hsub⟩

/-- A sample further out than the first ones of a line leaves these as they are. -/
theorem LinesUp.take_eq_of_far {date : α} {samples samples' ranked ranked' : List (Sample α)}
    {s : Sample α} {n : Nat} (hd : isFinite date) (h : LinesUp date samples ranked)
    (h' : LinesUp date samples' ranked') (hp : samples'.Perm (samples ++ [s]))
    (hn : n ≤ samples.length)
    (hfar : ∀ t ∈ ranked.take n, distance t.date date < distance s.date date) :
    ranked'.take n = ranked.take n := by
  have hmem : s ∈ ranked' := by
    rw [h'.perm.mem_iff, hp.mem_iff]
    exact List.mem_append_right _ (List.mem_singleton_self s)
  obtain ⟨pre, post, rfl⟩ := List.append_of_mem hmem
  obtain rfl : pre ++ post = ranked := (h'.without hp).unique h
  -- Were fewer than `n` samples before the new one, one of the first `n` would be behind it.
  have hpre : n ≤ pre.length := by
    by_contra hlt
    have hlen : (pre ++ post).length = samples.length := h.perm.length_eq
    cases post with
    | nil =>
      rw [List.append_nil] at hlen
      omega
    | cons t post =>
      have ht : t ∈ (pre ++ t :: post).take n :=
        List.mem_take_iff_getElem.2 ⟨pre.length, by omega, by simp⟩
      have hafter : Outward date s.date t.date :=
        List.rel_of_pairwise_cons (List.pairwise_append.1 h'.outward).2.1 List.mem_cons_self
      exact Scalar.not_lt_of_le (hafter.distance_le hd) (hfar t ht)
  rw [List.take_append_of_le_length hpre, List.take_append_of_le_length hpre]

/-- Two grids that differ by a sample further away than those the query of one of them uses. -/
theorem valueAt_eq_of_far {g g' : Grid α} (hg : g.Sound) (hg' : g'.Sound)
    (hpoints : g'.points = g.points) {s : Sample α} (hp : g'.samples.Perm (g.samples ++ [s]))
    (hle : g.points ≤ g.size) {date : α} {is : List Nat} (his : (g.neighbors date).1 = .ok is)
    (hfar : ∀ i ∈ is, ∀ d, g.dates[i]? = some d → distance d date < distance s.date date) :
    (g'.valueAt date).1 = (g.valueAt date).1 := by
  have hd := isFinite_of_neighbors his
  have hne : g.samples ≠ [] := List.length_pos_iff.1 (Nat.lt_of_lt_of_le g.points_pos hle)
  have hne' : g'.samples ≠ [] := fun he ↦ by simp [he] at hp
  obtain ⟨ranked, is₀, hline, his₀, hused⟩ := neighbors_linesUp hg hne hd
  obtain ⟨ranked', is', hline', his', hused'⟩ := neighbors_linesUp hg' hne' hd
  obtain rfl : is₀ = is := Except.ok.inj (his₀.symm.trans his)
  have hfirst : ranked'.take g.points = ranked.take g.points := by
    refine hline.take_eq_of_far hd hline' hp hle fun t ht ↦ ?_
    obtain ⟨i, hi, hget⟩ := List.mem_filterMap.1 (hused.mem_iff.2 ht)
    exact hfar i hi t.date (by rw [getElem?_dates, hget, Option.map_some])
  rw [hpoints, hfirst] at hused'
  rw [valueAt_of_neighbors hg his, valueAt_of_neighbors hg' his']
  exact interpolate_perm (hused'.trans hused.symm)

/-- Once a grid has as many samples as a query uses, a sample that is stored further from a date
than all of these leaves the answer at the date as it was, a refusal included. -/
theorem valueAt_insert_far (o : Options α) (rs : List (Request α)) {date : α}
    (hd : isFinite date) (hle : o.points ≤ ((ofOptions o).run rs).size) :
    let g := (ofOptions o).run rs
    ∃ is, (g.neighbors date).1 = .ok is ∧
      ∀ x, isFinite x → (∀ d ∈ g.dates, ¬ d == x) →
        (∀ i ∈ is, ∀ d, g.dates[i]? = some d → distance d date < distance x date) →
        ∀ value, (g.insert x value).1 = .ok () ∧
          ((g.insert x value).2.valueAt date).1 = (g.valueAt date).1 := by
  intro g
  have hg : g.Sound := sound_run (sound_ofOptions o) rs
  have hpoints : g.points = o.points := points_run (sound_ofOptions o) rs
  have hpos : 0 < g.size := Nat.lt_of_lt_of_le o.points_pos hle
  obtain ⟨is, his⟩ := exists_neighbors hg (List.length_pos_iff.1 hpos) hd
  refine ⟨is, his, fun x hx hnew hfar value ↦ ?_⟩
  obtain ⟨g', hinsert, hg', hstored⟩ := insert_stored hg hx value
  have hpoints' : g'.points = g.points := by
    simpa only [step, hinsert] using points_step hg (.insert x value)
  have hperm : g'.samples.Perm (g.samples ++ [⟨x, value⟩]) :=
    hstored.perm fun s hs ↦ hnew s.date (List.mem_map_of_mem hs)
  rw [hinsert]
  exact ⟨rfl, valueAt_eq_of_far hg hg' hpoints' hperm (hpoints ▸ hle) his hfar⟩

/-- The grid has just the three samples that a query uses, and a fourth one moves all of them up. -/
theorem valueAt_insert_far_binary64 :
    let g := (ofOptions {}).run [.insert 2.0 4.0, .insert 0.0 1.0, .insert (10.0 : Float) 7.0]
    (g.neighbors 1.5).1 = .ok [0, 1, 2] ∧
      ((g.insert (-8.0) 3.0).2.neighbors 1.5).1 = .ok [2, 1, 3] ∧
      ((g.insert (-8.0) 3.0).2.valueAt 1.5).1 = (g.valueAt 1.5).1 := by
  intro g
  have hdate : isFinite (1.5 : Float) := rfl
  obtain ⟨is, his, hlocal⟩ := valueAt_insert_far {} [.insert 2.0 4.0, .insert 0.0 1.0,
    .insert (10.0 : Float) 7.0] hdate (by decide)
  have hall : (g.neighbors 1.5).1 = .ok [0, 1, 2] := rfl
  obtain rfl : is = [0, 1, 2] := Except.ok.inj (his.symm.trans hall)
  have hnew : ∀ d ∈ g.dates, ¬ d == -8.0 := by decide +kernel
  have hfar : ∀ d ∈ g.dates, distance d 1.5 < distance (-8.0) 1.5 := by decide +kernel
  have hvalue := hlocal (-8.0) rfl hnew (fun _ _ d hd ↦ hfar d (List.mem_of_getElem? hd)) 3.0
  exact ⟨hall, rfl, hvalue.2⟩

end OrbitReplay.Grid
