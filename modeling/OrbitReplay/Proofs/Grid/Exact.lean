import Mathlib.Data.Prod.Lex
import Mathlib.LinearAlgebra.Lagrange
import OrbitReplay.Proofs.Grid.Lineup
import OrbitReplay.Proofs.Hermite.Exact
import OrbitReplay.Proofs.Scalar.Rational

namespace OrbitReplay.Grid

open Polynomial Scalar Nearest

def rank (date : ℚ) (s : Sample ℚ) : ℚ ×ₗ ℚ := toLex (|s.date - date|, s.date)

def byRank (samples : List (Sample ℚ)) (date : ℚ) : List (Sample ℚ) :=
  samples.mergeSort fun s t ↦ decide (rank date s ≤ rank date t)

def nearest (samples : List (Sample ℚ)) (date : ℚ) (n : ℕ) : List (Sample ℚ) :=
  (byRank samples date).take n

structure Through (q : ℚ[X]) (samples : List (Sample ℚ)) : Prop where
  degree_lt : q.degree < (samples.length : WithBot ℕ)
  eval_date : ∀ s ∈ samples, q.eval s.date = s.value

section Polynomials

variable {q q' : ℚ[X]} {samples : List (Sample ℚ)}

theorem Through.perm {samples' : List (Sample ℚ)} (hp : samples.Perm samples')
    (h : Through q samples) : Through q samples' :=
  ⟨hp.length_eq ▸ h.degree_lt, fun s hs ↦ h.eval_date s (hp.mem_iff.2 hs)⟩

theorem injective_date (hn : (samples.map Sample.date).Nodup) :
    Function.Injective fun i : Fin samples.length ↦ samples[i].date := by
  intro i j hij
  have hdates : (samples.map Sample.date)[(i : ℕ)]? = (samples.map Sample.date)[(j : ℕ)]? := by
    simpa using hij
  have hi : (i : ℕ) < (samples.map Sample.date).length := (List.length_map _).symm ▸ i.2
  exact Fin.ext ((List.getElem?_inj hi hn).1 hdates)

theorem exists_through (hn : (samples.map Sample.date).Nodup) : ∃ q, Through q samples := by
  have hinj := (injective_date hn).injOn (s := (Finset.univ : Finset (Fin samples.length)))
  refine ⟨Lagrange.interpolate Finset.univ (fun i : Fin samples.length ↦ samples[i].date)
    fun i ↦ samples[i].value, ?_, fun s hs ↦ ?_⟩
  · simpa using Lagrange.degree_interpolate_lt (fun i : Fin samples.length ↦ samples[i].value) hinj
  · obtain ⟨i, hi, rfl⟩ := List.mem_iff_getElem.1 hs
    exact Lagrange.eval_interpolate_at_node (i := ⟨i, hi⟩) _ hinj (Finset.mem_univ _)

theorem Through.unique (hn : (samples.map Sample.date).Nodup) (h : Through q samples)
    (h' : Through q' samples) : q = q' := by
  have hinj := (injective_date hn).injOn (s := (Finset.univ : Finset (Fin samples.length)))
  refine eq_of_degrees_lt_of_eval_index_eq _ hinj (by simpa using h.degree_lt)
    (by simpa using h'.degree_lt) fun i _ ↦ ?_
  have hmem : samples[i] ∈ samples := List.getElem_mem i.2
  exact (h.eval_date _ hmem).trans (h'.eval_date _ hmem).symm

end Polynomials

/-- The interpolation of offsets from a date, at no offset, is the polynomial at the date. -/
theorem interpolate_of_through {g : Grid ℚ} {is : List ℕ} {date : ℚ} {q : ℚ[X]}
    {used : List (Sample ℚ)} (hused : is.filterMap (g.samples[·]?) = used) (hne : used ≠ [])
    (hn : (used.map Sample.date).Nodup) (hq : Through q used) :
    g.interpolate is date = .ok (q.eval date) := by
  have hshift (s : Sample ℚ) (hs : s ∈ used) : (taylor date q).eval (s.date - date) = s.value := by
    rw [taylor_eval, sub_add_cancel, hq.eval_date s hs]
  have hvalues : used.map Sample.value =
      (used.map (·.date - date)).map fun x ↦ (taylor date q).eval x := by
    rw [List.map_map]
    exact List.map_congr_left fun s hs ↦ (hshift s hs).symm
  have hnodup : (used.map (·.date - date)).Nodup := by
    rw [show (fun s : Sample ℚ ↦ s.date - date) = (· - date) ∘ Sample.date from rfl,
      ← List.map_map]
    exact hn.map sub_left_injective
  have hdegree : (taylor date q).degree < ((used.map (·.date - date)).length : WithBot ℕ) := by
    rw [degree_taylor, List.length_map]
    exact hq.degree_lt
  have hzero : (taylor date q).eval (ofNat 0) = q.eval date := by
    rw [taylor_eval, ofNat_rat, Nat.cast_zero, zero_add]
  have hscalar := Hermite.scalar_of_samples (mt List.map_eq_nil_iff.1 hne) hnodup hdegree (ofNat 0)
  rw [← hvalues, hzero] at hscalar
  simp only [interpolate, hused, hscalar]

section Ranks

variable {samples : List (Sample ℚ)} {date : ℚ}

theorem rank_le_of_outward {s t : Sample ℚ} (h : Outward date s.date t.date) :
    rank date s ≤ rank date t := by
  have hle : |s.date - date| ≤ |t.date - date| := by
    simpa only [distance_rat] using h.distance_le rfl
  rcases lt_or_eq_of_le hle with hlt | heq
  · exact Prod.Lex.toLex_le_toLex.2 (.inl hlt)
  refine Prod.Lex.toLex_le_toLex.2 (.inr ⟨heq, ?_⟩)
  cases h with
  | up hlt _ => exact le_of_lt hlt
  | down hlt hdown =>
    have hlt' : t.date < s.date := hlt
    rcases hdown with hs | ⟨-, hnot⟩
    · have hs' : s.date ≤ date := hs
      rw [abs_of_nonpos (by linarith), abs_of_nonpos (by linarith)] at heq
      linarith
    · exact absurd (by rw [distance_rat, distance_rat, heq]) hnot

theorem perm_byRank (samples : List (Sample ℚ)) (date : ℚ) : (byRank samples date).Perm samples :=
  List.mergeSort_perm ..

theorem pairwise_byRank (samples : List (Sample ℚ)) (date : ℚ) :
    (byRank samples date).Pairwise fun s t ↦ rank date s ≤ rank date t := by
  have h : (byRank samples date).Pairwise fun s t ↦ decide (rank date s ≤ rank date t) := by
    refine List.pairwise_mergeSort (fun s t u hst htu ↦ ?_) (fun s t ↦ ?_) samples
    · exact decide_eq_true (le_trans (of_decide_eq_true hst) (of_decide_eq_true htu))
    · rw [Bool.or_eq_true, decide_eq_true_eq, decide_eq_true_eq]
      exact le_total _ _
  exact h.imp of_decide_eq_true

theorem byRank_eq {ranked : List (Sample ℚ)} (hn : (samples.map Sample.date).Nodup)
    (hp : ranked.Perm samples) (hr : ranked.Pairwise fun s t ↦ rank date s ≤ rank date t) :
    byRank samples date = ranked := by
  have hperm := (perm_byRank samples date).trans hp.symm
  refine List.Perm.eq_of_pairwise (fun s t hs ht hst hts ↦ ?_) (pairwise_byRank samples date) hr
    hperm
  have hdate : s.date = t.date := congrArg (fun r ↦ (ofLex r).2) (le_antisymm hst hts)
  exact List.inj_on_of_nodup_map hn ((perm_byRank samples date).mem_iff.1 hs) (hp.mem_iff.1 ht)
    hdate

end Ranks

theorem Sound.nodup_dates {g : Grid ℚ} (hg : g.Sound) : (g.samples.map Sample.date).Nodup :=
  hg.rising_dates.imp fun h ↦ ne_of_lt h

theorem LinesUp.byRank_eq {g : Grid ℚ} (hg : g.Sound) {date : ℚ} {ranked : List (Sample ℚ)}
    (h : LinesUp date g.samples ranked) : byRank g.samples date = ranked :=
  Grid.byRank_eq hg.nodup_dates h.perm (h.outward.imp rank_le_of_outward)

/-- A query uses the samples nearest to its date, in some order. -/
theorem neighbors_nearest {g : Grid ℚ} (hg : g.Sound) (hne : g.samples ≠ []) (date : ℚ) :
    ∃ is, (g.neighbors date).1 = .ok is ∧ (is.filterMap (g.samples[·]?)).Perm
      (nearest g.samples date (min g.points g.size)) := by
  have hd : isFinite date := rfl
  obtain ⟨ranked, is, hline, his, hperm⟩ := neighbors_linesUp hg hne hd
  refine ⟨is, his, ?_⟩
  have hlen : ranked.length = g.size := hline.perm.length_eq
  rwa [nearest, hline.byRank_eq hg, ← hlen, ← List.take_eq_take_min]

theorem length_nearest (samples : List (Sample ℚ)) (date : ℚ) {n : ℕ} (h : n ≤ samples.length) :
    (nearest samples date n).length = n := by
  rw [nearest, List.length_take, (perm_byRank samples date).length_eq, Nat.min_eq_left h]

theorem nearest_subset (samples : List (Sample ℚ)) (date : ℚ) (n : ℕ) :
    nearest samples date n ⊆ samples :=
  List.Subset.trans (List.take_subset ..) (perm_byRank samples date).subset

theorem nodup_nearest {samples : List (Sample ℚ)} (h : (samples.map Sample.date).Nodup) (date : ℚ)
    (n : ℕ) : ((nearest samples date n).map Sample.date).Nodup :=
  (((perm_byRank samples date).map _).nodup_iff.2 h).sublist ((List.take_sublist ..).map _)

/-- In exact arithmetic a query gives the value, at its date, of the one polynomial through the
samples nearest to the date. Where all samples lie on a polynomial of a degree below the number of
those, that is the one. -/
theorem valueAt_interpolates (o : Options ℚ) (rs : List (Request ℚ)) (date : ℚ)
    (hne : ((ofOptions o).run rs).samples ≠ []) :
    let g := (ofOptions o).run rs
    let near := nearest g.samples date (min o.points g.size)
    near.length = min o.points g.size ∧
      (∃ q, Through q near ∧ (∀ q', Through q' near → q' = q) ∧
        (g.valueAt date).1 = .ok (q.eval date)) ∧
      ∀ p : ℚ[X], p.degree < ((min o.points g.size : ℕ) : WithBot ℕ) →
        (∀ s ∈ g.samples, p.eval s.date = s.value) → (g.valueAt date).1 = .ok (p.eval date) := by
  intro g near
  have hg : g.Sound := sound_run (sound_ofOptions o) rs
  have hpoints : g.points = o.points := points_run (sound_ofOptions o) rs
  have hlen : near.length = min o.points g.size :=
    length_nearest g.samples date (Nat.min_le_right ..)
  have hnodup : (near.map Sample.date).Nodup := nodup_nearest hg.nodup_dates date _
  obtain ⟨is, his, hperm⟩ := neighbors_nearest hg hne date
  rw [hpoints] at hperm
  have hused : is.filterMap (g.samples[·]?) ≠ [] := by
    refine List.ne_nil_of_length_pos ?_
    rw [hperm.length_eq, hlen]
    exact Nat.lt_min.2 ⟨o.points_pos, List.length_pos_iff.2 hne⟩
  have hvalue {q : ℚ[X]} (hq : Through q near) : (g.valueAt date).1 = .ok (q.eval date) := by
    rw [valueAt_of_neighbors hg his]
    exact interpolate_of_through rfl hused ((hperm.map _).nodup_iff.2 hnodup) (hq.perm hperm.symm)
  obtain ⟨q, hq⟩ := exists_through hnodup
  refine ⟨hlen, ⟨q, hq, fun q' hq' ↦ hq'.unique hnodup hq, hvalue hq⟩, fun p hp hall ↦ ?_⟩
  exact hvalue ⟨hlen ▸ hp, fun s hs ↦ hall s (nearest_subset _ _ _ hs)⟩

/-- Samples of a square, one of them overwritten, and a date halfway between two of them. -/
theorem valueAt_interpolates_square :
    let g := (ofOptions {}).run
      [.insert 0 0, .insert 3 9, .insert 2 5, .valueAt 1, .insert 1 1, .insert (2 : ℚ) 4]
    g.dates = [0, 1, 2, 3] ∧ g.values = [0, 1, 4, 9] ∧
      (∃ q, Through q (nearest g.samples (3 / 2) 3) ∧
        (g.valueAt (3 / 2)).1 = .ok (q.eval (3 / 2))) ∧
      (g.valueAt (3 / 2)).1 = .ok (9 / 4) := by
  intro g
  have hdates : g.dates = [0, 1, 2, 3] := by decide +kernel
  have hvalues : g.values = [0, 1, 4, 9] := by decide +kernel
  have hsize : min (3 : ℕ) g.size = 3 := by decide +kernel
  have hne : g.samples ≠ [] := fun he ↦ by simp [dates, he] at hdates
  obtain ⟨-, ⟨q, hq, -, hvalue⟩, hall⟩ := valueAt_interpolates {} [.insert 0 0, .insert 3 9,
    .insert 2 5, .valueAt 1, .insert 1 1, .insert (2 : ℚ) 4] (3 / 2) hne
  refine ⟨hdates, hvalues, ⟨q, hsize ▸ hq, hvalue⟩, ?_⟩
  have hsquare : ∀ s ∈ g.samples, (X ^ 2 : ℚ[X]).eval s.date = s.value := by
    have h : g.samples.all (fun s ↦ s.date ^ 2 == s.value) = true := by decide +kernel
    intro s hs
    rw [eval_pow, eval_X]
    exact beq_iff_eq.1 (List.all_eq_true.1 h s hs)
  have hdegree : (X ^ 2 : ℚ[X]).degree < ((min 3 g.size : ℕ) : WithBot ℕ) := by
    rw [degree_X_pow, hsize]
    exact_mod_cast Nat.lt_succ_self 2
  rw [hall (X ^ 2) hdegree hsquare, eval_pow, eval_X]
  norm_num

end OrbitReplay.Grid
