import OrbitReplay.Proofs.Grid.Contents
import OrbitReplay.Proofs.Grid.Outcome
import OrbitReplay.Proofs.Hermite.Reorder
import OrbitReplay.Proofs.Nearest.Closest

namespace OrbitReplay.Grid

open Scalar Nearest

variable {α : Type} [Scalar α]

def hit? (g : Grid α) (is : List Nat) (date : α) : Option α :=
  Hermite.sampleAt? (g.offsets is date) ((is.filterMap (g.samples[·]?)).map Sample.value) (ofNat 0)

/-- A stored value is given as it stands, unless the samples are refused. -/
theorem interpolate_of_hit {g : Grid α} {is : List Nat} {date v : α}
    (h : g.hit? is date = some v) : g.interpolate is date = .ok v ∨
      g.interpolate is date = .error Defect.repeatedAbscissa.failure := by
  have hlen : ((is.filterMap (g.samples[·]?)).map Sample.value).length =
      (g.offsets is date).length := by
    rw [offsets, List.length_map, List.length_map]
  have hne : g.offsets is date ≠ [] := by
    intro he
    rw [hit?, he] at h
    cases h
  have hscalar : Hermite.scalar (g.offsets is date)
      ((is.filterMap (g.samples[·]?)).map Sample.value) (ofNat 0) = .ok v ∨
      Hermite.scalar (g.offsets is date)
        ((is.filterMap (g.samples[·]?)).map Sample.value) (ofNat 0) =
          .error .repeatedAbscissa := by
    rw [hit?] at h
    rw [Hermite.scalar, Hermite.check_eq hne hlen]
    cases Hermite.distinct (g.offsets is date) with
    | true => exact .inl (by simp only [if_true, Hermite.scalarAt, h])
    | false => exact .inr rfl
  rw [offsets] at hscalar
  rcases hscalar with hs | hs
  · exact .inl (by simp only [interpolate, hs])
  · exact .inr (by simp only [interpolate, hs])

variable [Subtractive α]

theorem hit?_eq_find? (g : Grid α) (is : List Nat) {date : α} (hd : isFinite date) :
    g.hit? is date =
      ((is.filterMap (g.samples[·]?)).find? (·.date == date)).map Sample.value := by
  have hzero : (fun s : Sample α ↦ s.date - date == ofNat 0) = (·.date == date) := by
    funext s
    rw [Bool.eq_iff_iff, sub_beq_zero_iff, and_iff_left hd]
  rw [hit?, offsets, Hermite.sampleAt?_map, hzero]

theorem mem_used_of_date {g : Grid α} (hg : g.Sound) {date : α} {is : List Nat}
    (h : (g.neighbors date).1 = .ok is) {s : Sample α} (hs : s ∈ g.samples)
    (he : s.date == date) : s ∈ is.filterMap (g.samples[·]?) := by
  obtain ⟨j, hj⟩ := List.mem_iff_getElem?.1 hs
  refine List.mem_filterMap.2 ⟨j, ?_, hj⟩
  rcases neighbors_cases hg date with ⟨-, hr⟩ | ⟨-, -, hr⟩ | ⟨-, -, -, hr⟩ | ⟨-, -, i, hi, hr⟩ <;>
    rw [hr] at h <;> cases h
  · exact List.mem_range.2 (List.getElem?_eq_some_iff.1 hj).1
  · have hdate : g.dates[j]? = some s.date := by rw [getElem?_dates, hj, Option.map_some]
    rw [hi.eq_of_beq hdate he]
    exact List.mem_cons_self

/-- Without any interpolation a query takes the value held at its date, and nothing else. -/
theorem hit?_eq_some_iff {g : Grid α} (hg : g.Sound) {date v : α} {is : List Nat}
    (hd : isFinite date) (h : (g.neighbors date).1 = .ok is)
    (hu : ∀ {v w}, Holds g.samples date v → Holds g.samples date w → v = w) :
    g.hit? is date = some v ↔ Holds g.samples date v := by
  have hholds {s : Sample α}
      (hs : (is.filterMap (g.samples[·]?)).find? (fun t : Sample α ↦ t.date == date) = some s) :
      Holds g.samples date s.value := by
    obtain ⟨i, -, hi⟩ := List.mem_filterMap.1 (List.mem_of_find?_eq_some hs)
    have he : s.date == date := List.find?_some (p := fun t : Sample α ↦ t.date == date) hs
    exact ⟨s, List.mem_of_getElem? hi, he, rfl⟩
  rw [hit?_eq_find? g is hd, Option.map_eq_some_iff]
  constructor
  · rintro ⟨s, hs, rfl⟩
    exact hholds hs
  · rintro ⟨s, hs, he, rfl⟩
    cases hf : (is.filterMap (g.samples[·]?)).find? (fun t : Sample α ↦ t.date == date) with
    | none => exact absurd he (List.find?_eq_none.1 hf s (mem_used_of_date hg h hs he))
    | some t => exact ⟨t, rfl, hu (hholds hf) ⟨s, hs, he, rfl⟩⟩

/-- At a date on the grid a query has the value written there last, unless its samples are refused;
it takes a stored value without interpolation at such a date only, and then that one. -/
theorem valueAt_stored (o : Options α) (rs : List (Request α)) (date : α) :
    let g := (ofOptions o).run rs
    (∀ d ∈ g.dates, d == date → ∃ v, latest date rs = some v ∧
      ((g.valueAt date).1 = .ok v ∨
        (g.valueAt date).1 = .error Defect.repeatedAbscissa.failure)) ∧
    ∀ is, (g.neighbors date).1 = .ok is → g.hit? is date = latest date rs ∧
      ((∀ d ∈ g.dates, ¬ d == date) → g.hit? is date = none) := by
  intro g
  have hg : g.Sound := sound_run (sound_ofOptions o) rs
  have hlatest (v : α) : Holds g.samples date v ↔ latest date rs = some v :=
    holds_run (sound_ofOptions o) rs (by simp [Holds, ofOptions]) v
  have hunique {v w : α} (hv : Holds g.samples date v) (hw : Holds g.samples date w) : v = w :=
    Option.some_inj.1 (((hlatest v).1 hv).symm.trans ((hlatest w).1 hw))
  have hhit {is : List Nat} (his : (g.neighbors date).1 = .ok is) (v : α) :
      g.hit? is date = some v ↔ Holds g.samples date v :=
    hit?_eq_some_iff hg (isFinite_of_neighbors his) his hunique
  refine ⟨fun d hd he ↦ ?_, fun is his ↦ ⟨?_, fun hnone ↦ ?_⟩⟩
  · obtain ⟨s, hs, rfl⟩ := List.mem_map.1 hd
    have hholds : Holds g.samples date s.value := ⟨s, hs, he, rfl⟩
    obtain ⟨is, his⟩ := exists_neighbors hg (List.ne_nil_of_mem hs)
      (isFinite_of_beq (hg.finite s hs) he)
    refine ⟨s.value, (hlatest _).1 hholds, ?_⟩
    rw [valueAt_of_neighbors hg his]
    exact interpolate_of_hit ((hhit his _).2 hholds)
  · exact Option.ext fun v ↦ (hhit his v).trans (hlatest v)
  · refine Option.eq_none_iff_forall_ne_some.2 fun v hv ↦ ?_
    obtain ⟨s, hs, he, -⟩ := (hhit his v).1 hv
    exact hnone _ (List.mem_map_of_mem hs) he

/-- A value written over another one at the other zero, which is itself the other zero. -/
theorem valueAt_stored_binary64 :
    let rs : List (Request Float) := [.insert 1.0 5.0, .insert 0.0 3.0, .valueAt 0.75,
      .insert 2.0 1.0, .insert (-0.0) (-0.0)]
    let g := (ofOptions { points := 1 }).run rs
    g.dates = [0.0, 1.0, 2.0] ∧ (g.valueAt (-0.0)).1 = .ok (-0.0) ∧ g.hit? [0] 0.25 = none := by
  intro rs g
  have hdates : g.dates = [0.0, 1.0, 2.0] := rfl
  have hlatest : latest (-0.0) rs = some (-0.0) := rfl
  obtain ⟨hstored, -⟩ := valueAt_stored { points := 1 } rs (-0.0 : Float)
  obtain ⟨-, hfresh⟩ := valueAt_stored { points := 1 } rs (0.25 : Float)
  obtain ⟨v, hv, hvalue⟩ := hstored 0.0 (hdates ▸ List.mem_cons_self) rfl
  obtain rfl : v = -0.0 := Option.some_inj.1 (hv.symm.trans hlatest)
  refine ⟨hdates, hvalue.resolve_right fun h ↦ ?_, (hfresh [0] rfl).2 ?_⟩
  · have hok : (g.valueAt (-0.0)).1.isOk = true := rfl
    rw [h] at hok
    cases hok
  · intro d hd
    rw [hdates] at hd
    revert d
    decide +kernel

end OrbitReplay.Grid
