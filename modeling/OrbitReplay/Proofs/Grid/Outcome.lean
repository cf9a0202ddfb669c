import Mathlib.Data.List.Pairwise
import OrbitReplay.Proofs.Grid.Invariant
import OrbitReplay.Proofs.Hermite.Scalar
import OrbitReplay.Proofs.Nearest.Neighborhood
import OrbitReplay.Proofs.Binary64.Laws

namespace OrbitReplay.Grid

open Scalar Nearest

variable {α : Type} [Scalar α]

def Coincide (g : Grid α) (date : α) (i j : Nat) : Prop :=
  ∃ s t, g.samples[i]? = some s ∧ g.samples[j]? = some t ∧ s.date - date == t.date - date

/-- Two of the given samples differ in their dates but not in their offsets. -/
def Collide (g : Grid α) (is : List Nat) (date : α) : Prop :=
  ∃ i ∈ is, ∃ j ∈ is, i ≠ j ∧ g.Coincide date i j

def offsets (g : Grid α) (is : List Nat) (date : α) : List α :=
  (is.filterMap (g.samples[·]?)).map (·.date - date)

theorem pairwise_offsets [Ordered α] {g : Grid α} {is : List Nat} (hn : is.Nodup) (date : α) :
    (g.offsets is date).Pairwise (fun x y ↦ ¬ x == y) ↔ ¬ g.Collide is date := by
  have hsymm : Std.Symm fun i j ↦ ¬ g.Coincide date i j :=
    ⟨fun _ _ h ⟨s, t, hs, ht, he⟩ ↦ h ⟨t, s, ht, hs, beq_symm he⟩⟩
  have hpair : (g.offsets is date).Pairwise (fun x y ↦ ¬ x == y) ↔
      is.Pairwise fun i j ↦ ¬ g.Coincide date i j := by
    rw [offsets, List.pairwise_map, List.pairwise_filterMap]
    refine ⟨fun h ↦ h.imp fun h ⟨s, t, hs, ht, he⟩ ↦ h s hs t ht he,
      fun h ↦ h.imp fun h s hs t ht he ↦ ?_⟩
    exact h ⟨s, t, hs, ht, he⟩
  rw [hpair]
  constructor
  · rintro h ⟨i, hi, j, hj, hij, hc⟩
    exact h.forall hi hj hij hc
  · intro h
    exact hn.imp_of_mem fun hi hj hij hc ↦ h ⟨_, hi, _, hj, hij, hc⟩

variable [Subtractive α]

theorem interpolate_cases {g : Grid α} (hg : g.Sound) {is : List Nat} (hne : is ≠ [])
    (hn : is.Nodup)
    (hlt : ∀ i ∈ is, i < g.size) {date : α} (hd : isFinite date) :
    ¬ g.Collide is date ∧ (∃ v, g.interpolate is date = .ok v) ∨
      g.Collide is date ∧ g.interpolate is date = .error Defect.repeatedAbscissa.failure := by
  have hnum : ∀ x ∈ g.offsets is date, x == x := by
    intro x hx
    obtain ⟨s, hs, rfl⟩ := List.mem_map.1 hx
    obtain ⟨i, -, hi⟩ := List.mem_filterMap.1 hs
    exact number_sub hd (number_of_isFinite (hg.finite s (List.mem_of_getElem? hi)))
  have hused : g.offsets is date ≠ [] := by
    obtain ⟨i, hi⟩ := List.exists_mem_of_ne_nil is hne
    have hi' : i < g.samples.length := hlt i hi
    have hs : g.samples[i] ∈ is.filterMap (g.samples[·]?) :=
      List.mem_filterMap.2 ⟨i, hi, List.getElem?_eq_getElem hi'⟩
    exact List.ne_nil_of_mem (List.mem_map_of_mem hs)
  have hlen :
      ((is.filterMap (g.samples[·]?)).map Sample.value).length = (g.offsets is date).length := by
    rw [offsets, List.length_map, List.length_map]
  have hdistinct : ¬ g.Collide is date ↔ Hermite.distinct (g.offsets is date) = true := by
    rw [← pairwise_offsets hn, Hermite.distinct_eq_true hnum]
  rcases Hermite.scalar_cases hused hlen hnum (ofNat 0) with ⟨hd, v, hv⟩ | ⟨hd, hv⟩ <;>
    rw [offsets] at hv
  · exact .inl ⟨hdistinct.2 hd, v, by simp only [interpolate, hv]⟩
  · refine .inr ⟨by_contra fun h ↦ ?_, by simp only [interpolate, hv]⟩
    rw [hdistinct.1 h] at hd
    cases hd

theorem valueAt_of_neighbors {g : Grid α} (hg : g.Sound) {date : α} {is : List Nat}
    (h : (g.neighbors date).1 = .ok is) : (g.valueAt date).1 = g.interpolate is date := by
  have hs := (samples_neighbors hg date).1
  rw [valueAt]
  generalize g.neighbors date = p at h hs
  obtain ⟨r, g'⟩ := p
  simp only at h hs
  subst h
  simp only [interpolate, hs]

/-- A query at a date that is not finite, or of an empty grid, is refused as such. Any other query
has a value unless two of the samples that it uses collide. -/
theorem valueAt_outcome (o : Options α) (rs : List (Request α)) (date : α) :
    let g := (ofOptions o).run rs
    isFinite date = false ∧ (g.valueAt date).1 = .error (Defect.dateNotFinite date).failure ∨
    isFinite date = true ∧ g.samples = [] ∧ (g.valueAt date).1 = .error (.fault (.emptyGrid date)) ∨
    isFinite date = true ∧ g.samples ≠ [] ∧ ∃ is, (g.neighbors date).1 = .ok is ∧
      (¬ g.Collide is date ∧ (∃ v, (g.valueAt date).1 = .ok v) ∨
        g.Collide is date ∧ (g.valueAt date).1 = .error Defect.repeatedAbscissa.failure) := by
  intro g
  have hg : g.Sound := sound_run (sound_ofOptions o) rs
  have used {is : List Nat} (h : (g.neighbors date).1 = .ok is) (hd : isFinite date = true)
      (hne : is ≠ []) (hn : is.Nodup) (hlt : ∀ i ∈ is, i < g.size) :
      ¬ g.Collide is date ∧ (∃ v, (g.valueAt date).1 = .ok v) ∨
        g.Collide is date ∧ (g.valueAt date).1 = .error Defect.repeatedAbscissa.failure := by
    rw [valueAt_of_neighbors hg h]
    exact interpolate_cases hg hne hn hlt hd
  rcases neighbors_cases hg date with ⟨hd, h⟩ | ⟨hd, he, h⟩ | ⟨hd, hne, -, h⟩ | ⟨hd, hlt, i, hi, h⟩
  · exact .inl ⟨hd, by simp only [valueAt, h]⟩
  · exact .inr (.inl ⟨hd, he, by simp only [valueAt, h]⟩)
  · have hok : (g.neighbors date).1 = .ok (List.range g.size) := by rw [h]
    refine .inr (.inr ⟨hd, hne, _, hok,
      used hok hd ?_ List.nodup_range fun i hi ↦ List.mem_range.1 hi⟩)
    rw [Ne, List.range_eq_nil]
    exact fun he ↦ hne (List.length_eq_zero_iff.1 he)
  · have hok : (g.neighbors date).1 = .ok (neighborhood g.dates date i g.points) := by rw [h]
    have hne : g.samples ≠ [] := List.length_pos_iff.1 (Nat.zero_lt_of_lt hlt)
    have hle : g.points ≤ g.dates.length := by
      rw [length_dates]
      exact Nat.le_of_lt hlt
    refine .inr (.inr ⟨hd, hne, _, hok, used hok hd (List.cons_ne_nil _ _)
      (nodup_neighborhood g.dates date i g.points) fun j hj ↦ ?_⟩)
    rw [← length_dates]
    exact lt_of_mem_neighborhood hi.lt_length hle hj

theorem valueAt_outcome_far :
    let g := (ofOptions {}).run [.insert 0.0 1.0, .insert (1.0 : Float) 1.0]
    ∃ is, (g.neighbors 1e17).1 = .ok is ∧ g.Collide is 1e17 ∧
      (g.valueAt 1e17).1 = .error Defect.repeatedAbscissa.failure := by
  intro g
  have hrefused : (g.valueAt 1e17).1 = .error Defect.repeatedAbscissa.failure := rfl
  rcases valueAt_outcome {} [.insert 0.0 1.0, .insert (1.0 : Float) 1.0] 1e17 with
    ⟨h, -⟩ | ⟨-, h, -⟩ | ⟨-, -, is, h, ⟨-, v, hv⟩ | hc⟩
  · cases h
  · cases h
  · cases hrefused.symm.trans hv
  · exact ⟨is, h, hc⟩

/-- Far enough away, samples at 0 and 1 have the same offset. -/
theorem valueAt_refuses_distinct_dates :
    let g := (ofOptions {}).run [.insert 0.0 1.0, .insert (1.0 : Float) 1.0]
    g.samples = [⟨0.0, 1.0⟩, ⟨1.0, 1.0⟩] ∧ isFinite (1e17 : Float) = true ∧
      (g.valueAt 1e17).1 = .error Defect.repeatedAbscissa.failure :=
  ⟨rfl, rfl, rfl⟩

end OrbitReplay.Grid
