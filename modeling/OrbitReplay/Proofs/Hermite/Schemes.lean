import Mathlib.Data.Fintype.Perm
import Mathlib.Logic.Equiv.Fin.Rotate
import OrbitReplay.Proofs.Binary64.Laws
import OrbitReplay.Proofs.Hermite.Columns

namespace OrbitReplay.Hermite

open Scalar

variable {α : Type} [Scalar α]

/-- Takes ascending abscissae, each as often as it has rows, the rows, and a point; gives the
components of the result. Nothing is assumed of it. -/
abbrev Interpolator (α : Type) := List α → List (List α) → α → Except (Defect α) (ℕ → α)

def newton : Interpolator α := fun xs rows x ↦
  match nodes? xs with
  | some nodes => .ok fun c ↦ (Table.ofNodes nodes (rows.filterMap (·[c]?))).eval x
  | none => .error .negativeFactorial

/-- Joins abscissae with their rows of values, first derivatives and so on, end to end. -/
def bundles (xs : List α) (orders : List (List (List α))) : List (Knot α) :=
  orders.foldr (List.zipWith fun row k ↦ { k with jet := row ++ k.jet }) (xs.map (⟨·, []⟩))

def handOver (interpolator : Interpolator α) (width : ℕ) (xs : List α)
    (orders : List (List (List α))) (x : α) : Except (Defect α) (ℕ → α) :=
  let ks := ascending (bundles xs orders)
  interpolator (ks.flatMap fun k ↦ List.replicate orders.length k.abscissa)
    (Tensor.stretches width (ks.length * orders.length) (ks.flatMap Knot.jet)) x

def scalarBy (interpolator : Interpolator α) (xs : List α) (values : Tensor α)
    (derivatives : List (Tensor α)) (x : α) : Except (Defect α) α :=
  match sampleAt? xs values.data x with
  | some y => .ok y
  | none => (handOver interpolator 1 xs ((values :: derivatives).map Tensor.slabs) x).map (· 0)

def vectorBy (interpolator : Interpolator α) (xs : List α) (values : Tensor α)
    (derivatives : List (Tensor α)) (width : ℕ) (x : α) : Except (Defect α) (List α) :=
  match sampleAt? xs values.slabs x with
  | some row => .ok row
  | none =>
    (handOver interpolator width xs ((values :: derivatives).map Tensor.slabs) x).map
      (List.range width).map

/-- Interpolation as it is, but with any interpolator in place of the Newton form. -/
def valueBy (interpolator : Interpolator α) (abscissae values : Tensor α)
    (derivatives : List (Tensor α)) (x : α) : Except (Defect α) (Tensor α) :=
  match abscissae.shape with
  | [_] =>
    match check abscissae.data values.shape (derivatives.map Tensor.shape) with
    | .error d => .error d
    | .ok () =>
      match values.shape with
      | [_, width] =>
        (vectorBy interpolator abscissae.data values derivatives width x).map Tensor.vector
      | _ => (scalarBy interpolator abscissae.data values derivatives x).map Tensor.scalar
  | _ => .error .noAbscissa

section Bundles

variable {β : Type} {width : ℕ} (ss : List β) (f : β → α) (gs : List (β → Vector α width))

def spread : List (List (List α)) := gs.map fun g ↦ ss.map fun s ↦ (g s).toList

def bundle (s : β) : Knot α := ⟨f s, gs.flatMap fun g ↦ (g s).toList⟩

omit [Scalar α] in
theorem bundles_spread : bundles (ss.map f) (spread ss gs) = ss.map (bundle f gs) := by
  induction gs with
  | nil => exact List.map_map
  | cons g gs ih =>
    change List.zipWith _ (ss.map fun s ↦ (g s).toList) (bundles (ss.map f) (spread ss gs)) = _
    rw [ih, List.zipWith_map, List.zipWith_self]
    rfl

def Knot.pick (width times c : ℕ) (k : Knot α) : Knot α :=
  { k with jet := (Tensor.stretches width times k.jet).filterMap (·[c]?) }

omit [Scalar α] in
theorem stretches_bundle (s : β) :
    Tensor.stretches width gs.length (bundle f gs s).jet = gs.map fun g ↦ (g s).toList :=
  Tensor.stretches_flatMap (fun g ↦ (g s).length_toList) gs

omit [Scalar α] in
theorem length_jet_bundle (s : β) : (bundle f gs s).jet.length = gs.length * width := by
  simp [bundle, List.length_flatMap]

variable {c : ℕ} (hc : c < width)

include hc

omit [Scalar α] in
theorem knots_spread : knots (ss.map f) ((spread ss gs).map (·.filterMap (·[c]?))) =
    ss.map fun s ↦ (bundle f gs s).pick width gs.length c := by
  have hcolumns : (spread ss gs).map (·.filterMap (·[c]?)) =
      (gs.map fun g s ↦ (g s)[c]).map ss.map := by
    rw [spread, List.map_map, List.map_map]
    exact List.map_congr_left fun g _ ↦ Tensor.filterMap_toList hc g ss
  rw [hcolumns, knots_map]
  refine List.map_congr_left fun s _ ↦ ?_
  rw [Knot.pick, stretches_bundle, Tensor.filterMap_toList hc (fun g : β → Vector α width ↦ g s),
    List.map_map]
  rfl

omit hc [Scalar α] in
theorem length_spread : (spread ss gs).length = gs.length := List.length_map _

omit hc [Scalar α] in
theorem stretches_bundles {ks : List (Knot α)} (h : ∀ k ∈ ks, ∃ s, k = bundle f gs s) :
    Tensor.stretches width (ks.length * gs.length) (ks.flatMap Knot.jet) =
      ks.flatMap fun k ↦ Tensor.stretches width gs.length k.jet := by
  refine Tensor.stretches_flatMap_stretches fun k hk ↦ ?_
  obtain ⟨s, rfl⟩ := h k hk
  exact length_jet_bundle f gs s

end Bundles

section Newton

variable {β : Type} {width : ℕ} (ss : List β) (f : β → α) (gs : List (β → Vector α width))

/-- The abscissae are taken up in the same order whether or not they carry their rows. -/
theorem schedule_bundles (times : ℕ) :
    (ascending ((ss.map f).map (⟨·, []⟩))).flatMap (fun k ↦ List.replicate times k.abscissa) =
      (ascending (ss.map (bundle f gs))).flatMap fun k ↦ List.replicate times k.abscissa := by
  have hbare : (ss.map f).map (⟨·, []⟩) =
      (ss.map (bundle f gs)).map fun k ↦ { k with jet := [] } := by
    rw [List.map_map, List.map_map]
    rfl
  rw [hbare, map_ascending (f := fun k : Knot α ↦ { k with jet := [] }) (fun _ ↦ rfl),
    List.flatMap_map]

theorem exists_bundle {k : Knot α} (hk : k ∈ ascending (ss.map (bundle f gs))) :
    ∃ s, k = bundle f gs s := by
  obtain ⟨s, -, rfl⟩ := List.mem_map.1 ((perm_ascending _).mem_iff.1 hk)
  exact ⟨s, rfl⟩

theorem jets_bundles {c : ℕ} (hc : c < width) :
    (ascending (knots (ss.map f) ((spread ss gs).map (·.filterMap (·[c]?))))).flatMap Knot.jet =
      (Tensor.stretches width ((ascending (ss.map (bundle f gs))).length * gs.length)
        ((ascending (ss.map (bundle f gs))).flatMap Knot.jet)).filterMap (·[c]?) := by
  have hpick : (ss.map fun s ↦ (bundle f gs s).pick width gs.length c) =
      (ss.map (bundle f gs)).map (Knot.pick width gs.length c) := by
    rw [List.map_map]
    rfl
  rw [knots_spread ss f gs hc, hpick, map_ascending (f := Knot.pick width gs.length c)
    (fun _ ↦ rfl), stretches_bundles f gs fun _ ↦ exists_bundle ss f gs, List.filterMap_flatMap,
    List.flatMap_map]
  rfl

/-- The Newton form of bundled samples is that of each of their columns. -/
theorem handOver_newton (x : α) :
    (∃ nodes r, schedule (ss.map f) gs.length = .ok nodes ∧
      handOver newton width (ss.map f) (spread ss gs) x = .ok r ∧
      ∀ c < width, r c =
        polynomial nodes (ss.map f) ((spread ss gs).map (·.filterMap (·[c]?))) x) ∨
    ∃ d, schedule (ss.map f) gs.length = .error d ∧
      handOver newton width (ss.map f) (spread ss gs) x = .error d := by
  rw [schedule, schedule_bundles ss f gs, handOver, bundles_spread, length_spread]
  simp only [newton]
  cases nodes? ((ascending (ss.map (bundle f gs))).flatMap fun k ↦
    List.replicate gs.length k.abscissa) with
  | none => exact .inr ⟨_, rfl, rfl⟩
  | some nodes =>
    refine .inl ⟨nodes, _, rfl, rfl, fun c hc ↦ ?_⟩
    rw [polynomial, jets_bundles ss f gs hc]

end Newton

section Checked

variable {xs : List α} {values : Tensor α} {derivatives : List (Tensor α)}

omit [Scalar α] in
theorem exists_spread {k width : ℕ} {rest : List ℕ} {σ : Equiv.Perm (Fin k)}
    {ts ts' : List (Tensor α)} (h : List.Forall₂ (Tensor.Reordered σ) ts ts')
    (hs : ∀ t ∈ ts, t.shape = k :: rest) (hw : volume rest = width) :
    ∃ gs : List (Fin k → Vector α width), ts.map Tensor.slabs = spread (List.finRange k) gs ∧
      ts'.map Tensor.slabs = spread ((List.finRange k).map σ) gs := by
  induction h with
  | nil => exact ⟨[], rfl, rfl⟩
  | cons ht _ ih =>
    obtain ⟨hs, hrest⟩ := List.forall_mem_cons.1 hs
    obtain ⟨g, hg, hg'⟩ := ht.exists_slab hs hw
    obtain ⟨gs, hgs, hgs'⟩ := ih hrest
    exact ⟨g :: gs, by rw [List.map_cons, hg, hgs]; rfl, by rw [List.map_cons, hg', hgs']; rfl⟩

theorem handOver_slabs {width : ℕ} {rest : List ℕ} {ts : List (Tensor α)}
    (hs : ∀ t ∈ ts, t.shape = xs.length :: rest) (hw : volume rest = width) (x : α) :
    (∃ nodes r, schedule xs ts.length = .ok nodes ∧
      handOver newton width xs (ts.map Tensor.slabs) x = .ok r ∧
      ∀ c < width, r c =
        polynomial nodes xs (ts.map fun t ↦ t.slabs.filterMap (·[c]?)) x) ∨
    ∃ d, schedule xs ts.length = .error d ∧
      handOver newton width xs (ts.map Tensor.slabs) x = .error d := by
  have hsame : List.Forall₂ (Tensor.Reordered (Equiv.refl (Fin xs.length))) ts ts :=
    List.forall₂_same.2 fun t _ ↦ Tensor.Reordered.refl t
  obtain ⟨gs, hgs, -⟩ := exists_spread hsame hs hw
  have hcolumns (c : ℕ) : (ts.map fun t ↦ t.slabs.filterMap (·[c]?)) =
      (spread (List.finRange xs.length) gs).map (·.filterMap (·[c]?)) := by
    rw [← hgs, List.map_map]
    rfl
  have htimes : ts.length = gs.length := by
    rw [← length_spread (List.finRange xs.length) gs, ← hgs, List.length_map]
  have hcases := handOver_newton (List.finRange xs.length) xs.get gs x
  rw [List.map_get_finRange] at hcases
  simp only [hcolumns, htimes, hgs]
  exact hcases

theorem scalarBy_newton (hs : ∀ t ∈ values :: derivatives, t.shape = [xs.length]) (x : α) :
    scalarBy newton xs values derivatives x =
      scalarAt xs values.data (derivatives.map Tensor.data) x := by
  have hread : (values :: derivatives).map (fun t ↦ t.slabs.filterMap (·[0]?)) =
      values.data :: derivatives.map Tensor.data :=
    List.map_congr_left fun t ht ↦ (Tensor.data_eq_slabs (hs t ht)).symm
  rw [scalarBy, scalarAt, List.length_map]
  cases sampleAt? xs values.data x with
  | some y => rfl
  | none =>
    rcases handOver_slabs hs rfl x with ⟨nodes, r, hnodes, hr, hvalue⟩ | ⟨d, hd, hd'⟩
    · rw [List.length_cons] at hnodes
      have hvalue := hvalue 0 (by decide)
      rw [hread] at hvalue
      simp only [hnodes]
      rw [← hvalue]
      exact congrArg (Except.map (· 0)) hr
    · rw [List.length_cons] at hd
      simp only [hd]
      exact congrArg (Except.map (· 0)) hd'

theorem vectorBy_newton {width : ℕ}
    (hs : ∀ t ∈ values :: derivatives, t.shape = [xs.length, width]) (x : α) :
    vectorBy newton xs values derivatives width x = vectorAt xs values derivatives width x := by
  have hread (c : ℕ) : (values :: derivatives).map (fun t ↦ t.slabs.filterMap (·[c]?)) =
      values.column c :: derivatives.map (·.column c) :=
    List.map_congr_left fun t ht ↦ (Tensor.column_eq_slabs (hs t ht) c).symm
  rw [vectorBy, vectorAt, Tensor.rows_eq_slabs (hs values List.mem_cons_self)]
  cases sampleAt? xs values.slabs x with
  | some row => rfl
  | none =>
    rcases handOver_slabs hs (Nat.mul_one width) x with
      ⟨nodes, r, hnodes, hr, hvalue⟩ | ⟨d, hd, hd'⟩
    · rw [List.length_cons] at hnodes
      simp only [hread] at hvalue
      simp only [hnodes]
      rw [← List.map_congr_left fun c hc ↦ hvalue c (List.mem_range.1 hc)]
      exact congrArg (Except.map (List.range width).map) hr
    · rw [List.length_cons] at hd
      simp only [hd]
      exact congrArg (Except.map (List.range width).map) hd'

/-- Interpolation is what the Newton form makes of the samples it is handed. -/
theorem valueBy_newton (abscissae values : Tensor α) (derivatives : List (Tensor α)) (x : α) :
    valueBy newton abscissae values derivatives x = value abscissae values derivatives x := by
  rw [valueBy, value]
  rcases abscissae.shape with _ | ⟨k, _ | ⟨j, rest⟩⟩
  · rfl
  · cases hc : check abscissae.data values.shape (derivatives.map Tensor.shape) with
    | error d => rfl
    | ok u =>
      obtain ⟨-, hfits, -, hshapes⟩ := check_eq_ok_iff.1 hc
      have hs : ∀ t ∈ values :: derivatives, t.shape = values.shape :=
        List.forall_mem_cons.2 ⟨rfl, fun t ht ↦ hshapes _ (List.mem_map_of_mem ht)⟩
      rcases fits_iff.1 hfits with hv | ⟨width, hv⟩
      · rw [hv] at hs
        simp only [hv, scalarBy_newton hs]
      · rw [hv] at hs
        simp only [hv, vectorBy_newton hs]
  · rfl

end Checked

section Reordered

variable [Ordered α] {β : Type} {ss ts : List β} {f : β → α}

/-- An interpolator is handed the same in whatever order the samples are. -/
theorem handOver_perm {width : ℕ} (hp : ss.Perm ts) (hd : distinct (ss.map f) = true)
    (interpolator : Interpolator α) (gs : List (β → Vector α width)) (x : α) :
    handOver interpolator width (ss.map f) (spread ss gs) x =
      handOver interpolator width (ts.map f) (spread ts gs) x := by
  have hascending : ascending (ss.map (bundle f gs)) = ascending (ts.map (bundle f gs)) :=
    ascending_perm (hp.map _) (List.pairwise_map.2 (List.pairwise_map.1 (distinct_iff.1 hd)))
  rw [handOver, handOver, bundles_spread, bundles_spread, length_spread, length_spread, hascending]

variable {k : ℕ} {σ : Equiv.Perm (Fin k)} {abscissae abscissae' values values' : Tensor α}
  {derivatives derivatives' : List (Tensor α)}

theorem valueBy_reordered {rest : List ℕ} (hk : abscissae.shape = k :: rest)
    (hx : abscissae.Reordered σ abscissae') (hv : values.Reordered σ values')
    (hd : List.Forall₂ (Tensor.Reordered σ) derivatives derivatives')
    (interpolator : Interpolator α) (x : α) :
    valueBy interpolator abscissae' values' derivatives' x =
      valueBy interpolator abscissae values derivatives x := by
  rw [valueBy, valueBy, hx.shape, hk]
  cases rest with
  | cons _ _ => rfl
  | nil =>
    have hp : (List.finRange k).Perm ((List.finRange k).map σ) :=
      (Equiv.Perm.map_finRange_perm σ).symm
    have hshapes : derivatives'.map Tensor.shape = derivatives.map Tensor.shape := by
      clear hk hx
      induction hd with
      | nil => rfl
      | cons ht _ ih => rw [List.map_cons, List.map_cons, ht.shape, ih]
    obtain ⟨f, hf, hf'⟩ := hx.exists_data hk
    simp only [hf, hf', hv.shape, hshapes, ← check_perm (hp.map f)]
    cases hc : check ((List.finRange k).map f) values.shape (derivatives.map Tensor.shape) with
    | error d => rfl
    | ok u =>
      obtain ⟨-, hfits, hdistinct, hall⟩ := check_eq_ok_iff.1 hc
      rw [List.length_map, List.length_finRange] at hfits
      have hs : ∀ t ∈ values :: derivatives, t.shape = values.shape :=
        List.forall_mem_cons.2 ⟨rfl, fun t ht ↦ hall _ (List.mem_map_of_mem ht)⟩
      rcases fits_iff.1 hfits with hshape | ⟨width, hshape⟩
      · rw [hshape] at hs
        have hone : volume [] = 1 := rfl
        obtain ⟨gs, hgs, hgs'⟩ := exists_spread (.cons hv hd) hs hone
        obtain ⟨g, hg, hg'⟩ := hv.exists_data hshape
        simp only [hshape, scalarBy, hg, hg', hgs, hgs', ← sampleAt?_perm hp hdistinct g,
          handOver_perm hp hdistinct]
      · rw [hshape] at hs
        obtain ⟨gs, hgs, hgs'⟩ := exists_spread (.cons hv hd) hs (Nat.mul_one width)
        obtain ⟨g, hg, hg'⟩ := hv.exists_slab hshape (Nat.mul_one width)
        simp only [hshape, vectorBy, hg, hg', hgs, hgs',
          ← sampleAt?_perm hp hdistinct fun i ↦ (g i).toList, handOver_perm hp hdistinct]

/-- The value of an interpolation, or why there is none, does not depend on the order in which the
samples are given: not with the Newton form, nor with anything else in its place. -/
theorem value_reordered {rest : List ℕ} (hk : abscissae.shape = k :: rest)
    (hx : abscissae.Reordered σ abscissae') (hv : values.Reordered σ values')
    (hd : List.Forall₂ (Tensor.Reordered σ) derivatives derivatives') (x : α) :
    value abscissae' values' derivatives' x = value abscissae values derivatives x ∧
      ∀ interpolator : Interpolator α,
        valueBy interpolator abscissae' values' derivatives' x =
          valueBy interpolator abscissae values derivatives x := by
  have hall := valueBy_reordered hk hx hv hd
  refine ⟨?_, fun interpolator ↦ hall interpolator x⟩
  rw [← valueBy_newton, ← valueBy_newton]
  exact hall newton x

end Reordered

/-- Three samples of two components with a slope each, one abscissa not a number, turned round by
one place. -/
theorem value_reordered_binary64 :
    (⟨[3], [2.0, 0.0 / 0.0, -0.0], rfl⟩ : Tensor Float).Reordered (finRotate 3)
        ⟨[3], [0.0 / 0.0, -0.0, 2.0], rfl⟩ ∧
      value (α := Float) ⟨[3], [0.0 / 0.0, -0.0, 2.0], rfl⟩ ⟨[3, 2], [5, 6, 1, 2, 3, 4], rfl⟩
          [⟨[3, 2], [0, 1, 0, 1, 0, 1], rfl⟩] 0 =
        value ⟨[3], [2.0, 0.0 / 0.0, -0.0], rfl⟩ ⟨[3, 2], [3, 4, 5, 6, 1, 2], rfl⟩
          [⟨[3, 2], [0, 1, 0, 1, 0, 1], rfl⟩] 0 := by
  have hx : (⟨[3], [2.0, 0.0 / 0.0, -0.0], rfl⟩ : Tensor Float).Reordered (finRotate 3)
      ⟨[3], [0.0 / 0.0, -0.0, 2.0], rfl⟩ := ⟨rfl, fun _ i ↦ by revert i; decide +kernel⟩
  have hv : (⟨[3, 2], [3, 4, 5, 6, 1, 2], rfl⟩ : Tensor Float).Reordered (finRotate 3)
      ⟨[3, 2], [5, 6, 1, 2, 3, 4], rfl⟩ := ⟨rfl, fun _ i ↦ by revert i; decide +kernel⟩
  have hd : (⟨[3, 2], [0, 1, 0, 1, 0, 1], rfl⟩ : Tensor Float).Reordered (finRotate 3)
      ⟨[3, 2], [0, 1, 0, 1, 0, 1], rfl⟩ := ⟨rfl, fun _ i ↦ by revert i; decide +kernel⟩
  exact ⟨hx, (value_reordered rfl hx hv (.cons hd .nil) 0).1⟩

end OrbitReplay.Hermite
