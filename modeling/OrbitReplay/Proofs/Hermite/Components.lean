import OrbitReplay.Proofs.Hermite.Schemes

namespace OrbitReplay

variable {α : Type}

namespace Tensor

def component (t : Tensor α) (c : ℕ) : Tensor α := .vector (t.column c)

variable {t : Tensor α} {k d c : ℕ}

theorem shape_component (h : t.shape = [k, d]) (hc : c < d) : (t.component c).shape = [k] :=
  congrArg (fun n ↦ [n]) (length_column h hc)

theorem slabs_vector (xs : List α) : (vector xs).slabs = xs.map ([·]) := by
  have hcut := stretches_flatMap (fun _ ↦ rfl : ∀ x : α, [x].length = 1) xs
  rwa [List.flatMap_singleton'] at hcut

theorem slabs_component (h : t.shape = [k, d]) (c : ℕ) :
    (t.component c).slabs = (t.slabs.filterMap (·[c]?)).map ([·]) := by
  rw [component, slabs_vector, column_eq_slabs h]

end Tensor

namespace Hermite

section Columns

variable [Scalar α]

/-- Makes of every column what it makes of that column by itself. -/
def Columnwise (interpolator : Interpolator α) : Prop :=
  ∀ (xs : List α) (rows : List (List α)) (x : α) (c : ℕ), (∀ row ∈ rows, c < row.length) →
    (interpolator xs (rows.map (·[c]?.toList)) x).map (· 0) = (interpolator xs rows x).map (· c)

theorem columnwise_newton : Columnwise (newton : Interpolator α) := by
  intro xs rows x c _
  have hread : (rows.map (·[c]?.toList)).filterMap (·[0]?) = rows.filterMap (·[c]?) := by
    rw [List.filterMap_map]
    refine List.filterMap_congr fun row _ ↦ ?_
    rw [Function.comp_apply]
    cases row[c]? <;> rfl
  simp only [newton]
  cases nodes? xs with
  | none => rfl
  | some nodes => exact congrArg (fun ys ↦ Except.ok ((Table.ofNodes nodes ys).eval x)) hread

end Columns

section Bundles

variable {β : Type} {width c : ℕ}

def narrow (hc : c < width) (g : β → Vector α width) : β → Vector α 1 := fun s ↦ #v[(g s)[c]]

variable (ss : List β) (f : β → α) (gs : List (β → Vector α width)) (hc : c < width)

theorem spread_narrow : (spread ss gs).map (fun rows ↦ (rows.filterMap (·[c]?)).map ([·])) =
    spread ss (gs.map (narrow hc)) := by
  rw [spread, spread, List.map_map, List.map_map]
  refine List.map_congr_left fun g _ ↦ ?_
  rw [Function.comp_apply, Tensor.filterMap_toList hc, List.map_map]
  rfl

theorem bundle_narrow (s : β) :
    bundle f (gs.map (narrow hc)) s = (bundle f gs s).pick width gs.length c := by
  rw [Knot.pick, stretches_bundle, Tensor.filterMap_toList hc (fun g : β → Vector α width ↦ g s),
    bundle, List.flatMap_map]
  exact congrArg (Knot.mk (f s)) List.map_eq_flatMap.symm

theorem length_narrow : (gs.map (narrow hc)).length = gs.length := List.length_map _

include hc

theorem stretches_narrow {ks : List (Knot α)} (h : ∀ k ∈ ks, ∃ s, k = bundle f gs s) :
    Tensor.stretches 1 ((ks.map (Knot.pick width gs.length c)).length * gs.length)
        ((ks.map (Knot.pick width gs.length c)).flatMap Knot.jet) =
      (Tensor.stretches width (ks.length * gs.length) (ks.flatMap Knot.jet)).map
        (·[c]?.toList) := by
  have hpick : ∀ k ∈ ks.map (Knot.pick width gs.length c), ∃ s,
      k = bundle f (gs.map (narrow hc)) s := by
    intro k hk
    obtain ⟨j, hj, rfl⟩ := List.mem_map.1 hk
    obtain ⟨s, rfl⟩ := h j hj
    exact ⟨s, (bundle_narrow f gs hc s).symm⟩
  have hcut := stretches_bundles f (gs.map (narrow hc)) hpick
  rw [length_narrow] at hcut
  rw [hcut, stretches_bundles f gs h, List.map_flatMap, List.flatMap_map]
  refine List.flatMap_congr fun k hk ↦ ?_
  obtain ⟨s, rfl⟩ := h k hk
  have hcut' := stretches_bundle f (gs.map (narrow hc)) s
  rw [length_narrow] at hcut'
  rw [← bundle_narrow f gs hc, hcut', stretches_bundle, List.map_map, List.map_map]
  exact List.map_congr_left fun g _ ↦ by simp [narrow, hc]

variable [Scalar α]

/-- What an interpolator is handed for a component is that column of what it is handed for all. -/
theorem handOver_narrow {interpolator : Interpolator α} (hi : Columnwise interpolator) (x : α) :
    (handOver interpolator 1 (ss.map f) (spread ss (gs.map (narrow hc))) x).map (· 0) =
      (handOver interpolator width (ss.map f) (spread ss gs) x).map (· c) := by
  have hpick : ss.map (bundle f (gs.map (narrow hc))) =
      (ss.map (bundle f gs)).map (Knot.pick width gs.length c) := by
    rw [List.map_map]
    exact List.map_congr_left fun s _ ↦ bundle_narrow f gs hc s
  have hbundles : ∀ k ∈ ascending (ss.map (bundle f gs)), ∃ s, k = bundle f gs s :=
    fun _ ↦ exists_bundle ss f gs
  have hwidth : ∀ row ∈ Tensor.stretches width ((ascending (ss.map (bundle f gs))).length *
      gs.length) ((ascending (ss.map (bundle f gs))).flatMap Knot.jet), c < row.length := by
    intro row hrow
    rw [stretches_bundles f gs hbundles] at hrow
    obtain ⟨k, hk, hrow⟩ := List.mem_flatMap.1 hrow
    obtain ⟨s, rfl⟩ := hbundles k hk
    rw [stretches_bundle] at hrow
    obtain ⟨g, -, rfl⟩ := List.mem_map.1 hrow
    rwa [Vector.length_toList]
  rw [handOver, handOver, bundles_spread, bundles_spread, length_spread, length_spread,
    length_narrow, hpick, map_ascending (f := Knot.pick width gs.length c) (fun _ ↦ rfl),
    stretches_narrow f gs hc hbundles, List.flatMap_map]
  exact hi _ _ x c hwidth

end Bundles

section Checked

variable [Scalar α] {xs : List α} {abscissae values : Tensor α} {derivatives : List (Tensor α)}
  {interpolator : Interpolator α} {k d c : ℕ}

theorem length_vectorBy (hs : values.shape = [k, d]) {x : α} {row : List α}
    (h : vectorBy interpolator xs values derivatives d x = .ok row) : row.length = d := by
  rw [vectorBy] at h
  cases hsample : sampleAt? xs values.slabs x with
  | some stored =>
    simp only [hsample] at h
    cases h
    rw [← Tensor.rows_eq_slabs hs] at hsample
    obtain ⟨e, he, rfl⟩ := Option.map_eq_some_iff.1 hsample
    exact Tensor.length_of_mem_rows hs _ (List.of_mem_zip (List.mem_of_find?_eq_some he)).2
  | none =>
    simp only [hsample] at h
    cases hr : handOver interpolator d xs ((values :: derivatives).map Tensor.slabs) x with
    | error e =>
      rw [hr] at h
      cases h
    | ok r =>
      rw [hr] at h
      cases h
      rw [List.length_map, List.length_range]

theorem sampleAt?_component (hs : values.shape = [xs.length, d]) (hc : c < d) (x : α) :
    (sampleAt? xs values.slabs x).map (·[c]?) =
      (sampleAt? xs (values.component c).data x).map some := by
  obtain ⟨g, hg⟩ := Tensor.exists_slab hs (Nat.mul_one d)
  have hdata : (values.component c).data = (List.finRange xs.length).map fun i ↦ (g i)[c] := by
    rw [Tensor.component, Tensor.vector, Tensor.column_eq_slabs hs, hg, Tensor.filterMap_toList hc]
  have hrow := sampleAt?_map (List.finRange xs.length) xs.get (fun i ↦ (g i).toList) x
  have hentry := sampleAt?_map (List.finRange xs.length) xs.get (fun i ↦ (g i)[c]) x
  rw [List.map_get_finRange] at hrow hentry
  rw [hg, hdata, hrow, hentry, Option.map_map, Option.map_map]
  exact congrArg (Option.map · _) (funext fun i ↦ by simp [hc])

theorem handOver_component (hi : Columnwise interpolator) {ts : List (Tensor α)}
    (hs : ∀ t ∈ ts, t.shape = [xs.length, d]) (hc : c < d) (x : α) :
    (handOver interpolator 1 xs ((ts.map (·.component c)).map Tensor.slabs) x).map (· 0) =
      (handOver interpolator d xs (ts.map Tensor.slabs) x).map (· c) := by
  have hsame : List.Forall₂ (Tensor.Reordered (Equiv.refl (Fin xs.length))) ts ts :=
    List.forall₂_same.2 fun t _ ↦ Tensor.Reordered.refl t
  obtain ⟨gs, hgs, -⟩ := exists_spread hsame hs (Nat.mul_one d)
  have halone : (ts.map (·.component c)).map Tensor.slabs =
      spread (List.finRange xs.length) (gs.map (narrow hc)) := by
    rw [← spread_narrow, ← hgs, List.map_map, List.map_map]
    exact List.map_congr_left fun t ht ↦ Tensor.slabs_component (hs t ht) c
  have hnarrow := handOver_narrow (List.finRange xs.length) xs.get gs hc hi x
  rwa [List.map_get_finRange, ← halone, ← hgs] at hnarrow

/-- Each entry of an interpolated row is that of the column alone, and both are refused alike. -/
theorem vectorBy_component (hi : Columnwise interpolator)
    (hs : ∀ t ∈ values :: derivatives, t.shape = [xs.length, d]) (hc : c < d) (x : α) :
    (vectorBy interpolator xs values derivatives d x).map (·[c]?) =
      (scalarBy interpolator xs (values.component c) (derivatives.map (·.component c)) x).map
        some := by
  have hsample := sampleAt?_component (hs values List.mem_cons_self) hc x
  have hhand := handOver_component hi hs hc x
  rw [List.map_cons (f := fun t : Tensor α ↦ t.component c)] at hhand
  rw [vectorBy, scalarBy]
  cases hrow : sampleAt? xs values.slabs x with
  | some row =>
    rw [hrow, Option.map_some] at hsample
    obtain ⟨y, hy, hcell⟩ := Option.map_eq_some_iff.1 hsample.symm
    simp only [hy]
    exact congrArg Except.ok hcell.symm
  | none =>
    rw [hrow, Option.map_none] at hsample
    simp only [Option.map_eq_none_iff.1 hsample.symm, hhand]
    cases handOver interpolator d xs ((values :: derivatives).map Tensor.slabs) x with
    | error e => rfl
    | ok r => exact congrArg Except.ok (by simp [hc])

section Except

variable {ε β : Type} {r : Except ε β}

theorem eq_error_of_map_some {e : ε} (h : r.map some = .error e) : r = .error e := by
  cases r with
  | error _ => exact congrArg Except.error (Except.error.inj h)
  | ok _ => cases h

theorem eq_ok_of_map_some {o : Option β} (h : r.map some = .ok o) :
    ∃ y, r = .ok y ∧ o = some y := by
  cases r with
  | error _ => cases h
  | ok y => exact ⟨y, rfl, (Except.ok.inj h).symm⟩

end Except

def Checked (abscissae values : Tensor α) (derivatives : List (Tensor α)) : Prop :=
  (∃ n, abscissae.shape = [n]) ∧
    check abscissae.data values.shape (derivatives.map Tensor.shape) = .ok ()

theorem checked_component (hs : ∀ t ∈ values :: derivatives, t.shape = [k, d]) (hc : c < d) :
    Checked abscissae (values.component c) (derivatives.map (·.component c)) ↔
      Checked abscissae values derivatives := by
  obtain ⟨hv, hd⟩ := List.forall_mem_cons.1 hs
  have hwhole : ∀ s ∈ derivatives.map Tensor.shape, s = [k, d] := List.forall_mem_map.2 hd
  have halone : ∀ s ∈ (derivatives.map (·.component c)).map Tensor.shape, s = [k] := by
    rw [List.map_map]
    exact List.forall_mem_map.2 fun t ht ↦ Tensor.shape_component (hd t ht) hc
  rw [Checked, Checked, check_eq_ok_iff, check_eq_ok_iff, Tensor.shape_component hv hc, hv]
  exact and_congr_right fun _ ↦ and_congr_right fun _ ↦ and_congr_right fun _ ↦
    and_congr_right fun _ ↦ iff_of_true halone hwhole

theorem valueBy_of_not_checked (h : ¬ Checked abscissae values derivatives) (x : α) :
    ∃ e, valueBy interpolator abscissae values derivatives x = .error e := by
  rw [valueBy]
  split
  · next n hn =>
    cases hcheck : check abscissae.data values.shape (derivatives.map Tensor.shape) with
    | error e => exact ⟨e, rfl⟩
    | ok u => exact absurd ⟨⟨n, hn⟩, hcheck⟩ h
  · exact ⟨_, rfl⟩

theorem Checked.length_eq (h : Checked abscissae values derivatives) (hv : values.shape = [k, d]) :
    abscissae.data.length = k := by
  obtain ⟨-, hfits, -⟩ := check_eq_ok_iff.1 h.2
  rw [hv] at hfits
  exact (beq_iff_eq.1 hfits).symm

theorem Checked.valueBy_rows (h : Checked abscissae values derivatives)
    (hv : values.shape = [k, d]) (x : α) :
    valueBy interpolator abscissae values derivatives x =
      (vectorBy interpolator abscissae.data values derivatives d x).map Tensor.vector := by
  obtain ⟨⟨n, hn⟩, hcheck⟩ := h
  simp only [valueBy, hn, hcheck]
  rw [hv]

theorem Checked.valueBy_numbers (h : Checked abscissae values derivatives)
    (hv : values.shape = [k]) (x : α) :
    valueBy interpolator abscissae values derivatives x =
      (scalarBy interpolator abscissae.data values derivatives x).map Tensor.scalar := by
  obtain ⟨⟨n, hn⟩, hcheck⟩ := h
  simp only [valueBy, hn, hcheck]
  rw [hv]

/-- A result of `d` components, and for each of them the result of its column alone: the one is
made up of the others, or all are refused. -/
structure Componentwise (d : ℕ) (whole : Except (Defect α) (Tensor α))
    (alone : ℕ → Except (Defect α) (Tensor α)) : Prop where
  shape {v : Tensor α} : whole = .ok v → v.shape = [d]
  component {v : Tensor α} {c : ℕ} : whole = .ok v → c < d →
    ∃ y, v.data[c]? = some y ∧ alone c = .ok (.scalar y)
  refused {e : Defect α} {c : ℕ} : whole = .error e → c < d → ∃ e', alone c = .error e'

theorem valueBy_componentwise (hi : Columnwise interpolator)
    (hs : ∀ t ∈ values :: derivatives, t.shape = [k, d]) (x : α) :
    Componentwise d (valueBy interpolator abscissae values derivatives x) fun c ↦
      valueBy interpolator abscissae (values.component c) (derivatives.map (·.component c)) x := by
  have hv := hs values List.mem_cons_self
  by_cases h : Checked abscissae values derivatives
  · have hlength := h.length_eq hv
    have hentry {c : ℕ} (hc : c < d) := vectorBy_component hi (hlength.symm ▸ hs) hc x
    have halone {c : ℕ} (hc : c < d) {r : Except (Defect α) α}
        (hr : scalarBy interpolator abscissae.data (values.component c)
          (derivatives.map (·.component c)) x = r) :
        valueBy interpolator abscissae (values.component c) (derivatives.map (·.component c)) x =
          r.map Tensor.scalar :=
      hr ▸ ((checked_component hs hc).2 h).valueBy_numbers (Tensor.shape_component hv hc) x
    rw [h.valueBy_rows hv]
    cases hrow : vectorBy interpolator abscissae.data values derivatives d x with
    | error e =>
      refine ⟨(by rintro _ ⟨⟩), (by rintro _ _ ⟨⟩), fun {_ c} _ hc ↦ ?_⟩
      have hcell := hentry hc
      rw [hrow] at hcell
      exact ⟨e, halone hc (eq_error_of_map_some hcell.symm)⟩
    | ok row =>
      refine ⟨?_, ?_, (by rintro _ _ ⟨⟩)⟩
      · rintro _ ⟨⟩
        exact congrArg ([·]) (length_vectorBy hv hrow)
      · rintro _ c ⟨⟩ hc
        have hcell := hentry hc
        rw [hrow] at hcell
        obtain ⟨y, hy, hget⟩ := eq_ok_of_map_some hcell.symm
        exact ⟨y, hget, halone hc hy⟩
  · obtain ⟨e, he⟩ : ∃ e, valueBy interpolator abscissae values derivatives x = .error e :=
      valueBy_of_not_checked h x
    rw [he]
    refine ⟨(by rintro _ ⟨⟩), (by rintro _ _ ⟨⟩), fun _ hc ↦ ?_⟩
    exact valueBy_of_not_checked (mt (checked_component hs hc).1 h) x

/-- Rows are interpolated component by component: what comes of them has as many components as they
have, each to the bit what comes of its column of the values and of every derivative alone. It is so
at an abscissa and between them, with the Newton form and with any interpolator that keeps to
columns. -/
theorem value_componentwise (hs : ∀ t ∈ values :: derivatives, t.shape = [k, d]) (x : α) :
    (Componentwise d (value abscissae values derivatives x) fun c ↦
      value abscissae (values.component c) (derivatives.map (·.component c)) x) ∧
    ∀ interpolator : Interpolator α, Columnwise interpolator →
      Componentwise d (valueBy interpolator abscissae values derivatives x) fun c ↦
        valueBy interpolator abscissae (values.component c) (derivatives.map (·.component c)) x := by
  have hall {interpolator : Interpolator α} (hi : Columnwise interpolator) :=
    @valueBy_componentwise α _ abscissae values derivatives interpolator k d hi hs x
  refine ⟨?_, fun _ hi ↦ hall hi⟩
  simpa only [valueBy_newton] using hall columnwise_newton

end Checked

/-- Two samples of two components with a slope each, one entry not a number: between the abscissae,
and at one that is a zero of the other sign; and two samples without components. -/
theorem value_componentwise_binary64 :
    let xs : Tensor Float := ⟨[2], [2, -0.0], rfl⟩
    let ys : Tensor Float := ⟨[2, 2], [8, 0.5, 0, 0.0 / 0.0], rfl⟩
    let slopes : Tensor Float := ⟨[2, 2], [12, 0.25, 0, 1], rfl⟩
    (∃ v, value xs ys [slopes] 1 = .ok v ∧ v.shape = [2] ∧ ∃ y, v.data[0]? = some y ∧
        value xs ⟨[2], [8, 0], rfl⟩ [⟨[2], [12, 0], rfl⟩] 1 = .ok (.scalar y)) ∧
      value xs ⟨[2], [0.5, 0.0 / 0.0], rfl⟩ [⟨[2], [0.25, 1], rfl⟩] 0 =
        .ok (.scalar (0.0 / 0.0)) ∧
      ∀ v, value xs ⟨[2, 0], [], rfl⟩ [] 1 = .ok v → v.shape = [0] := by
  intro xs ys slopes
  have hs : ∀ t ∈ [ys, slopes], t.shape = [2, 2] := by simp [ys, slopes]
  have hnone : ∀ t ∈ [(⟨[2, 0], [], rfl⟩ : Tensor Float)], t.shape = [2, 0] := by simp
  refine ⟨?_, ?_, fun v hv ↦ ?_⟩
  · have h := (@value_componentwise Float _ xs ys [slopes] 2 2 hs 1).1
    have hok : (value xs ys [slopes] 1).isOk = true := by decide +kernel
    cases hv : value xs ys [slopes] 1 with
    | error e =>
      rw [hv] at hok
      cases hok
    | ok v => exact ⟨v, rfl, h.shape hv, h.component hv Nat.zero_lt_two⟩
  · have h := (@value_componentwise Float _ xs ys [slopes] 2 2 hs 0).1
    have hv : value xs ys [slopes] 0 = .ok (.vector [0, 0.0 / 0.0]) := by
      simp only [xs, ys, slopes]
      rfl
    obtain ⟨y, hy, halone⟩ := h.component hv Nat.one_lt_two
    cases hy
    exact halone
  · exact (@value_componentwise Float _ xs ⟨[2, 0], [], rfl⟩ [] 2 0 hnone 1).1.shape hv

end Hermite

end OrbitReplay
