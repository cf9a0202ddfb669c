import Mathlib.Data.List.FinRange
import Mathlib.Logic.Equiv.Defs
import OrbitReplay.Tensor

namespace OrbitReplay.Tensor

variable {α β : Type} {s t : Tensor α} {k : ℕ} {rest : List ℕ}

theorem stretches_flatten {d : ℕ} {rows : List (List α)} (h : ∀ row ∈ rows, row.length = d) :
    stretches d rows.length rows.flatten = rows := by
  induction rows with
  | nil => rfl
  | cons row rows ih =>
    obtain ⟨hrow, hrows⟩ := List.forall_mem_cons.1 h
    rw [List.length_cons, stretches, List.flatten_cons, List.take_left' hrow,
      List.drop_left' hrow, ih hrows]

theorem stretches_flatMap {d : ℕ} {f : β → List α} (hf : ∀ b, (f b).length = d) (bs : List β) :
    stretches d bs.length (bs.flatMap f) = bs.map f := by
  have hrows : ∀ row ∈ bs.map f, row.length = d := List.forall_mem_map.2 fun b _ ↦ hf b
  have hcut := stretches_flatten hrows
  rwa [List.length_map, ← List.flatMap_def] at hcut

theorem filterMap_toList {d c : ℕ} (hc : c < d) (v : β → Vector α d) (bs : List β) :
    (bs.map fun b ↦ (v b).toList).filterMap (·[c]?) = bs.map fun b ↦ (v b)[c] := by
  rw [List.filterMap_map, ← List.filterMap_eq_map]
  exact List.filterMap_congr fun b _ ↦ by simp [hc]

theorem rows_eq {d : ℕ} {f : β → List α} {bs : List β} (hf : ∀ b, (f b).length = d)
    (hshape : t.shape = [bs.length, d]) (hdata : t.data = bs.flatMap f) : t.rows = bs.map f := by
  rw [rows, hshape, hdata]
  exact stretches_flatMap hf bs

theorem column_eq {d c : ℕ} {f : β → List α} {g : β → α} {bs : List β}
    (hf : ∀ b, (f b).length = d) (hg : ∀ b, (f b)[c]? = some (g b))
    (hshape : t.shape = [bs.length, d]) (hdata : t.data = bs.flatMap f) :
    t.column c = bs.map g := by
  rw [column, rows_eq hf hshape hdata, List.filterMap_map, ← List.filterMap_eq_map]
  exact List.filterMap_congr fun b _ ↦ hg b

theorem length_drop_of_succ_mul {d n : ℕ} {xs : List α} (h : xs.length = (n + 1) * d) :
    (xs.drop d).length = n * d := by
  rw [List.length_drop, h, Nat.succ_mul, Nat.add_sub_cancel]

theorem length_of_mem_stretches {d n : ℕ} {xs : List α} (h : xs.length = n * d) :
    ∀ row ∈ stretches d n xs, row.length = d := by
  induction n generalizing xs with
  | zero => simp [stretches]
  | succ n ih =>
    refine List.forall_mem_cons.2 ⟨?_, ih (length_drop_of_succ_mul h)⟩
    rw [List.length_take, h, Nat.succ_mul]
    exact Nat.min_eq_left (Nat.le_add_left d _)

theorem flatten_stretches {d n : ℕ} {xs : List α} (h : xs.length = n * d) :
    (stretches d n xs).flatten = xs := by
  induction n generalizing xs with
  | zero =>
    rw [Nat.zero_mul] at h
    rw [List.eq_nil_of_length_eq_zero h]
    rfl
  | succ n ih =>
    rw [stretches, List.flatten_cons, ih (length_drop_of_succ_mul h), List.take_append_drop]

theorem stretches_append {d m : ℕ} (n : ℕ) {xs : List α} (ys : List α) (h : xs.length = m * d) :
    stretches d (m + n) (xs ++ ys) = stretches d m xs ++ stretches d n ys := by
  induction m generalizing xs with
  | zero =>
    rw [Nat.zero_mul] at h
    rw [List.eq_nil_of_length_eq_zero h, Nat.zero_add]
    rfl
  | succ m ih =>
    have hd : d ≤ xs.length := by
      rw [h, Nat.succ_mul]
      exact Nat.le_add_left d _
    rw [Nat.add_right_comm, stretches, stretches, List.take_append_of_le_length hd,
      List.drop_append_of_le_length hd, ih (length_drop_of_succ_mul h), List.cons_append]

/-- Lists of several stretches each are cut up one after the other or all at once. -/
theorem stretches_flatMap_stretches {d m : ℕ} {f : β → List α} {bs : List β}
    (hf : ∀ b ∈ bs, (f b).length = m * d) :
    stretches d (bs.length * m) (bs.flatMap f) = bs.flatMap fun b ↦ stretches d m (f b) := by
  induction bs with
  | nil => simp [stretches]
  | cons b bs ih =>
    obtain ⟨hb, hbs⟩ := List.forall_mem_cons.1 hf
    rw [List.length_cons, Nat.succ_mul, Nat.add_comm, List.flatMap_cons, List.flatMap_cons,
      stretches_append _ _ hb, ih hbs]

/-- The stretches along the first axis; a sole number is one stretch. -/
def slabs (t : Tensor α) : List (List α) :=
  match t.shape with
  | [] => [t.data]
  | n :: rest => stretches (volume rest) n t.data

theorem slabs_eq (h : t.shape = k :: rest) : t.slabs = stretches (volume rest) k t.data := by
  rw [slabs, h]

theorem length_data_of_shape (h : t.shape = k :: rest) : t.data.length = k * volume rest := by
  rw [t.length_data, h, volume]

theorem flatten_slabs (t : Tensor α) : t.slabs.flatten = t.data := by
  cases h : t.shape with
  | nil =>
    rw [slabs, h]
    exact List.append_nil _
  | cons k rest => rw [slabs_eq h, flatten_stretches (length_data_of_shape h)]

theorem rows_eq_slabs {d : ℕ} (h : t.shape = [k, d]) : t.rows = t.slabs := by
  rw [slabs_eq h, rows, h, volume, volume, Nat.mul_one]

theorem column_eq_slabs {d : ℕ} (h : t.shape = [k, d]) (c : ℕ) :
    t.column c = t.slabs.filterMap (·[c]?) := by
  rw [column, rows_eq_slabs h]

theorem flatten_rows {d : ℕ} (h : t.shape = [k, d]) : t.rows.flatten = t.data := by
  rw [rows_eq_slabs h, flatten_slabs]

theorem data_eq_slabs (h : t.shape = [k]) : t.data = t.slabs.filterMap (·[0]?) := by
  have hdata : t.data.length = k := by rw [t.length_data, h, volume, volume, Nat.mul_one]
  rw [slabs_eq h, volume]
  clear h
  generalize t.data = xs at hdata
  induction k generalizing xs with
  | zero => exact List.eq_nil_of_length_eq_zero hdata
  | succ k ih =>
    cases xs with
    | nil => cases hdata
    | cons x xs =>
      have hrest := ih xs (Nat.succ.inj hdata)
      rw [stretches, List.drop_succ_cons, List.drop_zero]
      exact congrArg (x :: ·) hrest

theorem raise_of_matrix {d : ℕ} (h : t.shape = [k, d]) : t.raise = t := by
  obtain ⟨shape, data, hdata⟩ := t
  cases h
  rfl

/-- Only a matrix of one row can be the raised form of something else. -/
theorem matrix_of_raise {d : ℕ} (h : t.raise.shape = [k, d]) (hk : 2 ≤ k) : t.shape = [k, d] := by
  obtain ⟨shape, data, hdata⟩ := t
  match shape with
  | [] | [_] =>
    obtain ⟨rfl, -⟩ : 1 = k ∧ _ := by simpa [raise] using h
    exact absurd hk (by decide)
  | _ :: _ :: _ => exact h

theorem length_of_mem_rows {d : ℕ} (h : t.shape = [k, d]) : ∀ row ∈ t.rows, row.length = d := by
  rw [rows_eq_slabs h, slabs_eq h, volume, volume, Nat.mul_one]
  refine length_of_mem_stretches ?_
  rw [length_data_of_shape h, volume, volume, Nat.mul_one]

theorem length_column {d c : ℕ} (h : t.shape = [k, d]) (hc : c < d) : (t.column c).length = k := by
  have hsome : ∀ row ∈ t.rows, row[c]?.isSome := by
    intro row hrow
    have hlt : c < row.length := by rwa [length_of_mem_rows h row hrow]
    exact Option.isSome_of_eq_some (List.getElem?_eq_getElem hlt)
  rw [column, List.filterMap_length_eq_length.2 hsome, length_rows h]

def flip (t : Tensor α) : Tensor α where
  shape := t.shape
  data := t.slabs.reverse.flatten
  length_data := by
    rw [← t.length_data, ← t.flatten_slabs]
    exact (List.reverse_perm t.slabs).flatten.length_eq

theorem slabs_flip (t : Tensor α) : t.flip.slabs = t.slabs.reverse := by
  cases h : t.shape with
  | nil =>
    have hdata : t.flip.data = t.data := by simp [flip, slabs, h]
    have hflip : t.flip.slabs = t.slabs := by
      rw [slabs, slabs, show t.flip.shape = [] from h, h, hdata]
    rw [hflip, slabs, h]
    rfl
  | cons k rest =>
    have hlen : t.slabs.reverse.length = k := by
      rw [List.length_reverse, slabs_eq h, length_stretches]
    have hrow : ∀ row ∈ t.slabs.reverse, row.length = volume rest := by
      intro row hrow
      rw [List.mem_reverse, slabs_eq h] at hrow
      exact length_of_mem_stretches (length_data_of_shape h) row hrow
    have hcut := stretches_flatten hrow
    rw [hlen] at hcut
    exact (slabs_eq (t := t.flip) h).trans hcut

theorem rows_flip {d : ℕ} (h : t.shape = [k, d]) : t.flip.rows = t.rows.reverse := by
  rw [rows_eq_slabs (t := t.flip) h, slabs_flip, rows_eq_slabs h]

theorem data_flip (h : t.shape = [k]) : t.flip.data = t.data.reverse := by
  rw [data_eq_slabs (t := t.flip) h, slabs_flip, List.filterMap_reverse, ← data_eq_slabs h]

theorem exists_slab (h : t.shape = k :: rest) {width : ℕ} (hw : volume rest = width) :
    ∃ g : Fin k → Vector α width, t.slabs = (List.finRange k).map fun i ↦ (g i).toList := by
  subst hw
  have hdata := length_data_of_shape h
  have hlen : t.slabs.length = k := by rw [slabs_eq h, length_stretches]
  have hrow (i : Fin k) : (t.slabs.get (i.cast hlen.symm)).length = volume rest :=
    length_of_mem_stretches hdata _ (slabs_eq h ▸ List.get_mem _ _)
  refine ⟨fun i ↦ ⟨(t.slabs.get (i.cast hlen.symm)).toArray, hrow i⟩, ?_⟩
  refine List.ext_getElem (by simp [hlen]) fun i hi hi' ↦ ?_
  simp

/-- Two arrays that are the same but for the order along the first axis: what is at `i` in the
second is at `σ i` in the first. Of arrays that have no such places only the shapes are compared. -/
structure Reordered (σ : Equiv.Perm (Fin k)) (s t : Tensor α) : Prop where
  shape : t.shape = s.shape
  slab : s.shape.head? = some k → ∀ i : Fin k, t.slabs[i]? = s.slabs[σ i]?

theorem Reordered.exists_slab {σ : Equiv.Perm (Fin k)} (h : s.Reordered σ t)
    (hs : s.shape = k :: rest) {width : ℕ} (hw : volume rest = width) :
    ∃ g : Fin k → Vector α width, s.slabs = (List.finRange k).map (fun i ↦ (g i).toList) ∧
      t.slabs = ((List.finRange k).map σ).map fun i ↦ (g i).toList := by
  obtain ⟨g, hg⟩ := Tensor.exists_slab hs hw
  have hlen : t.slabs.length = k := by rw [slabs_eq (h.shape.trans hs), length_stretches]
  refine ⟨g, hg, List.ext_getElem (by simp [hlen]) fun i hi hi' ↦ ?_⟩
  have hi : i < k := hlen ▸ hi
  have hslab := h.slab (by rw [hs]; rfl) ⟨i, hi⟩
  rw [hg] at hslab
  obtain ⟨_, hget⟩ : ∃ _, t.slabs[i] = (g (σ ⟨i, hi⟩)).toList := by
    simpa [List.getElem?_eq_some_iff, hi] using hslab
  simpa using hget

theorem Reordered.refl (t : Tensor α) : t.Reordered (Equiv.refl (Fin k)) t :=
  ⟨rfl, fun _ _ ↦ rfl⟩

theorem Reordered.exists_data {σ : Equiv.Perm (Fin k)} (h : s.Reordered σ t)
    (hs : s.shape = [k]) :
    ∃ f : Fin k → α, s.data = (List.finRange k).map f ∧
      t.data = ((List.finRange k).map σ).map f := by
  have hone : volume [] = 1 := rfl
  obtain ⟨g, hg, hg'⟩ := h.exists_slab hs hone
  refine ⟨fun i ↦ (g i)[0], ?_, ?_⟩
  · rw [data_eq_slabs hs, hg, filterMap_toList Nat.one_pos]
  · rw [data_eq_slabs (h.shape.trans hs), hg', filterMap_toList Nat.one_pos]

end OrbitReplay.Tensor
