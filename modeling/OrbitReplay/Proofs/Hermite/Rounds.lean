import Mathlib.Data.List.TakeDrop
import OrbitReplay.Proofs.Hermite.Reorder
import OrbitReplay.Proofs.Hermite.Stages

namespace OrbitReplay.Hermite

open Scalar

variable {α : Type} [Scalar α]

section Checked

def differences? (x v : α) : List α → List α → Option (List α)
  | r :: refs, t :: ts =>
    if t - x == ofNat 0 then none
    else (differences? x ((r - v) / (t - x)) refs ts).map (v :: ·)
  | _, _ => some [v]

def Table.enter? (t : Table α) (n : Node α) (y : α) : Option (Table α) :=
  let refs := if n.order = 0 then t.coefficients else t.row.drop 1
  (differences? n.abscissa (y / ofNat (factorial n.order)) refs t.abscissae).map fun row ↦
    ⟨t.abscissae ++ [n.abscissa], t.coefficients ++ [row.getLastD y], row⟩

def Table.ofNodes? : List (Node α) → List α → Option (Table α)
  | n :: nodes, y :: ys =>
    (nodes.zip ys).foldlM (fun t e ↦ t.enter? e.1 e.2) (Table.start n.abscissa y)
  | _, _ => some ⟨[], [], []⟩

theorem differences?_eq_some {x : α} (v : α) {refs ts : List α}
    (h : ∀ t ∈ ts.take refs.length, ¬ t - x == ofNat 0) :
    differences? x v refs ts = some (differences x v refs ts) := by
  induction refs generalizing v ts with
  | nil => cases ts <;> rfl
  | cons r refs ih =>
    cases ts with
    | nil => rfl
    | cons t ts =>
      obtain ⟨ht, hts⟩ := List.forall_mem_cons.1 h
      rw [differences?, if_neg ht, ih _ hts, differences, Option.map_some]

theorem length_differences (x v : α) (refs ts : List α) :
    (differences x v refs ts).length = min refs.length ts.length + 1 := by
  induction refs generalizing v ts with
  | nil => cases ts <;> simp [differences]
  | cons r refs ih =>
    cases ts with
    | nil => simp [differences]
    | cons t ts => simp [differences, ih]

structure Sized (before : List α) (s : ℕ) (x : α) (t : Table α) : Prop where
  fresh : ∀ a ∈ before, ¬ a == x
  abscissae : t.abscissae = before ++ List.replicate (s + 1) x
  coefficients : t.coefficients.length = t.abscissae.length
  row : t.row.length = before.length + 1

variable {before : List α} {s : ℕ} {x y : α} {t : Table α}

theorem sized_start (x y : α) : Sized [] 0 x (Table.start x y) :=
  ⟨fun _ h ↦ absurd h List.not_mem_nil, rfl, rfl, rfl⟩

theorem Sized.enter_fresh (h : Sized before s x t) (hy : ∀ a ∈ t.abscissae, ¬ a == y) (v : α) :
    Sized t.abscissae 0 y (t.enter ⟨y, 0⟩ v) := by
  refine ⟨hy, rfl, ?_, ?_⟩
  · simp only [Table.enter, List.length_append, List.length_singleton, h.coefficients]
  · simp only [Table.enter, if_true, length_differences, h.coefficients, Nat.min_self]

theorem Sized.enter_again (h : Sized before s x t) (v : α) :
    Sized before (s + 1) x (t.enter ⟨x, s + 1⟩ v) := by
  refine ⟨h.fresh, ?_, ?_, ?_⟩
  · change t.abscissae ++ [x] = _
    rw [h.abscissae, List.append_assoc, List.replicate_succ' (n := s + 1)]
  · simp only [Table.enter, List.length_append, List.length_singleton, h.coefficients]
  · simp only [Table.enter, if_neg (Nat.succ_ne_zero s), length_differences, List.length_drop,
      h.row, h.abscissae, List.length_append]
    omega

section Divisors

variable [Subtractive α]

theorem not_sub_beq_zero (h : ¬ x == y) : ¬ x - y == ofNat 0 :=
  fun hzero ↦ h (sub_beq_zero_iff.1 hzero).1

theorem Sized.enter?_fresh (hy : ∀ a ∈ t.abscissae, ¬ a == y) (v : α) :
    t.enter? ⟨y, 0⟩ v = some (t.enter ⟨y, 0⟩ v) := by
  have hdivisors : ∀ a ∈ t.abscissae.take t.coefficients.length, ¬ a - y == ofNat 0 :=
    fun a ha ↦ not_sub_beq_zero (hy a (List.mem_of_mem_take ha))
  simp only [Table.enter?, if_true, differences?_eq_some _ hdivisors, Option.map_some, Table.enter]

theorem Sized.enter?_again (h : Sized before s x t) (v : α) :
    t.enter? ⟨x, s + 1⟩ v = some (t.enter ⟨x, s + 1⟩ v) := by
  have hlength : (t.row.drop 1).length = before.length := by
    rw [List.length_drop, h.row, Nat.add_sub_cancel]
  have hdivisors : ∀ a ∈ t.abscissae.take (t.row.drop 1).length, ¬ a - x == ofNat 0 := by
    rw [hlength, h.abscissae, List.take_left]
    exact fun a ha ↦ not_sub_beq_zero (h.fresh a ha)
  simp only [Table.enter?, if_neg (Nat.succ_ne_zero s), differences?_eq_some _ hdivisors,
    Option.map_some, Table.enter]

theorem Sized.enterAll {nodes : List (Node α)} (hf : Follows before s x nodes)
    (h : Sized before s x t) (ys : List α) :
    (nodes.zip ys).foldlM (fun t e ↦ t.enter? e.1 e.2) t =
      some ((nodes.zip ys).foldl (fun t e ↦ t.enter e.1 e.2) t) := by
  induction hf generalizing t ys with
  | nil => rfl
  | @fresh before s x y nodes hy _ ih =>
    cases ys with
    | nil => rfl
    | cons v ys =>
      rw [← h.abscissae] at hy ih
      rw [List.zip_cons_cons, List.foldlM_cons, List.foldl_cons, Sized.enter?_fresh hy]
      exact ih (h.enter_fresh hy v) ys
  | again _ ih =>
    cases ys with
    | nil => rfl
    | cons v ys =>
      rw [List.zip_cons_cons, List.foldlM_cons, List.foldl_cons, h.enter?_again]
      exact ih (h.enter_again v) ys

/-- On abscissae that differ no difference is divided by zero, whatever the values are. -/
theorem ofNodes?_stages (times : ℕ) {xs : List α} (hn : xs.Pairwise fun a b ↦ ¬ a == b)
    (ys : List α) :
    Table.ofNodes? (stages times xs) ys = some (Table.ofNodes (stages times xs) ys) := by
  cases xs with
  | nil => rfl
  | cons x xs =>
    rw [stages_cons]
    cases ys with
    | nil => rfl
    | cons y ys =>
      refine (sized_start x y).enterAll (Follows.again_times times ?_) ys
      rw [Nat.zero_add]
      exact follows_stages times hn fun _ _ _ ha ↦ absurd ha List.not_mem_nil

end Divisors

end Checked

section Entries

variable {β : Type}

omit [Scalar α] in
theorem getElem?_flatMap_of_length {f : β → List α} {m : ℕ} (hm : 0 < m)
    (hf : ∀ b, (f b).length = m) (bs : List β) (r : ℕ) :
    (bs.flatMap f)[r]? = bs[r / m]?.bind fun b ↦ (f b)[r % m]? := by
  induction bs generalizing r with
  | nil => simp
  | cons b bs ih =>
    rw [List.flatMap_cons, List.getElem?_append, hf]
    split
    · next hr =>
      rw [Nat.div_eq_of_lt hr, Nat.mod_eq_of_lt hr, List.getElem?_cons_zero, Option.bind_some]
    · next hr =>
      have hle : m ≤ r := Nat.not_lt.1 hr
      rw [ih, Nat.div_eq_sub_div hm hle, Nat.mod_eq_sub_mod hle, List.getElem?_cons_succ]

theorem sampleAt?_cons (x : α) (xs : List α) (b : β) (bs : List β) (a : α) :
    sampleAt? (x :: xs) (b :: bs) a = if x == a then some b else sampleAt? xs bs a := by
  rw [sampleAt?, List.zip_cons_cons, List.find?_cons]
  cases x == a <;> rfl

theorem sampleAt?_getElem {xs : List α} (hx : ∀ x ∈ xs, x == x)
    (hn : xs.Pairwise fun x y ↦ ¬ x == y) {bs : List β} {q : ℕ} {a : α} {b : β}
    (ha : xs[q]? = some a) (hb : bs[q]? = some b) : sampleAt? xs bs a = some b := by
  induction xs generalizing bs q with
  | nil => cases ha
  | cons x xs ih =>
    obtain ⟨hxx, hx⟩ := List.forall_mem_cons.1 hx
    obtain ⟨hxs, hn⟩ := List.pairwise_cons.1 hn
    cases bs with
    | nil => cases hb
    | cons b' bs =>
      rw [sampleAt?_cons]
      cases q with
      | zero =>
        cases ha
        cases hb
        rw [if_pos hxx]
      | succ q =>
        rw [if_neg (hxs a (List.mem_of_getElem? ha))]
        exact ih hx hn ha hb

def jetAt (xs : List α) (orders : List (List α)) (a : α) : List α :=
  orders.map fun col ↦ (sampleAt? xs col a).getD a

variable {xs : List α} {orders : List (List α)}

theorem knots_eq (hx : ∀ x ∈ xs, x == x) (hn : xs.Pairwise fun x y ↦ ¬ x == y)
    (hlen : ∀ col ∈ orders, col.length = xs.length) :
    knots xs orders = xs.map fun a ↦ ⟨a, jetAt xs orders a⟩ := by
  have hcolumn : ∀ col ∈ orders, xs.map (fun a ↦ (sampleAt? xs col a).getD a) = col := by
    intro col hcol
    refine List.ext_getElem (by rw [List.length_map, hlen col hcol]) fun q hq hq' ↦ ?_
    rw [List.length_map] at hq
    rw [List.getElem_map, sampleAt?_getElem hx hn (List.getElem?_eq_getElem hq)
      (List.getElem?_eq_getElem hq'), Option.getD_some]
  have hread : (orders.map fun col a ↦ (sampleAt? xs col a).getD a).map xs.map = orders := by
    rw [List.map_map]
    exact (List.map_congr_left hcolumn).trans (List.map_id _)
  have hknots := knots_map xs id (orders.map fun col a ↦ (sampleAt? xs col a).getD a)
  rw [hread, List.map_id] at hknots
  rw [hknots]
  refine List.map_congr_left fun a _ ↦ ?_
  rw [jetAt, List.map_map]
  rfl

/-- What a scheme is handed for the arrays of one component, a node and an entry for every round. -/
structure Rounds (xs : List α) (orders : List (List α)) (nodes : List (Node α)) (ys : List α) :
    Prop where
  lengths : nodes.length = xs.length * orders.length ∧ ys.length = nodes.length
  /-- A node asks for what the array of its order has at the sample of its abscissa. -/
  entry {r : ℕ} {n : Node α} : nodes[r]? = some n → n.order = r % orders.length ∧
    ∃ col y, orders[n.order]? = some col ∧ sampleAt? xs col n.abscissa = some y ∧ ys[r]? = some y
  /-- The differences of a node go back to all rounds before its abscissa was new. -/
  divisor {r i : ℕ} {n m : Node α} : nodes[r]? = some n → i + n.order < r → nodes[i]? = some m →
    ¬ m.abscissa - n.abscissa == ofNat 0
  checked : Table.ofNodes? nodes ys = some (Table.ofNodes nodes ys)

omit [Scalar α] in
theorem getElem?_stages {times : ℕ} {xs : List α} {r : ℕ} {n : Node α}
    (h : (stages times xs)[r]? = some n) :
    xs[r / (times + 1)]? = some n.abscissa ∧ n.order = r % (times + 1) := by
  rw [stages, getElem?_flatMap_of_length times.succ_pos (fun _ ↦ by simp)] at h
  obtain ⟨a, ha, h⟩ := Option.bind_eq_some_iff.1 h
  rw [List.getElem?_map, List.getElem?_range (Nat.mod_lt r times.succ_pos), Option.map_some] at h
  cases h
  exact ⟨ha, rfl⟩

theorem getElem?_jets {times : ℕ} (hx : ∀ x ∈ xs, x == x) (hn : xs.Pairwise fun x y ↦ ¬ x == y)
    (horders : orders.length = times + 1) (hlen : ∀ col ∈ orders, col.length = xs.length)
    {r : ℕ} {a : α} (ha : (sorted xs)[r / (times + 1)]? = some a) :
    ∃ col y, orders[r % (times + 1)]? = some col ∧ sampleAt? xs col a = some y ∧
      ((sorted xs).flatMap (jetAt xs orders))[r]? = some y := by
  have hs : r % (times + 1) < orders.length := by
    rw [horders]
    exact Nat.mod_lt r times.succ_pos
  have hcol : orders[r % (times + 1)]? = some orders[r % (times + 1)] :=
    List.getElem?_eq_getElem hs
  obtain ⟨q, hq⟩ := List.mem_iff_getElem?.1 ((perm_sorted xs).subset (List.mem_of_getElem? ha))
  have hqlt : q < orders[r % (times + 1)].length := by
    rw [hlen _ (List.getElem_mem hs)]
    exact (List.getElem?_eq_some_iff.1 hq).1
  have hsample := sampleAt?_getElem hx hn hq (List.getElem?_eq_getElem hqlt)
  refine ⟨_, _, hcol, hsample, ?_⟩
  have hlength (b : α) : (jetAt xs orders b).length = times + 1 := by
    rw [jetAt, List.length_map, horders]
  rw [getElem?_flatMap_of_length times.succ_pos hlength, ha, Option.bind_some, jetAt,
    List.getElem?_map, hcol, Option.map_some, hsample, Option.getD_some]

theorem rounds [Subtractive α] (hx : ∀ x ∈ xs, x == x) (hn : xs.Pairwise fun x y ↦ ¬ x == y)
    {times : ℕ} (horders : orders.length = times + 1)
    (hlen : ∀ col ∈ orders, col.length = xs.length) :
    Rounds xs orders (stages times (sorted xs))
      ((ascending (knots xs orders)).flatMap Knot.jet) := by
  have hlength := (perm_sorted xs).length_eq
  have hsorted := pairwise_sorted hn
  rw [knots_eq hx hn hlen, flatMap_jet]
  refine ⟨⟨?_, ?_⟩, fun {r n} h ↦ ?_, fun {r i n m} h hi h' ↦ ?_, ofNodes?_stages times hsorted _⟩
  · rw [length_stages, hlength, horders]
  · simp [jetAt, horders, length_stages, List.length_flatMap, List.map_const', List.sum_replicate]
  · obtain ⟨ha, hs⟩ := getElem?_stages h
    rw [horders, hs]
    exact ⟨rfl, getElem?_jets hx hn horders hlen ha⟩
  · obtain ⟨ha, hs⟩ := getElem?_stages h
    obtain ⟨ha', -⟩ := getElem?_stages h'
    have hmod := Nat.div_add_mod r (times + 1)
    have hlt : i / (times + 1) < r / (times + 1) := Nat.div_lt_of_lt_mul (by omega)
    obtain ⟨hr, hrn⟩ := List.getElem?_eq_some_iff.1 ha
    obtain ⟨hi, him⟩ := List.getElem?_eq_some_iff.1 ha'
    have hne := List.pairwise_iff_getElem.1 hsorted _ _ hi hr hlt
    rw [him, hrn] at hne
    exact not_sub_beq_zero hne

end Entries

end OrbitReplay.Hermite
