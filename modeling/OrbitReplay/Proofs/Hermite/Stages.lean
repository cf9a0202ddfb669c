import Mathlib.Algebra.BigOperators.Group.List.Basic
import OrbitReplay.Hermite.Interpolate
import OrbitReplay.Proofs.Scalar.Order

namespace OrbitReplay.Hermite

open Scalar

variable {α : Type}

def stages (times : ℕ) (xs : List α) : List (Node α) :=
  xs.flatMap fun x ↦ (List.range (times + 1)).map (⟨x, ·⟩)

theorem stages_cons (times : ℕ) (x : α) (xs : List α) :
    stages times (x :: xs) =
      ⟨x, 0⟩ :: ((List.range' 1 times).map (⟨x, ·⟩) ++ stages times xs) := by
  change (List.range (times + 1)).map (⟨x, ·⟩) ++ stages times xs = _
  rw [List.range_eq_range', List.range'_succ]
  rfl

theorem length_stages (times : ℕ) (xs : List α) :
    (stages times xs).length = xs.length * (times + 1) := by
  simp [stages, List.length_flatMap, List.map_const', List.sum_replicate]

variable [Scalar α]

/-- Nodes that may come next: an abscissa that is new, or once more the last one. -/
inductive Follows : List α → ℕ → α → List (Node α) → Prop
  | nil (before : List α) (s : ℕ) (x : α) : Follows before s x []
  | fresh {before : List α} {s : ℕ} {x y : α} {nodes : List (Node α)} :
      (∀ a ∈ before ++ List.replicate (s + 1) x, ¬ a == y) →
      Follows (before ++ List.replicate (s + 1) x) 0 y nodes →
      Follows before s x (⟨y, 0⟩ :: nodes)
  | again {before : List α} {s : ℕ} {x : α} {nodes : List (Node α)} :
      Follows before (s + 1) x nodes → Follows before s x (⟨x, s + 1⟩ :: nodes)

theorem Follows.again_times {before : List α} {x : α} {nodes : List (Node α)} (n : ℕ) {s : ℕ}
    (h : Follows before (s + n) x nodes) :
    Follows before s x ((List.range' (s + 1) n).map (⟨x, ·⟩) ++ nodes) := by
  induction n generalizing s with
  | zero => exact h
  | succ n ih =>
    rw [List.range'_succ]
    exact .again (ih (by rwa [Nat.add_right_comm]))

theorem forall_mem_append_replicate {before : List α} {s : ℕ} {x y : α}
    (hnew : ∀ a ∈ before, ¬ a == y) (hx : ¬ x == y) :
    ∀ a ∈ before ++ List.replicate s x, ¬ a == y := by
  intro a ha
  rcases List.mem_append.1 ha with ha | ha
  · exact hnew a ha
  · exact List.eq_of_mem_replicate ha ▸ hx

theorem follows_stages (times : ℕ) {before : List α} {x : α} {xs : List α}
    (hn : (x :: xs).Pairwise fun a b ↦ ¬ a == b) (hnew : ∀ y ∈ xs, ∀ a ∈ before, ¬ a == y) :
    Follows before times x (stages times xs) := by
  induction xs generalizing before x with
  | nil => exact .nil ..
  | cons y xs ih =>
    obtain ⟨hx, hn⟩ := List.pairwise_cons.1 hn
    have hfresh : ∀ z ∈ y :: xs, ∀ a ∈ before ++ List.replicate (times + 1) x, ¬ a == z :=
      fun z hz ↦ forall_mem_append_replicate (hnew z hz) (hx z hz)
    have hrest := ih hn fun z hz ↦ hfresh z (List.mem_cons_of_mem y hz)
    rw [stages_cons]
    refine .fresh (hfresh y List.mem_cons_self) (Follows.again_times times ?_)
    rwa [Nat.zero_add]

section Order

variable {f : Knot α → Knot α}

theorem map_place (hf : ∀ k, (f k).abscissa = k.abscissa) (k : Knot α) (ks : List (Knot α)) :
    place (f k) (ks.map f) = (place k ks).map f := by
  induction ks with
  | nil => rfl
  | cons j ks ih =>
    rw [List.map_cons, place, place, hf, hf, ih]
    split <;> rfl

/-- Only the abscissae decide the order. -/
theorem map_ascending (hf : ∀ k, (f k).abscissa = k.abscissa) (ks : List (Knot α)) :
    ascending (ks.map f) = (ascending ks).map f := by
  induction ks with
  | nil => rfl
  | cons k ks ih =>
    change place (f k) (ascending (ks.map f)) = (place k (ascending ks)).map f
    rw [ih, map_place hf]

def sorted (xs : List α) : List α := (ascending (xs.map (⟨·, []⟩))).map Knot.abscissa

theorem perm_sorted (xs : List α) : (sorted xs).Perm xs := by
  have h := (perm_ascending (xs.map fun x ↦ (⟨x, []⟩ : Knot α))).map Knot.abscissa
  rwa [List.map_map, show Knot.abscissa ∘ (fun x : α ↦ ⟨x, []⟩) = id from rfl, List.map_id] at h

theorem flatMap_ascending {β : Type} (xs : List α) (f : α → List β) :
    (ascending (xs.map fun x ↦ (⟨x, []⟩ : Knot α))).flatMap (fun k ↦ f k.abscissa) =
      (sorted xs).flatMap f :=
  (List.flatMap_map ..).symm

theorem flatMap_jet (xs : List α) (f : α → List α) :
    (ascending (xs.map fun x ↦ ⟨x, f x⟩)).flatMap Knot.jet = (sorted xs).flatMap f := by
  have h := map_ascending (f := fun k ↦ { k with jet := f k.abscissa }) (fun _ ↦ rfl)
    (xs.map fun x ↦ (⟨x, []⟩ : Knot α))
  rw [List.map_map] at h
  rw [← flatMap_ascending]
  exact (congrArg (List.flatMap Knot.jet) h).trans (List.flatMap_map ..)

theorem pairwise_sorted [Ordered α] {xs : List α} (h : xs.Pairwise fun x y ↦ ¬ x == y) :
    (sorted xs).Pairwise fun x y ↦ ¬ x == y :=
  ((perm_sorted xs).pairwise_iff (mt beq_symm)).2 h

end Order

section Count

variable {x : α}

theorem takeWhile_replicate (hx : x == x) (s : ℕ) {seen : List α} (h : ∀ a ∈ seen, ¬ a == x) :
    (List.replicate s x ++ seen).takeWhile (· == x) = List.replicate s x := by
  have hseen : seen.takeWhile (· == x) = [] := by
    cases seen with
    | nil => rfl
    | cons y seen => rw [List.takeWhile_cons, if_neg (h y List.mem_cons_self)]
  have hall : ∀ y ∈ List.replicate s x, y == x := fun y hy ↦ List.eq_of_mem_replicate hy ▸ hx
  rw [List.takeWhile_append_of_pos hall, hseen, List.append_nil]

theorem count?_replicate (hx : x == x) (s n : ℕ) {seen : List α} (h : ∀ a ∈ seen, ¬ a == x)
    (rest : List α) :
    count? (List.replicate s x ++ seen) (List.replicate n x ++ rest) =
      (count? (List.replicate (s + n) x ++ seen) rest).map
        ((List.range' s n).map (⟨x, ·⟩) ++ ·) := by
  induction n generalizing s with
  | zero => exact Option.map_id'.symm
  | succ n ih =>
    rw [List.replicate_succ, List.cons_append, count?, if_pos hx, takeWhile_replicate hx s h,
      List.length_replicate, ← List.cons_append, ← List.replicate_succ, ih, Option.map_map,
      Nat.add_right_comm, Nat.add_assoc, List.range'_succ]
    rfl

theorem count?_stages (times : ℕ) {seen xs : List α} (hx : ∀ x ∈ xs, x == x)
    (hn : xs.Pairwise fun x y ↦ ¬ x == y) (hnew : ∀ x ∈ xs, ∀ a ∈ seen, ¬ a == x) :
    count? seen (xs.flatMap (List.replicate (times + 1))) = some (stages times xs) := by
  induction xs generalizing seen with
  | nil => rfl
  | cons x xs ih =>
    obtain ⟨hxx, hx⟩ := List.forall_mem_cons.1 hx
    obtain ⟨hxs, hn⟩ := List.pairwise_cons.1 hn
    obtain ⟨hnewx, hnew⟩ := List.forall_mem_cons.1 hnew
    have hrest : ∀ y ∈ xs, ∀ a ∈ List.replicate (times + 1) x ++ seen, ¬ a == y := by
      intro y hy a ha
      exact forall_mem_append_replicate (hnew y hy) (hxs y hy) a (List.perm_append_comm.subset ha)
    have hcount := count?_replicate hxx 0 (times + 1) hnewx
      (xs.flatMap (List.replicate (times + 1)))
    rw [Nat.zero_add, ih hx hn hrest, ← List.range_eq_range'] at hcount
    exact hcount

theorem nodes?_eq_count? {xs : List α} (hx : ∀ x ∈ xs, x == x) : nodes? xs = count? [] xs := by
  cases xs with
  | nil => rfl
  | cons x xs =>
    rw [nodes?, count?, if_pos (hx x List.mem_cons_self)]
    rfl

theorem schedule_stages [Ordered α] (times : ℕ) {xs : List α} (hx : ∀ x ∈ xs, x == x)
    (hn : xs.Pairwise fun x y ↦ ¬ x == y) :
    schedule xs (times + 1) = .ok (stages times (sorted xs)) := by
  have hsorted : ∀ x ∈ sorted xs, x == x := fun x hxs ↦ hx x ((perm_sorted xs).subset hxs)
  have hrepeated : ∀ x ∈ (sorted xs).flatMap (List.replicate (times + 1)), x == x := by
    intro x hxs
    obtain ⟨y, hy, hxy⟩ := List.mem_flatMap.1 hxs
    exact List.eq_of_mem_replicate hxy ▸ hsorted y hy
  rw [schedule, flatMap_ascending xs (List.replicate (times + 1)), nodes?_eq_count? hrepeated,
    count?_stages times hsorted (pairwise_sorted hn) fun _ _ _ ha ↦ absurd ha List.not_mem_nil]

end Count

end OrbitReplay.Hermite
