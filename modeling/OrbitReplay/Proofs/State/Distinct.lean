import Mathlib.Data.List.Nodup
import OrbitReplay.State.Basic

namespace OrbitReplay

section Gather

variable {β : Type} {same : β → β → Bool} {kept other xs ys : List β} {x y : β}

def enroll (same : β → β → Bool) (kept : List β) (x : β) : List β :=
  if kept.any (same · x) then kept else kept ++ [x]

def gather (same : β → β → Bool) (xs : List β) : List β := xs.foldl (enroll same) []

theorem State.distinct_eq {α : Type} [Scalar α] (states : List (State α)) :
    State.distinct states = gather (· == ·) states := rfl

structure Peers (same : β → β → Bool) (kept other : List β) : Prop where
  length : kept.length = other.length
  any (x : β) : kept.any (same · x) = other.any (same · x)

theorem Peers.refl (kept : List β) : Peers same kept kept := ⟨rfl, fun _ ↦ rfl⟩

theorem Peers.trans (h : Peers same kept xs) (h' : Peers same xs ys) : Peers same kept ys :=
  ⟨h.length.trans h'.length, fun x ↦ (h.any x).trans (h'.any x)⟩

theorem Peers.append (h : Peers same kept other) (hxy : ∀ z, same x z = same y z) :
    Peers same (kept ++ [x]) (other ++ [y]) where
  length := by simp [h.length]
  any z := by simp [h.any z, hxy z]

theorem Peers.step (h : Peers same kept other) (x : β) :
    Peers same (enroll same kept x) (enroll same other x) := by
  rw [enroll, enroll, h.any x]
  split
  · exact h
  · exact h.append fun _ ↦ rfl

theorem Peers.foldl (h : Peers same kept other) (xs : List β) :
    Peers same (xs.foldl (enroll same) kept) (xs.foldl (enroll same) other) := by
  induction xs generalizing kept other with
  | nil => exact h
  | cons x xs ih => exact ih (h.step x)

/-- Taken for the same both ways round and along chains, though not always for itself. -/
structure Consistent (same : β → β → Bool) : Prop where
  symm {x y : β} : same x y → same y x
  trans {x y z : β} : same x y → same y z → same x z

theorem Consistent.comm (h : Consistent same) (x y : β) : same x y = same y x :=
  Bool.eq_iff_iff.2 ⟨h.symm, h.symm⟩

theorem Consistent.congr (h : Consistent same) (hxy : same x y) (z : β) : same x z = same y z :=
  Bool.eq_iff_iff.2 ⟨h.trans (h.symm hxy), h.trans hxy⟩

theorem consistent_beq [BEq β] [PartialEquivBEq β] : Consistent (· == · : β → β → Bool) :=
  ⟨BEq.symm, BEq.trans⟩

/-- Two elements enter one after the other, whichever is first: each on its own, or only the first
if they are taken for the same. -/
theorem Consistent.enroll_comm (h : Consistent same) (kept : List β) (x y : β) :
    Peers same (enroll same (enroll same kept x) y) (enroll same (enroll same kept y) x) := by
  cases hx : kept.any (same · x) <;> cases hy : kept.any (same · y)
  case false.false =>
    cases hxy : same x y with
    | true =>
      have hone : Peers same (kept ++ [x]) (kept ++ [y]) := (Peers.refl kept).append (h.congr hxy)
      simpa [enroll, hx, hy, h.comm y x, hxy] using hone
    | false =>
      have hboth : Peers same (kept ++ [x, y]) (kept ++ [y, x]) :=
        ⟨by simp, fun z ↦ by simp [Bool.or_comm]⟩
      simpa [enroll, hx, hy, h.comm y x, hxy] using hboth
  all_goals
    simp only [enroll, hx, hy, List.any_append, Bool.true_or, if_true, Bool.false_eq_true, if_false]
    exact Peers.refl _

theorem Consistent.foldl_perm (h : Consistent same) (hperm : xs.Perm ys) (kept : List β) :
    Peers same (xs.foldl (enroll same) kept) (ys.foldl (enroll same) kept) := by
  induction hperm generalizing kept with
  | nil => exact .refl kept
  | cons x _ ih => exact ih (enroll same kept x)
  | swap x y zs => exact (h.enroll_comm kept y x).foldl zs
  | trans _ _ ih ih' => exact (ih kept).trans (ih' kept)

theorem Consistent.length_gather (h : Consistent same) (hperm : xs.Perm ys) :
    (gather same xs).length = (gather same ys).length :=
  (h.foldl_perm hperm []).length

end Gather

section Members

variable {β γ : Type} [DecidableEq β] [BEq γ] {hash : β → ℕ} {value : β → γ} {a b : β}

/-- How a set tells objects apart. Objects whose hashes differ are not compared; of the others one
is taken for itself, whatever its value, and for those of equal value. -/
def sameMember (hash : β → ℕ) (value : β → γ) (a b : β) : Bool :=
  hash a == hash b && (a == b || value a == value b)

theorem sameMember_iff :
    sameMember hash value a b ↔ hash a = hash b ∧ (a = b ∨ value a == value b) := by
  simp [sameMember]

theorem consistent_sameMember [PartialEquivBEq γ] (hash : β → ℕ) (value : β → γ) :
    Consistent (sameMember hash value) where
  symm h := by
    obtain ⟨hhash, h⟩ := sameMember_iff.1 h
    exact sameMember_iff.2 ⟨hhash.symm, h.imp Eq.symm BEq.symm⟩
  trans h h' := by
    obtain ⟨hhash, h⟩ := sameMember_iff.1 h
    obtain ⟨hhash', h'⟩ := sameMember_iff.1 h'
    refine sameMember_iff.2 ⟨hhash.trans hhash', ?_⟩
    rcases h with rfl | h
    · exact h'
    · rcases h' with rfl | h'
      · exact .inr h
      · exact .inr (BEq.trans h h')

variable (hhash : ∀ a b, value a == value b → hash a = hash b)

include hhash

/-- If equal values hash alike, a set tells two objects apart by their values alone. -/
theorem sameMember_of_ne (h : a ≠ b) : sameMember hash value a b = (value a == value b) := by
  refine Bool.eq_iff_iff.2 (sameMember_iff.trans ⟨fun hab ↦ hab.2.resolve_left h, fun hab ↦ ?_⟩)
  exact ⟨hhash a b hab, .inr hab⟩

theorem map_enroll {kept : List β} (h : a ∉ kept) :
    (enroll (sameMember hash value) kept a).map value =
      enroll (· == ·) (kept.map value) (value a) := by
  have hany : (kept.map value).any (· == value a) = kept.any (sameMember hash value · a) := by
    rw [List.any_map]
    refine Bool.eq_iff_iff.2 ?_
    rw [List.any_eq_true, List.any_eq_true]
    refine exists_congr fun b ↦ and_congr_right fun hb ↦ ?_
    rw [sameMember_of_ne hhash (ne_of_mem_of_not_mem hb h)]
    rfl
  rw [enroll, enroll, hany]
  split <;> simp

theorem map_foldl_enroll {kept objects : List β} (h : (kept ++ objects).Nodup) :
    (objects.foldl (enroll (sameMember hash value)) kept).map value =
      (objects.map value).foldl (enroll (· == ·)) (kept.map value) := by
  induction objects generalizing kept with
  | nil => rfl
  | cons a objects ih =>
    have ha : a ∉ kept := fun ha ↦
      (List.nodup_append.1 h).2.2 a ha a List.mem_cons_self rfl
    rw [List.foldl_cons, List.map_cons, List.foldl_cons, ← map_enroll hhash ha]
    refine ih ?_
    rw [enroll]
    split
    · exact h.sublist ((List.sublist_cons_self a objects).append_left kept)
    · rwa [List.append_assoc]

theorem map_gather {objects : List β} (h : objects.Nodup) :
    (gather (sameMember hash value) objects).map value = gather (· == ·) (objects.map value) :=
  map_foldl_enroll hhash h

end Members

end OrbitReplay
