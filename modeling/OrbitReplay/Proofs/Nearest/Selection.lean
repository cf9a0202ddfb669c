import OrbitReplay.Proofs.Nearest.Closest
import OrbitReplay.Proofs.Nearest.Outward

namespace OrbitReplay.Nearest

open Scalar

variable {α : Type} [Scalar α] {dates : List α} {date : α} {c : Nat}

structure Selects (dates : List α) (date : α) (c size : Nat) (block : List Nat) : Prop where
  length_eq : block.length = size
  nodup : block.Nodup
  lt_length {i : Nat} : i ∈ block → i < dates.length
  head : block.head? = some c
  stretch : ∃ first, ∀ i, i ∈ block ↔ first ≤ i ∧ i < first + size
  nearer_first : block.Pairwise fun i j ↦ ∀ a b, dates[i]? = some a → dates[j]? = some b →
    distance a date ≤ distance b date
  left_out {i j : Nat} {a b : α} : i ∈ block → j ∉ block → dates[i]? = some a →
    dates[j]? = some b → distance a date ≤ distance b date
  /-- An upper sample comes after the lower ones that are no further away. -/
  tie {i j : Nat} {a b : α} : i < c → c < j → j ∈ block → dates[i]? = some a →
    dates[j]? = some b → distance a date ≤ distance b date → [i, j].Sublist block

theorem pair_sublist_grow [Ordered α] (h : Recedes dates date c) (n : Nat) {lower upper : Nat}
    (hl : lower ≤ c) (hu : c < upper) {i j : Nat} {a b : α} (hi : i < lower) (hj : upper ≤ j)
    (hmem : j ∈ grow dates date n lower upper) (ha : dates[i]? = some a) (hb : dates[j]? = some b)
    (hle : distance a date ≤ distance b date) : [i, j].Sublist (grow dates date n lower upper) := by
  induction n generalizing lower upper with
  | zero => simp [grow] at hmem
  | succ n ih =>
    rcases grow_succ dates date n lower upper with ⟨l, rfl, hg, -⟩ | ⟨-, hg, hnear⟩ <;>
      rw [hg] at hmem ⊢
    · have hmem' := (List.mem_cons.1 hmem).resolve_left (by omega)
      rcases Nat.lt_or_eq_of_le (Nat.le_of_lt_succ hi) with hlt | rfl
      · exact (ih (by omega) hu hlt hj hmem').cons l
      · exact (List.singleton_sublist.2 hmem').cons_cons i
    · rcases List.mem_cons.1 hmem with rfl | hmem'
      · obtain ⟨l, rfl⟩ : ∃ l, lower = l + 1 := ⟨lower - 1, by omega⟩
        have hlen := (List.getElem?_eq_some_iff.1 hb).1
        have hnext := List.getElem?_eq_getElem (Nat.lt_trans (by omega : l < j) hlen)
        have hback := h.below hnext ha (Nat.le_of_lt_succ hi) (by omega)
        exact absurd (Scalar.le_trans hback hle) (hnear l _ b rfl hnext hb)
      · rcases Nat.lt_or_eq_of_le hj with hlt | rfl
        · exact (ih hl (by omega) hi hlt hmem').cons upper
        · have := mem_grow hmem'
          omega

theorem selects_neighborhood [Spaced α] (hr : dates.Pairwise (· < ·)) (hn : ∀ a ∈ dates, a == a)
    (hd : isFinite date) (hc : Brackets dates date c) {size : Nat} (hpos : 0 < size)
    (hle : size ≤ dates.length) :
    Selects dates date c size (neighborhood dates date c size) := by
  have hrecedes := hc.recedes hr hn hd
  have hahead := ahead_neighborhood hrecedes dates.length
  refine
    { length_eq := length_neighborhood dates date c size hpos
      nodup := nodup_neighborhood dates date c size
      lt_length := lt_of_mem_neighborhood hc.lt_length hle
      head := rfl
      stretch := stretch_neighborhood dates date c hpos
      nearer_first := (ahead_neighborhood hrecedes size).imp fun h _ _ ↦ h.distance_le hrecedes
      left_out := fun {i j a b} hi hj ha hb ↦ ?_
      tie := fun {i j a b} hi hj hmem ha hb hab ↦ ?_ }
  · rw [← List.take_append_drop size (neighborhood dates date c dates.length),
      take_neighborhood dates date c hpos hle] at hahead
    have hall : j ∈ neighborhood dates date c dates.length :=
      (perm_neighborhood date hc.lt_length).mem_iff.2
        (List.mem_range.2 (List.getElem?_eq_some_iff.1 hb).1)
    rw [← List.take_append_drop size (neighborhood dates date c dates.length),
      take_neighborhood dates date c hpos hle, List.mem_append] at hall
    exact ((List.pairwise_append.1 hahead).2.2 i hi j (hall.resolve_left hj)).distance_le hrecedes
      ha hb
  · have hmem' := (List.mem_cons.1 hmem).resolve_left (by omega)
    exact (pair_sublist_grow hrecedes _ (Nat.le_refl c) c.lt_succ_self hi hj hmem' ha hb hab).cons c

section Exact

variable {dates : List ℚ} {date : ℚ} {c : ℕ}

def noFurther (date : ℚ) (s t : ℚ × ℕ) : Bool := decide (|s.1 - date| ≤ |t.1 - date|)

def byDistance (dates : List ℚ) (date : ℚ) : List (ℚ × ℕ) := dates.zipIdx.mergeSort (noFurther date)

def Ranked (dates : List ℚ) (date : ℚ) (i j : ℕ) : Prop :=
  ∀ a b, dates[i]? = some a → dates[j]? = some b →
    |a - date| < |b - date| ∨ |a - date| = |b - date| ∧ i ≤ j

theorem noFurther_trans (s t u : ℚ × ℕ) (hst : noFurther date s t = true)
    (htu : noFurther date t u = true) : noFurther date s u = true :=
  decide_eq_true ((of_decide_eq_true hst).trans (of_decide_eq_true htu))

theorem noFurther_total (date : ℚ) (s t : ℚ × ℕ) :
    (noFurther date s t || noFurther date t s) = true := by
  rw [Bool.or_eq_true, noFurther, noFurther, decide_eq_true_eq, decide_eq_true_eq]
  exact le_total _ _

theorem ranked_byDistance (dates : List ℚ) (date : ℚ) :
    ((byDistance dates date).map Prod.snd).Pairwise (Ranked dates date) := by
  have hsorted := List.pairwise_mergeSort (List.zipIdxLE_trans noFurther_trans)
    (List.zipIdxLE_total (noFurther_total date)) dates.zipIdx.zipIdx
  have hindex {e : (ℚ × ℕ) × ℕ}
      (he : e ∈ dates.zipIdx.zipIdx.mergeSort (List.zipIdxLE (noFurther date))) :
      dates[e.1.2]? = some e.1.1 ∧ e.1.2 = e.2 := by
    have hget := List.mem_zipIdx_iff_getElem?.1 (List.mem_mergeSort.1 he)
    refine ⟨List.mem_zipIdx_iff_getElem?.1 (List.mem_of_getElem? hget), ?_⟩
    rw [List.getElem?_zipIdx] at hget
    obtain ⟨a, -, ha⟩ := Option.map_eq_some_iff.1 hget
    simpa using congrArg Prod.snd ha.symm
  rw [byDistance, ← List.mergeSort_zipIdx, List.map_map, List.pairwise_map]
  refine hsorted.imp_of_mem fun {e f} he hf hle a b ha hb ↦ ?_
  obtain ⟨hea, hei⟩ := hindex he
  obtain ⟨hfb, hfi⟩ := hindex hf
  obtain rfl : e.1.1 = a := Option.some_inj.1 (hea.symm.trans ha)
  obtain rfl : f.1.1 = b := Option.some_inj.1 (hfb.symm.trans hb)
  simp only [List.zipIdxLE, noFurther, decide_eq_true_eq] at hle
  split at hle
  · next h =>
    split at hle
    · next h' => exact .inr ⟨le_antisymm h h', by simpa [hei, hfi] using hle⟩
    · next h' => exact .inl (not_le.1 h')
  · cases hle

theorem Ahead.ranked (hr : dates.Pairwise (· < ·)) (hc : IsNearest dates date c) {i j : ℕ}
    (h : Ahead dates date c i j) : Ranked dates date i j := by
  intro a b ha hb
  have hrecedes : Recedes dates date c := hc.brackets.recedes hr (fun _ _ ↦ beq_rat.2 rfl) rfl
  have hle : |a - date| ≤ |b - date| := by
    simpa only [distance_rat] using h.distance_le hrecedes ha hb
  refine (lt_or_eq_of_le hle).imp_right fun he ↦ ⟨he, ?_⟩
  cases h with
  | first hne =>
    by_contra hlt
    have hnear := hc.distance_lt hr hb ha (not_le.1 hlt)
    rw [distance_rat, distance_rat, abs_sub_comm date a, abs_sub_comm date b] at hnear
    exact hnear.ne he
  | below hji hi =>
    have hba : b < a := lt_of_rising hr hb ha hji
    have had : a < date := hc.before ha hi
    rw [abs_of_neg (sub_neg.2 had), abs_of_neg (sub_neg.2 (hba.trans had))] at he
    exact absurd (sub_left_injective (neg_injective he)) hba.ne'
  | above _ hij => exact hij.le
  | lower hi hj _ => exact (hi.trans hj).le
  | upper _ _ hnot =>
    refine absurd ?_ (hnot a b ha hb)
    rw [distance_rat, distance_rat, he]

/-- Where nothing is rounded, the block is the start of the stable sort by distance. -/
theorem neighborhood_byDistance (hr : dates.Pairwise (· < ·)) (hc : IsNearest dates date c)
    {size : ℕ} (hpos : 0 < size) (hle : size ≤ dates.length) :
    neighborhood dates date c size = ((byDistance dates date).map Prod.snd).take size := by
  have hperm : ((byDistance dates date).map Prod.snd).Perm (List.range dates.length) := by
    have h := (List.mergeSort_perm dates.zipIdx (noFurther date)).map Prod.snd
    rwa [List.zipIdx_map_snd, ← List.range_eq_range'] at h
  have hall : neighborhood dates date c dates.length = (byDistance dates date).map Prod.snd := by
    refine List.Perm.eq_of_pairwise (fun i j hi hj hij hji ↦ ?_)
      ((ahead_neighborhood (hc.brackets.recedes hr (fun _ _ ↦ beq_rat.2 rfl) rfl) _).imp
        (Ahead.ranked hr hc)) (ranked_byDistance dates date)
      ((perm_neighborhood date hc.lt_length).trans hperm.symm)
    have ha := List.getElem?_eq_getElem (lt_of_mem_neighborhood hc.lt_length (Nat.le_refl _) hi)
    have hb := List.getElem?_eq_getElem (List.mem_range.1 (hperm.mem_iff.1 hj))
    rcases hij _ _ ha hb with h | ⟨h, hle⟩ <;> rcases hji _ _ hb ha with h' | ⟨h', hle'⟩
    · exact absurd h' h.asymm
    · exact absurd h h'.symm.not_lt
    · exact absurd h' h.symm.not_lt
    · exact le_antisymm hle hle'
  rw [← hall, take_neighborhood dates date c hpos hle]

end Exact

/-- The block around the sample that a search finds, from whatever hint, takes the nearest samples,
and a longer block starts with the shorter ones. It need only be known of rounded distances that
they do not shrink on the way out. Where nothing is rounded, the block is told by a stable sort. -/
theorem neighborhood_selects :
    (∀ {α : Type} [Scalar α] [Spaced α] {dates : List α} {date : α}, dates.Pairwise (· < ·) →
      (∀ a ∈ dates, a == a) → isFinite date → ∀ hint < dates.length, ∃ c : ℕ,
        nearest? dates date hint = some (c : ℤ) ∧ ∀ size, 0 < size → size ≤ dates.length →
          Selects dates date c size (neighborhood dates date c size) ∧
            ∀ n, 0 < n → n ≤ size →
              (neighborhood dates date c n).IsPrefix (neighborhood dates date c size)) ∧
    ∀ {dates : List ℚ} {date : ℚ}, dates.Pairwise (· < ·) → ∀ hint < dates.length, ∃ c : ℕ,
      nearest? dates date hint = some (c : ℤ) ∧ ∀ size, 0 < size → size ≤ dates.length →
        neighborhood dates date c size = ((byDistance dates date).map Prod.snd).take size := by
  refine ⟨fun hr hn hd hint hh ↦ ?_, fun hr hint hh ↦ ?_⟩
  · obtain ⟨c, hfound, hc⟩ := nearest?_brackets hr hn (number_of_isFinite hd) hh
    refine ⟨c, hfound, fun size hpos hle ↦ ⟨selects_neighborhood hr hn hd hc hpos hle, ?_⟩⟩
    intro n hn hle
    rw [← take_neighborhood _ _ c hn hle]
    exact List.take_prefix n _
  · obtain ⟨c, hfound, hc⟩ := nearest?_isNearest hr (fun _ _ ↦ beq_rat.2 rfl) (beq_rat.2 rfl) hh
    exact ⟨c, hfound, fun size hpos hle ↦ neighborhood_byDistance hr hc hpos hle⟩

/-- Around a sample at the date with neighbours at equal distances, and around the lower one of two
samples that are equally near. -/
theorem neighborhood_selects_binary64 :
    Selects [0, 1, 2, 3, (1e300 : Float)] 2 2 4 [2, 1, 3, 0] ∧
      ((byDistance [0, 1, 4, (9 : ℚ)] (5 / 2)).map Prod.snd).take 3 = [1, 2, 0] := by
  obtain ⟨hrounded, hexact⟩ := neighborhood_selects
  constructor
  · have hrising : [0, 1, 2, 3, (1e300 : Float)].Pairwise (· < ·) := by decide +kernel
    have hnumbers : ∀ a ∈ [0, 1, 2, 3, (1e300 : Float)], a == a := by decide +kernel
    obtain ⟨c, hfound, hselects⟩ := @hrounded Float _ _ _ 2 hrising hnumbers rfl 4 (by decide)
    have htwo : nearest? [0, 1, 2, 3, (1e300 : Float)] 2 (4 : ℕ) = some (2 : ℕ) := by
      decide +kernel
    obtain rfl : c = 2 := Int.ofNat_inj.1 (Option.some_inj.1 (hfound.symm.trans htwo))
    have hblock : neighborhood [0, 1, 2, 3, (1e300 : Float)] 2 2 4 = [2, 1, 3, 0] := by
      decide +kernel
    exact hblock ▸ (hselects 4 (by decide) (by decide)).1
  · have hrising : [0, 1, 4, (9 : ℚ)].Pairwise (· < ·) := by decide +kernel
    obtain ⟨c, hfound, hblock⟩ := @hexact _ (5 / 2) hrising 3 (by decide)
    have hone : nearest? [0, 1, 4, (9 : ℚ)] (5 / 2) (3 : ℕ) = some (1 : ℕ) := by decide +kernel
    obtain rfl : c = 1 := Int.ofNat_inj.1 (Option.some_inj.1 (hfound.symm.trans hone))
    rw [← hblock 3 (by decide) (by decide)]
    decide +kernel

end OrbitReplay.Nearest
