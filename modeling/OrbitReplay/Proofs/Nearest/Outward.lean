import Mathlib.Data.List.Perm.Subperm
import OrbitReplay.Proofs.Nearest.Neighborhood
import OrbitReplay.Proofs.Nearest.Search

namespace OrbitReplay.Nearest

open Scalar

variable {α : Type} [Scalar α]

theorem take_grow (dates : List α) (date : α) {m n : Nat} (h : m ≤ n) (lower upper : Nat) :
    (grow dates date n lower upper).take m = grow dates date m lower upper := by
  induction m generalizing n lower upper with
  | zero => rfl
  | succ m ih =>
    obtain ⟨n, rfl⟩ : ∃ k, n = k + 1 := ⟨n - 1, by omega⟩
    have hle : m ≤ n := Nat.le_of_succ_le_succ h
    cases lower with
    | zero => rw [grow, grow, List.take_succ_cons, ih hle]
    | succ l =>
      rw [grow, grow]
      split
      · split <;> rw [List.take_succ_cons, ih hle]
      · rw [List.take_succ_cons, ih hle]

theorem take_neighborhood (dates : List α) (date : α) (closest : Nat) {m n : Nat} (hm : 0 < m)
    (h : m ≤ n) :
    (neighborhood dates date closest n).take m = neighborhood dates date closest m := by
  obtain ⟨m, rfl⟩ : ∃ k, m = k + 1 := ⟨m - 1, by omega⟩
  rw [neighborhood, neighborhood, List.take_succ_cons, Nat.add_sub_cancel,
    take_grow dates date (by omega)]

theorem perm_neighborhood {dates : List α} (date : α) {closest : Nat}
    (h : closest < dates.length) :
    (neighborhood dates date closest dates.length).Perm (List.range dates.length) := by
  have hsub : neighborhood dates date closest dates.length ⊆ List.range dates.length :=
    fun i hi ↦ List.mem_range.2 (lt_of_mem_neighborhood h (Nat.le_refl _) hi)
  have hlen : (List.range dates.length).length =
      (neighborhood dates date closest dates.length).length := by
    rw [List.length_range, length_neighborhood dates date closest _ (Nat.zero_lt_of_lt h)]
  exact (List.subperm_of_subset (nodup_neighborhood dates date closest _) hsub).perm_of_length_le
    (Nat.le_of_eq hlen)

section Places

variable {dates : List α} {date : α} {c : Nat}

structure Recedes (dates : List α) (date : α) (c : Nat) : Prop where
  first {j : Nat} {a b : α} : dates[c]? = some a → dates[j]? = some b →
    distance a date ≤ distance b date
  below {i j : Nat} {a b : α} : dates[i]? = some a → dates[j]? = some b → j ≤ i → i < c →
    distance a date ≤ distance b date
  above {i j : Nat} {a b : α} : dates[i]? = some a → dates[j]? = some b → c < i → i ≤ j →
    distance a date ≤ distance b date

/-- One index comes before another in a block that starts at `c`. Across the two sides the lower one
comes first unless it is further away. -/
inductive Ahead (dates : List α) (date : α) (c : Nat) : Nat → Nat → Prop where
  | first {j : Nat} : j ≠ c → Ahead dates date c c j
  | below {i j : Nat} : j < i → i < c → Ahead dates date c i j
  | above {i j : Nat} : c < i → i < j → Ahead dates date c i j
  | lower {i j : Nat} : i < c → c < j →
    (∀ a b, dates[i]? = some a → dates[j]? = some b → distance a date ≤ distance b date) →
    Ahead dates date c i j
  | upper {i j : Nat} : c < i → j < c →
    (∀ a b, dates[i]? = some a → dates[j]? = some b → ¬ distance b date ≤ distance a date) →
    Ahead dates date c i j

section Ordered

variable [Ordered α]

theorem ahead_grow (h : Recedes dates date c) (n : Nat) {lower upper : Nat} (hl : lower ≤ c)
    (hu : c < upper) : (grow dates date n lower upper).Pairwise (Ahead dates date c) := by
  induction n generalizing lower upper with
  | zero => exact .nil
  | succ n ih =>
    rcases grow_succ dates date n lower upper with ⟨l, rfl, hg, hnear⟩ | ⟨-, hg, hnear⟩ <;>
      rw [hg, List.pairwise_cons]
    · refine ⟨fun j hj ↦ ?_, ih (by omega) hu⟩
      rcases mem_grow hj with hlt | hge
      · exact .below hlt (by omega)
      · refine .lower (by omega) (by omega) fun a b ha hb ↦ ?_
        have hlen : upper < dates.length :=
          Nat.lt_of_le_of_lt hge (List.getElem?_eq_some_iff.1 hb).1
        have hnext := List.getElem?_eq_getElem hlen
        exact Scalar.le_trans (hnear a _ ha hnext) (h.above hnext hb hu hge)
    · refine ⟨fun j hj ↦ ?_, ih hl (by omega)⟩
      rcases mem_grow hj with hlt | hge
      · obtain ⟨l, rfl⟩ : ∃ l, lower = l + 1 := ⟨lower - 1, by omega⟩
        refine .upper hu (by omega) fun a b ha hb hle ↦ ?_
        have hlen : l < dates.length := by
          have := (List.getElem?_eq_some_iff.1 ha).1
          omega
        have hnext := List.getElem?_eq_getElem hlen
        have hback := h.below hnext hb (Nat.le_of_lt_succ hlt) (by omega)
        exact hnear l _ a rfl hnext ha (Scalar.le_trans hback hle)
      · exact .above hu hge

theorem ahead_neighborhood (h : Recedes dates date c) (n : Nat) :
    (neighborhood dates date c n).Pairwise (Ahead dates date c) := by
  refine List.pairwise_cons.2 ⟨fun j hj ↦ .first ?_, ahead_grow h _ (Nat.le_refl c) c.lt_succ_self⟩
  have := mem_grow hj
  omega

theorem le_of_rising (hr : dates.Pairwise (· < ·)) {i j : Nat} {a b : α}
    (ha : dates[i]? = some a) (hb : dates[j]? = some b) (hij : i ≤ j) (hn : a == a) : a ≤ b := by
  rcases Nat.lt_or_eq_of_le hij with h | rfl
  · exact Scalar.le_of_lt (lt_of_rising hr ha hb h)
  · rw [ha, Option.some_inj] at hb
    exact hb ▸ le_of_beq hn

theorem Brackets.le_date (h : Brackets dates date c) {j : Nat} {a : α} (ha : dates[j]? = some a)
    (hj : j < c) : a ≤ date :=
  le_iff.2 ((h.before ha hj).imp_right And.left)

theorem Brackets.date_le (h : Brackets dates date c) {j : Nat} {a : α} (ha : dates[j]? = some a)
    (hj : c < j) : date ≤ a :=
  le_iff.2 ((h.after ha hj).imp_right fun he ↦ beq_symm he.1)

omit [Ordered α] in
theorem IsNearest.brackets (h : IsNearest dates date c) : Brackets dates date c :=
  ⟨h.lt_length, fun ha hj ↦ .inl (h.before ha hj), fun ha hj ↦ .inl (h.after ha hj), h.le_upper,
    h.not_le_lower⟩

end Ordered

section Spaced

variable [Spaced α] {i j : Nat} {a b : α}

/-- Before the date no sample is as near as a nearest one that lies after it. -/
theorem Brackets.not_distance_le (h : Brackets dates date c) (hr : dates.Pairwise (· < ·))
    (hn : ∀ a ∈ dates, a == a) (hd : isFinite date) (ha : dates[c]? = some a)
    (hb : dates[j]? = some b) (hj : j < c) (hlt : date < a) :
    ¬ distance b date ≤ distance a date := by
  have hlen : c - 1 < dates.length := Nat.lt_of_le_of_lt (Nat.sub_le c 1) h.lt_length
  have hl := List.getElem?_eq_getElem hlen
  have hbl := le_of_rising hr hb hl (by omega) (hn b (List.mem_of_getElem? hb))
  have hback := Spaced.mono_below hd hbl (h.le_date hl (by omega))
  rw [Spaced.comm _ date] at hback
  exact fun hle ↦ h.not_le_lower hl ha (by omega) hlt (Scalar.le_trans hback hle)

theorem Brackets.distance_le (h : Brackets dates date c) (hr : dates.Pairwise (· < ·))
    (hn : ∀ a ∈ dates, a == a) (hd : isFinite date) (ha : dates[c]? = some a)
    (hb : dates[j]? = some b) : distance a date ≤ distance b date := by
  have hna := hn a (List.mem_of_getElem? ha)
  have hnb := hn b (List.mem_of_getElem? hb)
  rcases Nat.lt_trichotomy j c with hj | rfl | hj
  · by_cases hle : a ≤ date
    · exact Spaced.mono_below hd (Scalar.le_of_lt (lt_of_rising hr hb ha hj)) hle
    · have hlt := Scalar.lt_of_not_le hna (number_of_isFinite hd) hle
      exact Scalar.le_of_lt (Scalar.lt_of_not_le (number_distance hd hnb) (number_distance hd hna)
        (h.not_distance_le hr hn hd ha hb hj hlt))
  · rw [ha, Option.some_inj] at hb
    exact hb ▸ le_of_beq (number_distance hd hna)
  · by_cases hle : date ≤ a
    · exact Spaced.mono_above hd hle (Scalar.le_of_lt (lt_of_rising hr ha hb hj))
    · have hlt := Scalar.lt_of_not_le (number_of_isFinite hd) hna hle
      have hlen : c + 1 < dates.length :=
        Nat.lt_of_le_of_lt hj (List.getElem?_eq_some_iff.1 hb).1
      have hu := List.getElem?_eq_getElem hlen
      have hle := h.date_le hu c.lt_succ_self
      have hub := le_of_rising hr hu hb hj (number_of_le_right hle)
      rw [Spaced.comm a date]
      exact Scalar.le_trans (h.le_upper ha hu hlt) (Spaced.mono_above hd hle hub)

theorem Brackets.recedes (h : Brackets dates date c) (hr : dates.Pairwise (· < ·))
    (hn : ∀ a ∈ dates, a == a) (hd : isFinite date) : Recedes dates date c := by
  refine ⟨h.distance_le hr hn hd, fun {i j a b} ha hb hij hi ↦ ?_, fun {i j a b} ha hb hi hij ↦ ?_⟩
  · have hba := le_of_rising hr hb ha hij (hn b (List.mem_of_getElem? hb))
    exact Spaced.mono_below hd hba (h.le_date ha hi)
  · have hab := le_of_rising hr ha hb hij (hn a (List.mem_of_getElem? ha))
    exact Spaced.mono_above hd (h.date_le ha hi) hab

end Spaced

theorem Ahead.distance_le [Ordered α] {i j : Nat} {a b : α} (h : Recedes dates date c)
    (hij : Ahead dates date c i j) (ha : dates[i]? = some a) (hb : dates[j]? = some b) :
    distance a date ≤ distance b date := by
  cases hij with
  | first _ => exact h.first ha hb
  | below hji hi => exact h.below ha hb (Nat.le_of_lt hji) hi
  | above hi hij => exact h.above ha hb hi (Nat.le_of_lt hij)
  | lower _ _ hle => exact hle a b ha hb
  | upper hi hj hnot =>
    have hna := number_of_le_left (h.above ha ha hi (Nat.le_refl i))
    have hnb := number_of_le_left (h.below hb hb (Nat.le_refl j) hj)
    exact Scalar.le_of_lt (Scalar.lt_of_not_le hnb hna (hnot a b ha hb))

end Places

/-- One date stands before another on the way outward: down to one that is lower, if both lie before
the date or the upper one is nearer, or up to one that is not nearer. -/
inductive Outward (date : α) : α → α → Prop where
  | down {a b : α} : b < a → (a ≤ date ∨ b < date ∧ ¬ distance b date ≤ distance a date) →
    Outward date a b
  | up {a b : α} : a < b → (date ≤ a ∨ date < b ∧ distance a date ≤ distance b date) →
    Outward date a b

theorem Outward.asymm [Ordered α] {date a b : α} (h : Outward date a b) : ¬ Outward date b a := by
  have aux {a b : α} (hlt : b < a)
      (hdown : a ≤ date ∨ b < date ∧ ¬ distance b date ≤ distance a date)
      (hup : date ≤ b ∨ date < a ∧ distance b date ≤ distance a date) : False := by
    rcases hdown with h | ⟨h, hnot⟩ <;> rcases hup with h' | ⟨h', hle⟩
    · exact Scalar.not_lt_of_le (Scalar.le_trans h h') hlt
    · exact Scalar.not_lt_of_le h h'
    · exact Scalar.not_lt_of_le h' h
    · exact hnot hle
  intro h'
  cases h with
  | down hlt hdown =>
    cases h' with
    | down hlt' _ => exact Scalar.lt_asymm hlt hlt'
    | up _ hup => exact aux hlt hdown hup
  | up hlt hup =>
    cases h' with
    | down _ hdown => exact aux hlt hdown hup
    | up hlt' _ => exact Scalar.lt_asymm hlt hlt'

variable [Mirrored α] {dates : List α} {date : α}

theorem Outward.distance_le {a b : α} (hd : isFinite date) (h : Outward date a b) :
    distance a date ≤ distance b date := by
  cases h with
  | down hlt hdown =>
    rcases hdown with hle | ⟨-, hnot⟩
    · exact distance_mono_below hd (Scalar.le_of_lt hlt) hle
    · exact Scalar.le_of_lt (Scalar.lt_of_not_le (number_distance hd (number_left hlt))
        (number_distance hd (number_right hlt)) hnot)
  | up hlt hup =>
    rcases hup with hle | ⟨-, hle⟩
    · exact distance_mono_above hd hle (Scalar.le_of_lt hlt)
    · exact hle

theorem Ahead.outward (hr : dates.Pairwise (· < ·)) (hn : ∀ a ∈ dates, a == a)
    (hd : isFinite date) {c i j : Nat} (hc : IsNearest dates date c)
    (h : Ahead dates date c i j) {a b : α} (ha : dates[i]? = some a) (hb : dates[j]? = some b) :
    Outward date a b := by
  cases h with
  | first hne =>
    have hna := hn a (List.mem_of_getElem? ha)
    rcases Nat.lt_or_gt_of_ne hne with hj | hj
    · refine .down (lt_of_rising hr hb ha hj) ?_
      by_cases hle : a ≤ date
      · exact .inl hle
      · have hlt := Scalar.lt_of_not_le hna (number_of_isFinite hd) hle
        exact .inr ⟨hc.before hb hj, hc.brackets.not_distance_le hr hn hd ha hb hj hlt⟩
    · exact .up (lt_of_rising hr ha hb hj)
        (.inr ⟨hc.after hb hj, hc.brackets.distance_le hr hn hd ha hb⟩)
  | below hji hi =>
    exact .down (lt_of_rising hr hb ha hji) (.inl (Scalar.le_of_lt (hc.before ha hi)))
  | above hi hij =>
    exact .up (lt_of_rising hr ha hb hij) (.inl (Scalar.le_of_lt (hc.after ha hi)))
  | lower hi hj hle =>
    have hlt : a < b := lt_of_rising hr ha hb (Nat.lt_trans hi hj)
    exact .up hlt (.inr ⟨hc.after hb hj, hle a b ha hb⟩)
  | upper hi hj hnot =>
    have hlt : b < a := lt_of_rising hr hb ha (Nat.lt_trans hj hi)
    exact .down hlt (.inr ⟨hc.before hb hj, hnot a b ha hb⟩)

/-- From the nearest sample on, the block goes outward. -/
theorem outward_neighborhood (hr : dates.Pairwise (· < ·)) (hn : ∀ a ∈ dates, a == a)
    (hd : isFinite date) {i : Nat} (hi : IsNearest dates date i) (n : Nat) :
    ((neighborhood dates date i n).filterMap (dates[·]?)).Pairwise (Outward date) := by
  rw [List.pairwise_filterMap]
  refine (ahead_neighborhood (hi.brackets.recedes hr hn hd) n).imp fun h ↦ ?_
  intro a ha b hb
  exact h.outward hr hn hd hi ha hb

end OrbitReplay.Nearest
