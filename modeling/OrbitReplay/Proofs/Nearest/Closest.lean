import OrbitReplay.Proofs.Binary64.Signs
import OrbitReplay.Proofs.Nearest.Search
import OrbitReplay.Proofs.Scalar.Rational

namespace OrbitReplay.Nearest

open Scalar

section Insertion

variable {β : Type} {R : β → β → Prop} {xs : List β} {x : β} {k : Nat}

theorem pairwise_insertIdx (h : xs.Pairwise R) (hk : k ≤ xs.length)
    (hpre : ∀ a ∈ xs.take k, R a x) (hpost : ∀ a ∈ xs.drop k, R x a) :
    (xs.insertIdx k x).Pairwise R := by
  rw [← List.take_append_drop k xs, List.pairwise_append] at h
  obtain ⟨htake, hdrop, hacross⟩ := h
  rw [insertIdx_eq_take_drop xs x hk]
  refine List.pairwise_append.2 ⟨htake, List.pairwise_cons.2 ⟨hpost, hdrop⟩, fun a ha b hb ↦ ?_⟩
  rcases List.mem_cons.1 hb with rfl | hb
  · exact hpre a ha
  · exact hacross a ha b hb

theorem exists_getElem?_of_mem_take {a : β} (h : a ∈ xs.take k) :
    ∃ j, j < k ∧ xs[j]? = some a := by
  obtain ⟨j, hj, rfl⟩ := List.mem_take_iff_getElem.1 h
  exact ⟨j, by omega, List.getElem?_eq_getElem (by omega)⟩

theorem exists_getElem?_of_mem_drop {a : β} (h : a ∈ xs.drop k) :
    ∃ j, k ≤ j ∧ xs[j]? = some a := by
  obtain ⟨j, hj, rfl⟩ := List.mem_drop_iff_getElem.1 h
  exact ⟨k + j, by omega, List.getElem?_eq_getElem (by omega)⟩

end Insertion

variable {α : Type} [Scalar α] {dates : List α} {date : α} {i j : Nat} {a b : α}

theorem IsNearest.eq_of_beq [Ordered α] (hi : IsNearest dates date i) (ha : dates[j]? = some a)
    (he : a == date) : j = i := by
  rcases Nat.lt_trichotomy j i with h | h | h
  · exact absurd he (not_beq_of_lt (hi.before ha h))
  · exact h
  · exact absurd (beq_symm he) (not_beq_of_lt (hi.after ha h))

/-- The date has its place just before the nearest sample or just after it. -/
theorem IsNearest.place [Ordered α] (hr : dates.Pairwise (· < ·)) (hn : ∀ a ∈ dates, a == a)
    (hd : date == date) (hi : IsNearest dates date i) :
    ∃ k, (k = i ∨ k = i + 1) ∧ (dates.insertIdx k date).Pairwise (· ≤ ·) ∧
      ((∀ a ∈ dates, ¬ a == date) → (dates.insertIdx k date).Pairwise (· < ·)) := by
  have hsorted {k : Nat} (hk : k ≤ dates.length)
      (hpre : ∀ (j : Nat) a, dates[j]? = some a → j < k → a ≤ date)
      (hpost : ∀ (j : Nat) a, dates[j]? = some a → k ≤ j → date ≤ a) :
      (dates.insertIdx k date).Pairwise (· ≤ ·) ∧
        ((∀ a ∈ dates, ¬ a == date) → (dates.insertIdx k date).Pairwise (· < ·)) := by
    have hbefore : ∀ a ∈ dates.take k, a ≤ date := fun a ha ↦
      let ⟨j, hj, hget⟩ := exists_getElem?_of_mem_take ha
      hpre j a hget hj
    have hafter : ∀ a ∈ dates.drop k, date ≤ a := fun a ha ↦
      let ⟨j, hj, hget⟩ := exists_getElem?_of_mem_drop ha
      hpost j a hget hj
    refine ⟨pairwise_insertIdx (hr.imp Scalar.le_of_lt) hk hbefore hafter, fun hne ↦ ?_⟩
    refine pairwise_insertIdx hr hk (fun a ha ↦ ?_) (fun a ha ↦ ?_)
    · exact (le_iff.1 (hbefore a ha)).resolve_right (hne a (List.mem_of_mem_take ha))
    · exact (le_iff.1 (hafter a ha)).resolve_right fun he ↦
        hne a (List.mem_of_mem_drop ha) (beq_symm he)
  obtain ⟨b, hb⟩ : ∃ b, dates[i]? = some b := ⟨_, List.getElem?_eq_getElem hi.lt_length⟩
  have hnb : b == b := hn b (List.mem_of_getElem? hb)
  by_cases hle : date ≤ b
  · refine ⟨i, .inl rfl, hsorted (Nat.le_of_lt hi.lt_length)
      (fun j a ha hj ↦ Scalar.le_of_lt (hi.before ha hj)) fun j a ha hj ↦ ?_⟩
    rcases Nat.lt_or_eq_of_le hj with h | rfl
    · exact Scalar.le_of_lt (hi.after ha h)
    · rw [hb, Option.some_inj] at ha
      exact ha ▸ hle
  · refine ⟨i + 1, .inr rfl, hsorted hi.lt_length (fun j a ha hj ↦ ?_)
      fun j a ha hj ↦ Scalar.le_of_lt (hi.after ha hj)⟩
    rcases Nat.lt_or_eq_of_le (Nat.le_of_lt_succ hj) with h | rfl
    · exact Scalar.le_of_lt (hi.before ha h)
    · rw [hb, Option.some_inj] at ha
      exact ha ▸ Scalar.le_of_lt (Scalar.lt_of_not_le hd hnb hle)

section Gap

variable [Extended α]

/-- The sample across the date is further away than the one found, and all beyond it are too. -/
theorem IsNearest.gap_lt (hr : dates.Pairwise (· < ·)) (hf : ∀ a ∈ dates, isFinite a)
    (hi : IsNearest dates date i) (ha : dates[j]? = some a) (hb : dates[i]? = some b) (hj : j < i)
    (h : date < b) : gap date b < gap date a := by
  have hlen : i - 1 < dates.length := Nat.lt_of_le_of_lt (Nat.sub_le i 1) hi.lt_length
  have hc := List.getElem?_eq_getElem hlen
  generalize dates[i - 1] = c at hc
  have hfb := hf b (List.mem_of_getElem? hb)
  have hfc := hf c (List.mem_of_getElem? hc)
  have hlt : c < date := hi.before hc (by omega)
  have hle : gap date c ≤ gap date a := by
    have hac : a ≤ c := by
      rcases Nat.lt_or_eq_of_le (Nat.le_sub_one_of_lt hj) with h | rfl
      · exact Scalar.le_of_lt (lt_of_rising hr ha hc h)
      · rw [hc, Option.some_inj] at ha
        exact le_of_beq (ha ▸ number_left hlt)
    exact gap_mono_below (hf a (List.mem_of_getElem? ha)) hfc hac (Scalar.le_of_lt hlt)
  have hnear : ¬ gap date c ≤ gap date b := by
    rw [gap, gap, if_pos (Scalar.le_of_lt hlt), if_neg fun hle ↦ Scalar.not_lt_of_le hle h]
    exact hi.not_le_lower hc hb (by omega) h
  have hnb : gap date b == gap date b :=
    number_of_le_left (gap_mono_above hfb hfb h (le_of_beq (number_of_isFinite hfb)))
  exact Scalar.lt_of_lt_of_le (Scalar.lt_of_not_le (number_of_le_left hle) hnb hnear) hle

theorem IsNearest.gap_le (hr : dates.Pairwise (· < ·)) (hf : ∀ a ∈ dates, isFinite a)
    (hd : date == date) (hi : IsNearest dates date i) (ha : dates[j]? = some a)
    (hb : dates[i]? = some b) : gap date b ≤ gap date a := by
  have hfa := hf a (List.mem_of_getElem? ha)
  have hfb := hf b (List.mem_of_getElem? hb)
  have hna : a == a := number_of_isFinite hfa
  have hnb : b == b := number_of_isFinite hfb
  rcases Nat.lt_trichotomy j i with hj | rfl | hj
  · have halt : a < date := hi.before ha hj
    by_cases hle : b ≤ date
    · exact gap_mono_below hfa hfb (Scalar.le_of_lt (lt_of_rising hr ha hb hj)) hle
    · exact Scalar.le_of_lt (hi.gap_lt hr hf ha hb hj (Scalar.lt_of_not_le hnb hd hle))
  · rw [hb, Option.some_inj] at ha
    subst ha
    by_cases hle : b ≤ date
    · exact gap_mono_below hfb hfb (le_of_beq hnb) hle
    · exact gap_mono_above hfb hfb (Scalar.lt_of_not_le hnb hd hle) (le_of_beq hnb)
  · have halt : date < a := hi.after ha hj
    rcases Ordered.trichotomy hnb hd with h | h | h
    · have hlen : i + 1 < dates.length :=
        Nat.lt_of_le_of_lt hj (List.getElem?_eq_some_iff.1 ha).1
      have hc := List.getElem?_eq_getElem hlen
      generalize dates[i + 1] = c at hc
      have hlt : date < c := hi.after hc (Nat.lt_succ_self i)
      have hca : c ≤ a := by
        rcases Nat.lt_or_eq_of_le hj with h | rfl
        · exact Scalar.le_of_lt (lt_of_rising hr hc ha h)
        · rw [ha, Option.some_inj] at hc
          exact le_of_beq (hc ▸ hna)
      have hnear : gap date b ≤ gap date c := by
        rw [gap, gap, if_pos (Scalar.le_of_lt h), if_neg fun hle ↦ Scalar.not_lt_of_le hle hlt]
        exact hi.le_upper hb hc h
      exact Scalar.le_trans hnear (gap_mono_above (hf c (List.mem_of_getElem? hc)) hfa hlt hca)
    · exact gap_le_of_beq hfb h hfa halt
    · exact gap_mono_above hfb hfa h (Scalar.le_of_lt (lt_of_rising hr hb ha hj))

end Gap

/-- What a search for a date gives, with `D` for how far apart two numbers are. -/
structure Finds (D : α → α → α) (dates : List α) (date : α) (i : Nat) : Prop where
  lt_length : i < dates.length
  found {hint : Nat} : hint < dates.length → nearest? dates date hint = some (i : Int)
  /-- It does so whatever stands outside the list, even if nothing can be read there. -/
  reads {hint : Nat} {read : Int → Option α} : hint < dates.length → Shows read dates →
    search read date dates.length hint = some (i : Int)
  nearest {j : Nat} {a b : α} : dates[j]? = some a → dates[i]? = some b → D date b ≤ D date a
  hit {j : Nat} {a : α} : dates[j]? = some a → a == date → j = i
  before {j : Nat} {a : α} : dates[j]? = some a → j < i → a < date
  after {j : Nat} {a : α} : dates[j]? = some a → i < j → date < a
  /-- Next to the sample found the date can be inserted in its order. -/
  place : ∃ k, (k = i ∨ k = i + 1) ∧ (dates.insertIdx k date).Pairwise (· ≤ ·) ∧
    ((∀ a ∈ dates, ¬ a == date) → (dates.insertIdx k date).Pairwise (· < ·))

theorem exists_finds [Extended α] (hne : dates ≠ []) (hr : dates.Pairwise (· < ·))
    (hf : ∀ a ∈ dates, isFinite a) (hd : date == date) :
    ∃ i, Finds gap dates date i ∧ IsNearest dates date i := by
  have hn : ∀ a ∈ dates, a == a := fun a ha ↦ number_of_isFinite (hf a ha)
  obtain ⟨i, hi, hreads⟩ := exists_search_eq hr hn hd (List.length_pos_iff.2 hne)
  refine ⟨i, ?_, hi⟩
  exact
    { lt_length := hi.lt_length
      found := fun hh ↦ hreads hh (shows_at? dates)
      reads := hreads
      nearest := hi.gap_le hr hf hd
      hit := hi.eq_of_beq
      before := hi.before
      after := hi.after
      place := hi.place hr hn hd }

theorem Finds.mirrored [Mirrored α] (h : Finds gap dates date i) : Finds distance dates date i := by
  have hnearest {j : Nat} {a b : α} (ha : dates[j]? = some a) (hb : dates[i]? = some b) :
      distance date b ≤ distance date a := by
    rw [← gap_eq_distance, ← gap_eq_distance]
    exact h.nearest ha hb
  exact { h with nearest := hnearest }

/-- Where nothing is rounded, no earlier sample is as near. -/
theorem IsNearest.distance_lt {dates : List ℚ} {date a b : ℚ} (hr : dates.Pairwise (· < ·))
    (hi : IsNearest dates date i) (ha : dates[j]? = some a) (hb : dates[i]? = some b) (hj : j < i) :
    distance date b < distance date a := by
  by_cases hle : b ≤ date
  · have hlt : a < b := lt_of_rising hr ha hb hj
    have hlt' : a < date := hi.before ha hj
    rw [distance_rat, distance_rat, abs_of_nonneg (sub_nonneg.2 hle), abs_of_pos (sub_pos.2 hlt')]
    exact sub_lt_sub_left hlt date
  · rw [← gap_eq_distance, ← gap_eq_distance]
    exact hi.gap_lt hr (fun _ _ ↦ rfl) ha hb hj (not_le.1 hle)

/-- The search finds the nearest sample, from every hint and by reading the samples only: as far as
rounded differences can tell if these are merely monotone, by the distances if these are the same
both ways, and the first of the nearest if nothing is rounded. -/
theorem nearest?_finds :
    (∀ {α : Type} [Scalar α] [Extended α] {dates : List α} {date : α}, dates ≠ [] →
      dates.Pairwise (· < ·) → (∀ a ∈ dates, isFinite a) → date == date →
      ∃ i, Finds gap dates date i) ∧
    (∀ {α : Type} [Scalar α] [Extended α] [Mirrored α] {dates : List α} {date : α}, dates ≠ [] →
      dates.Pairwise (· < ·) → (∀ a ∈ dates, isFinite a) → date == date →
      ∃ i, Finds distance dates date i) ∧
    ∀ {dates : List ℚ} {date : ℚ}, dates ≠ [] → dates.Pairwise (· < ·) →
      ∃ i, Finds distance dates date i ∧ ∀ (j : Nat) a b, dates[j]? = some a →
        dates[i]? = some b → j < i → distance date b < distance date a := by
  refine ⟨fun hne hr hf hd ↦ ?_, fun hne hr hf hd ↦ ?_, fun {dates date} hne hr ↦ ?_⟩
  · obtain ⟨i, hfinds, -⟩ := exists_finds hne hr hf hd
    exact ⟨i, hfinds⟩
  · obtain ⟨i, hfinds, -⟩ := exists_finds hne hr hf hd
    exact ⟨i, hfinds.mirrored⟩
  · have hd : date == date := beq_rat.2 rfl
    obtain ⟨i, hfinds, hi⟩ := exists_finds hne hr (fun _ _ ↦ rfl) hd
    exact ⟨i, hfinds.mirrored, fun j a b ha hb hj ↦ hi.distance_lt hr ha hb hj⟩

/-- A tie that goes to the lower sample, a date before all of them, and a tie without rounding. -/
theorem nearest?_finds_binary64 :
    (∃ i, Finds distance [-1.5, 0, 4, (1e300 : Float)] 2 i ∧ i = 1) ∧
    (∃ i, Finds gap [-1.5, 0, 4, (1e300 : Float)] (-1.0 / 0.0) i ∧ i = 0) ∧
    ∃ i, Finds distance [-1, 0, 4, (9 : ℚ)] 2 i ∧ i = 1 := by
  obtain ⟨hmonotone, hmirrored, hexact⟩ := nearest?_finds
  have hrising : [-1.5, 0, 4, (1e300 : Float)].Pairwise (· < ·) := by decide +kernel
  have hfinite : ∀ a ∈ [-1.5, 0, 4, (1e300 : Float)], isFinite a := by decide +kernel
  have htwo : (2 : Float) == 2 := by decide +kernel
  have hinfinite : (-1.0 / 0.0 : Float) == -1.0 / 0.0 := by decide +kernel
  have hrising' : [-1, 0, 4, (9 : ℚ)].Pairwise (· < ·) := by decide +kernel
  obtain ⟨i, hi⟩ := hmirrored (List.cons_ne_nil _ _) hrising hfinite htwo
  obtain ⟨j, hj⟩ := hmonotone (List.cons_ne_nil _ _) hrising hfinite hinfinite
  obtain ⟨k, hk, -⟩ := @hexact _ 2 (List.cons_ne_nil _ _) hrising'
  refine ⟨⟨i, hi, ?_⟩, ⟨j, hj, ?_⟩, k, hk, ?_⟩
  · have hone : nearest? [-1.5, 0, 4, (1e300 : Float)] 2 (3 : Nat) = some (1 : Nat) := by
      decide +kernel
    have hfound := (hi.found (by decide)).symm.trans hone
    exact Int.ofNat_inj.1 (Option.some_inj.1 hfound)
  · have hzero : nearest? [-1.5, 0, 4, (1e300 : Float)] (-1.0 / 0.0) (3 : Nat) =
        some (0 : Nat) := by
      decide +kernel
    have hfound := (hj.found (by decide)).symm.trans hzero
    exact Int.ofNat_inj.1 (Option.some_inj.1 hfound)
  · have hone : nearest? [-1, 0, 4, (9 : ℚ)] 2 (3 : Nat) = some (1 : Nat) := by decide +kernel
    have hfound := (hk.found (by decide)).symm.trans hone
    exact Int.ofNat_inj.1 (Option.some_inj.1 hfound)

end OrbitReplay.Nearest
