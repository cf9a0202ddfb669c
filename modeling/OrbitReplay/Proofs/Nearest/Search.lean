import OrbitReplay.Nearest.Search
import OrbitReplay.Proofs.Scalar.Order

namespace OrbitReplay.Nearest

open Scalar

/-- A read that gives the entries of a list at their indices. What it gives elsewhere is left
open. -/
def Shows {β : Type} (read : Int → Option β) (xs : List β) : Prop :=
  ∀ {n : Nat} {a : β}, xs[n]? = some a → read n = some a

theorem shows_at? {β : Type} (xs : List β) : Shows (at? xs) xs :=
  fun {n _} h ↦ (at?_natCast xs n).trans h

theorem Shows.pred {β : Type} {read : Int → Option β} {xs : List β} (hread : Shows read xs)
    {n : Nat} {a : β} (h : 0 < n) (ha : xs[n - 1]? = some a) : read ((n : Int) - 1) = some a := by
  have he : (n : Int) - 1 = ((n - 1 : Nat) : Int) := by omega
  rw [he, hread ha]

theorem insertIdx_eq_take_drop {β : Type} (xs : List β) (x : β) {i : Nat} (h : i ≤ xs.length) :
    xs.insertIdx i x = xs.take i ++ x :: xs.drop i := by
  induction xs generalizing i with
  | nil =>
    obtain rfl : i = 0 := Nat.le_zero.1 h
    rfl
  | cons y ys ih =>
    cases i with
    | zero => rfl
    | succ i =>
      rw [List.insertIdx_succ_cons, ih (Nat.le_of_succ_le_succ h)]
      rfl

variable {α : Type} [Scalar α] {read : Int → Option α} {dates : List α}

/-- A sample that no other lies between it and the date, and not further from the date than the
neighbour across; the lower of two wins a tie. -/
structure IsNearest (dates : List α) (date : α) (i : Nat) : Prop where
  lt_length : i < dates.length
  before {j : Nat} {a : α} : dates[j]? = some a → j < i → a < date
  after {j : Nat} {a : α} : dates[j]? = some a → i < j → date < a
  le_upper {a b : α} : dates[i]? = some a → dates[i + 1]? = some b → a < date →
    distance date a ≤ distance b date
  not_le_lower {j : Nat} {a b : α} : dates[j]? = some a → dates[i]? = some b → j + 1 = i →
    date < b → ¬ distance date a ≤ distance b date

/-- The climb stops at the first sample from its start on that is not before the date. -/
theorem climb_spec (hread : Shows read dates) (date : α) {n i : Nat} (hn : i + n = dates.length)
    (h : ∃ (j : Nat) (a : α), i ≤ j ∧ dates[j]? = some a ∧ ¬ a < date) :
    ∃ (u : Nat) (b : α), climb read date n i = some (u : Int) ∧ i ≤ u ∧
      dates[u]? = some b ∧ ¬ b < date ∧
        ∀ (j : Nat) a, i ≤ j → j < u → dates[j]? = some a → a < date := by
  induction n generalizing i with
  | zero =>
    obtain ⟨j, a, hij, hj, -⟩ := h
    have := (List.getElem?_eq_some_iff.1 hj).1
    omega
  | succ n ih =>
    obtain ⟨d, hd⟩ : ∃ d, dates[i]? = some d :=
      ⟨_, List.getElem?_eq_getElem (by omega)⟩
    simp only [climb, hread hd]
    by_cases hlt : d < date
    · have h' : ∃ j a, i + 1 ≤ j ∧ dates[j]? = some a ∧ ¬ a < date := by
        obtain ⟨j, a, hij, hj, ha⟩ := h
        refine ⟨j, a, ?_, hj, ha⟩
        rcases Nat.lt_or_eq_of_le hij with hlt' | rfl
        · omega
        · rw [hd] at hj
          cases hj
          exact absurd hlt ha
      obtain ⟨u, b, hu, hiu, hb, hnb, hall⟩ := ih (i := i + 1) (by omega) h'
      refine ⟨u, b, ?_, by omega, hb, hnb, fun j a hij hju hj ↦ ?_⟩
      · simpa only [if_pos hlt, Int.natCast_add, Int.natCast_one] using hu
      · rcases Nat.lt_or_eq_of_le hij with hlt' | rfl
        · exact hall j a (by omega) hju hj
        · rw [hd] at hj
          cases hj
          exact hlt
    · refine ⟨i, d, by rw [if_neg hlt], Nat.le_refl i, hd, hlt, fun j a hij hju _ ↦ ?_⟩
      omega

/-- The descent stops at the last sample up to its start that is not after the date. -/
theorem descend_spec (hread : Shows read dates) (date : α) {n i : Nat} (hn : i < n)
    (hi : i < dates.length) (h : ∃ (j : Nat) (a : α), j ≤ i ∧ dates[j]? = some a ∧ ¬ date < a) :
    ∃ (l : Nat) (b : α), descend read date n i = some (l : Int) ∧ l ≤ i ∧
      dates[l]? = some b ∧ ¬ date < b ∧
        ∀ (j : Nat) a, l < j → j ≤ i → dates[j]? = some a → date < a := by
  induction i generalizing n with
  | zero =>
    obtain ⟨n, rfl⟩ : ∃ m, n = m + 1 := ⟨n - 1, by omega⟩
    obtain ⟨j, a, hj0, hj, ha⟩ := h
    obtain rfl : j = 0 := by omega
    refine ⟨0, a, ?_, Nat.le_refl 0, hj, ha, fun j a hlt hle _ ↦ ?_⟩
    · simp only [descend, hread hj, if_neg ha]
    · omega
  | succ i ih =>
    obtain ⟨n, rfl⟩ : ∃ m, n = m + 1 := ⟨n - 1, by omega⟩
    obtain ⟨d, hd⟩ : ∃ d, dates[i + 1]? = some d := ⟨dates[i + 1], List.getElem?_eq_getElem hi⟩
    have hpred : ((i + 1 : Nat) : Int) - 1 = (i : Int) := by omega
    simp only [descend, hread hd, hpred]
    by_cases hlt : date < d
    · have h' : ∃ j a, j ≤ i ∧ dates[j]? = some a ∧ ¬ date < a := by
        obtain ⟨j, a, hji, hj, ha⟩ := h
        refine ⟨j, a, ?_, hj, ha⟩
        rcases Nat.lt_or_eq_of_le hji with hlt' | rfl
        · omega
        · rw [hd] at hj
          cases hj
          exact absurd hlt ha
      obtain ⟨l, b, hl, hli, hb, hnb, hall⟩ := ih (n := n) (by omega) (by omega) h'
      refine ⟨l, b, by rw [if_pos hlt, hl], by omega, hb, hnb, fun j a hlj hji hj ↦ ?_⟩
      rcases Nat.lt_or_eq_of_le hji with hlt' | rfl
      · exact hall j a hlj (by omega) hj
      · rw [hd] at hj
        cases hj
        exact hlt
    · refine ⟨i + 1, d, by rw [if_neg hlt], Nat.le_refl _, hd, hlt, fun j a hlj hji _ ↦ ?_⟩
      omega

theorem lt_of_rising {dates : List α} (hr : dates.Pairwise (· < ·)) {i j : Nat} {a b : α}
    (ha : dates[i]? = some a) (hb : dates[j]? = some b) (hij : i < j) : a < b := by
  obtain ⟨hi, rfl⟩ := List.getElem?_eq_some_iff.1 ha
  obtain ⟨hj, rfl⟩ := List.getElem?_eq_some_iff.1 hb
  exact List.pairwise_iff_getElem.1 hr i j hi hj hij

/-- What comparisons alone tell of the sample found. A sample at the date may be passed over for the
one next to it, if the difference of the two is rounded away. -/
structure Brackets (dates : List α) (date : α) (i : Nat) : Prop where
  lt_length : i < dates.length
  before {j : Nat} {a : α} : dates[j]? = some a → j < i → a < date ∨ a == date ∧ isFinite date
  after {j : Nat} {a : α} : dates[j]? = some a → i < j → date < a ∨ a == date ∧ isFinite date
  le_upper {a b : α} : dates[i]? = some a → dates[i + 1]? = some b → a < date →
    distance date a ≤ distance b date
  not_le_lower {j : Nat} {a b : α} : dates[j]? = some a → dates[i]? = some b → j + 1 = i →
    date < b → ¬ distance date a ≤ distance b date

section Ordered

variable [Ordered α]

theorem nearer?_brackets {date : α} (hread : Shows read dates) (hr : dates.Pairwise (· < ·))
    (hd : isFinite date) {l : Nat} {a b : α} (ha : dates[l]? = some a)
    (hb : dates[l + 1]? = some b) (hlow : a ≤ date) (hup : date ≤ b) :
    ∃ i : Nat, nearer? read date l (l + 1) = some (i : Int) ∧ Brackets dates date i := by
  have hup' : ((l : Int) + 1) = ((l + 1 : Nat) : Int) := by omega
  have hbefore {j : Nat} {c : α} (hc : dates[j]? = some c) (hj : j < l) : c < date :=
    Scalar.lt_of_lt_of_le (lt_of_rising hr hc ha hj) hlow
  have hafter {j : Nat} {c : α} (hc : dates[j]? = some c) (hj : l + 1 < j) : date < c :=
    Scalar.lt_of_le_of_lt hup (lt_of_rising hr hb hc hj)
  rw [hup', nearer?, hread ha, hread hb]
  by_cases hle : distance date a ≤ distance b date
  · refine ⟨l, by simp only [if_pos hle], (List.getElem?_eq_some_iff.1 ha).1,
      fun hc hj ↦ .inl (hbefore hc hj), ?_, ?_, ?_⟩
    · intro j c hc hj
      rcases Nat.lt_or_eq_of_le (Nat.succ_le_of_lt hj) with h | h
      · exact .inl (hafter hc h)
      · rw [← h, Nat.succ_eq_add_one, hb] at hc
        cases hc
        exact (le_iff.1 hup).imp_right fun he ↦ ⟨beq_symm he, hd⟩
    · intro a' b' ha' hb' _
      rw [ha] at ha'
      rw [hb] at hb'
      cases ha'
      cases hb'
      exact hle
    · intro j a' b' _ hb' _ h
      rw [ha] at hb'
      cases hb'
      exact absurd h (Scalar.not_lt_of_le hlow)
  · refine ⟨l + 1, by simp only [if_neg hle], (List.getElem?_eq_some_iff.1 hb).1, ?_,
      fun hc hj ↦ .inl (hafter hc hj), ?_, ?_⟩
    · intro j c hc hj
      rcases Nat.lt_or_eq_of_le (Nat.le_of_lt_succ hj) with h | rfl
      · exact .inl (hbefore hc h)
      · rw [ha] at hc
        cases hc
        exact (le_iff.1 hlow).imp_right fun he ↦ ⟨he, hd⟩
    · intro a' b' ha' _ h
      rw [hb] at ha'
      cases ha'
      exact absurd h (Scalar.not_lt_of_le hup)
    · intro j a' b' ha' hb' hj _
      obtain rfl : j = l := by omega
      rw [ha] at ha'
      rw [hb] at hb'
      cases ha'
      cases hb'
      exact hle

theorem brackets_zero {dates : List α} {date first : α} (hr : dates.Pairwise (· < ·))
    (h0 : dates[0]? = some first) (hle : date ≤ first) : Brackets dates date 0 := by
  refine ⟨(List.getElem?_eq_some_iff.1 h0).1, ?_, ?_, ?_, ?_⟩
  · intro j a _ hj
    omega
  · intro j a ha hj
    exact .inl (Scalar.lt_of_le_of_lt hle (lt_of_rising hr h0 ha hj))
  · intro a b ha _ hlt
    rw [h0] at ha
    cases ha
    exact absurd hlt (Scalar.not_lt_of_le hle)
  · intro j a b _ _ hj
    omega

theorem brackets_last {dates : List α} {date last : α} (hr : dates.Pairwise (· < ·))
    (hlen : 0 < dates.length) (hl : dates[dates.length - 1]? = some last) (hle : last ≤ date) :
    Brackets dates date (dates.length - 1) := by
  refine ⟨by omega, ?_, ?_, ?_, ?_⟩
  · intro j a ha hj
    exact .inl (Scalar.lt_of_lt_of_le (lt_of_rising hr ha hl hj) hle)
  · intro j a ha hj
    have := (List.getElem?_eq_some_iff.1 ha).1
    omega
  · intro a b _ hb
    have := (List.getElem?_eq_some_iff.1 hb).1
    omega
  · intro j a b _ hb _ hlt
    rw [hl] at hb
    cases hb
    exact absurd hlt (Scalar.not_lt_of_le hle)

theorem climb_brackets {date here last : α} {hint : Nat} (hread : Shows read dates)
    (hr : dates.Pairwise (· < ·)) (hn : ∀ a ∈ dates, a == a) (hd : isFinite date)
    (hhere : dates[hint]? = some here) (hlt : here < date)
    (hl : dates[dates.length - 1]? = some last) (hup : date < last) :
    ∃ i : Nat, ((climb read date (dates.length - (hint + 1) : Int).toNat (hint + 1)).bind
      fun u ↦ nearer? read date (u - 1) u) = some (i : Int) ∧ Brackets dates date i := by
  have hh := (List.getElem?_eq_some_iff.1 hhere).1
  have hne : hint ≠ dates.length - 1 := by
    rintro rfl
    rw [hl] at hhere
    cases hhere
    exact Scalar.lt_asymm hlt hup
  obtain ⟨u, b, hu, hiu, hb, hnb, hall⟩ := climb_spec hread date
    (i := hint + 1) (n := dates.length - (hint + 1)) (by omega)
    ⟨dates.length - 1, last, by omega, hl, Scalar.lt_asymm hup⟩
  have hulen := (List.getElem?_eq_some_iff.1 hb).1
  obtain ⟨a, ha⟩ : ∃ a, dates[u - 1]? = some a := ⟨_, List.getElem?_eq_getElem (by omega)⟩
  have halt : a < date := by
    rcases Nat.lt_or_eq_of_le hiu with h | h
    · exact hall (u - 1) a (by omega) (by omega) ha
    · rw [← h, Nat.add_sub_cancel, hhere] at ha
      cases ha
      exact hlt
  have hble : date ≤ b :=
    Scalar.le_of_not_lt (hn b (List.mem_of_getElem? hb)) (number_of_isFinite hd) hnb
  obtain ⟨i, hi, hnear⟩ := nearer?_brackets hread hr hd ha
    (by rwa [Nat.sub_add_cancel (by omega : 1 ≤ u)]) (Scalar.le_of_lt halt) hble
  have hleft : (dates.length - (hint + 1) : Int).toNat = dates.length - (hint + 1) := by omega
  have hpred : ((u - 1 : Nat) : Int) = (u : Int) - 1 := by omega
  refine ⟨i, ?_, hnear⟩
  rw [hleft, ← Int.natCast_one, ← Int.natCast_add, hu]
  simpa only [Option.bind_some, hpred, Int.natCast_one, Int.sub_add_cancel] using hi

theorem descend_brackets {date here first : α} {hint : Nat} (hread : Shows read dates)
    (hr : dates.Pairwise (· < ·)) (hn : ∀ a ∈ dates, a == a) (hd : isFinite date)
    (hhere : dates[hint]? = some here) (hge : ¬ here < date)
    (h0 : dates[0]? = some first) (hlow : first < date) :
    ∃ i : Nat, ((descend read date (dates.length + hint : Int).toNat (hint - 1)).bind
      fun l ↦ nearer? read date l (l + 1)) = some (i : Int) ∧ Brackets dates date i := by
  have hh := (List.getElem?_eq_some_iff.1 hhere).1
  have hne : hint ≠ 0 := by
    rintro rfl
    rw [h0] at hhere
    cases hhere
    exact hge hlow
  obtain ⟨l, a, hla, hli, ha, hna, hall⟩ := descend_spec hread date
    (i := hint - 1) (n := dates.length + hint) (by omega) (by omega)
    ⟨0, first, by omega, h0, Scalar.lt_asymm hlow⟩
  have hnum := number_of_isFinite hd
  have hale : a ≤ date := Scalar.le_of_not_lt hnum (hn a (List.mem_of_getElem? ha)) hna
  obtain ⟨b, hb⟩ : ∃ b, dates[l + 1]? = some b := ⟨_, List.getElem?_eq_getElem (by omega)⟩
  have hble : date ≤ b := by
    rcases Nat.lt_or_eq_of_le hli with h | h
    · exact Scalar.le_of_lt (hall (l + 1) b (by omega) (by omega) hb)
    · rw [h, Nat.sub_add_cancel (by omega : 1 ≤ hint), hhere] at hb
      cases hb
      exact Scalar.le_of_not_lt (hn here (List.mem_of_getElem? hhere)) hnum hge
  obtain ⟨i, hi, hnear⟩ := nearer?_brackets hread hr hd ha hb hale hble
  have hleft : (dates.length + hint : Int).toNat = dates.length + hint := by omega
  have hpred : ((hint - 1 : Nat) : Int) = (hint : Int) - 1 := by omega
  refine ⟨i, ?_, hnear⟩
  rw [hleft, ← hpred, hla]
  simpa only [Option.bind_some] using hi

/-- The search ends, from every hint on the list, and the samples are all it reads. -/
theorem search_brackets {date : α} {hint : Nat} (hread : Shows read dates)
    (hr : dates.Pairwise (· < ·)) (hn : ∀ a ∈ dates, a == a) (hd : date == date)
    (hh : hint < dates.length) :
    ∃ i : Nat, search read date dates.length hint = some (i : Int) ∧ Brackets dates date i := by
  have hlen : 0 < dates.length := by omega
  have get {i : Nat} (hi : i < dates.length) : ∃ a, dates[i]? = some a ∧ a == a :=
    ⟨dates[i], List.getElem?_eq_getElem hi, hn _ (List.getElem_mem hi)⟩
  obtain ⟨first, h0, hfirst⟩ := get hlen
  obtain ⟨last, hl, hlast⟩ := get (i := dates.length - 1) (by omega)
  obtain ⟨here, hhere, -⟩ := get hh
  have h0' : read 0 = some first := hread h0
  simp only [search, h0', hread.pred hlen hl, hread hhere]
  by_cases hle : date ≤ first
  · exact ⟨0, by simp only [if_pos hle, Int.natCast_zero], brackets_zero hr h0 hle⟩
  by_cases hge : last ≤ date
  · refine ⟨dates.length - 1, ?_, brackets_last hr hlen hl hge⟩
    rw [if_neg hle, if_pos hge]
    congr 1
    omega
  have hlow : first < date := Scalar.lt_of_not_le hd hfirst hle
  have hup : date < last := Scalar.lt_of_not_le hlast hd hge
  have hfin : isFinite date := Ordered.isFinite_of_between hlow hup
  rw [if_neg hle, if_neg hge]
  by_cases hlt : here < date
  · rw [if_pos hlt]
    exact climb_brackets hread hr hn hfin hhere hlt hl hup
  · rw [if_neg hlt]
    exact descend_brackets hread hr hn hfin hhere hlt h0 hlow

theorem nearest?_brackets {date : α} {hint : Nat} (hr : dates.Pairwise (· < ·))
    (hn : ∀ a ∈ dates, a == a) (hd : date == date) (hh : hint < dates.length) :
    ∃ i : Nat, nearest? dates date hint = some (i : Int) ∧ Brackets dates date i :=
  search_brackets (shows_at? dates) hr hn hd hh

end Ordered

variable [Subtractive α]

/-- Where only equal numbers have no difference, a sample at the date is found. -/
theorem Brackets.isNearest {dates : List α} {date : α} {i : Nat} (hr : dates.Pairwise (· < ·))
    (h : Brackets dates date i) : IsNearest dates date i := by
  obtain ⟨b, hb⟩ : ∃ b, dates[i]? = some b := ⟨_, List.getElem?_eq_getElem h.lt_length⟩
  refine ⟨h.lt_length, fun {j a} ha hj ↦ ?_, fun {j a} ha hj ↦ ?_, h.le_upper, h.not_le_lower⟩
  · refine (h.before ha hj).resolve_right fun ⟨he, hd⟩ ↦ ?_
    have hlt : date < b := lt_of_beq_of_lt (beq_symm he) (lt_of_rising hr ha hb hj)
    rcases Nat.lt_or_eq_of_le (Nat.succ_le_of_lt hj) with hj | hj
    · have hc := List.getElem?_eq_getElem (Nat.lt_trans hj h.lt_length)
      have hdc := lt_of_beq_of_lt (beq_symm he) (lt_of_rising hr ha hc (Nat.lt_succ_self j))
      rcases h.before hc hj with hcd | ⟨hcd, -⟩
      · exact Scalar.lt_asymm hdc hcd
      · exact not_beq_of_lt hdc (beq_symm hcd)
    · exact h.not_le_lower ha hb hj hlt (distance_le_of_beq hd he (Scalar.le_of_lt hlt))
  · refine (h.after ha hj).resolve_right fun ⟨he, hd⟩ ↦ ?_
    have hlt : b < date := lt_of_lt_of_beq (lt_of_rising hr hb ha hj) he
    rcases Nat.lt_or_eq_of_le (Nat.succ_le_of_lt hj) with hj | rfl
    · have hc := List.getElem?_eq_getElem (Nat.lt_trans hj (List.getElem?_eq_some_iff.1 ha).1)
      have hcd := lt_of_lt_of_beq (lt_of_rising hr hc ha hj) he
      rcases h.after hc (Nat.lt_succ_self i) with hdc | ⟨hdc, -⟩
      · exact Scalar.lt_asymm hcd hdc
      · exact not_beq_of_lt hcd hdc
    · exact not_distance_le_of_beq hd hlt he (h.le_upper hb ha hlt)

theorem search_isNearest {date : α} {hint : Nat} (hread : Shows read dates)
    (hr : dates.Pairwise (· < ·)) (hn : ∀ a ∈ dates, a == a) (hd : date == date)
    (hh : hint < dates.length) :
    ∃ i : Nat, search read date dates.length hint = some (i : Int) ∧ IsNearest dates date i := by
  obtain ⟨i, hi, hb⟩ := search_brackets hread hr hn hd hh
  exact ⟨i, hi, hb.isNearest hr⟩

theorem nearest?_isNearest {date : α} {hint : Nat} (hr : dates.Pairwise (· < ·))
    (hn : ∀ a ∈ dates, a == a) (hd : date == date) (hh : hint < dates.length) :
    ∃ i : Nat, nearest? dates date hint = some (i : Int) ∧ IsNearest dates date i :=
  search_isNearest (shows_at? dates) hr hn hd hh

theorem IsNearest.unique {dates : List α} {date : α} {i j : Nat} (hi : IsNearest dates date i)
    (hj : IsNearest dates date j) : i = j := by
  -- The case that the indices are in this order; the other one is its mirror image.
  have aux {i j : Nat} (hi : IsNearest dates date i) (hj : IsNearest dates date j) (hlt : i < j) :
      False := by
    have ha := List.getElem?_eq_getElem hi.lt_length
    have hb := List.getElem?_eq_getElem hj.lt_length
    have hbefore := hj.before ha hlt
    have hafter := hi.after hb hlt
    rcases Nat.lt_or_eq_of_le (Nat.succ_le_of_lt hlt) with h | rfl
    · have hc := List.getElem?_eq_getElem (Nat.lt_trans h hj.lt_length)
      exact Scalar.lt_asymm (hi.after hc (Nat.lt_succ_self i)) (hj.before hc h)
    · exact hj.not_le_lower ha hb rfl hafter (hi.le_upper ha hb hbefore)
  rcases Nat.lt_trichotomy i j with h | h | h
  · exact (aux hi hj h).elim
  · exact h
  · exact (aux hj hi h).elim

/-- From every hint on the list, and however positions outside of it are read, the search ends at
one sample. -/
theorem exists_search_eq {date : α} (hr : dates.Pairwise (· < ·)) (hn : ∀ a ∈ dates, a == a)
    (hd : date == date) (hlen : 0 < dates.length) :
    ∃ i : Nat, IsNearest dates date i ∧ ∀ {hint : Nat} {read : Int → Option α},
      hint < dates.length → Shows read dates →
        search read date dates.length hint = some (i : Int) := by
  obtain ⟨i, -, hi⟩ := nearest?_isNearest hr hn hd hlen
  refine ⟨i, hi, fun {hint read} hh hread ↦ ?_⟩
  obtain ⟨j, hj, hnear⟩ := search_isNearest hread hr hn hd hh
  rw [hj, hnear.unique hi]

end OrbitReplay.Nearest
