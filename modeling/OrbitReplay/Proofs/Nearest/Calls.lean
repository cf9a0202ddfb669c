import OrbitReplay.Nearest.Run
import OrbitReplay.Proofs.Binary64.Laws
import OrbitReplay.Proofs.Nearest.Locator

namespace OrbitReplay.Nearest

open Scalar

variable {α : Type} [Scalar α] {dates : List α} {date : α}

def ShowsAll {β : Type} (read : Int → Option β) (xs : List β) : Prop :=
  ∀ {p : Int} {a : β}, at? xs p = some a → read p = some a

theorem ShowsAll.shows {β : Type} {read : Int → Option β} {xs : List β} (h : ShowsAll read xs) :
    Shows read xs := fun {n _} ha ↦ h ((at?_natCast xs n).trans ha)

/-- Comparisons make sure of two entries or more that they are numbers. -/
theorem numbers_or_sole [Ordered α] (hr : dates.Pairwise (· < ·)) :
    (∀ a ∈ dates, a == a) ∨ ∃ a, dates = [a] ∧ ¬ a == a := by
  match dates, hr with
  | [], _ => exact .inl fun _ h ↦ absurd h List.not_mem_nil
  | [a], _ =>
    by_cases ha : a == a
    · exact .inl (List.forall_mem_singleton.2 ha)
    · exact .inr ⟨a, rfl, ha⟩
  | a :: b :: rest, hr =>
    obtain ⟨hfirst, -⟩ := List.pairwise_cons.1 hr
    exact .inl (List.forall_mem_cons.2
      ⟨number_left (hfirst b List.mem_cons_self), fun c hc ↦ number_right (hfirst c hc)⟩)

/-- A sole entry that is not a number is found, after it has been read from the end as well. -/
theorem search_sole [Absorbing α] {a : α} (ha : ¬ a == a) {read : Int → Option α}
    (hread : ShowsAll read [a]) : search read date 1 0 = some 0 := by
  have hzero : read 0 = some a := hread rfl
  have hback : read (-1) = some a := hread rfl
  have hle : ¬ date ≤ a := fun h ↦ ha (number_of_le_right h)
  have hge : ¬ a ≤ date := fun h ↦ ha (number_of_le_left h)
  have hlt : ¬ a < date := fun h ↦ ha (number_left h)
  have hgt : ¬ date < a := fun h ↦ ha (number_right h)
  have hfar : ¬ distance date a ≤ distance a date :=
    fun h ↦ ha (Absorbing.number_of_distance (number_of_le_left h)).2
  simp [search, descend, nearer?, hzero, hback, hle, hge, hlt, hgt, hfar]

/-- The entry at which a search ends from every start on the list. It reads the list only, and of a
list of numbers nothing that is counted from the end. -/
structure Settled (dates : List α) (date : α) (i : ℕ) : Prop where
  lt_length : i < dates.length
  reads {hint : ℕ} {read : Int → Option α} : hint < dates.length → ShowsAll read dates →
    search read date dates.length hint = some (i : Int)
  reads_indices {hint : ℕ} {read : Int → Option α} : (∀ a ∈ dates, a == a) →
    hint < dates.length → Shows read dates → search read date dates.length hint = some (i : Int)

theorem exists_settled [Absorbing α] (hne : dates ≠ []) (hr : dates.Pairwise (· < ·))
    (hd : date == date) : ∃ i, Settled dates date i := by
  rcases numbers_or_sole hr with hn | ⟨a, rfl, ha⟩
  · obtain ⟨i, hi, hreads⟩ := exists_search_eq hr hn hd (List.length_pos_iff.2 hne)
    exact ⟨i, hi.lt_length, fun hh hread ↦ hreads hh hread.shows, fun _ ↦ hreads⟩
  · refine ⟨0, Nat.one_pos, fun {hint read} hh hread ↦ ?_, fun hn ↦ ?_⟩
    · obtain rfl : hint = 0 := Nat.lt_one_iff.1 hh
      exact search_sole ha hread
    · exact absurd (hn a List.mem_cons_self) ha

theorem Settled.nearest?_eq {i hint : ℕ} (h : Settled dates date i) (hh : hint < dates.length) :
    nearest? dates date hint = some (i : Int) := h.reads hh id

namespace Locator

def Request.search? : Request α → Option (List α × α)
  | .locate dates date => some (dates, date)
  | .reset => none

def searches (rs : List (Request α)) : List (List α × α) := rs.filterMap Request.search?

def answers (l : Locator) : List (Request α) → List (Except (Failure α) Answer)
  | [] => []
  | .locate dates date :: rs =>
    (l.step (.locate dates date)).1 :: answers (l.step (.locate dates date)).2 rs
  | .reset :: rs => answers (l.step (.reset : Request α)).2 rs

/-- What a search is meant for: a list with entries, strictly ascending, and a number. -/
def Fair (dates : List α) (date : α) : Prop :=
  dates ≠ [] ∧ dates.Pairwise (· < ·) ∧ date == date

variable {l : Locator} {rs rs' : List (Request α)}

theorem step_of_settled {i : ℕ} (h : Settled dates date i) (hl : 0 ≤ l.hint) :
    ∃ hint : ℕ, l.start dates.length = hint ∧ hint < dates.length ∧
      l.step (.locate dates date) = (.ok (some (i : Int)), { l with hint := i }) := by
  obtain ⟨hint, hstart, hlt⟩ := start_lt (Nat.zero_lt_of_lt h.lt_length) hl
  exact ⟨hint, hstart, hlt, by simp only [step, locate?, hstart, h.nearest?_eq hlt]⟩

section Runs

variable [Absorbing α]

theorem hint_nonneg_step (hl : 0 ≤ l.hint) {r : Request α}
    (hr : ∀ s ∈ r.search?, Fair s.1 s.2) : 0 ≤ (l.step r).2.hint := by
  cases r with
  | locate dates date =>
    obtain ⟨hne, hrising, hd⟩ := hr (dates, date) rfl
    obtain ⟨i, hi⟩ := exists_settled hne hrising hd
    obtain ⟨-, -, -, hstep⟩ := step_of_settled hi hl
    rw [hstep]
    exact Int.natCast_nonneg i
  | reset => exact Int.le_refl 0

theorem hint_nonneg_run (hl : 0 ≤ l.hint) (hfair : ∀ s ∈ searches rs, Fair s.1 s.2) :
    0 ≤ (l.run rs).hint := by
  induction rs generalizing l with
  | nil => exact hl
  | cons r rs ih =>
    rw [run, List.foldl_cons]
    refine ih (hint_nonneg_step hl fun s hs ↦ hfair s ?_) fun s hs ↦ hfair s ?_
    · exact List.mem_filterMap.2 ⟨r, List.mem_cons_self, hs⟩
    · obtain ⟨q, hq, hqs⟩ := List.mem_filterMap.1 hs
      exact List.mem_filterMap.2 ⟨q, List.mem_cons_of_mem r hq, hqs⟩

/-- Every search of a run answers as one that starts at the first entry. -/
theorem answers_eq (hl : 0 ≤ l.hint) (hfair : ∀ s ∈ searches rs, Fair s.1 s.2) :
    answers l rs = (searches rs).map fun s ↦ .ok (nearest? s.1 s.2 0) := by
  induction rs generalizing l with
  | nil => rfl
  | cons r rs ih =>
    cases r with
    | locate dates date =>
      obtain ⟨⟨hne, hrising, hd⟩, hfair⟩ := List.forall_mem_cons.1 hfair
      obtain ⟨i, hi⟩ := exists_settled hne hrising hd
      obtain ⟨-, -, -, hstep⟩ := step_of_settled hi hl
      have hfirst : nearest? dates date 0 = some (i : Int) :=
        hi.nearest?_eq (List.length_pos_iff.2 hne)
      rw [answers, hstep, ih (Int.natCast_nonneg i) hfair, ← hfirst]
      rfl
    | reset => exact ih (Int.le_refl 0) hfair

/-- Searches on unrelated lists answer alike whether or not the hint is remembered between them, and
wherever it is reset. Each of them starts on its list, reads nothing outside of it, and leaves its
answer as the hint. -/
theorem searches_answer_alike (hfair : ∀ s ∈ searches rs, Fair s.1 s.2)
    (hsame : searches rs' = searches rs) (b b' : Bool) :
    answers ⟨b, 0⟩ rs = answers ⟨b', 0⟩ rs' ∧
    ∀ {pre post : List (Request α)} {dates : List α} {date : α},
      rs = pre ++ .locate dates date :: post →
      ∃ i hint : ℕ, Settled dates date i ∧ (run ⟨b, 0⟩ pre).start dates.length = hint ∧
        hint < dates.length ∧ (run ⟨b, 0⟩ pre).step (.locate dates date) =
          (.ok (some (i : Int)), { run ⟨b, 0⟩ pre with hint := i }) := by
  refine ⟨?_, fun {pre post dates date} hrs ↦ ?_⟩
  · rw [answers_eq (Int.le_refl 0) hfair, answers_eq (Int.le_refl 0) (hsame.symm ▸ hfair), hsame]
  · rw [hrs, searches, List.filterMap_append] at hfair
    obtain ⟨hpre, hpost⟩ := List.forall_mem_append.1 hfair
    obtain ⟨hne, hrising, hd⟩ := (List.forall_mem_cons.1 hpost).1
    obtain ⟨i, hi⟩ := exists_settled hne hrising hd
    have hnonneg : 0 ≤ (run ⟨b, 0⟩ pre).hint := hint_nonneg_run (Int.le_refl 0) hpre
    obtain ⟨hint, hstart, hlt, hstep⟩ := step_of_settled hi hnonneg
    exact ⟨i, hint, hi, hstart, hlt, hstep⟩

end Runs

/-- A list that grows, one that is shorter than the hint, and one whose sole entry is not a number;
the hint is reset at other places in the second run. -/
theorem searches_answer_alike_binary64 :
    let one : List (Request Float) := [.locate [0, 1] 0.75, .locate [0, 1, 2, 1.0 / 0.0] 9,
      .locate [-7] (1.0 / 0.0), .reset, .locate [0.0 / 0.0] 3, .locate [-1, 0.5] 0.25]
    let other : List (Request Float) := [.reset, .locate [0, 1] 0.75, .reset,
      .locate [0, 1, 2, 1.0 / 0.0] 9, .locate [-7] (1.0 / 0.0), .locate [0.0 / 0.0] 3,
      .locate [-1, 0.5] 0.25, .reset]
    answers ⟨true, 0⟩ one = answers ⟨false, 0⟩ other ∧
      answers ⟨true, 0⟩ one =
        [.ok (some 1), .ok (some 2), .ok (some 0), .ok (some 0), .ok (some 1)] ∧
      ∃ i : ℕ, Settled [(-7 : Float)] (1.0 / 0.0) i ∧
        (run ⟨true, 0⟩ (one.take 2)).hint = 2 ∧ (run ⟨true, 0⟩ (one.take 3)).hint = i := by
  intro one other
  have hfair : ∀ s ∈ searches one, Fair s.1 s.2 := by
    have hsome (a : Float) (as : List Float) : a :: as ≠ [] := List.cons_ne_nil a as
    simp only [one, searches, List.filterMap_cons, Request.search?, List.filterMap_nil,
      List.forall_mem_cons, Fair]
    exact ⟨⟨hsome _ _, by decide +kernel, by decide +kernel⟩,
      ⟨hsome _ _, by decide +kernel, by decide +kernel⟩,
      ⟨hsome _ _, by decide +kernel, by decide +kernel⟩,
      ⟨hsome _ _, by decide +kernel, by decide +kernel⟩,
      ⟨hsome _ _, by decide +kernel, by decide +kernel⟩, fun _ h ↦ absurd h List.not_mem_nil⟩
  have hsame : searches other = searches one := rfl
  obtain ⟨halike, hcalls⟩ := searches_answer_alike hfair hsame true false
  refine ⟨halike, rfl, ?_⟩
  obtain ⟨i, -, hi, -, -, hstep⟩ := @hcalls (one.take 2) (one.drop 3) _ _ rfl
  exact ⟨i, hi, rfl, congrArg (fun e ↦ e.2.hint) hstep⟩

end Locator

end OrbitReplay.Nearest
