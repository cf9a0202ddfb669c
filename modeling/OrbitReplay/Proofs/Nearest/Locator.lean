import OrbitReplay.Nearest.Locator
import OrbitReplay.Proofs.Nearest.Search

namespace OrbitReplay.Nearest.Locator

open Scalar

theorem start_lt {l : Locator} {n : Nat} (hn : 0 < n) (hh : 0 ≤ l.hint) :
    ∃ hint : Nat, l.start n = (hint : Int) ∧ hint < n := by
  unfold start
  split
  · exact ⟨0, rfl, hn⟩
  · next h =>
    simp only [Bool.or_eq_true, decide_eq_true_eq, not_or] at h
    exact ⟨l.hint.toNat, by omega, by omega⟩

variable {α : Type} [Scalar α] [Subtractive α]

theorem locate?_isNearest {l : Locator} {dates : List α} {date : α}
    (hr : dates.Pairwise (· < ·)) (hn : ∀ a ∈ dates, a == a) (hd : date == date)
    (hlen : 0 < dates.length) (hh : 0 ≤ l.hint) :
    ∃ i : Nat, l.locate? dates date = (some (i : Int), { l with hint := i }) ∧
      IsNearest dates date i := by
  obtain ⟨hint, hs, hlt⟩ := start_lt hlen hh
  obtain ⟨i, hi, hnear⟩ := nearest?_isNearest hr hn hd hlt
  exact ⟨i, by simp only [locate?, hs, hi], hnear⟩

end OrbitReplay.Nearest.Locator
