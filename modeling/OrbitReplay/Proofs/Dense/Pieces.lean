import Mathlib.Algebra.Polynomial.Derivative
import Mathlib.Algebra.Polynomial.Eval.Degree
import Mathlib.Tactic.FieldSimp
import Mathlib.Tactic.Ring
import OrbitReplay.Dense.Cubic
import OrbitReplay.Proofs.Scalar.Rational

namespace OrbitReplay.Dense

open Polynomial Scalar
namespace Cubic

theorem eval_zero (h y0 y1 d0 d1 : ℚ) : (hermite h y0 y1 d0 d1).eval 0 = y0 := by
  simp [hermite, eval]

theorem eval_step {h : ℚ} (hh : h ≠ 0) (y0 y1 d0 d1 : ℚ) :
    (hermite h y0 y1 d0 d1).eval h = y1 := by
  simp only [hermite, eval, ofNat_rat]
  field_simp
  push_cast
  ring

/-- Four numbers determine a polynomial of degree three at most, so its values and slopes at two
points do. -/
theorem eval_polynomial {p : ℚ[X]} (hp : p.natDegree ≤ 3) {a b : ℚ} (hab : b - a ≠ 0) (x : ℚ) :
    (hermite (b - a) (p.eval a) (p.eval b) (p.derivative.eval a) (p.derivative.eval b)).eval
      (x - a) = p.eval x := by
  obtain ⟨c0, c1, c2, c3, rfl⟩ :
      ∃ c0 c1 c2 c3, p = C c0 + C c1 * X + C c2 * X ^ 2 + C c3 * X ^ 3 := by
    refine ⟨p.coeff 0, p.coeff 1, p.coeff 2, p.coeff 3, ?_⟩
    conv_lhs => rw [p.as_sum_range_C_mul_X_pow' (Nat.lt_succ_of_le hp)]
    simp [Finset.sum_range_succ]
  have hvalue (t : ℚ) : (C c0 + C c1 * X + C c2 * X ^ 2 + C c3 * X ^ 3).eval t =
      c0 + c1 * t + c2 * t ^ 2 + c3 * t ^ 3 := by simp
  have hslope (t : ℚ) : (derivative (C c0 + C c1 * X + C c2 * X ^ 2 + C c3 * X ^ 3)).eval t =
      c1 + c2 * (2 * t) + c3 * (3 * t ^ 2) := by
    simp
    norm_num
  simp only [hvalue, hslope, hermite, eval, ofNat_rat]
  field_simp
  push_cast
  ring

end Cubic

namespace Piece

section Lookup

variable {α : Type} [Scalar α]

/-- The piece that holds a time joins two consecutive boundaries, the first of them at the time or
before and the second, unless it is the last of all, beyond it. -/
theorem holding_between {x : α} {a : Boundary α} (ha : a.time ≤ x) (b : Boundary α)
    (rest : List (Boundary α)) :
    ∃ c d, [c, d] <:+: a :: b :: rest ∧ c.time ≤ x ∧
      (¬ d.time ≤ x ∨ (b :: rest).getLast? = some d) ∧
      holding x (between a b) (ofBoundaries (b :: rest)) = between c d := by
  induction rest generalizing a b with
  | nil => exact ⟨a, b, List.infix_refl _, ha, .inr rfl, rfl⟩
  | cons c rest ih =>
    rw [ofBoundaries, holding]
    split
    · next hb =>
      obtain ⟨d, e, hbs, hd, he, hholding⟩ := ih hb c
      exact ⟨d, e, hbs.trans (List.suffix_cons a _).isInfix, hd, he, hholding⟩
    · next hb => exact ⟨a, b, ⟨[], c :: rest, rfl⟩, ha, .inl hb, rfl⟩

end Lookup

variable {a b : Boundary ℚ} {k : ℕ} {y0 y1 d0 d1 : ℚ}

theorem getElem?_eval (hy0 : a.state[k]? = some y0) (hy1 : b.state[k]? = some y1)
    (hd0 : a.slope[k]? = some d0) (hd1 : b.slope[k]? = some d1) (x : ℚ) :
    ((between a b).eval x)[k]? =
      some ((Cubic.hermite (b.time - a.time) y0 y1 d0 d1).eval (x - a.time)) := by
  simp [between, eval, List.zip, List.getElem?_zipWith, hy0, hy1, hd0, hd1]

end Piece

structure Stepped (width : ℕ) (bs : List (Boundary ℚ)) : Prop where
  two_le : 2 ≤ bs.length
  rising : bs.Pairwise fun a b ↦ a.time < b.time
  length_state {b : Boundary ℚ} : b ∈ bs → b.state.length = width
  length_slope {b : Boundary ℚ} : b ∈ bs → b.slope.length = width

namespace Stepped

variable {width : ℕ} {bs : List (Boundary ℚ)} {a b : Boundary ℚ} {x : ℚ}

theorem mem_of_step (hbs : [a, b] <:+: bs) : a ∈ bs ∧ b ∈ bs :=
  ⟨hbs.subset List.mem_cons_self, hbs.subset (List.mem_cons_of_mem a List.mem_cons_self)⟩

theorem lt_of_step (h : Stepped width bs) (hbs : [a, b] <:+: bs) : a.time < b.time :=
  List.rel_of_pairwise_cons (h.rising.sublist hbs.sublist) List.mem_cons_self

/-- No boundary lies within a step. -/
theorem eq_of_step (h : Stepped width bs) (hbs : [a, b] <:+: bs) {c : Boundary ℚ} (hc : c ∈ bs)
    (hac : a.time ≤ c.time) (hcb : c.time ≤ b.time) : c = a ∨ c = b := by
  obtain ⟨pre, post, rfl⟩ := hbs
  have hrising := List.pairwise_append.1 h.rising
  rcases List.mem_append.1 hc with hc | hc
  · rcases List.mem_append.1 hc with hc | hc
    · have hlt : c.time < a.time :=
        (List.pairwise_append.1 hrising.1).2.2 c hc a List.mem_cons_self
      exact absurd hac (not_le.2 hlt)
    · simpa using hc
  · have hlt : b.time < c.time := hrising.2.2 b (by simp) c hc
    exact absurd hcb (not_le.2 hlt)

theorem evalPieces_eq (h : Stepped width bs) (hlow : ∃ a ∈ bs, a.time ≤ x)
    (hhigh : ∃ b ∈ bs, x ≤ b.time) :
    ∃ a b, [a, b] <:+: bs ∧ a.time ≤ x ∧ x ≤ b.time ∧
      evalPieces (Piece.ofBoundaries bs) x = (Piece.between a b).eval x := by
  match bs, h with
  | [], h | [_], h => exact absurd h.two_le (by simp)
  | a :: b :: rest, h =>
    obtain ⟨low, hlow, hlowx⟩ := hlow
    obtain ⟨high, hhigh, hhighx⟩ := hhigh
    have ha : a.time ≤ x := by
      rcases List.mem_cons.1 hlow with rfl | hlow
      · exact hlowx
      · exact (le_of_lt (List.rel_of_pairwise_cons h.rising hlow)).trans hlowx
    obtain ⟨c, d, hbs, hc, hd, hholding⟩ := Piece.holding_between ha b rest
    refine ⟨c, d, hbs, hc, ?_, congrArg (Piece.eval · x) hholding⟩
    rcases hd with hd | hd
    · exact le_of_lt (not_le.1 hd)
    · obtain ⟨init, hinit⟩ := List.getLast?_eq_some_iff.1 hd
      rw [hinit, ← List.cons_append] at hhigh h
      rcases List.mem_append.1 hhigh with hhigh | hhigh
      · have hlt := (List.pairwise_append.1 h.rising).2.2 high hhigh d List.mem_cons_self
        exact hhighx.trans (le_of_lt hlt)
      · rwa [← List.mem_singleton.1 hhigh]

variable {k : ℕ}

theorem eval_boundary (h : Stepped width bs) (hb : b ∈ bs) :
    evalPieces (Piece.ofBoundaries bs) b.time = b.state := by
  obtain ⟨c, d, hbs, hc, hd, heval⟩ :=
    h.evalPieces_eq ⟨b, hb, le_refl b.time⟩ ⟨b, hb, le_refl b.time⟩
  obtain ⟨hcmem, hdmem⟩ := mem_of_step hbs
  have hstep : d.time - c.time ≠ 0 := sub_ne_zero.2 (ne_of_gt (h.lt_of_step hbs))
  have hlength : ((Piece.between c d).eval b.time).length = b.state.length := by
    simp [Piece.eval, Piece.between, h.length_state, h.length_slope, hb, hcmem, hdmem]
  rw [heval]
  refine List.ext_getElem hlength fun k hk hk' ↦ ?_
  rw [h.length_state hb] at hk'
  have hget (e : Boundary ℚ) (he : e ∈ bs) : ∃ y v, e.state[k]? = some y ∧ e.slope[k]? = some v :=
    ⟨_, _, List.getElem?_eq_getElem (h.length_state he ▸ hk'),
      List.getElem?_eq_getElem (h.length_slope he ▸ hk')⟩
  obtain ⟨y0, d0, hy0, hd0⟩ := hget c hcmem
  obtain ⟨y1, d1, hy1, hd1⟩ := hget d hdmem
  have hshown := Piece.getElem?_eval hy0 hy1 hd0 hd1 b.time
  refine Option.some_inj.1 ?_
  rw [← List.getElem?_eq_getElem, ← List.getElem?_eq_getElem, hshown]
  -- Of the two steps that meet at an inner boundary, either may be the one it is looked up in.
  rcases h.eq_of_step hbs hb hc hd with rfl | rfl
  · rw [sub_self, Cubic.eval_zero, hy0]
  · rw [Cubic.eval_step hstep, hy1]

theorem eval_component (h : Stepped width bs) {p : ℚ[X]} (hp : p.natDegree ≤ 3)
    (hstate : ∀ b ∈ bs, b.state[k]? = some (p.eval b.time))
    (hslope : ∀ b ∈ bs, b.slope[k]? = some (p.derivative.eval b.time))
    (hlow : ∃ a ∈ bs, a.time ≤ x) (hhigh : ∃ b ∈ bs, x ≤ b.time) :
    (evalPieces (Piece.ofBoundaries bs) x)[k]? = some (p.eval x) := by
  obtain ⟨a, b, hbs, -, -, heval⟩ := h.evalPieces_eq hlow hhigh
  obtain ⟨ha, hb⟩ := mem_of_step hbs
  have hstep : b.time - a.time ≠ 0 := sub_ne_zero.2 (ne_of_gt (h.lt_of_step hbs))
  rw [heval, Piece.getElem?_eval (hstate a ha) (hstate b hb) (hslope a ha) (hslope b hb),
    Cubic.eval_polynomial hp hstep]

end Stepped

end OrbitReplay.Dense
