import Mathlib.Algebra.Polynomial.Div
import Mathlib.Algebra.Polynomial.FieldDivision
import Mathlib.Algebra.Polynomial.HasseDeriv
import Mathlib.Algebra.Polynomial.Taylor
import Mathlib.Tactic.FieldSimp
import Mathlib.Tactic.LinearCombination
import OrbitReplay.Proofs.Hermite.Stages
import OrbitReplay.Proofs.Scalar.Rational

namespace OrbitReplay.Hermite

open Polynomial Scalar

noncomputable def peel (p : ℚ[X]) (t : ℚ) : ℚ[X] := p /ₘ (X - C t)

noncomputable def peelAll (p : ℚ[X]) (ts : List ℚ) : ℚ[X] := ts.foldl peel p

theorem add_mul_peel (p : ℚ[X]) (t : ℚ) : C (p.eval t) + (X - C t) * peel p t = p := by
  rw [← modByMonic_X_sub_C_eq_C_eval]
  exact modByMonic_add_div p (X - C t)

theorem eval_peel (p : ℚ[X]) (t x : ℚ) : p.eval x = p.eval t + (x - t) * (peel p t).eval x := by
  have h := congrArg (eval x) (add_mul_peel p t)
  simpa using h.symm

theorem degree_peel_lt {p : ℚ[X]} {t : ℚ} {n : ℕ} (h : p.degree < ((n + 1 : ℕ) : WithBot ℕ)) :
    (peel p t).degree < (n : WithBot ℕ) := by
  by_cases hp : p = 0
  · rw [peel, hp, zero_divByMonic, degree_zero]
    exact WithBot.bot_lt_coe n
  · have hle : p.degree ≤ n :=
      degree_le_of_natDegree_le (Nat.le_of_lt_succ ((natDegree_lt_iff_degree_lt hp).2 h))
    have hpos : 0 < (X - C t).degree := by
      rw [degree_X_sub_C]
      exact zero_lt_one
    exact (degree_divByMonic_lt p (X - C t) hp hpos).trans_le hle

noncomputable def coefficient (p : ℚ[X]) (s : ℕ) (x : ℚ) : ℚ := (taylor x p).coeff s

theorem coefficient_zero (p : ℚ[X]) (x : ℚ) : coefficient p 0 x = p.eval x := taylor_coeff_zero ..

theorem factorial_eq (n : ℕ) : factorial n = n.factorial := by
  induction n with
  | zero => rfl
  | succ n ih => rw [factorial, ih, Nat.factorial_succ]

theorem derivative_div_factorial (p : ℚ[X]) (s : ℕ) (x : ℚ) :
    (derivative^[s] p).eval x / ofNat (factorial s) = coefficient p s x := by
  have hne : (s.factorial : ℚ) ≠ 0 := Nat.cast_ne_zero.2 s.factorial_ne_zero
  rw [ofNat_rat, factorial_eq, div_eq_iff hne, coefficient, taylor_coeff,
    ← factorial_smul_hasseDeriv, LinearMap.smul_apply, eval_smul, nsmul_eq_mul, mul_comm]

theorem coefficient_succ (p : ℚ[X]) (t x : ℚ) (s : ℕ) :
    coefficient p (s + 1) x = coefficient (peel p t) s x +
      (x - t) * coefficient (peel p t) (s + 1) x := by
  have hshift : taylor x (X - C t) = X + C (x - t) := by
    rw [map_sub, taylor_X, taylor_C, C_sub, add_sub_assoc]
  have hsplit : taylor x p = C (p.eval t) + (X + C (x - t)) * taylor x (peel p t) := by
    rw [← hshift, ← taylor_C x, ← taylor_mul, ← map_add, add_mul_peel]
  rw [coefficient, hsplit, coeff_add, coeff_C_succ, zero_add, add_mul, coeff_add, coeff_X_mul,
    coeff_C_mul]
  rfl

theorem coefficient_eq_eval (p : ℚ[X]) (s : ℕ) (x : ℚ) :
    coefficient p s x = (peelAll p (List.replicate s x)).eval x := by
  induction s generalizing p with
  | zero => exact coefficient_zero p x
  | succ s ih =>
    rw [coefficient_succ p x, sub_self, zero_mul, add_zero, ih]
    rfl

noncomputable def leading (p : ℚ[X]) : List ℚ → List ℚ
  | [] => []
  | t :: ts => p.eval t :: leading (peel p t) ts

/-- The row of differences at an abscissa that was taken up before as often as the order says; the
other abscissae before it are given. -/
noncomputable def rowAt (p : ℚ[X]) (s : ℕ) (x : ℚ) : List ℚ → List ℚ
  | [] => [coefficient p s x]
  | t :: ts => coefficient p s x :: rowAt (peel p t) s x ts

theorem leading_append (p : ℚ[X]) (ts : List ℚ) (t : ℚ) :
    leading p (ts ++ [t]) = leading p ts ++ [(peelAll p ts).eval t] := by
  induction ts generalizing p with
  | nil => rfl
  | cons u ts ih =>
    rw [List.cons_append, leading, leading, ih]
    rfl

theorem getLastD_rowAt (p : ℚ[X]) (s : ℕ) (x : ℚ) (ts : List ℚ) (y : ℚ) :
    (rowAt p s x ts).getLastD y = coefficient (peelAll p ts) s x := by
  induction ts generalizing p y with
  | nil => rfl
  | cons t ts ih =>
    rw [rowAt, List.getLastD_cons, ih]
    rfl

/-- The differences of a new abscissa refer to the leading ones. -/
theorem differences_leading (p : ℚ[X]) {x : ℚ} {ts : List ℚ} (h : x ∉ ts) :
    differences x (coefficient p 0 x) (leading p ts) ts = rowAt p 0 x ts := by
  induction ts generalizing p with
  | nil => rfl
  | cons t ts ih =>
    obtain ⟨hne, hts⟩ := not_or.1 (mt List.mem_cons.2 h)
    have hgap : t - x ≠ 0 := sub_ne_zero.2 (Ne.symm hne)
    have hstep : (p.eval t - coefficient p 0 x) / (t - x) = coefficient (peel p t) 0 x := by
      rw [div_eq_iff hgap, coefficient_zero, coefficient_zero, eval_peel p t x]
      ring
    rw [leading, differences, hstep, ih _ hts, rowAt]

/-- The differences of an abscissa that repeats refer to those of the time before. -/
theorem differences_rowAt (p : ℚ[X]) (s : ℕ) {x : ℚ} {ts : List ℚ} (h : x ∉ ts) (us : List ℚ) :
    differences x (coefficient p (s + 1) x) ((rowAt p s x ts).drop 1) (ts ++ us) =
      rowAt p (s + 1) x ts := by
  induction ts generalizing p with
  | nil => rfl
  | cons t ts ih =>
    obtain ⟨hne, hts⟩ := not_or.1 (mt List.mem_cons.2 h)
    have hgap : t - x ≠ 0 := sub_ne_zero.2 (Ne.symm hne)
    have hstep : (coefficient (peel p t) s x - coefficient p (s + 1) x) / (t - x) =
        coefficient (peel p t) (s + 1) x := by
      rw [div_eq_iff hgap, coefficient_succ p t]
      ring
    have hrow : rowAt (peel p t) s x ts =
        coefficient (peel p t) s x :: (rowAt (peel p t) s x ts).drop 1 := by
      cases ts <;> rfl
    rw [rowAt, List.drop_one, List.tail_cons, hrow, List.cons_append, differences, hstep, ih _ hts,
      rowAt]

/-- A table of a polynomial: the last abscissa was taken up once more than the order says, behind
others that differ from it. -/
structure Tabulates (p : ℚ[X]) (before : List ℚ) (s : ℕ) (x : ℚ) (t : Table ℚ) : Prop where
  fresh : x ∉ before
  abscissae : t.abscissae = before ++ List.replicate (s + 1) x
  coefficients : t.coefficients = leading p t.abscissae
  row : t.row = rowAt p s x before

section Enter

variable {p : ℚ[X]} {before : List ℚ} {s : ℕ} {x : ℚ} {t : Table ℚ}

theorem tabulates_start (p : ℚ[X]) (x : ℚ) : Tabulates p [] 0 x (Table.start x (p.eval x)) :=
  ⟨List.not_mem_nil, rfl, rfl, by rw [rowAt, coefficient_zero]; rfl⟩

theorem Tabulates.enter_fresh (h : Tabulates p before s x t) {y : ℚ} (hy : y ∉ t.abscissae) :
    Tabulates p t.abscissae 0 y (t.enter ⟨y, 0⟩ (p.eval y)) := by
  have hvalue : p.eval y / ofNat (factorial 0) = coefficient p 0 y :=
    derivative_div_factorial p 0 y
  have hrow : (t.enter ⟨y, 0⟩ (p.eval y)).row = rowAt p 0 y t.abscissae := by
    simp only [Table.enter, if_true]
    rw [hvalue, h.coefficients, differences_leading p hy]
  refine ⟨hy, rfl, ?_, hrow⟩
  change t.coefficients ++ [(t.enter ⟨y, 0⟩ (p.eval y)).row.getLastD _] =
    leading p (t.abscissae ++ [y])
  rw [hrow, getLastD_rowAt, coefficient_zero, h.coefficients, leading_append]

theorem Tabulates.enter_again (h : Tabulates p before s x t) :
    Tabulates p before (s + 1) x (t.enter ⟨x, s + 1⟩ ((derivative^[s + 1] p).eval x)) := by
  have habscissae : t.abscissae ++ [x] = before ++ List.replicate (s + 2) x := by
    rw [h.abscissae, List.append_assoc, List.replicate_succ' (n := s + 1)]
  have hrow : (t.enter ⟨x, s + 1⟩ ((derivative^[s + 1] p).eval x)).row =
      rowAt p (s + 1) x before := by
    simp only [Table.enter, if_neg (Nat.succ_ne_zero s)]
    rw [derivative_div_factorial, h.row, h.abscissae, differences_rowAt p s h.fresh]
  refine ⟨h.fresh, habscissae, ?_, hrow⟩
  change t.coefficients ++ [(t.enter ⟨x, s + 1⟩ ((derivative^[s + 1] p).eval x)).row.getLastD _] =
    leading p (t.abscissae ++ [x])
  rw [hrow, getLastD_rowAt, coefficient_eq_eval, h.coefficients, leading_append, h.abscissae,
    peelAll, peelAll, peelAll, List.foldl_append]

end Enter

noncomputable def Node.valueOf (p : ℚ[X]) (n : Node ℚ) : ℚ :=
  (derivative^[n.order] p).eval n.abscissa

theorem Tabulates.enterAll {p : ℚ[X]} {before : List ℚ} {s : ℕ} {x : ℚ} {nodes : List (Node ℚ)}
    (hf : Follows before s x nodes) {t t' : Table ℚ} (h : Tabulates p before s x t)
    (ht : (nodes.zip (nodes.map (Node.valueOf p))).foldl (fun t e ↦ t.enter e.1 e.2) t = t') :
    t'.abscissae = t.abscissae ++ nodes.map Node.abscissa ∧
      t'.coefficients = leading p t'.abscissae := by
  induction hf generalizing t with
  | nil =>
    subst ht
    exact ⟨(List.append_nil _).symm, h.coefficients⟩
  | @fresh before s x y nodes hy _ ih =>
    rw [← h.abscissae] at hy ih
    have hnew : y ∉ t.abscissae := fun hmem ↦ hy y hmem (beq_rat.2 rfl)
    obtain ⟨habscissae, hcoefficients⟩ := ih (h.enter_fresh hnew) ht
    exact ⟨habscissae.trans (List.append_assoc ..), hcoefficients⟩
  | again _ ih =>
    obtain ⟨habscissae, hcoefficients⟩ := ih h.enter_again ht
    exact ⟨habscissae.trans (List.append_assoc ..), hcoefficients⟩

theorem addTerms_leading (p : ℚ[X]) (x acc w t : ℚ) {ts : List ℚ}
    (hp : p.degree < (ts.length : WithBot ℕ)) :
    addTerms x acc w (t :: ts) (leading p ts) = acc + (x - t) * w * p.eval x := by
  induction ts generalizing p acc w t with
  | nil =>
    have hzero : p = 0 := degree_eq_bot.1 (Nat.WithBot.lt_zero_iff.1 hp)
    rw [hzero, eval_zero, mul_zero, add_zero]
    rfl
  | cons u ts ih =>
    rw [leading, addTerms, ih _ _ _ _ (degree_peel_lt hp), eval_peel p u x]
    ring

/-- The table of a polynomial of a degree below the number of nodes is the polynomial. -/
theorem eval_ofNodes {p : ℚ[X]} {x : ℚ} {nodes : List (Node ℚ)} (hf : Follows [] 0 x nodes)
    (hp : p.degree < ((nodes.length + 1 : ℕ) : WithBot ℕ)) (a : ℚ) :
    (Table.ofNodes (⟨x, 0⟩ :: nodes) ((⟨x, 0⟩ :: nodes).map (Node.valueOf p))).eval a =
      p.eval a := by
  generalize ht :
    Table.ofNodes (⟨x, 0⟩ :: nodes) ((⟨x, 0⟩ :: nodes).map (Node.valueOf p)) = t
  obtain ⟨habscissae, hcoefficients⟩ := (tabulates_start p x).enterAll hf ht
  have hab : t.abscissae = x :: nodes.map Node.abscissa := habscissae
  have hdegree : (peel p x).degree < ((nodes.map Node.abscissa).length : WithBot ℕ) := by
    rw [List.length_map]
    exact degree_peel_lt hp
  have hterms : t.eval a = addTerms a (ofNat 0 + p.eval x) (ofNat 1)
      (x :: nodes.map Node.abscissa) (leading (peel p x) (nodes.map Node.abscissa)) := by
    rw [Table.eval, hcoefficients, hab, leading]
  rw [hterms, addTerms_leading _ _ _ _ _ hdegree, eval_peel p x a, ofNat_rat, ofNat_rat]
  push_cast
  ring

end OrbitReplay.Hermite
