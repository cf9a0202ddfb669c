import OrbitReplay.Dense.Solution
import OrbitReplay.Dense.Steps
import OrbitReplay.Proofs.Replay.Agree

namespace OrbitReplay.Dense

open Scalar

variable {α : Type} [Scalar α] [Congruent α] {t t' : α}

theorem Cubic.alike_eval (c : Cubic α) (h : Alike t t') : Alike (c.eval t) (c.eval t') := by
  have hsquare : Alike (t * t) (t' * t') := alike_mul h h
  have hlinear : Alike (ofNat 0 + c.c0 + c.c1 * t) (ofNat 0 + c.c0 + c.c1 * t') :=
    alike_add .rfl (alike_mul .rfl h)
  exact alike_add (alike_add hlinear (alike_mul .rfl hsquare))
    (alike_mul .rfl (alike_mul hsquare h))

theorem Piece.alike_eval (p : Piece α) (h : Alike t t') : AlikeAll (p.eval t) (p.eval t') := by
  have hoffset : Alike (t - p.left) (t' - p.left) := alike_sub h .rfl
  refine List.forall₂_map_left_iff.2 (List.forall₂_map_right_iff.2 ?_)
  exact List.forall₂_same.2 fun c _ ↦ c.alike_eval hoffset

theorem Piece.holding_congr (h : Alike t t') (p : Piece α) (ps : List (Piece α)) :
    holding t p ps = holding t' p ps := by
  induction ps generalizing p with
  | nil => rfl
  | cons q ps ih => simp only [holding, le_congr .rfl h, ih]

theorem alike_evalPieces (ps : List (Piece α)) (h : Alike t t') :
    AlikeAll (evalPieces ps t) (evalPieces ps t') := by
  cases ps with
  | nil => exact .nil
  | cons p ps =>
    rw [evalPieces, evalPieces, Piece.holding_congr h]
    exact Piece.alike_eval _ h

namespace Segment

theorem alike_accumulate (h : Alike t t') (even : Bool) {ys ys' : List α} (hys : AlikeAll ys ys')
    (rows : List (List α)) :
    AlikeAll (accumulate t even ys rows) (accumulate t' even ys' rows) := by
  induction rows generalizing even ys ys' with
  | nil => exact hys
  | cons row rows ih =>
    have hfactor : Alike (if even then t else ofNat 1 - t) (if even then t' else ofNat 1 - t') := by
      cases even
      · exact alike_sub .rfl h
      · exact h
    have hsum : AlikeAll (List.zipWith (· + ·) ys row) (List.zipWith (· + ·) ys' row) :=
      AlikeAll.zipWith alike_add hys .rfl
    refine ih (!even) (List.forall₂_map_left_iff.2 (List.forall₂_map_right_iff.2 ?_))
    exact hsum.imp fun x x' hx ↦ alike_mul hx hfactor

theorem alike_eval (s : Segment α) (t0 t1 : α) (h : Alike t t') :
    AlikeAll (s.eval t0 t1 t) (s.eval t0 t1 t') := by
  cases s with
  | constant value => exact .rfl
  | interpolant base rows =>
    have hx : Alike ((t - t0) / (t1 - t0)) ((t' - t0) / (t1 - t0)) := alike_div (alike_sub h .rfl) _
    exact AlikeAll.zipWith alike_add (alike_accumulate hx true .rfl rows.reverse) .rfl

end Segment

namespace Solution

theorem segmentIndex_congr (s : Solution α) (h : Alike t t') :
    s.segmentIndex t = s.segmentIndex t' := by
  simp only [segmentIndex, beq_congr h h, lt_congr .rfl h, le_congr .rfl h]

theorem agree_eval (s : Solution α) (h : Alike t t') : Agree AlikeAll (s.eval t) (s.eval t') := by
  rw [eval, eval, s.segmentIndex_congr h]
  split
  · exact .ok (Segment.alike_eval _ _ _ h)
  · exact .error (.refl _)

end Solution

end OrbitReplay.Dense
