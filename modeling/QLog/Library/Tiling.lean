import Mathlib.Algebra.Order.Group.Nat
import Mathlib.Data.List.Basic

/-! # Tilings of an interval

A transfer in blocks asks for segments `(start, length)` one after the other. They tile an interval if each starts
where the one before it ends, the first at the lower end, and the last ends at the upper end. -/

namespace QLog.Library

/-- The segments tile the interval from `lo` up to, but not including, `hi`, in order. -/
def Tiles : Nat → Nat → List (Nat × Nat) → Prop
  | lo, hi, [] => lo = hi
  | lo, hi, seg :: segs => seg.1 = lo ∧ Tiles (lo + seg.2) hi segs

theorem Tiles.append {lo mid hi : Nat} {front back : List (Nat × Nat)} (hfront : Tiles lo mid front)
    (hback : Tiles mid hi back) : Tiles lo hi (front ++ back) := by
  induction front generalizing lo with
  | nil => exact (show lo = mid from hfront) ▸ hback
  | cons seg front ih => exact ⟨hfront.1, ih hfront.2⟩

theorem Tiles.le {lo hi : Nat} {segs : List (Nat × Nat)} (h : Tiles lo hi segs) : lo ≤ hi := by
  induction segs generalizing lo with
  | nil => exact Nat.le_of_eq h
  | cons seg segs ih => exact (Nat.le_add_right lo seg.2).trans (ih h.2)

/-- Every point of the interval lies in exactly one segment, and no other point lies in any. -/
theorem Tiles.countP {lo hi : Nat} {segs : List (Nat × Nat)} (h : Tiles lo hi segs) (x : Nat) :
    segs.countP (fun seg => seg.1 ≤ x ∧ x < seg.1 + seg.2) = if lo ≤ x ∧ x < hi then 1 else 0 := by
  induction segs generalizing lo with
  | nil =>
      have hempty : lo = hi := h
      rw [List.countP_nil, if_neg (by omega)]
  | cons seg segs ih =>
      obtain ⟨hstart, hrest⟩ := h
      have hle := hrest.le
      rw [List.countP_cons, ih hrest, hstart]
      by_cases hin : lo ≤ x ∧ x < lo + seg.2
      · have hnotlater : ¬ (lo + seg.2 ≤ x ∧ x < hi) := by omega
        rw [if_neg hnotlater, if_pos (decide_eq_true hin), if_pos (by omega)]
      · have hfirst : (if decide (lo ≤ x ∧ x < lo + seg.2) = true then 1 else 0) = 0 :=
          if_neg (by rwa [decide_eq_true_eq])
        rw [hfirst, Nat.add_zero]
        by_cases hlater : lo + seg.2 ≤ x ∧ x < hi
        · rw [if_pos hlater, if_pos (by omega)]
        · rw [if_neg hlater, if_neg (by omega)]

end QLog.Library
