/-
  Cells of a grid inside segments.

  The cell `k` of a grid of width `w` is the interval from `k * w` to
  `(k + 1) * w`.  `cells` are the cells that lie inside a segment with a given
  label.  In an ordered list they can be counted segment by segment, after the
  ends of each segment are rounded inward (`card_cells_cons`, `roundUp`,
  `roundDown`); in a coalesced list they are all the cells with that label at
  every instant (`mem_cells_iff_lookup`).
-/
import Mathlib.Order.Interval.Finset.Basic
import HomeLab.Lib.Segments

namespace HomeLab

namespace Segment

variable {L : Type} {w k : ℤ} {s : Segment ℤ L} {l : List (Segment ℤ L)}

/-! ## Rounding -/

/-- The first multiple of the width from `t` on. -/
def roundUp (w t : ℤ) : ℤ := if t % w ≠ 0 then t + (w - t % w) else t

/-- The last multiple of the width up to `t`. -/
def roundDown (w t : ℤ) : ℤ := t - t % w

theorem roundDown_eq (w t : ℤ) : roundDown w t = t / w * w := by
  have := Int.mul_ediv_add_emod t w
  rw [roundDown, mul_comm]
  linarith

theorem roundUp_eq (hw : 0 < w) (t : ℤ) : roundUp w t = -(-t / w) * w := by
  have hsplit := Int.mul_ediv_add_emod t w
  rw [roundUp]
  split_ifs with h
  · have hquot : -t / w = -(t / w) - 1 := by
      have hlt := Int.emod_lt_of_pos t hw
      have hpos : 0 < t % w := lt_of_le_of_ne (Int.emod_nonneg t hw.ne') (Ne.symm h)
      refine Int.ediv_eq_iff_of_pos hw |>.2 ⟨?_, ?_⟩ <;> nlinarith
    rw [hquot]
    linarith
  · obtain ⟨q, rfl⟩ : w ∣ t := Int.dvd_of_emod_eq_zero (not_not.1 h)
    rw [← mul_neg, Int.mul_ediv_cancel_left _ hw.ne']
    ring

/-! ## The cells inside a segment -/

/-- The cells that lie inside the segment. -/
noncomputable def cellsIn (w : ℤ) (s : Segment ℤ L) : Finset ℤ := Finset.Ico (-(-s.start / w)) (s.stop / w)

theorem mem_cellsIn (hw : 0 < w) :
    k ∈ cellsIn w s ↔ s.start ≤ k * w ∧ (k + 1) * w ≤ s.stop := by
  have hleft : -(-s.start / w) ≤ k ↔ s.start ≤ k * w := by
    rw [neg_le, Int.le_ediv_iff_mul_le hw, neg_mul, neg_le_neg_iff]
  have hright : k < s.stop / w ↔ (k + 1) * w ≤ s.stop := by
    rw [← Int.add_one_le_iff, Int.le_ediv_iff_mul_le hw]
  rw [cellsIn, Finset.mem_Ico, hleft, hright]

/-- The length of the cells inside a segment is that of the segment with its
    ends rounded inward. -/
theorem card_cellsIn (hw : 0 < w) (s : Segment ℤ L) :
    ((cellsIn w s).card : ℤ) * w =
      if roundUp w s.start < roundDown w s.stop then roundDown w s.stop - roundUp w s.start
      else 0 := by
  rw [cellsIn, Int.card_Ico, roundUp_eq hw, roundDown_eq, ← sub_mul]
  split_ifs with h
  · have hlt := lt_of_mul_lt_mul_right h hw.le
    rw [Int.toNat_of_nonneg (by linarith)]
  · have hle : s.stop / w - -(-s.start / w) ≤ 0 := by
      have := le_of_mul_le_mul_right (not_lt.1 h) hw
      linarith
    rw [Int.toNat_of_nonpos hle]
    simp

/-! ## The cells inside the segments of a list -/

/-- The cells that lie inside a segment with the label. -/
noncomputable def cells [DecidableEq L] (w : ℤ) (x : L) : List (Segment ℤ L) → Finset ℤ
  | [] => ∅
  | s :: l => if s.label = x then cellsIn w s ∪ cells w x l else cells w x l

variable [DecidableEq L] {x : L}

theorem mem_cells (hw : 0 < w) :
    k ∈ cells w x l ↔ ∃ s ∈ l, s.label = x ∧ s.start ≤ k * w ∧ (k + 1) * w ≤ s.stop := by
  induction l with
  | nil => simp [cells]
  | cons s l ih =>
    rw [cells]
    split_ifs with h
    · simp [mem_cellsIn hw, ih, h]
    · simp [ih, h]

/-- The cells of an ordered list are counted segment by segment. -/
theorem card_cells_cons (hw : 0 < w) (h : Ordered (s :: l)) (hx : s.label = x) :
    (cells w x (s :: l)).card = (cellsIn w s).card + (cells w x l).card := by
  rw [cells, if_pos hx]
  refine Finset.card_union_of_disjoint (Finset.disjoint_left.2 fun k hk hk' => ?_)
  obtain ⟨s', hs', -, hstart, -⟩ := (mem_cells hw).1 hk'
  have hstop := ((mem_cellsIn hw).1 hk).2
  have hle := (List.pairwise_cons.1 h.apart).1 s' hs'
  linarith

/-- In a coalesced list a cell with one label lies inside a segment. -/
theorem mem_cells_iff_lookup (hw : 0 < w) (h : Ordered l) (hc : Coalesced l) :
    k ∈ cells w x l ↔ ∀ t, k * w ≤ t → t < (k + 1) * w → lookup l t = some x := by
  rw [mem_cells hw]
  constructor
  · rintro ⟨s, hs, rfl, hstart, hstop⟩ t h1 h2
    exact h.lookup_eq hs ⟨hstart.trans h1, h2.trans_le hstop⟩
  · intro hall
    exact h.exists_of_interval hc (by linarith) hall

end Segment

end HomeLab
