import SphereSearch.Grid.Cell
import SphereSearch.Proofs.Sphere.EdgeDistance

/-!
# Caps with points

A cap is empty only if its radius is below zero.  Widening a radius never takes it there
(`Chord.zero_le_widen`), so the cap around a cell of the grid has points
(`Cell.isEmpty_cap_ofId`), whatever the rounding of its corners is.  The bounds that caps give are
not below zero either (`Cap.zero_le_reduce`).
-/

namespace SphereSearch

namespace Chord

lemma isNegative_eq_false {c : Chord} (h : zero ≤ c) : c.isNegative = false := by
  rw [isNegative, decide_eq_false_iff_not,
    Binary64.lt_iff_toBits (toBits_le_infinityWord h) (by decide)]
  exact Nat.not_lt_zero _

/-- Only what is below every distance is negative. -/
lemma isNegative_iff {c : Chord} : c.isNegative = true ↔ c < zero := by
  constructor
  · intro h
    by_contra hnot
    rw [isNegative_eq_false (not_lt.1 hnot)] at h
    exact Bool.false_ne_true h
  · intro h
    obtain rfl : c = negative := le_antisymm (lt_zero_iff.1 h) (negative_le c)
    decide

lemma zero_le_widen {c : Chord} (h : zero ≤ c) (error : Float) : zero ≤ c.widen error := by
  simp only [widen]
  split
  · exact h
  · exact zero_le_ofLen2 (Binary64.maxNum_zero_not_neg _)

lemma zero_le_sub {c : Chord} (h : zero ≤ c) (d : Chord) : zero ≤ c - d := by
  show zero ≤ sub c d
  simp only [sub]
  split
  · exact h
  · split
    · exact le_rfl
    · exact zero_le_ofLen2 (Binary64.maxNum_zero_not_neg _)

end Chord

lemma Cap.zero_le_reduce (c : Cap) {d : Chord} (h : Chord.zero ≤ d) : Chord.zero ≤ c.reduce d := by
  simp only [reduce]
  split
  · exact Chord.le_infinity _
  · exact Chord.zero_le_sub h _

lemma Cap.isEmpty_eq_false {c : Cap} (h : Chord.zero ≤ c.radius) : c.isEmpty = false :=
  Chord.isNegative_eq_false h

/-- The cap around a cell of the grid has points. -/
lemma Cell.isEmpty_cap_ofId (id : CellId) : (Cell.ofId id).cap.isEmpty = false := by
  refine Cap.isEmpty_eq_false (Chord.zero_le_widen ?_ _)
  exact List.foldlRecOn (motive := fun c => Chord.zero ≤ c) _ _ le_rfl
    fun _ hc _ _ => hc.trans (le_max_left _ _)

end SphereSearch
