import SphereSearch.Proofs.Number.Rounding
import SphereSearch.Proofs.Sphere.ChordDifference
import SphereSearch.Proofs.Sphere.EdgeDistance
import SphereSearch.Sphere.Edge

/-!
# Wider limits

A limit is widened by the error of a distance, so that it admits everything that may be as close.
The sum is rounded, but it is never below the limit (`Chord.le_widen`), and the bound on the error
of a distance is a number without a sign (`Chord.toBits_edgeError_le`).  So no limit is lowered by
widening it (`Chord.le_widen_edgeError`).
-/

namespace SphereSearch.Chord

variable {c : Chord}

lemma zero_le_of_toBits_le (hbits : c.len2.toBits.toNat ≤ 0x4010000000000000) : zero ≤ c := by
  refine zero_le_of_ne_negative fun h => ?_
  rw [h] at hbits
  exact absurd hbits (by decide)

/-- A distance is not above the chord of a number that is not below its squared length. -/
lemma le_ofLen2 {x : Float} (hbits : c.len2.toBits.toNat ≤ 0x4010000000000000)
    (hx : x.toBits.toNat ≤ Binary64.infinityWord) (h : c.len2.toBits.toNat ≤ x.toBits.toNat) :
    c ≤ ofLen2 x := by
  have hneg : ¬ x < 0.0 := by
    rw [Binary64.lt_iff_toBits hx (by decide)]
    exact Nat.not_lt_zero _
  have hof := zero_le_ofLen2 hneg
  rw [← len2_le_iff hof, Binary64.le_iff_toBits
    (toBits_le_infinityWord (zero_le_of_toBits_le hbits)) (toBits_le_infinityWord hof)]
  simp only [ofLen2]
  rw [dif_neg hneg]
  split
  · rename_i hzero
    rw [Binary64.beq_iff_compare, Binary64.compare_unpack hx (by decide), Option.some_inj,
      Nat.compare_eq_eq] at hzero
    exact h.trans hzero.le
  · show _ ≤ (Binary64.minNum x 4.0).toBits.toNat
    simp only [Binary64.minNum]
    split
    · exact h
    · rw [toNat_toBits_four]
      exact hbits

/-- Raising a number without a sign to zero changes nothing. -/
lemma toNat_toBits_maxNum_zero {x : Float} (hx : x.toBits.toNat ≤ Binary64.infinityWord) :
    (Binary64.maxNum x 0.0).toBits.toNat = x.toBits.toNat := by
  simp only [Binary64.maxNum]
  split
  · rfl
  · rename_i hnot
    rw [show (0.0 : Float).isNaN = false by decide, Bool.or_false, decide_eq_true_iff,
      Binary64.lt_iff_toBits (by decide) hx] at hnot
    exact (Nat.eq_zero_of_not_pos hnot).symm

/-- Widening a distance by a number without a sign never lowers it. -/
lemma le_widen {error : Float} (hbits : c.len2.toBits.toNat ≤ 0x4010000000000000)
    (herror : error.toBits.toNat ≤ Binary64.infinityWord) : c ≤ c.widen error := by
  have hlen := toBits_le_infinityWord (zero_le_of_toBits_le hbits)
  have hsum := Binary64.toBits_add_le hlen herror
  have hmax := toNat_toBits_maxNum_zero hsum
  rw [widen, isSpecial_eq_false hbits, if_neg Bool.false_ne_true]
  exact le_ofLen2 hbits (hmax.trans_le hsum) ((Binary64.le_add hlen herror).trans hmax.ge)

/-- The bound on the error of a distance is a number without a sign. -/
lemma toBits_edgeError_le (hbits : c.len2.toBits.toNat ≤ 0x4010000000000000) :
    c.edgeError.toBits.toNat ≤ Binary64.infinityWord := by
  have hlt : c.len2.toBits.toNat < Binary64.infinityWord :=
    hbits.trans_lt (by decide)
  refine Binary64.toBits_maxNum_le (Binary64.toBits_add_le (Binary64.toBits_mul_le ?_ hlt) ?_)
  · decide
  · decide

/-- **Wider limits.**  A limit that is widened by the error of a distance is not lowered. -/
theorem le_widen_edgeError (c : Chord) : c ≤ c.widen c.edgeError := by
  rcases special_or_distance c with rfl | rfl | ⟨hbits, -⟩
  · exact negative_le _
  · have hspecial : infinity.isSpecial = true := by decide
    rw [widen, if_pos hspecial]
  · exact le_widen hbits (toBits_edgeError_le hbits)

end SphereSearch.Chord
