import Mathlib.Order.SuccPred.Basic
import SphereSearch.Proofs.Sphere.Caps
import SphereSearch.Proofs.Sphere.Limit
import SphereSearch.Search.Settings

/-!
# Neighbours in the order of chords

`Chord.successor` and `Chord.predecessor` step from one chord to the next, over the jumps between
the special values and the distances as well as from one double to the next.  They are the successor
and the predecessor of the linear order of chords in the sense of order theory (`SuccOrder`,
`PredOrder`), so that nothing lies between a chord and its neighbours, and either step undoes the
other one wherever there is one to take (`Chord.neighbours`).  An inclusive limit is the successor
of the greatest distance that it admits.
-/

namespace SphereSearch

namespace Chord

/-! ### The ends -/

instance : BoundedOrder Chord where
  top := infinity
  le_top := le_infinity
  bot := negative
  bot_le := negative_le

lemma isMax_iff {d : Chord} : IsMax d ↔ d = infinity := isMax_iff_eq_top

lemma isMin_iff {d : Chord} : IsMin d ↔ d = negative := isMin_iff_eq_bot

/-! ### The chord before -/

/-- Above zero, the words of distances are followed downwards without a gap. -/
lemma place_predecessor {d : Chord} (hzero : zero < d) (hle : d ≤ straight) :
    d.predecessor.place + 1 = d.place := by
  obtain ⟨hbits, hplace⟩ := distance_of_between hzero.le hle
  have hword := toBits_le_infinityWord hzero.le
  rw [lt_iff_place, place_zero] at hzero
  have hpos : ¬ d.len2 ≤ 0.0 := by
    rw [Binary64.le_iff_toBits hword (by decide), show (0.0 : Float).toBits.toNat = 0 by decide]
    omega
  have hfour : ¬ d.len2 > 4.0 := by
    rw [gt_iff_lt, Binary64.lt_iff_toBits (by decide) hword, toNat_toBits_four]
    omega
  have hsub : (d.len2.toBits - 1).toNat = d.len2.toBits.toNat - 1 := by
    rw [UInt64.toNat_sub_of_le]
    · rfl
    · rw [UInt64.le_iff_toNat_le]
      show 1 ≤ d.len2.toBits.toNat
      omega
  have hnext : (Binary64.nextDown d.len2).toBits.toNat = d.len2.toBits.toNat - 1 := by
    rw [Binary64.nextDown, Binary64.toNat_toBits_ofBits, hsub]
    rw [hsub, Binary64.infinityWord]
    omega
  have hlen : d.predecessor.len2.toBits.toNat = d.len2.toBits.toNat - 1 := by
    rw [predecessor, if_neg hpos, if_neg hfour, toNat_toBits_ofLen2 (by rw [hnext]; omega), hnext]
    omega
  rw [place_eq, hlen, if_pos (by omega)]
  omega

/-- **The chord before misses nothing.**  What is above the predecessor of a chord is at least that
chord. -/
lemma predecessor_lt_iff {c d : Chord} (h : d ≠ negative) : d.predecessor < c ↔ d ≤ c := by
  rcases lt_or_eq_of_le (zero_le_of_ne_negative h) with hzero | rfl
  -- Infinity and zero are the two chords from which the step down is a jump.
  · by_cases hle : d ≤ straight
    · rw [lt_iff_place, le_iff_place, ← place_predecessor hzero hle]
      omega
    · obtain rfl : d = infinity := by
        refine le_antisymm (le_infinity d) (not_lt.1 fun hlt => hle ?_)
        exact lt_infinity_iff.1 hlt
      rw [show infinity.predecessor = straight by decide, ← not_le, ← lt_infinity_iff, not_lt]
  · rw [show zero.predecessor = negative by decide, ← not_le, ← lt_zero_iff, not_lt]

/-! ### Neighbours -/

instance : SuccOrder Chord :=
  SuccOrder.ofCore successor
    (fun hmax c => by
      rw [← not_le, ← lt_successor_iff (fun h => hmax (isMax_iff.2 h)), not_lt])
    (fun d hmax => by
      rw [isMax_iff.1 hmax]
      decide)

instance : PredOrder Chord :=
  PredOrder.ofCore predecessor
    (fun hmin c => by
      rw [← not_le, ← predecessor_lt_iff (fun h => hmin (isMin_iff.2 h)), not_lt])
    (fun d hmin => by
      rw [isMin_iff.1 hmin]
      decide)

/-- **Exact neighbours.**  Nothing lies between a chord and the next one, nor between a chord and
the one before; a step forth and a step back end where they began; and both steps keep the order.
So the limit that is set to include a distance admits that distance and what is below, and nothing
else. -/
theorem neighbours :
    (∀ d : Chord, d ≠ infinity →
      d < d.successor ∧ (∀ x, x ≤ d ↔ x < d.successor) ∧ d.successor.predecessor = d) ∧
    (∀ d : Chord, d ≠ negative →
      d.predecessor < d ∧ (∀ x, x ≥ d ↔ x > d.predecessor) ∧ d.predecessor.successor = d) ∧
    Monotone successor ∧ Monotone predecessor ∧
    ∀ (s : Search.Settings) (d : Chord), zero ≤ d → d ≤ straight →
      s.setInclusiveMaxDistance d = .ok { s with maxDistance := d.successor } ∧
        ∀ x, x < d.successor ↔ x ≤ d := by
  refine ⟨fun d hd => ?_, fun d hd => ?_, Order.succ_mono, Order.pred_mono, fun s d hzero hle => ?_⟩
  · have hmax : ¬ IsMax d := fun h => hd (isMax_iff.1 h)
    exact ⟨Order.lt_succ_of_not_isMax hmax, fun x => (Order.lt_succ_iff_of_not_isMax hmax).symm,
      Order.pred_succ_of_not_isMax hmax⟩
  · have hmin : ¬ IsMin d := fun h => hd (isMin_iff.1 h)
    exact ⟨Order.pred_lt_of_not_isMin hmin, fun x => (Order.pred_lt_iff_of_not_isMin hmin).symm,
      Order.succ_pred_of_not_isMin hmin⟩
  · have hmax : d ≠ infinity := fun h => not_lt.2 hle (h ▸ lt_infinity_iff.2 le_rfl)
    have hneg : d.isNegative = false := isNegative_eq_false hzero
    refine ⟨?_, fun x => lt_successor_iff hmax⟩
    rw [Search.Settings.setInclusiveMaxDistance, hneg]
    rfl

/-- The steps between the special values and the ends of the distances. -/
theorem neighbours_ends :
    (straight ≠ infinity ∧ straight < straight.successor ∧
      straight.successor.predecessor = straight) ∧
    (zero ≠ negative ∧ zero.predecessor < zero ∧ zero.predecessor.successor = zero) ∧
    zero ≤ straight ∧ straight ≤ straight ∧
      Search.Settings.default.setInclusiveMaxDistance straight =
        .ok { Search.Settings.default with maxDistance := straight.successor } := by
  obtain ⟨hsucc, hpred, -, -, hlimit⟩ := neighbours
  have hinf : straight ≠ infinity := by decide
  have hneg : zero ≠ negative := by decide
  have hle : zero ≤ straight := by decide
  have hup := hsucc straight hinf
  have hdown := hpred zero hneg
  exact ⟨⟨hinf, hup.1, hup.2.2⟩, ⟨hneg, hdown.1, hdown.2.2⟩, hle, le_rfl,
    (hlimit Search.Settings.default straight hle le_rfl).1⟩

end Chord

end SphereSearch
