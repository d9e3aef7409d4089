import SphereSearch.Proofs.Number.Whole
import SphereSearch.Proofs.Sphere.Caps
import SphereSearch.Proofs.Sphere.ChordDifference
import SphereSearch.Proofs.Sphere.Vector
import SphereSearch.Proofs.Sphere.Widening

/-!
# Distances to caps are lower bounds, nearly

The distance from a point to a cap is that to its centre, less the radius.  Up to rounding it is the
`gap` of the two chords, which is no farther than any point of the cap by the triangle inequality on
the sphere.  What is computed can exceed the distance to a point of the cap all the same: the
lengths of points differ from one, by little, and where the squares nearly cancel, an error of them
becomes an error of its root in the length.  It never exceeds it by more than a hundred thousandth
(`Cap.distanceToPoint_sound`).
-/

namespace SphereSearch

open Binary64

/-! ### Roots -/

lemma sqrt_le_sqrt_add {s t e : ℝ} (he : 0 ≤ e) (h : s ≤ t + e ^ 2) : √s ≤ √t + e := by
  refine Real.sqrt_le_iff.2 ⟨by positivity, ?_⟩
  rcases le_total 0 t with ht | ht
  · have hsq := Real.sq_sqrt ht
    have hcross : 0 ≤ 2 * √t * e := by positivity
    rw [add_sq, hsq]
    linarith
  · rw [Real.sqrt_eq_zero_of_nonpos ht]
    linarith

lemma abs_sqrt_sub_sqrt_le {s t e : ℝ} (he : 0 ≤ e) (h : |s - t| ≤ e ^ 2) : |√s - √t| ≤ e := by
  rw [abs_le] at h ⊢
  have hs := sqrt_le_sqrt_add he (show s ≤ t + e ^ 2 by linarith)
  have ht := sqrt_le_sqrt_add he (show t ≤ s + e ^ 2 by linarith)
  constructor <;> linarith

lemma sq_sqrt_sub_sqrt_le {s t : ℝ} (ht : 0 ≤ t) (h : t ≤ s) : (√s - √t) ^ 2 ≤ s - t := by
  have hroots := mul_le_mul_of_nonneg_right (Real.sqrt_le_sqrt h) (Real.sqrt_nonneg t)
  rw [sub_sq, Real.sq_sqrt ht, Real.sq_sqrt (ht.trans h)]
  linarith [Real.mul_self_sqrt ht]

lemma sub_le_two_mul_sqrt_sub_sqrt {s t : ℝ} (ht : 0 ≤ t) (h : t ≤ s) (hs : s ≤ 1) :
    s - t ≤ 2 * (√s - √t) := by
  have hfactor : s - t = (√s + √t) * (√s - √t) := by
    linear_combination Real.sq_sqrt ht - Real.sq_sqrt (ht.trans h)
  rw [hfactor]
  refine mul_le_mul_of_nonneg_right ?_ (sub_nonneg.2 (Real.sqrt_le_sqrt h))
  linarith [Real.sqrt_le_one.2 hs, Real.sqrt_le_one.2 (h.trans hs)]

/-! ### The gap between two chords -/

section Gap

variable {a b r : ℝ}

lemma gap_zero (a : ℝ) : gap a 0 = √a := by simp [gap]

/-- The gap gets smaller when more is taken away. -/
lemma gap_le_gap (ha : a ∈ Set.Icc 0 4) (hbr : b ≤ r) : gap a r ≤ gap a b := by
  refine sub_le_sub (Real.sqrt_le_sqrt ?_) (Real.sqrt_le_sqrt ?_)
  · exact mul_le_mul_of_nonneg_left (by linarith) ha.1
  · exact mul_le_mul_of_nonneg_right hbr (by linarith [ha.2])

lemma gap_nonneg (h : b ≤ a) : 0 ≤ gap a b := sub_nonneg.2 (Real.sqrt_le_sqrt (by linarith))

/-- It gets smaller by an amount that does not depend on where it is measured from. -/
lemma gap_add_sq_le (ha : a ∈ Set.Icc 0 4) (hb : b ∈ Set.Icc 0 4) (hr : r ∈ Set.Icc 0 4)
    (hbr : b ≤ r) : gap a r + (√r - √b) ^ 2 / 4 ≤ gap a b := by
  have hsplit : ∀ {s}, s ∈ Set.Icc (0 : ℝ) 4 →
      gap a s = √a * √(1 - s / 4) - √(1 - a / 4) * √s := by
    intro s hs
    rw [gap, Real.sqrt_mul ha.1, Real.sqrt_mul hs.1, mul_comm √s]
  have hm := sub_nonneg.2 (Real.sqrt_le_sqrt hbr)
  have hm4 : √r - √b ≤ 4 := by
    have hle : √r ≤ 2 := Real.sqrt_le_iff.2 ⟨by norm_num, by linarith [hr.2]⟩
    linarith [Real.sqrt_nonneg b]
  set m := √r - √b with hmdef
  -- Both parts shrink, and one of them has at least its share of the whole.
  have hshare : 1 ≤ √a / 2 + √(1 - a / 4) := by
    have hu := Real.sq_sqrt ha.1
    have hv := Real.sq_sqrt (show 0 ≤ 1 - a / 4 by linarith [ha.2])
    have hcross : 0 ≤ √a / 2 * √(1 - a / 4) := by positivity
    refine le_of_sq_le_sq ?_ (by positivity)
    nlinarith
  have hcosine : m ^ 2 / 8 ≤ √(1 - b / 4) - √(1 - r / 4) := by
    have hsq : m ^ 2 ≤ r - b := sq_sqrt_sub_sqrt_le hb.1 hbr
    have hsub := sub_le_two_mul_sqrt_sub_sqrt (s := 1 - b / 4) (t := 1 - r / 4)
      (by linarith [hr.2]) (by linarith) (by linarith [hb.1])
    linarith
  have hsine : m ^ 2 / 4 ≤ m := by
    rw [pow_two, mul_div_assoc]
    exact mul_le_of_le_one_right hm (by linarith)
  have hfirst := mul_le_mul_of_nonneg_left hcosine (Real.sqrt_nonneg a)
  have hsecond := mul_le_mul_of_nonneg_left hsine (Real.sqrt_nonneg (1 - a / 4))
  have hwhole := mul_le_mul_of_nonneg_right hshare (show 0 ≤ m ^ 2 / 4 by positivity)
  rw [hsplit hb, hsplit hr]
  linarith [show √(1 - a / 4) * m = √(1 - a / 4) * √r - √(1 - a / 4) * √b by rw [hmdef, mul_sub]]

/-- The error of one of the products under the roots, from those of its factors. -/
lemma abs_product_sub_le {x y x' y' e : ℝ} (hy : y ∈ Set.Icc 0 4) (hx' : x' ∈ Set.Icc 0 4)
    (hx : |x - x'| ≤ e) (hyy : |y - y'| ≤ e) :
    |x * (1 - y / 4) - x' * (1 - y' / 4)| ≤ 2 * e := by
  have hsplit : x * (1 - y / 4) - x' * (1 - y' / 4) =
      (x - x') * (1 - y / 4) - x' / 4 * (y - y') := by ring
  have hfirst : |(x - x') * (1 - y / 4)| ≤ e := by
    rw [abs_mul, abs_of_nonneg (show 0 ≤ 1 - y / 4 by linarith [hy.2])]
    exact (mul_le_of_le_one_right (abs_nonneg _) (by linarith [hy.1])).trans hx
  have hsecond : |x' / 4 * (y - y')| ≤ e := by
    rw [abs_mul, abs_of_nonneg (show 0 ≤ x' / 4 by linarith [hx'.1])]
    exact (mul_le_of_le_one_left (abs_nonneg _) (by linarith [hx'.2])).trans hyy
  rw [hsplit]
  linarith [abs_sub ((x - x') * (1 - y / 4)) (x' / 4 * (y - y'))]

/-- Small errors of the squares are no more than their roots in the gap. -/
lemma gap_le_gap_add {a' b' e : ℝ} (he : 0 ≤ e) (ha : a ∈ Set.Icc 0 4) (hb : b ∈ Set.Icc 0 4)
    (ha' : a' ∈ Set.Icc 0 4) (hb' : b' ∈ Set.Icc 0 4) (hae : |a - a'| ≤ e ^ 2 / 2)
    (hbe : |b - b'| ≤ e ^ 2 / 2) : gap a b ≤ gap a' b' + 2 * e := by
  have hx := abs_product_sub_le hb ha' hae hbe
  have hy := abs_product_sub_le ha hb' hbe hae
  rw [mul_div_cancel₀ _ two_ne_zero] at hx hy
  have hplus := abs_le.1 (abs_sqrt_sub_sqrt_le he hx)
  have hminus := abs_le.1 (abs_sqrt_sub_sqrt_le he hy)
  rw [gap, gap]
  linarith [hplus.2, hminus.1]

end Gap

/-! ### Differences of chords as they are computed -/

lemma representable_one : Representable 1 := by
  rw [← Nat.cast_one]
  exact representable_natCast (by norm_num)

lemma within_quarter : Within 1 0.25 := ⟨by decide, by rw [value_quarter]; norm_num⟩

/-- A factor that is left of the whole. -/
lemma rest_of_quarter {b : Float} (hb : Within 4 b) (hb0 : 0 ≤ value b) :
    Within 1 (1.0 - 0.25 * b) ∧ 0 ≤ value (1.0 - 0.25 * b) ∧
      |value (1.0 - 0.25 * b) - (1 - value b / 4)| ≤ 2.5e-16 := by
  have hb4 := le_of_abs_le hb.abs_le
  push_cast at hb4
  have hquarter := within_quarter.rounds_mul hb (by decide)
  rw [value_quarter, one_div_mul_eq_div] at hquarter
  have hpart0 := hquarter.nonneg (by linarith)
  have hpart1 := hquarter.isRounding.le_of_le representable_one (by linarith)
  have hrest := within_one.rounds_sub (within_quarter.mul hb (by decide)) (by decide)
  rw [value_one] at hrest
  have hrest0 := hrest.nonneg (by linarith)
  have hrest1 := hrest.isRounding.le_of_le representable_one (by linarith)
  have hquarterError := hquarter.isRounding.abs_sub_le
  have hrestError := hrest.isRounding.abs_sub_le
  rw [abs_of_nonneg (show (0 : ℝ) ≤ value b / 4 by linarith)] at hquarterError
  rw [abs_of_nonneg (show 0 ≤ 1 - value (0.25 * b) by linarith)] at hrestError
  refine ⟨⟨hrest.isFinite, ?_⟩, hrest0, ?_⟩
  · rw [abs_of_nonneg hrest0, Nat.cast_one]
    exact hrest1
  · rw [abs_le] at *
    constructor <;> linarith

/-- One of the two products under the roots. -/
lemma product_of_rest {a b : Float} (ha : Within 4 a) (ha0 : 0 ≤ value a) (hb : Within 4 b)
    (hb0 : 0 ≤ value b) :
    Within 4 (a * (1.0 - 0.25 * b)) ∧ 0 ≤ value (a * (1.0 - 0.25 * b)) ∧
      |value (a * (1.0 - 0.25 * b)) - value a * (1 - value b / 4)| ≤ 1.6e-15 := by
  obtain ⟨hrest, hrest0, herror⟩ := rest_of_quarter hb hb0
  have ha4 := le_of_abs_le ha.abs_le
  have hrest1 := le_of_abs_le hrest.abs_le
  push_cast at ha4 hrest1
  have hmul := ha.rounds_mul hrest (by decide)
  have hexact0 := mul_nonneg ha0 hrest0
  have hmulError := hmul.isRounding.abs_sub_le
  have hle := (mul_le_of_le_one_right ha0 hrest1).trans ha4
  refine ⟨(ha.mul hrest (by decide)).mono (by decide), hmul.nonneg hexact0, ?_⟩
  have hscaled :
      |value a * value (1.0 - 0.25 * b) - value a * (1 - value b / 4)| ≤ 4 * 2.5e-16 := by
    rw [← mul_sub, abs_mul, abs_of_nonneg ha0]
    exact mul_le_mul ha4 herror (abs_nonneg _) (by norm_num)
  rw [abs_of_nonneg hexact0] at hmulError
  rw [abs_le] at *
  constructor <;> linarith

/-- The root of a rounded number is below its root by a little, at most. -/
lemma sqrt_le_of_rounds {r : ℝ} {x : Float} (h : Rounds r x) (hr : 0 ≤ r) (h16 : r ≤ 16) :
    Within 5 x.sqrt ∧ 0 ≤ value x.sqrt ∧ √r ≤ value x.sqrt + 1e-15 := by
  have hx0 := h.nonneg hr
  have herror := (abs_le.1 h.isRounding.abs_sub_le).1
  rw [abs_of_nonneg hr] at herror
  have hroot4 : √r ≤ 4 := Real.sqrt_le_iff.2 ⟨by norm_num, by linarith⟩
  have hsqrt := rounds_sqrt h.isFinite hx0
  have hsqrtError := (abs_le.1 hsqrt.isRounding.abs_sub_le).1
  rw [abs_of_nonneg (Real.sqrt_nonneg _)] at hsqrtError
  -- The relative error carries over to the root, which is why it is not lost in a root of its own.
  have hscaled : √r * (1 - 1.2e-16) ≤ √(value x) + 1e-30 := by
    have hpoint : √r * (1 - 1.2e-16) ≤ √(r * (1 - 1.2e-16)) := by
      rw [Real.sqrt_mul hr]
      refine mul_le_mul_of_nonneg_left (Real.le_sqrt_of_sq_le ?_) (Real.sqrt_nonneg _)
      norm_num
    refine hpoint.trans (sqrt_le_sqrt_add (by norm_num) ?_)
    linarith
  have hx5 : |√(value x)| ≤ (5 : ℕ) := by
    have herror := (abs_le.1 h.isRounding.abs_sub_le).2
    rw [abs_of_nonneg hr] at herror
    rw [abs_of_nonneg (Real.sqrt_nonneg _)]
    exact Real.sqrt_le_iff.2 ⟨by norm_num, by push_cast; linarith⟩
  refine ⟨hsqrt.within (by decide) hx5, hsqrt.nonneg (Real.sqrt_nonneg _), ?_⟩
  linarith

/-- What is computed from the two products. -/
lemma difference_of_products {x y : Float} (hx : Within 4 x) (hx0 : 0 ≤ value x) (hy : Within 4 y)
    (hy0 : 0 ≤ value y) :
    (x + y - 2.0 * (x * y).sqrt).isFinite ∧
      value (x + y - 2.0 * (x * y).sqrt) ≤ (√(value x) - √(value y)) ^ 2 + 1e-14 := by
  have hx4 := le_of_abs_le hx.abs_le
  have hy4 := le_of_abs_le hy.abs_le
  push_cast at hx4 hy4
  have hadd := hx.rounds_add hy (by decide)
  have hmul := hx.rounds_mul hy (by decide)
  obtain ⟨hroot, hroot0, hrootError⟩ := sqrt_le_of_rounds hmul (mul_nonneg hx0 hy0)
    (by nlinarith)
  have htwice := within_two.rounds_mul hroot (by decide)
  have hsub := (hx.add hy (by decide)).rounds_sub (within_two.mul hroot (by decide)) (by decide)
  refine ⟨hsub.isFinite, ?_⟩
  have hroot5 := le_of_abs_le hroot.abs_le
  have haddError := hadd.isRounding.abs_sub_le
  have htwiceError := htwice.isRounding.abs_sub_le
  have hsubError := hsub.isRounding.abs_sub_le
  have hdiff : |value (x + y) - value (2.0 * (x * y).sqrt)| ≤ 18 := by
    refine (abs_sub _ _).trans ?_
    have hsum := (hx.add hy (by decide)).abs_le
    have htwice := (within_two.mul hroot (by decide)).abs_le
    push_cast at hsum htwice
    linarith
  rw [value_two] at htwiceError
  rw [abs_of_nonneg (add_nonneg hx0 hy0)] at haddError
  rw [abs_of_nonneg (mul_nonneg zero_le_two hroot0)] at htwiceError
  rw [sub_sq, Real.sq_sqrt hx0, Real.sq_sqrt hy0, mul_assoc, ← Real.sqrt_mul hx0]
  push_cast at *
  linarith [(abs_le.1 haddError).2, (abs_le.1 htwiceError).1, (abs_le.1 hsubError).2]

/-- The computed square is nearly that of the gap, at most. -/
lemma sqrt_difference_le {a b : Float} (ha : Within 4 a) (ha0 : 0 ≤ value a) (hb : Within 4 b)
    (hb0 : 0 ≤ value b) (h : value b ≤ value a) :
    let x := a * (1.0 - 0.25 * b)
    let y := b * (1.0 - 0.25 * a)
    (x + y - 2.0 * (x * y).sqrt).isFinite ∧
      √(max (value (x + y - 2.0 * (x * y).sqrt)) 0) ≤ gap (value a) (value b) + 2e-7 := by
  intro x y
  obtain ⟨hxw, hx0, hx⟩ := product_of_rest ha ha0 hb hb0
  obtain ⟨hyw, hy0, hy⟩ := product_of_rest hb hb0 ha ha0
  obtain ⟨hfinite, hdiff⟩ := difference_of_products hxw hx0 hyw hy0
  refine ⟨hfinite, ?_⟩
  have hroot : √(max (value (x + y - 2.0 * (x * y).sqrt)) 0) ≤
      |√(value x) - √(value y)| + 1e-7 := by
    rw [← Real.sqrt_sq_eq_abs]
    refine sqrt_le_sqrt_add (by norm_num) (max_le ?_ (by positivity))
    linarith
  have hgap : |√(value x) - √(value y)| ≤ gap (value a) (value b) + 8e-8 := by
    have hnonneg := gap_nonneg h
    have hxr := abs_le.1 (abs_sqrt_sub_sqrt_le (e := 4e-8) (by norm_num) (hx.trans (by norm_num)))
    have hyr := abs_le.1 (abs_sqrt_sub_sqrt_le (e := 4e-8) (by norm_num) (hy.trans (by norm_num)))
    rw [gap] at *
    rw [abs_le]
    constructor <;> linarith [hxr.1, hxr.2, hyr.1, hyr.2]
  linarith

namespace Chord

lemma toBits_le_of_le_straight {c : Chord} (h : zero ≤ c) (hs : c ≤ straight) :
    c.len2.toBits.toNat ≤ 0x4010000000000000 := by
  rcases special_or_distance c with rfl | rfl | ⟨hbits, -⟩
  · exact absurd h (by decide)
  · exact absurd hs (by decide)
  · exact hbits

/-- A distance is a number from zero to four. -/
lemma within_of_le_straight {c : Chord} (h : zero ≤ c) (hs : c ≤ straight) :
    Within 4 c.len2 ∧ 0 ≤ value c.len2 := by
  have hfinite : c.len2.isFinite :=
    isFinite_of_toBits_lt ((toBits_le_of_le_straight h hs).trans_lt (by decide))
  have h0 := value_nonneg (toBits_le_infinityWord h)
  have h4 : value c.len2 ≤ 4 := by
    rw [← value_four, ← le_iff_value hfinite (by decide)]
    exact (len2_le_iff (c := straight) (by decide)).2 hs
  refine ⟨⟨hfinite, ?_⟩, h0⟩
  rw [abs_of_nonneg h0]
  exact_mod_cast h4

lemma value_mem {c : Chord} (h : zero ≤ c) (hs : c ≤ straight) : value c.len2 ∈ Set.Icc 0 4 := by
  obtain ⟨hw, h0⟩ := within_of_le_straight h hs
  exact ⟨h0, by exact_mod_cast le_of_abs_le hw.abs_le⟩

/-- Distances are compared by their squares. -/
lemma le_iff_value_len2 {c d : Chord} (hc : zero ≤ c) (hcs : c ≤ straight) (hd : zero ≤ d)
    (hds : d ≤ straight) : c ≤ d ↔ value c.len2 ≤ value d.len2 := by
  rw [← len2_le_iff hd, le_iff_value (within_of_le_straight hc hcs).1.isFinite
    (within_of_le_straight hd hds).1.isFinite]

/-- The chord of a finite number that is not below zero. -/
lemma value_ofLen2 {x : Float} (hx : x.isFinite) (h : 0 ≤ value x) :
    value (ofLen2 x).len2 = min (value x) 4 := by
  have hneg : ¬ x < 0.0 := by
    rw [lt_iff_value hx (by decide), value_zero]
    exact not_lt.2 h
  simp only [ofLen2]
  rw [dif_neg hneg]
  split
  · rename_i hzero
    rw [beq_iff_value hx (by decide), value_zero] at hzero
    rw [hzero]
    show value 0.0 = _
    rw [value_zero, min_eq_left (by norm_num)]
  · show value (minNum x 4.0) = _
    simp only [minNum]
    rw [show (4.0 : Float).isNaN = false by decide, Bool.or_false]
    by_cases hlt : x < 4.0
    · rw [if_pos (decide_eq_true hlt), min_eq_left]
      rw [lt_iff_value hx (by decide), value_four] at hlt
      exact hlt.le
    · rw [if_neg (by rwa [decide_eq_true_iff]), value_four, min_eq_right]
      rw [lt_iff_value hx (by decide), value_four, not_lt] at hlt
      exact hlt

lemma value_maxNum_zero {x : Float} (hx : x.isFinite) :
    (maxNum x 0.0).isFinite ∧ value (maxNum x 0.0) = max (value x) 0 := by
  simp only [maxNum]
  rw [show (0.0 : Float).isNaN = false by decide, Bool.or_false]
  by_cases hlt : 0.0 < x
  · rw [if_pos (decide_eq_true hlt), max_eq_left]
    · exact ⟨hx, rfl⟩
    · rw [lt_iff_value (by decide) hx, value_zero] at hlt
      exact hlt.le
  · rw [if_neg (by rwa [decide_eq_true_iff]), value_zero, max_eq_right]
    · exact ⟨by decide, rfl⟩
    · rwa [lt_iff_value (by decide) hx, value_zero, not_lt] at hlt

/-- The difference of two chords is nearly the gap between them, at most. -/
theorem sqrt_value_sub_le {c d : Chord} (hd : zero ≤ d) (hdc : d < c) (hc : c ≤ straight) :
    √(value (c - d).len2) ≤ gap (value c.len2) (value d.len2) + 2e-7 := by
  have hlt := hdc
  rw [← not_le, le_iff_value_len2 (hd.trans hdc.le) hc hd (hdc.le.trans hc), not_le] at hlt
  obtain ⟨hcw, hc0⟩ := within_of_le_straight (hd.trans hdc.le) hc
  obtain ⟨hdw, hd0⟩ := within_of_le_straight hd (hdc.le.trans hc)
  have hspecial := isSpecial_eq_false (toBits_le_of_le_straight (hd.trans hdc.le) hc)
  show √(value (sub c d).len2) ≤ _
  simp only [sub]
  rw [hspecial, Bool.or_false]
  by_cases hle : d.len2 ≤ 0.0
  · rw [if_pos (decide_eq_true hle)]
    rw [le_iff_value hdw.isFinite (by decide), value_zero] at hle
    rw [le_antisymm hle hd0, gap_zero]
    linarith
  · have hcd : ¬ c.len2 ≤ d.len2 := by
      rw [len2_le_iff hd]
      exact not_le.2 hdc
    rw [if_neg (by rwa [decide_eq_true_iff]), if_neg hcd]
    obtain ⟨hfinite, hroot⟩ := sqrt_difference_le hcw hc0 hdw hd0 hlt.le
    obtain ⟨hmax, hvalue⟩ := value_maxNum_zero hfinite
    rw [value_ofLen2 hmax (hvalue ▸ le_max_right _ _), hvalue]
    exact (Real.sqrt_le_sqrt (min_le_left _ _)).trans hroot

/-- Nothing is left when no less is taken away. -/
lemma sub_eq_zero {c d : Chord} (hc : zero ≤ c) (hcd : c ≤ d) (hd : d ≤ straight) :
    c - d = zero := by
  have hspecial := isSpecial_eq_false (toBits_le_of_le_straight hc (hcd.trans hd))
  show sub c d = zero
  simp only [sub]
  rw [hspecial, Bool.or_false, if_pos ((len2_le_iff (hc.trans hcd)).2 hcd)]
  by_cases hle : d.len2 ≤ 0.0
  · rw [if_pos (decide_eq_true hle)]
    exact le_antisymm (hcd.trans ((len2_le_iff (c := zero) le_rfl).1 hle)) hc
  · rw [if_neg (by rwa [decide_eq_true_iff])]

lemma value_between_mem (p q : Point) : value (between p q).len2 ∈ Set.Icc 0 4 :=
  value_mem (zero_le_between p q) (between_le_straight p q)

/-- The distance between two points is nearly that between their directions. -/
lemma abs_between_sub_direction_le {p q : Point} (hp : p.isUnit) (hq : q.isUnit) :
    ‖p.direction - q.direction‖ ^ 2 ∈ Set.Icc 0 4 ∧
      |value (between p q).len2 - ‖p.direction - q.direction‖ ^ 2| ≤ 4.2e-12 := by
  have hmem : ‖p.direction - q.direction‖ ^ 2 ∈ Set.Icc (0 : ℝ) 4 := by
    have hle := norm_sub_le p.direction q.direction
    rw [Point.norm_direction hp, Point.norm_direction hq] at hle
    refine ⟨sq_nonneg _, ?_⟩
    nlinarith [norm_nonneg (p.direction - q.direction)]
  refine ⟨hmem, ?_⟩
  have hsub := (Point.within_of_isUnit hp).sub (Point.within_of_isUnit hq) (by decide)
  have hfinite : (p.chord2 q).isFinite := (hsub.dot hsub (by decide)).isFinite
  have hnonneg : 0 ≤ value (p.chord2 q) := by
    rw [← value_zero, ← not_lt, ← lt_iff_value hfinite (by decide)]
    exact p.chord2_not_neg q
  have herror := Point.abs_chord2_sub_direction_le hp hq
  rw [between, value_ofLen2 hfinite hnonneg, ← min_eq_left hmem.2]
  exact (abs_min_sub_min_le_max _ _ _ _).trans (max_le herror (by norm_num))

/-- **The triangle inequality of computed distances**: it fails by little. -/
theorem gap_between_le {c p q : Point} (hc : c.isUnit) (hp : p.isUnit) (hq : q.isUnit) :
    gap (value (between c p).len2) (value (between c q).len2) ≤
      √(value (between p q).len2) + 9e-6 := by
  obtain ⟨hap, hape⟩ := abs_between_sub_direction_le hc hp
  obtain ⟨haq, haqe⟩ := abs_between_sub_direction_le hc hq
  obtain ⟨-, hpqe⟩ := abs_between_sub_direction_le hp hq
  have hnear := gap_le_gap_add (e := 3e-6) (by norm_num) (value_between_mem c p)
    (value_between_mem c q) hap haq (hape.trans (by norm_num)) (haqe.trans (by norm_num))
  have htriangle := gap_le_norm_sub (Point.norm_direction hc) (Point.norm_direction hp)
    (Point.norm_direction hq)
  have hroot : ‖p.direction - q.direction‖ ≤ √(value (between p q).len2) + 3e-6 := by
    rw [← Real.sqrt_sq (norm_nonneg (p.direction - q.direction))]
    refine sqrt_le_sqrt_add (by norm_num) ?_
    linarith [(abs_le.1 hpqe).1]
  linarith

end Chord

namespace Cap

/-- **Distances to caps are lower bounds, nearly.**  The bound on the distance from `p` to a cap is
a distance, and it exceeds the distance from `p` to a point `q` of the cap by a hundred thousandth
at most, in terms of the lengths of chords.  If `p` is in the cap too, or if `q` is well inside, it
does not exceed it at all. -/
theorem distanceToPoint_sound {c : Cap} {p q : Point} (hc : c.center.isUnit) (hp : p.isUnit)
    (hq : q.isUnit) (hradius : c.radius ≤ Chord.straight) (h : c.contains q) :
    Chord.zero ≤ c.distanceToPoint p ∧ c.distanceToPoint p ≤ Chord.straight ∧
      √(value (c.distanceToPoint p).len2) ≤ √(value (Chord.between p q).len2) + 1e-5 ∧
      (c.contains p ∨
          √(value (Chord.between c.center q).len2) + 1e-2 ≤ √(value c.radius.len2) →
        c.distanceToPoint p ≤ Chord.between p q) := by
  have hqr : Chord.between c.center q ≤ c.radius := of_decide_eq_true h
  have hzero := (Chord.zero_le_between c.center q).trans hqr
  have hdistance : c.distanceToPoint p = Chord.between c.center p - c.radius := by
    rw [distanceToPoint, reduce, isEmpty_eq_false hzero, if_neg Bool.false_ne_true]
  have hp0 := Chord.zero_le_between c.center p
  have hp4 := Chord.between_le_straight c.center p
  have hd0 : Chord.zero ≤ c.distanceToPoint p := zero_le_reduce c hp0
  have hd4 : c.distanceToPoint p ≤ Chord.straight := by
    rw [hdistance]
    exact Chord.lt_infinity_iff.1 (Chord.sub_lt_infinity (Chord.lt_infinity_iff.2 hp4) _)
  refine ⟨hd0, hd4, ?_⟩
  rcases le_or_gt (Chord.between c.center p) c.radius with hle | hlt
  · -- Inside, nothing is left.
    rw [hdistance, Chord.sub_eq_zero hp0 hle hradius]
    refine ⟨?_, fun _ => Chord.zero_le_between p q⟩
    show √(value 0.0) ≤ _
    rw [value_zero, Real.sqrt_zero]
    positivity
  · -- Outside, the bound is the gap to the border, which is no more than the gap to `q`.
    have hsub := Chord.sqrt_value_sub_le hzero hlt hp4
    rw [← hdistance] at hsub
    have hpm := Chord.value_between_mem c.center p
    have hqm := Chord.value_between_mem c.center q
    have hrm := Chord.value_mem hzero hradius
    have hbr : value (Chord.between c.center q).len2 ≤ value c.radius.len2 :=
      (Chord.le_iff_value_len2 (Chord.zero_le_between _ _) (Chord.between_le_straight _ _) hzero
        hradius).1 hqr
    have htriangle := Chord.gap_between_le hc hp hq
    refine ⟨by linarith [gap_le_gap hpm hbr], fun hinside => ?_⟩
    have hmargin := hinside.resolve_left fun hcp => not_le.2 hlt (of_decide_eq_true hcp)
    have hless := gap_add_sq_le hpm hqm hrm hbr
    have hsq : (1e-2 : ℝ) ^ 2 ≤
        (√(value c.radius.len2) - √(value (Chord.between c.center q).len2)) ^ 2 :=
      pow_le_pow_left₀ (by norm_num) (by linarith) 2
    rw [Chord.le_iff_value_len2 hd0 hd4 (Chord.zero_le_between p q) (Chord.between_le_straight p q)]
    refine (Real.sqrt_le_sqrt_iff (Chord.value_between_mem p q).1).1 ?_
    linarith

/-- The half of the sphere around the north pole. -/
def northernHalf : Cap := ⟨Point.north, Chord.right⟩

/-- A point south of the equator. -/
def south : Point := ⟨0.6, 0.0, -0.8⟩

/-- Seen from the south, the northern half is no farther than the pole. -/
theorem distanceToPoint_sound_northernHalf :
    northernHalf.center.isUnit ∧ south.isUnit ∧ Point.north.isUnit ∧
      northernHalf.radius ≤ Chord.straight ∧ northernHalf.contains Point.north ∧
      Chord.zero ≤ northernHalf.distanceToPoint south ∧
      northernHalf.distanceToPoint south ≤
        Chord.between south Point.north := by
  have hnorth : Point.north.isUnit := by decide +kernel
  have hsouth : south.isUnit := by decide +kernel
  have hradius : northernHalf.radius ≤ Chord.straight := by decide
  have hcontains : northernHalf.contains Point.north := by decide +kernel
  obtain ⟨hzero, -, -, hle⟩ := distanceToPoint_sound (c := northernHalf) (p := south)
    (q := Point.north) hnorth hsouth hnorth hradius hcontains
  refine ⟨hnorth, hsouth, hnorth, hradius, hcontains, hzero, hle (Or.inr ?_)⟩
  have hcenter : Chord.between northernHalf.center Point.north = Chord.zero := by decide +kernel
  rw [hcenter]
  show √(value 0.0) + 1e-2 ≤ √(value 2.0)
  rw [value_zero, value_two, Real.sqrt_zero, zero_add]
  exact Real.le_sqrt_of_sq_le (by norm_num)

/-- Just outside the border of a cap the squares nearly cancel, and what is left of them is mostly
the error of rounding: the bound is greater than the distance to the border. -/
theorem exists_between_lt_distanceToPoint :
    ∃ (c : Cap) (p q : Point), c.center.isUnit ∧ p.isUnit ∧ q.isUnit ∧ Chord.zero ≤ c.radius ∧
      c.radius ≤ Chord.straight ∧ c.contains q ∧ Chord.between p q < c.distanceToPoint p := by
  refine ⟨⟨Point.north, Chord.between Point.north ⟨0.8, 0.0, 0.6⟩⟩, ⟨0.8000000000000005, 0.0, 0.6⟩,
    ⟨0.8, 0.0, 0.6⟩, ?_⟩
  decide +kernel

end Cap

end SphereSearch
