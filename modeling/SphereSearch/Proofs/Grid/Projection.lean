import SphereSearch.Grid.Cell
import SphereSearch.Proofs.Grid.Squares
import SphereSearch.Proofs.Number.Whole

/-!
# Points in their cells

A point is projected in two ways.  To find its leaf, the coordinates on the face that it meets are
computed from magnitudes; to test a cell, the coordinates on a given face from the signed numbers.
On the face that the point meets the two are the same, bit by bit, and lie between `-1` and `1`
(`Cube.project_spec`).  The step of the grid is found with three roundings
(`Cube.value_mem_gridStep`), which the margin of the test outweighs; so each point is in its leaf
and in the ancestors of it (`Cell.contains_ofPoint`).
-/

open Float.Model Float.Model.UnpackedFloat

namespace SphereSearch

open Binary64

lemma Cube.between_one {u : Float} (hu : Within 1 u) : -1.0 ≤ u ∧ u ≤ 1.0 := by
  obtain ⟨hlow, hhigh⟩ := abs_le.1 hu.abs_le
  obtain ⟨hfinite, hvalue⟩ := value_neg (x := 1.0) (by decide)
  rw [value_one] at hvalue
  rw [le_iff_value hfinite hu.isFinite, le_iff_value hu.isFinite (by decide), hvalue, value_one]
  push_cast at hlow hhigh
  exact ⟨hlow, hhigh⟩

/-! ### Faces -/

namespace Cube

variable {a m : Float}

/-- A quotient by a number of greater magnitude is at most one. -/
lemma within_div (ha : a.isFinite) (hm : m.isFinite) (hpos : 0 < |value m|)
    (hle : |value a| ≤ |value m|) : Within 1 (a / m) := by
  have hquotient : |value a / value m| ≤ (1 : ℕ) := by
    rw [abs_div, Nat.cast_one]
    exact (div_le_one hpos).2 hle
  have hrounds := rounds_div ha hm (abs_pos.1 hpos)
    (Or.inr (hquotient.trans (natCast_le_two_pow_1023 (by decide))))
  exact hrounds.within (by decide) hquotient

/-- On the side of the cube where the axis is positive, its magnitude is the coordinate itself. -/
lemma div_abs_of_pos (h : 0.0 < m) : a / m.abs = a / m := by rw [magnitude_of_pos h]

/-- On the other side, the sign of the axis may be taken by the other coordinate. -/
lemma div_abs_of_neg (ha : a.isFinite) (hm : m.isFinite) (h : m < 0.0) : a / m.abs = -a / m := by
  rw [magnitude_of_neg h, neg_div_eq_div_neg ha hm]

lemma neg_div_abs_of_neg (ha : a.isFinite) (hm : m.isFinite) (h : m < 0.0) :
    -a / m.abs = a / m := by
  rw [magnitude_of_neg h, neg_div_neg_eq_div ha hm]

lemma within_neg_div (ha : a.isFinite) (hm : m.isFinite) (hpos : 0 < |value m|)
    (hle : |value a| ≤ |value m|) : Within 1 (-a / m) := by
  obtain ⟨hfinite, hvalue⟩ := value_neg ha
  refine within_div hfinite hm hpos ?_
  rwa [hvalue, abs_neg]

lemma abs_ge_abs_iff (ha : a.isFinite) (hm : m.isFinite) :
    m.abs ≥ a.abs ↔ |value a| ≤ |value m| := by
  rw [ge_iff_le, le_iff_value (value_abs ha).1 (value_abs hm).1, (value_abs ha).2, (value_abs hm).2]

lemma zero_lt_iff_value (hm : m.isFinite) : 0.0 < m ↔ 0 < value m := by
  rw [lt_iff_value (by decide) hm, value_zero]

lemma lt_zero_iff_value (hm : m.isFinite) : m < 0.0 ↔ value m < 0 := by
  rw [lt_iff_value hm (by decide), value_zero]

/-- Which of the two faces of an axis is met is told by the sign. -/
lemma sides (hm : m.isFinite) (hpos : 0 < |value m|) :
    (0.0 < m ∧ m ≥ 0.0) ∨ (m < 0.0 ∧ ¬ m ≥ 0.0) := by
  rw [zero_lt_iff_value hm, lt_zero_iff_value hm, ge_iff_le, le_iff_value (by decide) hm,
    value_zero, not_le]
  rcases lt_or_gt_of_ne (abs_pos.1 hpos) with hneg | hgt
  · exact Or.inr ⟨hneg, hneg⟩
  · exact Or.inl ⟨hgt, hgt.le⟩

/-- A magnitude that is not the greatest of three is not greater than that of the other two. -/
lemma le_of_not_greatest {r s t : ℝ} (h : ¬ (s ≤ r ∧ t ≤ r)) (hle : t ≤ s) : r ≤ s := by
  by_contra hlt
  exact h ⟨(not_le.1 hlt).le, hle.trans (not_le.1 hlt).le⟩

/-- A direction has finite coordinates that are not all zero. -/
structure Directed (p : Point) : Prop where
  x : p.x.isFinite
  y : p.y.isFinite
  z : p.z.isFinite
  ne : ¬ (p.x == 0.0 && p.y == 0.0 && p.z == 0.0)

namespace Directed

variable {p : Point} (h : Directed p)

include h

/-- Where no coordinate is greater than `r` in magnitude, `r` is not zero. -/
lemma pos {r : ℝ} (hx : |value p.x| ≤ r) (hy : |value p.y| ≤ r) (hz : |value p.z| ≤ r) :
    0 < r := by
  have hzero : ∀ {a : Float}, a.isFinite → |value a| ≤ 0 → (a == 0.0) = true := by
    intro a ha hle
    rw [beq_iff_value ha (by decide), value_zero]
    exact abs_nonpos_iff.1 hle
  by_contra hr
  have hr := not_lt.1 hr
  refine h.ne ?_
  rw [hzero h.x (hx.trans hr), hzero h.y (hy.trans hr), hzero h.z (hz.trans hr)]
  rfl

/-- **Both projections agree** on the face that a direction meets, and give coordinates there. -/
theorem project_spec : projectTo? (project p).face p = some ((project p).u, (project p).v) ∧
    Within 1 (project p).u ∧ Within 1 (project p).v := by
  have hx := h.x
  have hy := h.y
  have hz := h.z
  simp only [project, Bool.and_eq_true, decide_eq_true_eq, abs_ge_abs_iff, hx, hy, hz]
  by_cases hfirst : |value p.y| ≤ |value p.x| ∧ |value p.z| ≤ |value p.x|
  · obtain ⟨hyx, hzx⟩ := hfirst
    have hpos := h.pos le_rfl hyx hzx
    rw [if_pos ⟨hyx, hzx⟩]
    rcases sides hx hpos with ⟨hside, hge⟩ | ⟨hside, hnot⟩
    · rw [if_pos hge, div_abs_of_pos hside, div_abs_of_pos hside]
      exact ⟨if_pos hside, within_neg_div hz hx hpos hzx, within_div hy hx hpos hyx⟩
    · rw [if_neg hnot, div_abs_of_neg hz hx hside, div_abs_of_neg hy hx hside]
      exact ⟨if_pos hside, within_neg_div hz hx hpos hzx, within_neg_div hy hx hpos hyx⟩
  · rw [if_neg hfirst]
    by_cases hzy : |value p.z| ≤ |value p.y|
    · have hxy := le_of_not_greatest hfirst hzy
      have hpos := h.pos hxy le_rfl hzy
      rw [if_pos hzy]
      rcases sides hy hpos with ⟨hside, hge⟩ | ⟨hside, hnot⟩
      · rw [if_pos hge, div_abs_of_pos hside, div_abs_of_pos hside]
        exact ⟨if_pos hside, within_div hx hy hpos hxy, within_neg_div hz hy hpos hzy⟩
      · rw [if_neg hnot, div_abs_of_neg hx hy hside, div_abs_of_neg hz hy hside]
        exact ⟨if_pos hside, within_neg_div hx hy hpos hxy, within_neg_div hz hy hpos hzy⟩
    · have hyz : |value p.y| ≤ |value p.z| := (not_le.1 hzy).le
      have hxz := le_of_not_greatest (fun hgreatest => hfirst hgreatest.symm) hyz
      have hpos := h.pos hxz hyz le_rfl
      rw [if_neg hzy]
      rcases sides hz hpos with ⟨hside, hge⟩ | ⟨hside, hnot⟩
      · rw [if_pos hge, div_abs_of_pos hside, div_abs_of_pos hside]
        exact ⟨if_pos hside, within_div hx hz hpos hxz, within_div hy hz hpos hyz⟩
      · rw [if_neg hnot, neg_div_abs_of_neg hx hz hside, div_abs_of_neg hy hz hside]
        exact ⟨if_pos hside, within_div hx hz hpos hxz, within_neg_div hy hz hpos hyz⟩

end Directed

/-! ### Grid lines and steps -/

lemma value_gridSize : value 1073741824.0 = 2 ^ 30 := by
  rw [value_of_rational (show rational 1073741824.0 = 2 ^ 30 by decide +kernel)]
  norm_num

/-- Multiples of the width of a grid step are doubles. -/
lemma representable_steps {k : ℤ} (hk : |k| < 2 ^ 53) : Representable (k / 2 ^ 29) := by
  refine ⟨k, -29, hk, by decide, ?_⟩
  rw [zpow_neg, div_eq_mul_inv]
  norm_cast

/-- Grid lines are computed without an error. -/
lemma value_gridLine {n : ℕ} (hn : n ≤ 2 ^ 30) :
    (gridLine n).isFinite ∧ value (gridLine n) = n / 2 ^ 29 - 1 := by
  have hle : (n : ℝ) ≤ 2 ^ 30 := by exact_mod_cast hn
  obtain ⟨hfinite, hvalue⟩ := value_ofNat (show n < 2 ^ 53 by omega)
  have hdouble := within_two.rounds_mul ⟨hfinite, by rw [hvalue, Nat.abs_cast]⟩ (by omega)
  rw [value_two, hvalue, show (2 : ℝ) * n = (2 * n : ℕ) by push_cast; rfl] at hdouble
  have hdoubled := hdouble.eq (representable_natCast (by omega))
  have hsteps : value (2.0 * Float.ofNat n) / value 1073741824.0 = (n : ℤ) / 2 ^ 29 := by
    rw [hdoubled, value_gridSize]
    push_cast
    ring
  have hbound : |((n : ℤ) / 2 ^ 29 : ℝ)| ≤ (2 : ℕ) := by
    rw [Int.cast_natCast, abs_of_nonneg (by positivity), div_le_iff₀ (by positivity)]
    push_cast
    linarith
  have hdiv := rounds_div hdouble.isFinite (y := 1073741824.0) (by decide)
    (by rw [value_gridSize]; positivity)
    (Or.inr (hsteps ▸ hbound.trans (natCast_le_two_pow_1023 (by decide))))
  rw [hsteps] at hdiv
  have hdivided := hdiv.eq (representable_steps (by rw [Nat.abs_cast]; omega))
  have hsub := (hdiv.within (by decide) hbound).rounds_sub within_one (by decide)
  rw [hdivided, value_one, show ((n : ℤ) / 2 ^ 29 - 1 : ℝ) = ((n - 2 ^ 29 : ℤ) : ℝ) / 2 ^ 29 by
    push_cast
    ring] at hsub
  refine ⟨hsub.isFinite, ?_⟩
  rw [gridLine, hsub.eq (representable_steps (by rw [abs_lt]; omega))]
  push_cast
  ring

/-- The whole part of a number that is not negative and fits a word. -/
lemma toNat_toUInt32 {x : Float} (hx : x.isFinite) (hnonneg : 0 ≤ value x)
    (hlt : value x < 2 ^ 32) : x.toUInt32.toNat = ⌊value x⌋₊ := by
  show x.toModel.unpack.toUInt32.toNat = _
  rcases finite_cases hx with ⟨s, hu⟩ | ⟨s, m, e, hm, hu, hc, -⟩
  · rw [value, hu]
    show 0 = ⌊(0 : ℝ)⌋₊
    rw [Nat.floor_zero]
  · rw [value, hu, unpackedValue_finite] at hnonneg hlt
    have hpos : 0 < (m : ℝ) * 2 ^ e := by positivity
    -- Neither is the sign negative nor the exponent positive: such numbers are out of range.
    obtain rfl : s = .positive := by
      cases s with
      | positive => rfl
      | negative =>
        rw [show signValue .negative = -1 from rfl] at hnonneg
        linarith
    rw [show signValue .positive = 1 from rfl, one_mul] at hlt
    have hexponent : e ≤ 0 := by
      by_contra hgt
      have hgt : 0 < e := not_le.1 hgt
      have hfull : (2 : ℝ) ^ 52 ≤ m := by exact_mod_cast hc.full.resolve_left (by omega)
      have hgreat : (2 : ℝ) ^ 52 * 1 ≤ m * 2 ^ e :=
        mul_le_mul hfull (one_le_zpow₀ one_le_two hgt.le) zero_le_one (Nat.cast_nonneg m)
      linarith
    obtain ⟨k, rfl⟩ : ∃ k : ℕ, e = -(k : ℤ) := ⟨(-e).toNat, by omega⟩
    have hfloor : ⌊(m : ℝ) * 2 ^ (-(k : ℤ))⌋₊ = m / 2 ^ k := by
      rw [zpow_neg, zpow_natCast, ← div_eq_mul_inv, ← Nat.cast_ofNat, ← Nat.cast_pow,
        Nat.floor_div_eq_div]
    have hle : m / 2 ^ k < 2 ^ 32 := by
      rw [← hfloor, Nat.floor_lt hpos.le]
      exact_mod_cast hlt
    rw [value, hu, unpackedValue_finite, show signValue .positive = 1 from rfl, one_mul, hfloor]
    show (UInt32.ofNatClamp (roundToInt .positive m (-(k : ℤ))).toNat).toNat = _
    rw [roundToInt_positive, Int.toNat_natCast, UInt32.ofNatClamp, dif_pos hle,
      UInt32.toNat_ofNatLT]

/-- A coordinate in steps from the edge of the face, before it is cut to a step. -/
def inSteps (u : Float) : Float := 0.5 * (u + 1.0) * 1073741824.0

/-- The greatest error of the three roundings that a coordinate in steps takes. -/
lemma value_inSteps {u : Float} (hu : Within 1 u) :
    (inSteps u).isFinite ∧ 0 ≤ value (inSteps u) ∧ value (inSteps u) ≤ 2 ^ 30 ∧
      |value (inSteps u) / 2 ^ 29 - (value u + 1)| ≤ 7.3e-16 := by
  obtain ⟨hlow, hhigh⟩ := abs_le.1 hu.abs_le
  push_cast at hlow hhigh
  have hhalf : value 0.5 = 1 / 2 := by
    rw [value_of_rational (show rational 0.5 = 1 / 2 by decide +kernel)]
    norm_num
  have hhalfWithin : Within 1 0.5 := ⟨by decide, by rw [hhalf]; norm_num [abs_of_pos]⟩
  have hsizeWithin : Within (2 ^ 30) 1073741824.0 :=
    ⟨by decide, by rw [value_gridSize]; norm_num⟩
  -- The sum is at most two, its half at most one, and the result at most the number of steps.
  have hsum := hu.rounds_add within_one (by decide)
  rw [value_one] at hsum
  obtain ⟨hsumWithin, hsumNonneg, hsumLe, hsumError⟩ := hsum.upTo (n := 2) (by decide)
    (by linarith) (by push_cast; linarith)
  push_cast at hsumLe hsumError
  have hmul := hhalfWithin.rounds_mul hsumWithin (by decide)
  rw [hhalf] at hmul
  obtain ⟨hmulWithin, hmulNonneg, hmulLe, hmulError⟩ := hmul.upTo (n := 1) (by decide)
    (by linarith) (by push_cast; linarith)
  push_cast at hmulLe hmulError
  have hstep := hmulWithin.rounds_mul hsizeWithin (by decide)
  rw [value_gridSize] at hstep
  obtain ⟨-, hstepNonneg, hstepLe, hstepError⟩ := hstep.upTo (n := 2 ^ 30) (by decide)
    (by linarith) (by push_cast; linarith)
  push_cast at hstepError
  refine ⟨hstep.isFinite, hstepNonneg, by exact_mod_cast hstepLe, ?_⟩
  show |value (0.5 * (u + 1.0) * 1073741824.0) / 2 ^ 29 - (value u + 1)| ≤ 7.3e-16
  rw [abs_le] at hsumError hmulError hstepError ⊢
  constructor <;> linarith

/-- A coordinate lies between the lines of its step, up to the error. -/
theorem value_mem_gridStep {u : Float} (hu : Within 1 u) :
    (gridStep u / 2 ^ 29 - 1 : ℝ) - 7.3e-16 ≤ value u ∧
      value u ≤ ((gridStep u + 1) / 2 ^ 29 - 1 : ℝ) + 7.3e-16 := by
  obtain ⟨hfinite, hnonneg, hle, herror⟩ := value_inSteps hu
  have hlast : value 1073741823.0 = 2 ^ 30 - 1 := by
    rw [value_of_rational (show rational 1073741823.0 = 2 ^ 30 - 1 by decide +kernel)]
    norm_num
  -- The last step takes the far edge of the face as well.
  have hbetween : (gridStep u : ℝ) ≤ value (inSteps u) ∧ value (inSteps u) ≤ gridStep u + 1 := by
    show ((clamp 0.0 1073741823.0 (inSteps u)).toUInt32.toNat : ℝ) ≤ _ ∧
      _ ≤ ((clamp 0.0 1073741823.0 (inSteps u)).toUInt32.toNat : ℝ) + 1
    rw [clamp, if_neg (by rw [lt_zero_iff_value hfinite]; exact not_lt.2 hnonneg)]
    by_cases hgt : (1073741823.0 : Float) < inSteps u
    · have hgt' := hgt
      rw [lt_iff_value (by decide) hfinite, hlast] at hgt'
      rw [if_pos hgt, show (1073741823.0 : Float).toUInt32.toNat = 2 ^ 30 - 1 by decide +kernel]
      push_cast
      constructor <;> linarith
    · rw [if_neg hgt, toNat_toUInt32 hfinite hnonneg (by linarith)]
      exact ⟨Nat.floor_le hnonneg, (Nat.lt_floor_add_one _).le⟩
  obtain ⟨hlow, hhigh⟩ := hbetween
  rw [abs_le] at herror
  constructor
  · linarith
  · linarith

end Cube

namespace Cell

variable {u : Float} {i j k : ℕ}

/-! ### Cells -/

lemma value_margin : value margin = 2 ^ (-50 : ℤ) := by
  rw [value_of_rational (show rational margin = 2 ^ (-50 : ℤ) by decide +kernel)]
  norm_num

/-- The sides of a cell with the margin are computed with one rounding. -/
lemma value_side (hk : k ≤ 2 ^ 30) :
    ((Cube.gridLine k - margin).isFinite ∧
      value (Cube.gridLine k - margin) ≤ (k / 2 ^ 29 - 1 : ℝ) - 7.4e-16) ∧
    (Cube.gridLine k + margin).isFinite ∧
      (k / 2 ^ 29 - 1 : ℝ) + 7.4e-16 ≤ value (Cube.gridLine k + margin) := by
  obtain ⟨hfinite, hvalue⟩ := Cube.value_gridLine hk
  have hle : (k : ℝ) ≤ 2 ^ 30 := by exact_mod_cast hk
  have hnonneg : (0 : ℝ) ≤ k := Nat.cast_nonneg k
  have hline : Within 1 (Cube.gridLine k) := ⟨hfinite, by
    rw [hvalue, Nat.cast_one, abs_le]
    constructor <;> linarith⟩
  have hmargin : Within 1 margin := ⟨by decide, by rw [value_margin]; norm_num [abs_of_pos]⟩
  have hsmall : (2 : ℝ) ^ (-50 : ℤ) ≤ 0.001 := by norm_num
  have hgreat : (8.8e-16 : ℝ) ≤ 2 ^ (-50 : ℤ) := by norm_num
  have hbound : ∀ {r z : ℝ}, IsRounding r z → |r| ≤ 1.001 → |z - r| ≤ 1.3e-16 := by
    intro r z h hr
    have := h.abs_sub_le
    linarith
  have hsub := hline.rounds_sub hmargin (by decide)
  have hadd := hline.rounds_add hmargin (by decide)
  rw [hvalue, value_margin] at hsub hadd
  have hsubError := hbound hsub.isRounding (by rw [abs_le]; constructor <;> linarith)
  have haddError := hbound hadd.isRounding (by rw [abs_le]; constructor <;> linarith)
  rw [abs_le] at hsubError haddError
  exact ⟨⟨hsub.isFinite, by linarith⟩, hadd.isFinite, by linarith⟩

/-- The margin outweighs the errors of a coordinate and of the sides it is compared with. -/
lemma between_sides (hu : Within 1 u) (hi : i ≤ Cube.gridStep u) (hj : Cube.gridStep u < j)
    (hle : j ≤ 2 ^ 30) : u ≥ Cube.gridLine i - margin ∧ u ≤ Cube.gridLine j + margin := by
  obtain ⟨hlow, hhigh⟩ := Cube.value_mem_gridStep hu
  obtain ⟨⟨hsub, hsubValue⟩, -⟩ := value_side (show i ≤ 2 ^ 30 by omega)
  obtain ⟨-, hadd, haddValue⟩ := value_side hle
  have hi : (i : ℝ) ≤ Cube.gridStep u := by exact_mod_cast hi
  have hj : (Cube.gridStep u : ℝ) + 1 ≤ j := by exact_mod_cast hj
  constructor
  · rw [ge_iff_le, le_iff_value hsub hu.isFinite]
    linarith
  · rw [le_iff_value hu.isFinite hadd]
    linarith

/-- A step of the grid is among those from the last multiple of a size on, as many as the size. -/
lemma mem_around {n d : ℕ} (hn : n < 2 ^ 30) (hd : d ≤ 30) :
    n / 2 ^ d * 2 ^ d ≤ n ∧ n < n / 2 ^ d * 2 ^ d + 2 ^ d ∧
      n / 2 ^ d * 2 ^ d + 2 ^ d ≤ 2 ^ 30 := by
  have hpos : 0 < 2 ^ d := Nat.two_pow_pos d
  refine ⟨Nat.div_mul_le_self n _, Nat.lt_div_mul_add hpos, ?_⟩
  have hlt : n / 2 ^ d < 2 ^ (30 - d) := by
    rw [Nat.div_lt_iff_lt_mul hpos, ← Nat.pow_add, Nat.sub_add_cancel hd]
    exact hn
  calc n / 2 ^ d * 2 ^ d + 2 ^ d = (n / 2 ^ d + 1) * 2 ^ d := (Nat.succ_mul _ _).symm
    _ ≤ 2 ^ (30 - d) * 2 ^ d := Nat.mul_le_mul_right _ hlt
    _ = 2 ^ 30 := by rw [← Nat.pow_add, Nat.sub_add_cancel hd]

/-- The sides of the cell of a level that a point is assigned to: grid lines around its steps. -/
lemma bounds_ofPoint (p : Point) {level : ℕ} (hl : level ≤ CellId.maxLevel) :
    (ofPoint p level).bounds =
      let q := Cube.project p
      let size := 2 ^ (CellId.maxLevel - level)
      let i := Cube.gridStep q.u / size * size
      let j := Cube.gridStep q.v / size * size
      ⟨q.face, Cube.gridLine i, Cube.gridLine (i + size), Cube.gridLine j,
        Cube.gridLine (j + size)⟩ := by
  have hface := Cube.face_project_lt p
  have hu := Cube.gridStep_lt (Cube.project p).u
  have hv := Cube.gridStep_lt (Cube.project p).v
  have hleaf := CellId.At.ofGrid hface hu hv
  have hlevel : level ≤ (CellId.ofPoint p).level := by
    rw [CellId.ofPoint, hleaf.level_eq]
    exact hl
  have hsquare : ((CellId.ofPoint p).parentAt level).square = _ := hleaf.square_parentAt hlevel
  rw [CellId.At.square_ofGrid hface hu hv] at hsquare
  show ((CellId.ofPoint p).parentAt level).bounds = _
  rw [CellId.bounds, hsquare]
  rfl

/-- **Every point is in its cell.**  Whatever its coordinates are, a point has a leaf; and a point
with finite coordinates that are not all zero is in this leaf and in its ancestors on all levels, up
to the margin of the test.  Its coordinates on the face that it meets lie between `-1` and `1`, and
they are the same whether the face is looked for or given. -/
theorem contains_ofPoint (p : Point) :
    ((CellId.ofPoint p).isValid = true ∧ (CellId.ofPoint p).isLeaf = true) ∧
    (Cube.Directed p →
      (∀ level ≤ 30, (ofPoint p level).contains p = true) ∧
      ((-1.0 ≤ (Cube.project p).u ∧ (Cube.project p).u ≤ 1.0) ∧
        -1.0 ≤ (Cube.project p).v ∧ (Cube.project p).v ≤ 1.0) ∧
      Cube.projectTo? (Cube.project p).face p = some ((Cube.project p).u, (Cube.project p).v)) := by
  constructor
  · obtain ⟨n, hleaf⟩ := CellId.exists_at_ofPoint p
    exact ⟨hleaf.isValid, hleaf.isLeaf_eq_true⟩
  · intro h
    obtain ⟨hproject, hu, hv⟩ := h.project_spec
    refine ⟨fun level hl => ?_, ⟨Cube.between_one hu, Cube.between_one hv⟩, hproject⟩
    · have hheight : CellId.maxLevel - level ≤ 30 := Nat.sub_le _ _
      obtain ⟨hi, hi', hile⟩ := mem_around (Cube.gridStep_lt (Cube.project p).u) hheight
      obtain ⟨hj, hj', hjle⟩ := mem_around (Cube.gridStep_lt (Cube.project p).v) hheight
      obtain ⟨huMin, huMax⟩ := between_sides hu hi hi' hile
      obtain ⟨hvMin, hvMax⟩ := between_sides hv hj hj' hjle
      rw [contains, bounds_ofPoint p hl]
      simp only [hproject, huMin, huMax, hvMin, hvMax, decide_true, Bool.and_self]

/-- A point on an edge of the cube, far away from the sphere. -/
theorem contains_ofPoint_edge :
    let p : Point := ⟨-1e300, 1e300, 1e-300⟩
    Cube.Directed p ∧ (Cube.project p).face = 1 ∧ (ofPoint p 30).contains p = true ∧
      Cube.projectTo? 1 p = some ((Cube.project p).u, (Cube.project p).v) := by
  have hdirected : Cube.Directed ⟨-1e300, 1e300, 1e-300⟩ :=
    ⟨by decide +kernel, by decide +kernel, by decide +kernel, by decide +kernel⟩
  have hface : (Cube.project ⟨-1e300, 1e300, 1e-300⟩).face = 1 := by decide +kernel
  obtain ⟨-, h⟩ := contains_ofPoint ⟨-1e300, 1e300, 1e-300⟩
  obtain ⟨hcells, -, hproject⟩ := h hdirected
  rw [hface] at hproject
  exact ⟨hdirected, hface, hcells 30 le_rfl, hproject⟩

end Cell

end SphereSearch
