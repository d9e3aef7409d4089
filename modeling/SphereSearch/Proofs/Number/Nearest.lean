import SphereSearch.Proofs.Number.Value

/-!
# Rounding to a double

Rounding brings a real number to a representable one, keeps order, and errs by half a unit in the
last place (`IsRounding`).  The significand is shifted to its place first, and two bits tell what
was lost on the way (`Describes`); whether it is rounded up depends on them and on nothing else
(`isRounding_roundWithAccuracy`).  For whole numbers nothing was lost before (`isRounding_round`,
`isRounding_normalize`).
-/

open Float.Model Float.Model.UnpackedFloat

namespace SphereSearch.Binary64

/-- What becomes of a real number when it is rounded: a representable number such that no other one
lies between them, and that is no farther than half a unit in the last place. -/
structure IsRounding (r z : ℝ) : Prop where
  representable : Representable z
  le_of_le : ∀ ⦃w⦄, Representable w → r ≤ w → z ≤ w
  ge_of_ge : ∀ ⦃w⦄, Representable w → w ≤ r → w ≤ z
  error : |z - r| ≤ 2 ^ (-53 : ℤ) * |r| + 2 ^ (-1075 : ℤ)

lemma Representable.neg {z : ℝ} (h : Representable z) : Representable (-z) := by
  obtain ⟨k, e, hk, he, rfl⟩ := h
  refine ⟨-k, e, by rwa [abs_neg], he, ?_⟩
  push_cast
  ring

lemma IsRounding.neg {r z : ℝ} (h : IsRounding r z) : IsRounding (-r) (-z) where
  representable := h.representable.neg
  le_of_le w hw hle := by
    have := h.ge_of_ge hw.neg (by linarith)
    linarith
  ge_of_ge w hw hle := by
    have := h.le_of_le hw.neg (by linarith)
    linarith
  error := by
    have := h.error
    rwa [abs_neg, ← neg_add', abs_neg, ← sub_eq_add_neg]

/-! ### Significands -/

lemma le_of_le_add_half {k j : ℤ} (h : (k : ℝ) ≤ j + 1 / 2) : k ≤ j := by
  have hlt : (k : ℝ) < (j + 1 : ℤ) := by
    push_cast
    linarith
  exact Int.lt_add_one_iff.1 (Int.cast_lt.1 hlt)

/-- Representable numbers are whole numbers of units, or below all that is full in these units. -/
lemma Representable.whole_or_lt {w : ℝ} (hw : Representable w) {t : ℤ} :
    (∃ k : ℤ, w = k * 2 ^ t) ∨ -1074 < t ∧ w < 2 ^ 52 * 2 ^ t := by
  obtain ⟨k, e, hk, he, rfl⟩ := hw
  rcases le_or_gt t e with hte | het
  · obtain ⟨j, rfl⟩ := Int.le.dest hte
    refine Or.inl ⟨k * 2 ^ j, ?_⟩
    rw [zpow_add₀ two_ne_zero, zpow_natCast]
    push_cast
    ring
  · refine Or.inr ⟨by omega, ?_⟩
    have hk : (k : ℝ) < 2 ^ 53 := by exact_mod_cast (abs_lt.1 hk).2
    calc (k : ℝ) * 2 ^ e < 2 ^ 53 * 2 ^ e := by gcongr
      _ = 2 ^ 52 * 2 ^ (e + 1) := by
        rw [zpow_add_one₀ two_ne_zero]
        ring
      _ ≤ 2 ^ 52 * 2 ^ t := by
        gcongr
        · norm_num
        · exact het

/-- A whole number of units may have carried into a further bit. -/
lemma representable_of_le {n : ℕ} {t : ℤ} (hn : (n : ℤ) ≤ 2 ^ 53) (ht : -1074 ≤ t) :
    Representable (n * 2 ^ t) := by
  rcases hn.lt_or_eq with hn | hn
  · exact ⟨n, t, by rwa [Nat.abs_cast], ht, by push_cast; rfl⟩
  · refine ⟨2 ^ 52, t + 1, by decide, by omega, ?_⟩
    have hn : (n : ℝ) = 2 ^ 53 := by exact_mod_cast hn
    rw [hn, zpow_add_one₀ two_ne_zero]
    push_cast
    ring

/-- Half a unit is half a unit in the last place, or half of the least unit. -/
lemma half_unit_le {y : ℝ} {t : ℤ} (hfull : t = -1074 ∨ 2 ^ 52 ≤ y) :
    1 / 2 * (2 : ℝ) ^ t ≤ 2 ^ (-53 : ℤ) * |y * 2 ^ t| + 2 ^ (-1075 : ℤ) := by
  rcases hfull with rfl | hfull
  · have hleast : (1 / 2 : ℝ) * 2 ^ (-1074 : ℤ) = 2 ^ (-1075 : ℤ) := by
      rw [show (-1074 : ℤ) = -1075 + 1 by rfl, zpow_add_one₀ two_ne_zero]
      ring
    rw [hleast]
    exact le_add_of_nonneg_left (by positivity)
  · have hy : 0 ≤ y := le_trans (by positivity) hfull
    rw [abs_of_nonneg (by positivity), ← mul_assoc]
    refine le_add_of_le_of_nonneg ?_ (by positivity)
    gcongr
    calc (1 / 2 : ℝ) = 2 ^ (-53 : ℤ) * 2 ^ 52 := by norm_num
      _ ≤ _ := by gcongr

/-- A whole number of units, of which there are less than `2 ^ 53`, rounded to the nearest. -/
lemma isRounding_of_abs_sub_le {y : ℝ} {n : ℕ} {t : ℤ} (hlt : y < 2 ^ 53) (hle : -1074 ≤ t)
    (hfull : t = -1074 ∨ 2 ^ 52 ≤ y) (hn : |(n : ℝ) - y| ≤ 1 / 2) :
    IsRounding (y * 2 ^ t) (n * 2 ^ t) := by
  obtain ⟨hlow, hhigh⟩ := abs_le.1 hn
  have hunit : (0 : ℝ) < 2 ^ t := by positivity
  constructor
  · refine representable_of_le (le_of_le_add_half ?_) hle
    push_cast
    linarith
  · intro w hw hyw
    rcases hw.whole_or_lt (t := t) with ⟨k, rfl⟩ | ⟨hleast, hlt⟩
    · have hyk := le_of_mul_le_mul_right hyw hunit
      have hnk : (n : ℤ) ≤ k := le_of_le_add_half (by push_cast; linarith)
      gcongr
      exact_mod_cast hnk
    · have hfull := hfull.resolve_left hleast.ne'
      exact absurd (hyw.trans_lt hlt) (not_lt.2 (by gcongr))
  · intro w hw hwy
    rcases hw.whole_or_lt (t := t) with ⟨k, rfl⟩ | ⟨hleast, hlt⟩
    · have hky := le_of_mul_le_mul_right hwy hunit
      have hkn : k ≤ (n : ℤ) := le_of_le_add_half (by push_cast; linarith)
      gcongr
      exact_mod_cast hkn
    · have hfull := hfull.resolve_left hleast.ne'
      have hn : (2 ^ 52 : ℤ) ≤ n := le_of_le_add_half (by push_cast; linarith)
      have hn : (2 : ℝ) ^ 52 ≤ n := by exact_mod_cast hn
      exact hlt.le.trans (by gcongr)
  · have hhalf : |(n : ℝ) * 2 ^ t - y * 2 ^ t| ≤ 1 / 2 * 2 ^ t := by
      rw [← sub_mul, abs_mul, abs_of_pos hunit]
      gcongr
    exact hhalf.trans (half_unit_le hfull)

/-! ### Accuracy -/

/-- Where a number lies between a significand and the next one. -/
def Describes (y : ℝ) (m : ℕ) : Accuracy → Prop
  | .exact => y = m
  | .inexact .lt => m < y ∧ y - m < m + 1 - y
  | .inexact .eq => y - m = m + 1 - y
  | .inexact .gt => m + 1 - y < y - m ∧ y < m + 1

lemma Describes.bounds {y : ℝ} {m : ℕ} {a : Accuracy} (h : Describes y m a) :
    m ≤ y ∧ y < m + 1 := by
  cases a with
  | exact =>
    have h : y = m := h
    constructor <;> linarith
  | inexact o =>
    cases o with
    | lt => exact ⟨h.1.le, by linarith [h.2]⟩
    | eq =>
      have h : y - m = m + 1 - y := h
      constructor <;> linarith
    | gt => exact ⟨by linarith [h.1], h.2⟩

/-- Rounding goes to the nearer of the two significands. -/
lemma Describes.abs_sub_le {y : ℝ} {m : ℕ} {a : Accuracy} (h : Describes y m a) :
    |((a.roundToNearestEven m : ℕ) : ℝ) - y| ≤ 1 / 2 := by
  cases a with
  | exact =>
    have h : y = m := h
    show |(m : ℝ) - y| ≤ 1 / 2
    rw [h, sub_self, abs_zero]
    norm_num
  | inexact o =>
    cases o with
    | lt =>
      obtain ⟨h, h'⟩ := h
      show |(m : ℝ) - y| ≤ 1 / 2
      rw [abs_le]
      constructor <;> linarith
    | eq =>
      have h : y - m = m + 1 - y := h
      have hmod : ((m % 2 : ℕ) : ℝ) ≤ 1 := by
        exact_mod_cast Nat.le_of_lt_succ (Nat.mod_lt m two_pos)
      have hpos : (0 : ℝ) ≤ ((m % 2 : ℕ) : ℝ) := Nat.cast_nonneg _
      show |((m + m % 2 : ℕ) : ℝ) - y| ≤ 1 / 2
      rw [abs_le]
      push_cast at *
      constructor <;> linarith
    | gt =>
      obtain ⟨h, h'⟩ := h
      show |((m + 1 : ℕ) : ℝ) - y| ≤ 1 / 2
      rw [abs_le]
      push_cast
      constructor <;> linarith

/-- Cutting off one bit keeps track of where the number lies. -/
lemma Describes.shiftRightOne {y : ℝ} {em : ExtendedMantissa}
    (h : Describes y em.mantissa em.accuracy) :
    Describes (y / 2) em.shiftRightOne.mantissa em.shiftRightOne.accuracy := by
  rcases em with ⟨m, r, s⟩
  have hdiv : (m : ℝ) = 2 * ((m / 2 : ℕ) : ℝ) + ((m % 2 : ℕ) : ℝ) := by
    exact_mod_cast (Nat.div_add_mod m 2).symm
  show Describes (y / 2) (m / 2) (ExtendedMantissa.accuracy ⟨m / 2, m % 2 != 0, r || s⟩)
  rcases Nat.mod_two_eq_zero_or_one m with hmod | hmod
  · rw [hmod, Nat.cast_zero] at hdiv
    rw [hmod, bne_self_eq_false]
    cases r <;> cases s <;>
      simp only [Bool.or_false, Bool.or_true, ExtendedMantissa.accuracy, Describes] at h ⊢
    · linarith
    all_goals constructor <;> linarith
  · rw [hmod, Nat.cast_one] at hdiv
    rw [hmod, show ((1 : ℕ) != 0) = true from rfl]
    cases r <;> cases s <;>
      simp only [Bool.or_false, Bool.or_true, ExtendedMantissa.accuracy, Describes] at h ⊢
    · linarith
    all_goals constructor <;> linarith

lemma Describes.shiftRight {y : ℝ} {em : ExtendedMantissa}
    (h : Describes y em.mantissa em.accuracy) (n : ℕ) :
    Describes (y / 2 ^ n) (em >>> n).mantissa (em >>> n).accuracy := by
  show Describes _ (n.repeat ExtendedMantissa.shiftRightOne em).mantissa
    (n.repeat ExtendedMantissa.shiftRightOne em).accuracy
  induction n with
  | zero =>
    rw [pow_zero, div_one]
    exact h
  | succ n ih =>
    rw [pow_succ, ← div_div]
    exact ih.shiftRightOne

lemma accuracy_ofMantissaAndAccuracy (m : ℕ) (a : Accuracy) :
    (ExtendedMantissa.ofMantissaAndAccuracy m a).accuracy = a := by
  cases a with
  | exact => rfl
  | inexact o => cases o <;> rfl

lemma mantissa_ofMantissaAndAccuracy (m : ℕ) (a : Accuracy) :
    (ExtendedMantissa.ofMantissaAndAccuracy m a).mantissa = m := by
  cases a with
  | exact => rfl
  | inexact o => cases o <;> rfl

/-! ### Rounding -/

lemma unpackedValue_finite (s : Sign) (m : ℕ) (e : ℤ) (h : 0 < m) :
    unpackedValue (.finite s m e h) = signValue s * (m * 2 ^ e) := rfl

lemma IsRounding.signValue_mul {r z : ℝ} (h : IsRounding r z) (s : Sign) :
    IsRounding (signValue s * r) (signValue s * z) := by
  cases s with
  | positive =>
    show IsRounding (1 * r) (1 * z)
    rwa [one_mul, one_mul]
  | negative =>
    show IsRounding (-1 * r) (-1 * z)
    rw [neg_one_mul, neg_one_mul]
    exact h.neg

/-- A significand with its exponent, halved if rounding has carried into a further bit. -/
lemma roundWithAccuracy_eq {m : ℕ} {e : ℤ} {a : Accuracy} {em : ExtendedMantissa} {t : ℤ}
    (hshift : shiftToTargetExponent Format.binary64 m e a = (em, t)) (ht : -1074 ≤ t)
    (hle : em.roundedMantissa ≤ 2 ^ 53) (hfull : t = -1074 ∨ 2 ^ 52 ≤ em.roundedMantissa)
    (s : Sign) :
    Proper (roundWithAccuracy Format.binary64 s m e a) ∧
      unpackedValue (roundWithAccuracy Format.binary64 s m e a) =
        signValue s * (em.roundedMantissa * 2 ^ t) := by
  unfold roundWithAccuracy
  rw [hshift]
  dsimp only
  generalize em.roundedMantissa = n at *
  rcases hle.lt_or_eq with hlt | rfl
  · rw [shiftToTargetExponent_of_lt hlt ht]
    dsimp only
    by_cases hzero : n = 0
    · rw [dif_pos hzero, hzero]
      refine ⟨trivial, ?_⟩
      rw [Nat.cast_zero, zero_mul, mul_zero]
      rfl
    · rw [dif_neg hzero]
      exact ⟨⟨hlt, ht, hfull⟩, rfl⟩
  · rw [shiftToTargetExponent_two_pow ht]
    dsimp only
    rw [dif_neg (show ¬ 2 ^ 52 = 0 by decide)]
    refine ⟨⟨by decide, by omega, Or.inr le_rfl⟩, ?_⟩
    rw [unpackedValue_finite, zpow_add_one₀ two_ne_zero]
    push_cast
    ring

/-- **Rounding a significand** of which it is known where the exact number lies above it, if the
significand has enough bits. -/
theorem isRounding_roundWithAccuracy {y : ℝ} {m : ℕ} {e : ℤ} {a : Accuracy}
    (h : Describes y m a) (he : e ≤ exponentFor m e) (s : Sign) :
    Proper (roundWithAccuracy Format.binary64 s m e a) ∧
      IsRounding (signValue s * (y * 2 ^ e))
        (unpackedValue (roundWithAccuracy Format.binary64 s m e a)) := by
  obtain ⟨k, hk⟩ : ∃ k : ℕ, exponentFor m e = e + k := ⟨(exponentFor m e - e).toNat, by omega⟩
  let em : ExtendedMantissa := ExtendedMantissa.ofMantissaAndAccuracy m a >>> k
  have hshift : shiftToTargetExponent Format.binary64 m e a = (em, e + k) := by
    simp only [shiftToTargetExponent, targetExponent_eq, shiftToExponent]
    rw [show (exponentFor m e - e).toNat = k by omega]
  have hdescribes : Describes (y / 2 ^ k) em.mantissa em.accuracy := by
    refine Describes.shiftRight ?_ k
    rwa [mantissa_ofMantissaAndAccuracy, accuracy_ofMantissaAndAccuracy]
  have hcanonical : Canonical em.mantissa (e + k) := by
    have hmantissa : em.mantissa = m / 2 ^ k := by
      rw [← mantissa_ofMantissaAndAccuracy m a]
      exact mantissa_shiftRight _ _
    rw [hmantissa]
    rcases Nat.eq_zero_or_pos m with rfl | hm
    · have hmin : e + k = -1074 := by
        rw [exponentFor, Nat.log2_zero] at *
        omega
      rw [Nat.zero_div]
      exact ⟨by decide, hmin.ge, Or.inl hmin⟩
    · have hdiv := canonical_div hm he
      rwa [show (exponentFor m e - e).toNat = k by omega, hk] at hdiv
  have hbounds := hdescribes.bounds
  have hrounded := roundedMantissa_bounds em
  have hlt : y / 2 ^ k < 2 ^ 53 := by
    have : (em.mantissa : ℝ) + 1 ≤ 2 ^ 53 := by exact_mod_cast hcanonical.lt
    linarith
  have hfull : e + k = -1074 ∨ 2 ^ 52 ≤ y / 2 ^ k := by
    refine hcanonical.full.imp_right fun h => ?_
    have : (2 : ℝ) ^ 52 ≤ em.mantissa := by exact_mod_cast h
    linarith
  obtain ⟨hproper, hvalue⟩ := roundWithAccuracy_eq hshift hcanonical.le
    (hrounded.2.trans hcanonical.lt) (hcanonical.full.imp_right fun h => h.trans hrounded.1) s
  refine ⟨hproper, ?_⟩
  rw [hvalue]
  have hscale : y / 2 ^ k * 2 ^ (e + k) = y * 2 ^ e := by
    rw [zpow_add₀ two_ne_zero, zpow_natCast]
    field_simp
  rw [← hscale]
  exact (isRounding_of_abs_sub_le hlt hcanonical.le hfull hdescribes.abs_sub_le).signValue_mul s

/-- Rounding a significand that may have too few bits. -/
theorem isRounding_round {m : ℕ} (hm : 0 < m) (e : ℤ) (s : Sign) :
    Proper (UnpackedFloat.round Format.binary64 s m e) ∧
      IsRounding (signValue s * (m * 2 ^ e))
        (unpackedValue (UnpackedFloat.round Format.binary64 s m e)) := by
  let a := (e - exponentFor m e).toNat
  have hround : UnpackedFloat.round Format.binary64 s m e =
      roundWithAccuracy Format.binary64 s (m <<< a) (e - a) .exact := by
    simp only [UnpackedFloat.round, decreaseExponent, targetExponent_eq]
    rfl
  have hexponent : e - a ≤ exponentFor (m <<< a) (e - a) := by
    rw [exponentFor, log2_shiftLeft hm]
    have ha : a = (e - exponentFor m e).toNat := rfl
    rw [exponentFor] at ha
    omega
  have hscale : ((m <<< a : ℕ) : ℝ) * 2 ^ (e - a) = m * 2 ^ e := by
    rw [Nat.shiftLeft_eq, zpow_sub₀ two_ne_zero, zpow_natCast]
    push_cast
    field_simp
  rw [hround, ← hscale]
  exact isRounding_roundWithAccuracy (y := ((m <<< a : ℕ) : ℝ)) (a := .exact) rfl hexponent s

/-- Rounding a whole number with a sign. -/
theorem isRounding_normalize (n e : ℤ) (s : Sign) :
    Proper (UnpackedFloat.normalize Format.binary64 n e s) ∧
      IsRounding (n * 2 ^ e) (unpackedValue (UnpackedFloat.normalize Format.binary64 n e s)) := by
  rcases lt_trichotomy n 0 with hlt | rfl | hgt
  · obtain ⟨m, rfl⟩ : ∃ m : ℕ, n = -m := ⟨n.natAbs, by omega⟩
    have hnormal : UnpackedFloat.normalize Format.binary64 (-m) e s =
        UnpackedFloat.round Format.binary64 .negative m e := by
      simp only [UnpackedFloat.normalize]
      rw [Int.compare_eq_lt.2 hlt]
      dsimp only
      rw [Int.neg_neg, Int.toNat_natCast]
    rw [hnormal, show ((-m : ℤ) : ℝ) * 2 ^ e = signValue .negative * (m * 2 ^ e) by
      rw [show signValue .negative = -1 from rfl]
      push_cast
      ring]
    exact isRounding_round (by omega) e .negative
  · refine ⟨trivial, ?_⟩
    show IsRounding (((0 : ℤ) : ℝ) * 2 ^ e) 0
    rw [Int.cast_zero, zero_mul]
    exact ⟨⟨0, 0, by decide, by decide, by simp⟩, fun w _ h => h, fun w _ h => h, by simp⟩
  · obtain ⟨m, rfl⟩ : ∃ m : ℕ, n = m := ⟨n.natAbs, by omega⟩
    have hnormal : UnpackedFloat.normalize Format.binary64 m e s =
        UnpackedFloat.round Format.binary64 .positive m e := by
      simp only [UnpackedFloat.normalize]
      rw [Int.compare_eq_gt.2 hgt]
      rfl
    rw [hnormal, show ((m : ℤ) : ℝ) * 2 ^ e = signValue .positive * (m * 2 ^ e) by
      rw [show signValue .positive = 1 from rfl, one_mul, Int.cast_natCast]]
    exact isRounding_round (by omega) e .positive

end SphereSearch.Binary64
