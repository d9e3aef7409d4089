import Mathlib
import SphereSearch.Proofs.Number.Rounding

/-!
# The value of a double

A finite double stands for a real number (`value`), which is rational and can be computed
(`rational`).  Packing a number that has the form of a double and a small exponent, and unpacking it
again, changes nothing (`unpack_pack`), so what holds of unpacked numbers holds of doubles.  Finite
doubles are compared as the numbers that they stand for (`lt_iff_value`, `le_iff_value`,
`beq_iff_value`).
-/

open Float.Model Float.Model.UnpackedFloat

namespace SphereSearch.Binary64

/-- The sign as a factor. -/
def signValue : Sign → ℝ
  | .positive => 1
  | .negative => -1

/-- The real number that an unpacked double stands for; NaN and the infinities stand for none, and
get zero. -/
noncomputable def unpackedValue : UnpackedFloat → ℝ
  | .finite s m e _ => signValue s * (m * 2 ^ e)
  | _ => 0

/-- The real number that a double stands for. -/
noncomputable def value (x : Float) : ℝ := unpackedValue x.toModel.unpack

/-- A number with a significand of 53 bits whose exponent is not too low: a finite double, unless
its exponent is too great. -/
def Representable (z : ℝ) : Prop := ∃ k e : ℤ, |k| < 2 ^ 53 ∧ -1074 ≤ e ∧ z = k * 2 ^ e

/-- A number as the fields of a double hold it, with an exponent that need not fit. -/
def Proper : UnpackedFloat → Prop
  | .finite _ m e _ => Canonical m e
  | .zero _ => True
  | _ => False

/-- The exponent is not too great for the fields of a double. -/
def Small : UnpackedFloat → Prop
  | .finite _ _ e _ => e ≤ 971
  | _ => True

lemma toNat_packComponents (s : Sign) (a : BitVec 11) (b : BitVec 52) :
    (packComponents Format.binary64 s a b).toNat =
      s.toBitVec.toNat * 2 ^ 63 + a.toNat * 2 ^ 52 + b.toNat := by
  show ((s.toBitVec ++ a) ++ b).toNat = _
  rw [BitVec.toNat_append, ← Nat.shiftLeft_add_eq_or_of_lt b.isLt, Nat.shiftLeft_eq,
    BitVec.toNat_append, ← Nat.shiftLeft_add_eq_or_of_lt a.isLt, Nat.shiftLeft_eq]
  ring

lemma signOf_packComponents (s : Sign) (a : BitVec 11) (b : BitVec 52) :
    signOf (packComponents Format.binary64 s a b).toNat = s := by
  have ha := a.isLt
  have hb := b.isLt
  rw [toNat_packComponents, signOf]
  cases s with
  | positive =>
    rw [show (Sign.positive.toBitVec).toNat = 0 from rfl, if_pos (by omega)]
  | negative =>
    rw [show (Sign.negative.toBitVec).toNat = 1 from rfl, if_neg (by omega)]

/-- Unpacking reads back the fields that were packed. -/
lemma unpack_packComponents (s : Sign) (a : BitVec 11) (b : BitVec 52) :
    UnpackedFloat.unpack Format.binary64 (packComponents Format.binary64 s a b) =
      ofFields s a.toNat b.toNat := by
  have ha := a.isLt
  have hb := b.isLt
  rw [unpack_eq_ofFields, signOf_packComponents]
  have hn := toNat_packComponents s a b
  congr 1
  · rw [hn]
    cases s with
    | positive =>
      rw [show (Sign.positive.toBitVec).toNat = 0 from rfl]
      omega
    | negative =>
      rw [show (Sign.negative.toBitVec).toNat = 1 from rfl]
      omega
  · rw [hn]
    omega

lemma ofFields_of_canonical {s : Sign} {m : ℕ} {e : ℤ} (h : Canonical m e) (hm : 0 < m)
    (he : e ≤ 971) :
    ofFields s (if 2 ^ 52 ≤ m then (e + 1075).toNat else 0) (m % 2 ^ 52) = .finite s m e hm := by
  have hlt := h.lt
  have hle := h.le
  have hfull := h.full
  have hsig : significand (if 2 ^ 52 ≤ m then (e + 1075).toNat else 0) (m % 2 ^ 52) = m := by
    unfold significand
    split_ifs <;> omega
  have hne : (if 2 ^ 52 ≤ m then (e + 1075).toNat else 0) ≠ 2047 := by
    split_ifs <;> omega
  unfold ofFields
  rw [if_neg hne, dif_neg (hsig.trans_ne hm.ne'), finite.injEq]
  refine ⟨rfl, hsig, ?_⟩
  split_ifs <;> omega

/-- Packing a number whose exponent is not too great loses nothing. -/
lemma unpack_pack {u : UnpackedFloat} (h : Proper u) (hsmall : Small u) :
    UnpackedFloat.unpack Format.binary64 (UnpackedFloat.pack Format.binary64 u) = u := by
  cases u with
  | notANumber => exact absurd h id
  | infinity s => exact absurd h id
  | zero s => exact unpack_packComponents s _ _
  | finite s m e hm =>
    have hc : Canonical m e := h
    have he : e ≤ 971 := hsmall
    have hlt := hc.lt
    have hle := hc.le
    have hfull := hc.full
    have hbiased : e + Format.binary64.exponentBias +
        Format.binary64.mantissaBitsWithoutImplicit = e + 1075 := by
      rw [Int.add_assoc]
      rfl
    have hbits : Format.binary64.mantissaBits = 53 := rfl
    have hexponents : 2 ^ Format.binary64.exponentBits = 2048 := rfl
    refine Eq.trans ?_ (ofFields_of_canonical hc hm he)
    unfold UnpackedFloat.pack
    dsimp only
    rw [hbiased, hbits, hexponents, if_neg (by omega)]
    by_cases hnormal : 2 ^ 52 ≤ m
    · rw [if_pos (by rw [(hc.log2_eq_iff hm).2 hnormal]), unpack_packComponents, if_pos hnormal,
        BitVec.toNat_ofNat, BitVec.toNat_ofNat, Nat.mod_eq_of_lt (by omega)]
    · have hlog : m.log2 + 1 ≠ 53 := fun h => hnormal ((hc.log2_eq_iff hm).1 (by omega))
      rw [if_neg hlog, unpack_packComponents, if_neg hnormal, BitVec.toNat_ofNat]
      rfl

/-- Packing a number whose exponent is too great makes it infinite. -/
lemma unpack_pack_of_not_small {u : UnpackedFloat} (h : Proper u) (hsmall : ¬ Small u) :
    ∃ s, UnpackedFloat.unpack Format.binary64 (UnpackedFloat.pack Format.binary64 u) =
      .infinity s := by
  cases u with
  | notANumber => exact absurd h id
  | infinity s => exact absurd h id
  | zero s => exact absurd trivial hsmall
  | finite s m e hm =>
    have he : ¬ e ≤ 971 := hsmall
    have hbiased : e + Format.binary64.exponentBias +
        Format.binary64.mantissaBitsWithoutImplicit = e + 1075 := by
      rw [Int.add_assoc]
      rfl
    have hexponents : 2 ^ Format.binary64.exponentBits = 2048 := rfl
    refine ⟨s, ?_⟩
    unfold UnpackedFloat.pack
    dsimp only
    rw [hbiased, hexponents, if_pos (by omega)]
    exact unpack_packComponents s _ _

/-- A finite double as its fields say. -/
lemma finite_cases {x : Float} (hx : x.isFinite) :
    (∃ s, x.toModel.unpack = .zero s) ∨
      ∃ s m e h, x.toModel.unpack = .finite s m e h ∧ Canonical m e ∧ e ≤ 971 := by
  have hword : x.toModel.unpack = ofFields (signOf x.toBits.toNat)
      (x.toBits.toNat / 2 ^ 52 % 2 ^ 11) (x.toBits.toNat % 2 ^ 52) := unpack_eq_ofFields _
  have hfin : x.toModel.unpack.isFinite = true := hx
  rw [hword] at hfin ⊢
  generalize signOf x.toBits.toNat = s at *
  have hf : x.toBits.toNat % 2 ^ 52 < 2 ^ 52 := Nat.mod_lt _ (by decide)
  have he : x.toBits.toNat / 2 ^ 52 % 2 ^ 11 < 2048 := Nat.mod_lt _ (by decide)
  generalize x.toBits.toNat / 2 ^ 52 % 2 ^ 11 = e at *
  generalize x.toBits.toNat % 2 ^ 52 = f at *
  unfold ofFields at hfin ⊢
  by_cases hmax : e = 2047
  · rw [if_pos hmax] at hfin
    by_cases hf : f = 0
    · rw [if_pos hf] at hfin
      exact absurd hfin Bool.false_ne_true
    · rw [if_neg hf] at hfin
      exact absurd hfin Bool.false_ne_true
  · rw [if_neg hmax]
    by_cases hz : significand e f = 0
    · rw [dif_pos hz]
      exact Or.inl ⟨s, rfl⟩
    · rw [dif_neg hz]
      refine Or.inr ⟨s, _, _, _, rfl, ⟨significand_lt hf, by omega, ?_⟩, by omega⟩
      unfold significand
      split_ifs <;> omega

/-! ### Order -/

/-- Of two canonical numbers, the one with the smaller exponent is smaller. -/
lemma Canonical.lt_of_exponent_lt {m n : ℕ} {e f : ℤ} (h : Canonical m e) (h' : Canonical n f)
    (hlt : e < f) : (m : ℝ) * 2 ^ e < n * 2 ^ f := by
  have hfull : 2 ^ 52 ≤ n := h'.full.resolve_left (by have := h.le; omega)
  have hm : (m : ℝ) < 2 ^ 53 := by exact_mod_cast h.lt
  have hn : (2 : ℝ) ^ 52 ≤ n := by exact_mod_cast hfull
  calc (m : ℝ) * 2 ^ e < 2 ^ 53 * 2 ^ e := by gcongr
    _ = 2 ^ 52 * 2 ^ (e + 1) := by
      rw [zpow_add_one₀ two_ne_zero]
      ring
    _ ≤ n * 2 ^ (e + 1) := by gcongr
    _ ≤ n * 2 ^ f := by
      gcongr
      · norm_num
      · exact hlt

/-- Canonical numbers compare as their exponents do, then as their significands. -/
lemma Canonical.compare_eq {m n : ℕ} {e f : ℤ} (h : Canonical m e) (h' : Canonical n f) :
    (compare e f).then (compare m n) = compare ((m : ℝ) * 2 ^ e) (n * 2 ^ f) := by
  rcases lt_trichotomy e f with hlt | rfl | hgt
  · rw [Int.compare_eq_lt.2 hlt, compare_lt_iff_lt.2 (h.lt_of_exponent_lt h' hlt)]
    rfl
  · rw [Int.compare_eq_eq.2 rfl]
    have hpos : (0 : ℝ) < 2 ^ e := by positivity
    rcases lt_trichotomy m n with hlt | rfl | hgt
    · rw [Nat.compare_eq_lt.2 hlt, compare_lt_iff_lt.2]
      · rfl
      · exact mul_lt_mul_of_pos_right (Nat.cast_lt.2 hlt) hpos
    · rw [Nat.compare_eq_eq.2 rfl, compare_eq_iff_eq.2 rfl]
      rfl
    · rw [Nat.compare_eq_gt.2 hgt, compare_gt_iff_gt.2]
      · rfl
      · exact mul_lt_mul_of_pos_right (Nat.cast_lt.2 hgt) hpos
  · rw [Int.compare_eq_gt.2 hgt, compare_gt_iff_gt.2 (h'.lt_of_exponent_lt h hgt)]
    rfl

lemma unpackedValue_pos {m : ℕ} {e : ℤ} (h : 0 < m) :
    0 < unpackedValue (.finite .positive m e h) := by
  have hm : (0 : ℝ) < m := Nat.cast_pos.2 h
  show (0 : ℝ) < 1 * (m * 2 ^ e)
  positivity

lemma unpackedValue_neg (m : ℕ) (e : ℤ) (h : 0 < m) :
    unpackedValue (.finite .negative m e h) = -unpackedValue (.finite .positive m e h) := by
  show (-1 : ℝ) * _ = -(1 * _)
  ring

lemma compare_neg_neg (a b : ℝ) : compare (-a) (-b) = (compare a b).swap := by
  rcases lt_trichotomy a b with h | rfl | h
  · rw [compare_lt_iff_lt.2 h, compare_gt_iff_gt.2 (neg_lt_neg h)]
    rfl
  · rw [compare_eq_iff_eq.2 rfl, compare_eq_iff_eq.2 rfl]
    rfl
  · rw [compare_gt_iff_gt.2 h, compare_lt_iff_lt.2 (neg_lt_neg h)]
    rfl

/-- Finite doubles compare as their values. -/
lemma compare_eq_compare_unpackedValue {u v : UnpackedFloat} (hu : Proper u) (hv : Proper v) :
    u.compare v = some (compare (unpackedValue u) (unpackedValue v)) := by
  cases u with
  | notANumber => exact absurd hu id
  | infinity s => exact absurd hu id
  | zero s =>
    cases v with
    | notANumber => exact absurd hv id
    | infinity t => exact absurd hv id
    | zero t => exact congrArg some (compare_eq_iff_eq.2 rfl).symm
    | finite t n f hn =>
      cases t with
      | positive => exact congrArg some (compare_lt_iff_lt.2 (unpackedValue_pos hn)).symm
      | negative =>
        rw [unpackedValue_neg]
        exact congrArg some (compare_gt_iff_gt.2 (neg_lt_zero.2 (unpackedValue_pos hn))).symm
  | finite s m e hm =>
    cases v with
    | notANumber => exact absurd hv id
    | infinity t => exact absurd hv id
    | zero t =>
      cases s with
      | positive => exact congrArg some (compare_gt_iff_gt.2 (unpackedValue_pos hm)).symm
      | negative =>
        rw [unpackedValue_neg]
        exact congrArg some (compare_lt_iff_lt.2 (neg_lt_zero.2 (unpackedValue_pos hm))).symm
    | finite t n f hn =>
      have hcompare : (compare e f).then (compare m n) =
          compare (unpackedValue (.finite .positive m e hm))
            (unpackedValue (.finite .positive n f hn)) := by
        rw [Canonical.compare_eq hu hv]
        show _ = compare (1 * ((m : ℝ) * 2 ^ e)) (1 * (n * 2 ^ f))
        rw [one_mul, one_mul]
      have hpos := unpackedValue_pos (e := e) hm
      have hpos' := unpackedValue_pos (e := f) hn
      cases s with
      | positive =>
        cases t with
        | positive => exact congrArg some hcompare
        | negative =>
          rw [unpackedValue_neg]
          exact congrArg some (compare_gt_iff_gt.2 ((neg_lt_zero.2 hpos').trans hpos)).symm
      | negative =>
        cases t with
        | positive =>
          rw [unpackedValue_neg]
          exact congrArg some (compare_lt_iff_lt.2 ((neg_lt_zero.2 hpos).trans hpos')).symm
        | negative =>
          rw [unpackedValue_neg, unpackedValue_neg, compare_neg_neg, ← hcompare]
          rfl

lemma proper_of_isFinite {x : Float} (hx : x.isFinite) : Proper x.toModel.unpack := by
  rcases finite_cases hx with ⟨s, h⟩ | ⟨s, m, e, hm, h, hc, -⟩
  · rw [h]
    trivial
  · rw [h]
    exact hc

lemma compare_eq_compare_value {x y : Float} (hx : x.isFinite) (hy : y.isFinite) :
    x.toModel.unpack.compare y.toModel.unpack = some (compare (value x) (value y)) :=
  compare_eq_compare_unpackedValue (proper_of_isFinite hx) (proper_of_isFinite hy)

/-- Finite doubles are ordered as their values. -/
lemma lt_iff_value {x y : Float} (hx : x.isFinite) (hy : y.isFinite) :
    x < y ↔ value x < value y := by
  rw [lt_iff_compare, compare_eq_compare_value hx hy, Option.some_inj, compare_lt_iff_lt]

lemma le_iff_value {x y : Float} (hx : x.isFinite) (hy : y.isFinite) :
    x ≤ y ↔ value x ≤ value y := by
  rw [le_iff_compare, compare_eq_compare_value hx hy, Option.any_some]
  rcases lt_trichotomy (value x) (value y) with h | h | h
  · rw [compare_lt_iff_lt.2 h]
    exact iff_of_true rfl h.le
  · rw [compare_eq_iff_eq.2 h]
    exact iff_of_true rfl h.le
  · rw [compare_gt_iff_gt.2 h]
    exact iff_of_false Bool.false_ne_true (not_le.2 h)

lemma beq_iff_value {x y : Float} (hx : x.isFinite) (hy : y.isFinite) :
    x == y ↔ value x = value y := by
  rw [beq_iff_compare, compare_eq_compare_value hx hy, Option.some_inj, compare_eq_iff_eq]

/-! ### Constants -/

lemma unpack_of_toBits {x : Float} {n : ℕ} (h : x.toBits.toNat = n) :
    x.toModel.unpack = ofFields (signOf n) (n / 2 ^ 52 % 2 ^ 11) (n % 2 ^ 52) := by
  rw [← h]
  exact unpack_eq_ofFields _

/-- The sign as a rational factor. -/
def signFactor : Sign → ℚ
  | .positive => 1
  | .negative => -1

/-- The rational number that an unpacked double stands for. -/
def unpackedRational : UnpackedFloat → ℚ
  | .finite s m e _ => signFactor s * (m * 2 ^ e)
  | _ => 0

/-- The rational number that a double stands for.  It can be computed. -/
def rational (x : Float) : ℚ := unpackedRational x.toModel.unpack

lemma value_eq_rational (x : Float) : value x = rational x := by
  rw [value, rational]
  cases x.toModel.unpack with
  | finite s m e hm => cases s <;> simp [unpackedValue, unpackedRational, signValue, signFactor]
  | _ => exact Rat.cast_zero.symm

lemma value_of_rational {x : Float} {q : ℚ} (h : rational x = q) : value x = q := by
  rw [value_eq_rational, h]

lemma value_zero : value 0.0 = 0 := by
  exact_mod_cast value_of_rational (show rational 0.0 = 0 by decide +kernel)

lemma value_one : value 1.0 = 1 := by
  exact_mod_cast value_of_rational (show rational 1.0 = 1 by decide +kernel)

lemma value_two : value 2.0 = 2 := by
  exact_mod_cast value_of_rational (show rational 2.0 = 2 by decide +kernel)

lemma value_four : value 4.0 = 4 := by
  exact_mod_cast value_of_rational (show rational 4.0 = 4 by decide +kernel)

lemma value_quarter : value 0.25 = 1 / 4 := by
  rw [value_of_rational (show rational 0.25 = 1 / 4 by decide +kernel)]
  norm_num

/-- Doubles that are equal as numbers stand for the same number. -/
lemma rational_eq_of_beq {x y : Float} (h : x == y) : rational x = rational y := by
  rw [beq_iff_compare] at h
  rw [rational, rational]
  cases hx : x.toModel.unpack with
  | finite s m e hm =>
    cases hy : y.toModel.unpack with
    | finite t n f hn =>
      rw [hx, hy] at h
      have hmagnitude : (compare e f).then (compare m n) = .eq → e = f ∧ m = n := by
        rw [Ordering.then_eq_eq, Int.compare_eq_eq, Nat.compare_eq_eq]
        exact id
      cases s <;> cases t
      · obtain ⟨rfl, rfl⟩ := hmagnitude (by
          have h := Option.some.inj h
          rwa [Ordering.swap_eq_eq] at h)
        rfl
      · cases h
      · cases h
      · obtain ⟨rfl, rfl⟩ := hmagnitude (Option.some.inj h)
        rfl
    | notANumber =>
      rw [hx, hy] at h
      cases h
    | infinity t =>
      rw [hx, hy] at h
      cases s <;> cases t <;> cases h
    | zero t =>
      rw [hx, hy] at h
      cases s <;> cases h
  | notANumber =>
    rw [hx] at h
    cases h
  | infinity s =>
    cases hy : y.toModel.unpack with
    | finite t n f hn =>
      rw [hx, hy] at h
      cases s <;> cases t <;> cases h
    | _ => rfl
  | zero s =>
    cases hy : y.toModel.unpack with
    | finite t n f hn =>
      rw [hx, hy] at h
      cases t <;> cases h
    | _ => rfl

end SphereSearch.Binary64
