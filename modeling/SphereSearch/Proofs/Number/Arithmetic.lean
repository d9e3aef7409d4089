import SphereSearch.Proofs.Number.Nearest

/-!
# Arithmetic is correctly rounded

The result of an operation on finite doubles is what the exact result is rounded to (`Rounds`),
unless it is too great to be finite: `rounds_add`, `rounds_sub`, `rounds_mul`, `rounds_div`,
`rounds_sqrt`.  Sums and products are whole numbers of units before they are rounded; quotients and
roots are cut off, and the remainder tells on which side of half a unit they lie (`describes_div`,
`describes_sqrt`).
-/

open Float.Model Float.Model.UnpackedFloat

namespace SphereSearch.Binary64

/-- The double is finite, and it is what the exact result is rounded to. -/
structure Rounds (r : ℝ) (x : Float) : Prop where
  isFinite : x.isFinite
  isRounding : IsRounding r (value x)

/-! ### Results that need no rounding -/

lemma IsRounding.of_representable {z : ℝ} (h : Representable z) : IsRounding z z where
  representable := h
  le_of_le _ _ hle := hle
  ge_of_ge _ _ hle := hle
  error := by
    rw [sub_self, abs_zero]
    positivity

lemma abs_signValue_mul (s : Sign) (r : ℝ) : |signValue s * r| = |r| := by
  cases s with
  | positive => rw [show signValue .positive = 1 from rfl, one_mul]
  | negative => rw [show signValue .negative = -1 from rfl, neg_one_mul, abs_neg]

lemma Proper.representable {u : UnpackedFloat} (h : Proper u) :
    Representable (unpackedValue u) := by
  cases u with
  | notANumber => exact absurd h id
  | infinity s => exact absurd h id
  | zero s => exact ⟨0, 0, by decide, by decide, by simp [unpackedValue]⟩
  | finite s m e hm =>
    have hc : Canonical m e := h
    have hpos : Representable (m * 2 ^ e) :=
      ⟨m, e, by rw [Nat.abs_cast]; exact_mod_cast hc.lt, hc.le, by push_cast; rfl⟩
    rw [unpackedValue_finite]
    cases s with
    | positive => rwa [show signValue .positive = 1 from rfl, one_mul]
    | negative =>
      rw [show signValue .negative = -1 from rfl, neg_one_mul]
      exact hpos.neg

lemma representable_value {x : Float} (hx : x.isFinite) : Representable (value x) :=
  (proper_of_isFinite hx).representable

/-! ### Packing a result -/

lemma representable_two_pow_1023 : Representable (2 ^ 1023) :=
  ⟨1, 1023, by decide, by decide, by norm_num⟩

/-- A result that is not too great needs no exponent that is too great. -/
lemma small_of_abs_le {u : UnpackedFloat} {r : ℝ} (h : Proper u)
    (hr : IsRounding r (unpackedValue u)) (hle : |r| ≤ 2 ^ 1023) : Small u := by
  cases u with
  | notANumber => exact absurd h id
  | infinity s => exact absurd h id
  | zero s => trivial
  | finite s m e hm =>
    by_contra hgt
    have hgt : 971 < e := not_le.1 hgt
    have hc : Canonical m e := h
    have hfull : (2 : ℝ) ^ 52 ≤ m := by exact_mod_cast hc.full.resolve_left (by omega)
    obtain ⟨hlow, hhigh⟩ := abs_le.1 hle
    have hvalue : |unpackedValue (.finite s m e hm)| ≤ 2 ^ 1023 :=
      abs_le.2 ⟨hr.ge_of_ge representable_two_pow_1023.neg hlow,
        hr.le_of_le representable_two_pow_1023 hhigh⟩
    rw [unpackedValue_finite, abs_signValue_mul, abs_of_nonneg (by positivity)] at hvalue
    have hgreat : (2 : ℝ) ^ 1024 ≤ m * 2 ^ e := by
      calc (2 : ℝ) ^ 1024 = (2 : ℝ) ^ 52 * (2 : ℝ) ^ (972 : ℤ) := by
            rw [show (972 : ℤ) = (972 : ℕ) from rfl, zpow_natCast, ← pow_add]
        _ ≤ (m : ℝ) * 2 ^ e := by
          gcongr
          · norm_num
          · omega
    have hlt : (2 : ℝ) ^ 1023 < 2 ^ 1024 := by gcongr <;> norm_num
    exact absurd (hgreat.trans hvalue) (not_le.2 hlt)

lemma isFinite_of_proper {x : Float} (h : Proper x.toModel.unpack) : x.isFinite := by
  show x.toModel.unpack.isFinite = true
  cases hu : x.toModel.unpack with
  | notANumber =>
    rw [hu] at h
    exact absurd h id
  | infinity s =>
    rw [hu] at h
    exact absurd h id
  | zero s => rfl
  | finite s m e hm => rfl

/-- What is packed is rounded correctly if it is finite or known not to be too great. -/
lemma rounds_of_proper {x : Float} {u : UnpackedFloat} {r : ℝ}
    (hx : x.toModel.unpack =
      UnpackedFloat.unpack Format.binary64 (UnpackedFloat.pack Format.binary64 u))
    (h : Proper u) (hr : IsRounding r (unpackedValue u)) (hle : x.isFinite ∨ |r| ≤ 2 ^ 1023) :
    Rounds r x := by
  have hsmall : Small u := by
    rcases hle with hfinite | hle
    · by_contra hsmall
      obtain ⟨s, hs⟩ := unpack_pack_of_not_small h hsmall
      have hfinite : x.toModel.unpack.isFinite = true := hfinite
      rw [hx, hs] at hfinite
      exact absurd hfinite Bool.false_ne_true
    · exact small_of_abs_le h hr hle
  rw [unpack_pack h hsmall] at hx
  exact ⟨isFinite_of_proper (by rwa [hx]), by rwa [value, hx]⟩

/-! ### Sums and differences -/

lemma apply_eq (s : Sign) (n : ℤ) : ((s.apply n : ℤ) : ℝ) = signValue s * n := by
  cases s with
  | positive => exact (one_mul _).symm
  | negative =>
    show ((-n : ℤ) : ℝ) = -1 * n
    push_cast
    ring

lemma shiftLeft_mul_zpow {e f : ℤ} (m : ℕ) (h : f ≤ e) :
    ((m <<< (e - f).toNat : ℕ) : ℝ) * 2 ^ f = m * 2 ^ e := by
  obtain ⟨k, rfl⟩ := Int.le.dest h
  rw [show (f + k - f).toNat = k by omega, Nat.shiftLeft_eq, zpow_add₀ two_ne_zero, zpow_natCast]
  push_cast
  ring

lemma isRounding_add {u v : UnpackedFloat} (hu : Proper u) (hv : Proper v) :
    Proper (UnpackedFloat.add Format.binary64 u v) ∧
      IsRounding (unpackedValue u + unpackedValue v)
        (unpackedValue (UnpackedFloat.add Format.binary64 u v)) := by
  cases u with
  | notANumber => exact absurd hu id
  | infinity s => exact absurd hu id
  | zero s =>
    rw [show unpackedValue (.zero s) = 0 from rfl, zero_add]
    cases v with
    | notANumber => exact absurd hv id
    | infinity t => exact absurd hv id
    | zero t => cases s <;> cases t <;> exact ⟨trivial, .of_representable hv.representable⟩
    | finite t n f hn => exact ⟨hv, .of_representable hv.representable⟩
  | finite s m e hm =>
    cases v with
    | notANumber => exact absurd hv id
    | infinity t => exact absurd hv id
    | zero t =>
      rw [show unpackedValue (.zero t) = 0 from rfl, add_zero]
      exact ⟨hu, .of_representable hu.representable⟩
    | finite t n f hn =>
      have hsum : ((s.apply (m <<< (e - min e f).toNat : ℕ) +
          t.apply (n <<< (f - min e f).toNat : ℕ) : ℤ) : ℝ) * 2 ^ min e f =
            unpackedValue (.finite s m e hm) + unpackedValue (.finite t n f hn) := by
        rw [unpackedValue_finite, unpackedValue_finite, Int.cast_add, apply_eq, apply_eq, add_mul,
          mul_assoc, mul_assoc, Int.cast_natCast, Int.cast_natCast,
          shiftLeft_mul_zpow m (min_le_left e f), shiftLeft_mul_zpow n (min_le_right e f)]
      rw [← hsum]
      exact isRounding_normalize _ _ .positive

lemma apply_neg (s : Sign) (n : ℤ) : (-s).apply n = -s.apply n := by
  cases s with
  | positive => rfl
  | negative => exact (neg_neg n).symm

lemma sub_eq_add_unpacked_neg (u v : UnpackedFloat) :
    UnpackedFloat.sub Format.binary64 u v = UnpackedFloat.add Format.binary64 u v.neg := by
  cases u with
  | notANumber => cases v <;> rfl
  | infinity s => cases v <;> rfl
  | zero s => cases v <;> rfl
  | finite s m e hm =>
    cases v with
    | notANumber => rfl
    | infinity t => rfl
    | zero t => rfl
    | finite t n f hn =>
      simp only [UnpackedFloat.sub, UnpackedFloat.add, UnpackedFloat.neg]
      rw [apply_neg, Int.sub_eq_add_neg]

lemma Proper.unpacked_neg {u : UnpackedFloat} (h : Proper u) : Proper u.neg := by
  cases u with
  | notANumber => exact h
  | infinity s => exact h
  | zero s => exact h
  | finite s m e hm => exact h

lemma unpackedValue_unpacked_neg (u : UnpackedFloat) : unpackedValue u.neg = -unpackedValue u := by
  cases u with
  | notANumber => exact neg_zero.symm
  | infinity s => exact neg_zero.symm
  | zero s => exact neg_zero.symm
  | finite s m e hm =>
    cases s with
    | positive => exact unpackedValue_neg m e hm
    | negative => exact neg_eq_iff_eq_neg.1 (unpackedValue_neg m e hm).symm

/-- A sum is rounded correctly. -/
theorem rounds_add {x y : Float} (hx : x.isFinite) (hy : y.isFinite)
    (hle : (x + y).isFinite ∨ |value x + value y| ≤ 2 ^ 1023) :
    Rounds (value x + value y) (x + y) := by
  obtain ⟨h, hr⟩ := isRounding_add (proper_of_isFinite hx) (proper_of_isFinite hy)
  exact rounds_of_proper rfl h hr hle

/-- A difference is rounded correctly. -/
theorem rounds_sub {x y : Float} (hx : x.isFinite) (hy : y.isFinite)
    (hle : (x - y).isFinite ∨ |value x - value y| ≤ 2 ^ 1023) :
    Rounds (value x - value y) (x - y) := by
  obtain ⟨h, hr⟩ := isRounding_add (proper_of_isFinite hx) (proper_of_isFinite hy).unpacked_neg
  rw [unpackedValue_unpacked_neg, ← sub_eq_add_neg] at hr
  rw [← sub_eq_add_unpacked_neg] at h hr
  exact rounds_of_proper rfl h hr hle

/-! ### Products -/

lemma signValue_mul (s t : Sign) : signValue (s * t) = signValue s * signValue t := by
  cases s <;> cases t
  · exact (neg_mul_neg (1 : ℝ) 1).trans (mul_one _) |>.symm
  · exact (mul_one _).symm
  · exact (one_mul _).symm
  · exact (one_mul _).symm

lemma signValue_div (s t : Sign) : signValue (s / t) = signValue s / signValue t := by
  cases s <;> cases t
  · exact (div_self (neg_ne_zero.2 one_ne_zero)).symm
  · exact (div_one _).symm
  · exact (one_div _).trans inv_neg_one |>.symm
  · exact (div_one _).symm

/-- The product of two significands has enough bits, unless its exponent is very low. -/
lemma Canonical.le_exponentFor_mul {m n : ℕ} {e f : ℤ} (h : Canonical m e) (h' : Canonical n f)
    (hm : 0 < m) (hn : 0 < n) : e + f ≤ exponentFor (m * n) (e + f) := by
  rw [exponentFor]
  rcases h.full with he | hfull
  · rcases h'.full with hf | hfull
    · omega
    · have hlog : 52 ≤ (m * n).log2 :=
        (Nat.le_log2 (Nat.mul_pos hm hn).ne').2 (hfull.trans (Nat.le_mul_of_pos_left n hm))
      omega
  · have hlog : 52 ≤ (m * n).log2 :=
      (Nat.le_log2 (Nat.mul_pos hm hn).ne').2 (hfull.trans (Nat.le_mul_of_pos_right m hn))
    omega

lemma isRounding_mul {u v : UnpackedFloat} (hu : Proper u) (hv : Proper v) :
    Proper (UnpackedFloat.mul Format.binary64 u v) ∧
      IsRounding (unpackedValue u * unpackedValue v)
        (unpackedValue (UnpackedFloat.mul Format.binary64 u v)) := by
  have hzero : ∀ s, Proper (.zero s) ∧ IsRounding 0 (unpackedValue (.zero s)) := fun s =>
    ⟨trivial, .of_representable (Proper.representable (u := .zero s) trivial)⟩
  cases u with
  | notANumber => exact absurd hu id
  | infinity s => exact absurd hu id
  | zero s =>
    rw [show unpackedValue (.zero s) = 0 from rfl, zero_mul]
    cases v with
    | notANumber => exact absurd hv id
    | infinity t => exact absurd hv id
    | zero t => exact hzero _
    | finite t n f hn => exact hzero _
  | finite s m e hm =>
    cases v with
    | notANumber => exact absurd hv id
    | infinity t => exact absurd hv id
    | zero t =>
      rw [show unpackedValue (.zero t) = 0 from rfl, mul_zero]
      exact hzero _
    | finite t n f hn =>
      have hproduct : unpackedValue (.finite s m e hm) * unpackedValue (.finite t n f hn) =
          signValue (s * t) * ((m * n : ℕ) * 2 ^ (e + f)) := by
        rw [unpackedValue_finite, unpackedValue_finite, signValue_mul, zpow_add₀ two_ne_zero]
        push_cast
        ring
      rw [hproduct]
      exact isRounding_roundWithAccuracy (a := .exact) rfl
        (Canonical.le_exponentFor_mul hu hv hm hn) (s * t)

/-- A product is rounded correctly. -/
theorem rounds_mul {x y : Float} (hx : x.isFinite) (hy : y.isFinite)
    (hle : (x * y).isFinite ∨ |value x * value y| ≤ 2 ^ 1023) :
    Rounds (value x * value y) (x * y) := by
  obtain ⟨h, hr⟩ := isRounding_mul (proper_of_isFinite hx) (proper_of_isFinite hy)
  exact rounds_of_proper rfl h hr hle

/-! ### Quotients -/

/-- The remainder of a division tells where the quotient lies. -/
lemma describes_div {m n : ℕ} (hn : 0 < n) :
    Describes ((m : ℝ) / n) (m / n) (accuracyOfFraction (m % n) n) := by
  have hpos : (0 : ℝ) < n := Nat.cast_pos.2 hn
  have hdiv : (m : ℝ) / n = (m / n : ℕ) + ((m % n : ℕ) : ℝ) / n := by
    have h : (m : ℝ) = n * (m / n : ℕ) + (m % n : ℕ) := by
      exact_mod_cast (Nat.div_add_mod m n).symm
    rw [div_eq_iff hpos.ne', add_mul, div_mul_cancel₀ _ hpos.ne']
    linarith
  have hlt : m % n < n := Nat.mod_lt m hn
  generalize m % n = k at *
  generalize m / n = q at *
  rw [hdiv, accuracyOfFraction]
  by_cases hk : k = 0
  · rw [if_pos hk, hk, Nat.cast_zero, zero_div, add_zero]
    rfl
  · rw [if_neg hk]
    have hk : (0 : ℝ) < k / n := div_pos (Nat.cast_pos.2 (Nat.pos_of_ne_zero hk)) hpos
    have hkn : (k : ℝ) / n < 1 := (div_lt_one hpos).2 (Nat.cast_lt.2 hlt)
    rcases Nat.lt_trichotomy (2 * k) n with h | h | h
    · rw [Nat.compare_eq_lt.2 h]
      have h : (2 * k : ℝ) < n := by exact_mod_cast h
      have h : (k : ℝ) / n < 1 / 2 := by
        rw [div_lt_div_iff₀ hpos two_pos]
        linarith
      exact ⟨by linarith, by linarith⟩
    · rw [Nat.compare_eq_eq.2 h]
      have h : (2 * k : ℝ) = n := by exact_mod_cast h
      have h : (k : ℝ) / n = 1 / 2 := by
        rw [div_eq_div_iff hpos.ne' two_ne_zero]
        linarith
      show (q : ℝ) + k / n - q = q + 1 - (q + k / n)
      linarith
    · rw [Nat.compare_eq_gt.2 h]
      have h : (n : ℝ) < 2 * k := by exact_mod_cast h
      have h : 1 / 2 < (k : ℝ) / n := by
        rw [div_lt_div_iff₀ two_pos hpos]
        linarith
      exact ⟨by linarith, by linarith⟩

/-- The exponent at which a quotient is taken. -/
def quotientExponent (m : ℕ) (e : ℤ) (n : ℕ) (f : ℤ) : ℤ :=
  min (e - f) (max (m.log2 + e - (n.log2 + f) - 53) (-1074))

lemma divCore_eq (m : ℕ) (e : ℤ) (n : ℕ) (f : ℤ) :
    divCore Format.binary64 m e n f =
      let a := m <<< (e - f - quotientExponent m e n f).toNat
      (a / n, quotientExponent m e n f, accuracyOfFraction (a % n) n) := by
  have hbits : Format.binary64.mantissaBits = 53 := rfl
  have hmin : Format.binary64.minExponent = -1074 := by decide
  have htarget : min (e - f) (Format.binary64.targetExponent
      (totalExponent m e - totalExponent n f)) = quotientExponent m e n f := by
    rw [Format.targetExponent, hbits, hmin, totalExponent, totalExponent, quotientExponent]
    omega
  unfold divCore
  rw [htarget]

lemma le_exponentFor_div {m n : ℕ} (e f : ℤ) (hm : 0 < m) (hn : 0 < n) :
    quotientExponent m e n f ≤
      exponentFor (m <<< (e - f - quotientExponent m e n f).toNat / n)
        (quotientExponent m e n f) := by
  have hle : quotientExponent m e n f ≤ e - f ∧
      (quotientExponent m e n f ≤ m.log2 + e - (n.log2 + f) - 53 ∨
        quotientExponent m e n f ≤ -1074) := by
    rw [quotientExponent]
    omega
  generalize quotientExponent m e n f = t at *
  rw [exponentFor]
  rcases hle.2 with hlow | hlow
  · obtain ⟨k, hk⟩ : ∃ k : ℕ, e - f = t + k := ⟨(e - f - t).toNat, by omega⟩
    rw [show (e - f - t).toNat = k by omega, Nat.shiftLeft_eq]
    have hquotient : 2 ^ 52 ≤ m * 2 ^ k / n := by
      rw [Nat.le_div_iff_mul_le hn]
      calc 2 ^ 52 * n ≤ 2 ^ 52 * 2 ^ (n.log2 + 1) := Nat.mul_le_mul_left _ Nat.lt_log2_self.le
        _ = 2 ^ (n.log2 + 53) := by
          rw [← Nat.pow_add]
          congr 1
          omega
        _ ≤ 2 ^ (m.log2 + k) := Nat.pow_le_pow_right two_pos (by omega)
        _ = 2 ^ m.log2 * 2 ^ k := Nat.pow_add 2 _ _
        _ ≤ m * 2 ^ k := Nat.mul_le_mul_right _ (Nat.log2_self_le hm.ne')
    have hlog := (Nat.le_log2 (Nat.lt_of_lt_of_le (by decide) hquotient).ne').2 hquotient
    omega
  · omega

lemma isRounding_div {u v : UnpackedFloat} (hu : Proper u) (hv : Proper v)
    (hne : unpackedValue v ≠ 0) :
    Proper (UnpackedFloat.div Format.binary64 u v) ∧
      IsRounding (unpackedValue u / unpackedValue v)
        (unpackedValue (UnpackedFloat.div Format.binary64 u v)) := by
  cases v with
  | notANumber => exact absurd hv id
  | infinity t => exact absurd hv id
  | zero t => exact absurd rfl hne
  | finite t n f hn =>
    cases u with
    | notANumber => exact absurd hu id
    | infinity s => exact absurd hu id
    | zero s =>
      rw [show unpackedValue (.zero s) = 0 from rfl, zero_div]
      exact ⟨trivial, .of_representable (Proper.representable (u := .zero s) trivial)⟩
    | finite s m e hm =>
      have hdiv : UnpackedFloat.div Format.binary64 (.finite s m e hm) (.finite t n f hn) =
          roundWithAccuracy Format.binary64 (s / t)
            (m <<< (e - f - quotientExponent m e n f).toNat / n) (quotientExponent m e n f)
            (accuracyOfFraction (m <<< (e - f - quotientExponent m e n f).toNat % n) n) := by
        simp only [UnpackedFloat.div]
        rw [divCore_eq]
      have hle : quotientExponent m e n f ≤ e - f := by
        rw [quotientExponent]
        omega
      have hquotient : unpackedValue (.finite s m e hm) / unpackedValue (.finite t n f hn) =
          signValue (s / t) * (((m <<< (e - f - quotientExponent m e n f).toNat : ℕ) : ℝ) / n *
            2 ^ quotientExponent m e n f) := by
        rw [unpackedValue_finite, unpackedValue_finite, signValue_div, div_mul_eq_mul_div _ (n : ℝ),
          shiftLeft_mul_zpow m hle, zpow_sub₀ two_ne_zero, mul_div_mul_comm, mul_div_mul_comm,
          div_mul_eq_mul_div (m : ℝ)]
      rw [hdiv, hquotient]
      exact isRounding_roundWithAccuracy (describes_div hn) (le_exponentFor_div e f hm hn) (s / t)

/-- A quotient is rounded correctly. -/
theorem rounds_div {x y : Float} (hx : x.isFinite) (hy : y.isFinite) (hne : value y ≠ 0)
    (hle : (x / y).isFinite ∨ |value x / value y| ≤ 2 ^ 1023) :
    Rounds (value x / value y) (x / y) := by
  obtain ⟨h, hr⟩ := isRounding_div (proper_of_isFinite hx) (proper_of_isFinite hy) hne
  exact rounds_of_proper rfl h hr hle

/-! ### Square roots -/

/-- The remainder of a root tells where it lies; half way is not possible. -/
lemma describes_sqrt (m : ℕ) :
    Describes (√(m : ℝ)) m.sqrt
      (if m - m.sqrt * m.sqrt = 0 then .exact
        else .inexact (if m - m.sqrt * m.sqrt ≤ m.sqrt then .lt else .gt)) := by
  have hlow := Nat.sqrt_le m
  have hhigh := Nat.lt_succ_sqrt m
  rw [Nat.succ_eq_add_one] at hhigh
  generalize m.sqrt = k at *
  have hk : (0 : ℝ) ≤ k := Nat.cast_nonneg k
  by_cases hzero : m - k * k = 0
  · rw [if_pos hzero]
    have hm : (m : ℝ) = k * k := by exact_mod_cast (show m = k * k by omega)
    show √(m : ℝ) = k
    rw [hm, Real.sqrt_mul_self hk]
  · rw [if_neg hzero]
    have hlow : (k : ℝ) * k + 1 ≤ m := by exact_mod_cast (show k * k + 1 ≤ m by omega)
    by_cases hhalf : m - k * k ≤ k
    · rw [if_pos hhalf]
      have hhalf : (m : ℝ) ≤ k * k + k := by exact_mod_cast (show m ≤ k * k + k by omega)
      have hbelow : √(m : ℝ) < k + 1 / 2 := by
        rw [Real.sqrt_lt' (by positivity)]
        nlinarith
      exact ⟨Real.lt_sqrt_of_sq_lt (by nlinarith), by linarith⟩
    · rw [if_neg hhalf]
      have hhalf : (k : ℝ) * k + k + 1 ≤ m := by
        exact_mod_cast (show k * k + k + 1 ≤ m by omega)
      have hhigh : (m : ℝ) < (k + 1) * (k + 1) := by exact_mod_cast hhigh
      have habove : (k : ℝ) + 1 / 2 < √m := Real.lt_sqrt_of_sq_lt (by nlinarith)
      refine ⟨by linarith, ?_⟩
      rw [Real.sqrt_lt' (by positivity)]
      nlinarith

/-- The exponent at which a root is taken. -/
def rootExponent (m : ℕ) (e : ℤ) : ℤ :=
  min (e / 2) (max ((m.log2 + e + 2) / 2 - 53) (-1074))

lemma sqrtCore_eq (m : ℕ) (e : ℤ) :
    sqrtCore Format.binary64 m e =
      let a := m <<< (e - 2 * rootExponent m e).toNat
      (a.sqrt, rootExponent m e, if a - a.sqrt * a.sqrt = 0 then .exact
        else .inexact (if a - a.sqrt * a.sqrt ≤ a.sqrt then .lt else .gt)) := by
  have hbits : Format.binary64.mantissaBits = 53 := rfl
  have hmin : Format.binary64.minExponent = -1074 := by decide
  have htarget : min (e.ediv 2) (Format.binary64.targetExponent
      ((totalExponent m e + 1).ediv 2)) = rootExponent m e := by
    show min (e / 2) (Format.binary64.targetExponent ((totalExponent m e + 1) / 2)) = _
    rw [Format.targetExponent, hbits, hmin, totalExponent, rootExponent]
    omega
  unfold sqrtCore
  rw [htarget]

lemma le_exponentFor_sqrt {m : ℕ} (e : ℤ) (hm : 0 < m) :
    rootExponent m e ≤
      exponentFor (m <<< (e - 2 * rootExponent m e).toNat).sqrt (rootExponent m e) := by
  have hle : 2 * rootExponent m e ≤ e ∧
      (2 * (rootExponent m e + 53) ≤ m.log2 + e + 2 ∨ rootExponent m e ≤ -1074) := by
    rw [rootExponent]
    omega
  generalize rootExponent m e = t at *
  rw [exponentFor]
  rcases hle.2 with hlow | hlow
  · have hroot : 2 ^ 52 ≤ (m <<< (e - 2 * t).toNat).sqrt := by
      rw [Nat.le_sqrt, Nat.shiftLeft_eq, ← Nat.pow_add]
      calc 2 ^ (52 + 52) ≤ 2 ^ (m.log2 + (e - 2 * t).toNat) :=
            Nat.pow_le_pow_right two_pos (by omega)
        _ = 2 ^ m.log2 * 2 ^ (e - 2 * t).toNat := Nat.pow_add 2 _ _
        _ ≤ m * 2 ^ (e - 2 * t).toNat := Nat.mul_le_mul_right _ (Nat.log2_self_le hm.ne')
    have hlog := (Nat.le_log2 (Nat.lt_of_lt_of_le (by decide) hroot).ne').2 hroot
    omega
  · omega

lemma isRounding_sqrt {u : UnpackedFloat} (hu : Proper u) (hpos : 0 ≤ unpackedValue u) :
    Proper (UnpackedFloat.sqrt Format.binary64 u) ∧
      IsRounding √(unpackedValue u) (unpackedValue (UnpackedFloat.sqrt Format.binary64 u)) := by
  cases u with
  | notANumber => exact absurd hu id
  | infinity s => exact absurd hu id
  | zero s =>
    rw [show unpackedValue (.zero s) = 0 from rfl, Real.sqrt_zero]
    exact ⟨trivial, .of_representable (Proper.representable (u := .zero s) trivial)⟩
  | finite s m e hm =>
    cases s with
    | negative =>
      rw [unpackedValue_neg] at hpos
      exact absurd (unpackedValue_pos hm) (not_lt.2 (neg_nonneg.1 hpos))
    | positive =>
      have hsqrt : UnpackedFloat.sqrt Format.binary64 (.finite .positive m e hm) =
          let a := m <<< (e - 2 * rootExponent m e).toNat
          roundWithAccuracy Format.binary64 .positive a.sqrt (rootExponent m e)
            (if a - a.sqrt * a.sqrt = 0 then .exact
              else .inexact (if a - a.sqrt * a.sqrt ≤ a.sqrt then .lt else .gt)) := by
        simp only [UnpackedFloat.sqrt]
        rw [sqrtCore_eq]
      have hle : 2 * rootExponent m e ≤ e := by
        rw [rootExponent]
        omega
      have hroot : √(unpackedValue (.finite .positive m e hm)) =
          signValue .positive * (√((m <<< (e - 2 * rootExponent m e).toNat : ℕ) : ℝ) *
            2 ^ rootExponent m e) := by
        have hvalue : unpackedValue (.finite .positive m e hm) =
            (m <<< (e - 2 * rootExponent m e).toNat : ℕ) * (2 ^ rootExponent m e) ^ 2 := by
          rw [← zpow_natCast, ← zpow_mul, mul_comm _ ((2 : ℕ) : ℤ), Nat.cast_two,
            shiftLeft_mul_zpow m hle, unpackedValue_finite, show signValue .positive = 1 from rfl,
            one_mul]
        rw [hvalue, Real.sqrt_mul (Nat.cast_nonneg _), Real.sqrt_sq (by positivity),
          show signValue .positive = 1 from rfl, one_mul]
      rw [hsqrt, hroot]
      exact isRounding_roundWithAccuracy (describes_sqrt _) (le_exponentFor_sqrt e hm) .positive

lemma value_lt {x : Float} (hx : x.isFinite) : value x < 2 ^ 1024 := by
  rcases finite_cases hx with ⟨s, h⟩ | ⟨s, m, e, hm, h, hc, he⟩
  · rw [value, h]
    show (0 : ℝ) < 2 ^ 1024
    positivity
  · rw [value, h, unpackedValue_finite]
    refine (le_abs_self _).trans_lt ?_
    rw [abs_signValue_mul, abs_of_nonneg (by positivity)]
    calc (m : ℝ) * 2 ^ e < (2 : ℝ) ^ 53 * 2 ^ e := by
          gcongr
          exact_mod_cast hc.lt
      _ ≤ (2 : ℝ) ^ 53 * (2 : ℝ) ^ (971 : ℤ) := by
          gcongr
          norm_num
      _ = 2 ^ 1024 := by
          rw [show (971 : ℤ) = (971 : ℕ) from rfl, zpow_natCast, ← pow_add]

/-- A square root is rounded correctly. -/
theorem rounds_sqrt {x : Float} (hx : x.isFinite) (hpos : 0 ≤ value x) :
    Rounds √(value x) x.sqrt := by
  obtain ⟨h, hr⟩ := isRounding_sqrt (proper_of_isFinite hx) hpos
  refine rounds_of_proper rfl h hr (Or.inr ?_)
  rw [abs_of_nonneg (Real.sqrt_nonneg _)]
  have hle : √(value x) ≤ 2 ^ 512 := by
    rw [Real.sqrt_le_left (by positivity), ← pow_mul]
    exact (value_lt hx).le
  refine hle.trans ?_
  gcongr <;> norm_num

end SphereSearch.Binary64
