import SphereSearch.Number.Binary64

/-!
# Doubles as words

A double is a word of 64 bits: its sign, a biased exponent of eleven bits and a fraction of 52.
This file reads the arithmetic of doubles off their words, as far as an order of distances needs
it.  Without a sign, doubles compare as their words do (`lt_iff_toBits`, `le_iff_toBits`), every
word up to that of infinity is the word of a double (`toNat_toBits_ofBits`), and a double is
determined by its word (`eq_of_toBits`).
-/

open Float.Model Float.Model.UnpackedFloat

namespace SphereSearch.Binary64

/-- The word of infinity.  A greater word without a sign is that of a NaN. -/
def infinityWord : Nat := 2047 * 2 ^ 52

/-! ## Fields -/

/-- The significand of a double with the given biased exponent and fraction. -/
def significand (e m : Nat) : Nat := if e = 0 then m else 2 ^ 52 + m

/-- The double with the given sign, biased exponent and fraction. -/
def ofFields (s : Sign) (e m : Nat) : UnpackedFloat :=
  if e = 2047 then (if m = 0 then .infinity s else .notANumber)
  else if h : significand e m = 0 then .zero s
  else .finite s (significand e m) ((max e 1 : Nat) - 1075 : Int) (Nat.pos_of_ne_zero h)

/-- The sign of a word. -/
def signOf (n : Nat) : Sign := if n < 2 ^ 63 then .positive else .negative

theorem significand_lt {e m : Nat} (hm : m < 2 ^ 52) : significand e m < 2 ^ 53 := by
  unfold significand
  split <;> omega

theorem toNat_unpackExponent (b : BitVec 64) :
    (@unpackExponent Format.binary64 b).toNat = b.toNat / 2 ^ 52 % 2 ^ 11 := by
  simp [unpackExponent, Nat.shiftRight_eq_div_pow]

theorem toNat_unpackMantissa (b : BitVec 64) :
    (@unpackMantissa Format.binary64 b).toNat = b.toNat % 2 ^ 52 := by
  simp [unpackMantissa]

theorem toNat_unpackSign (b : BitVec 64) :
    (@unpackSign Format.binary64 b).toNat = b.toNat / 2 ^ 63 := by
  have := b.isLt
  delta unpackSign
  simp [Nat.shiftRight_eq_div_pow]
  omega

theorem exponentBias_add :
    ((Format.binary64.exponentBias : Nat) : Int) + ((52 : Nat) : Int) = 1075 := by
  decide

/-- A word is read field by field. -/
theorem unpack_eq_ofFields (b : BitVec 64) :
    UnpackedFloat.unpack Format.binary64 b =
      ofFields (signOf b.toNat) (b.toNat / 2 ^ 52 % 2 ^ 11) (b.toNat % 2 ^ 52) := by
  have he := toNat_unpackExponent b
  have hm := toNat_unpackMantissa b
  have hsign : Sign.ofBitVec (@unpackSign Format.binary64 b) = signOf b.toNat := by
    have hlt := b.isLt
    have hiff : @unpackSign Format.binary64 b = 0#1 ↔ b.toNat < 2 ^ 63 := by
      rw [← BitVec.toNat_inj, toNat_unpackSign]
      simp only [BitVec.toNat_ofNat]
      omega
    simp only [Sign.ofBitVec, signOf, hiff]
  have hones : @unpackExponent Format.binary64 b = -1#_ ↔
      b.toNat / 2 ^ 52 % 2 ^ 11 = 2047 := by
    rw [← BitVec.toNat_inj, he]
    rfl
  have hzero : @unpackExponent Format.binary64 b = 0#_ ↔
      b.toNat / 2 ^ 52 % 2 ^ 11 = 0 := by
    rw [← BitVec.toNat_inj, he]
    rfl
  have hfrac : @unpackMantissa Format.binary64 b = 0#_ ↔ b.toNat % 2 ^ 52 = 0 := by
    rw [← BitVec.toNat_inj, hm]
    rfl
  have himp : (1#1 ++ @unpackMantissa Format.binary64 b).toNat =
      2 ^ 52 + b.toNat % 2 ^ 52 := by
    rw [BitVec.toNat_append, ← Nat.shiftLeft_add_eq_or_of_lt (BitVec.isLt _), hm]
    rfl
  unfold UnpackedFloat.unpack ofFields
  dsimp only
  by_cases h1 : b.toNat / 2 ^ 52 % 2 ^ 11 = 2047
  · rw [if_pos (hones.2 h1), if_pos h1, hsign]
    by_cases h3 : b.toNat % 2 ^ 52 = 0
    · rw [if_pos (hfrac.2 h3), if_pos h3]
    · rw [if_neg (mt hfrac.1 h3), if_neg h3]
  · rw [if_neg (mt hones.1 h1), if_neg h1]
    by_cases h2 : b.toNat / 2 ^ 52 % 2 ^ 11 = 0
    · have hsub : significand (b.toNat / 2 ^ 52 % 2 ^ 11) (b.toNat % 2 ^ 52) =
          b.toNat % 2 ^ 52 := if_pos h2
      rw [if_pos (hzero.2 h2)]
      by_cases h3 : b.toNat % 2 ^ 52 = 0
      · rw [dif_pos (hfrac.2 h3), dif_pos (hsub.trans h3), hsign]
      · rw [dif_neg (mt hfrac.1 h3), dif_neg (by rwa [hsub]), finite.injEq]
        refine ⟨hsign, hm.trans hsub.symm, ?_⟩
        rw [he, exponentBias_add, h2]
        rfl
    · have hnormal : significand (b.toNat / 2 ^ 52 % 2 ^ 11) (b.toNat % 2 ^ 52) =
          2 ^ 52 + b.toNat % 2 ^ 52 := if_neg h2
      rw [if_neg (mt hzero.1 h2), dif_neg (by omega), finite.injEq]
      refine ⟨hsign, himp.trans hnormal.symm, ?_⟩
      rw [he, exponentBias_add]
      omega

/-- The fields of a finite double without a sign, and the word that holds them. -/
theorem ofFields_cases {e m : Nat} (hm : m < 2 ^ 52) (he : e ≠ 2047) :
    (ofFields .positive e m = .zero .positive ∧ e * 2 ^ 52 + m = 0) ∨
    ∃ M E h, ofFields .positive e m = .finite .positive M E h ∧
      ((e * 2 ^ 52 + m : Nat) : Int) = (E + 1074) * 2 ^ 52 + M ∧ M < 2 ^ 53 ∧
      (E = -1074 ∨ 2 ^ 52 ≤ M) ∧ -1074 ≤ E := by
  by_cases hz : significand e m = 0
  · left
    unfold ofFields
    rw [if_neg he, dif_pos hz]
    unfold significand at hz
    split at hz <;> simp_all
  · right
    refine ⟨significand e m, (max e 1 : Nat) - 1075, Nat.pos_of_ne_zero hz, ?_, ?_,
      significand_lt hm, ?_, by omega⟩
    · unfold ofFields
      rw [if_neg he, dif_neg hz]
    all_goals
      unfold significand
      split <;> omega

/-! ## Comparing -/

/-- Of two pairs of exponent and significand, the order is that of the words they are packed
into, as long as a greater exponent comes with a significand of full length. -/
theorem compare_finite {E₁ E₂ : Int} {M₁ M₂ n₁ n₂ : Nat}
    (h₁ : (n₁ : Int) = (E₁ + 1074) * 2 ^ 52 + M₁) (h₂ : (n₂ : Int) = (E₂ + 1074) * 2 ^ 52 + M₂)
    (hM₁ : M₁ < 2 ^ 53) (hM₂ : M₂ < 2 ^ 53) (hE₁ : E₁ = -1074 ∨ 2 ^ 52 ≤ M₁)
    (hE₂ : E₂ = -1074 ∨ 2 ^ 52 ≤ M₂) (hl₁ : -1074 ≤ E₁) (hl₂ : -1074 ≤ E₂) :
    (compare E₁ E₂).then (compare M₁ M₂) = compare n₁ n₂ := by
  rcases Int.lt_trichotomy E₁ E₂ with h | h | h
  · rw [Int.compare_eq_lt.2 h, Nat.compare_eq_lt.2 (show n₁ < n₂ by omega)]
    rfl
  · subst h
    rw [Int.compare_eq_eq.2 rfl]
    rcases Nat.lt_trichotomy M₁ M₂ with h | h | h
    · rw [Nat.compare_eq_lt.2 h, Nat.compare_eq_lt.2 (show n₁ < n₂ by omega)]
      rfl
    · rw [Nat.compare_eq_eq.2 h, Nat.compare_eq_eq.2 (show n₁ = n₂ by omega)]
      rfl
    · rw [Nat.compare_eq_gt.2 h, Nat.compare_eq_gt.2 (show n₂ < n₁ by omega)]
      rfl
  · rw [Int.compare_eq_gt.2 h, Nat.compare_eq_gt.2 (show n₂ < n₁ by omega)]
    rfl

/-- Doubles without a sign, infinity included, compare as the words that hold their fields. -/
theorem compare_ofFields {e₁ m₁ e₂ m₂ : Nat} (h₁ : e₁ * 2 ^ 52 + m₁ ≤ infinityWord)
    (h₂ : e₂ * 2 ^ 52 + m₂ ≤ infinityWord) (hm₁ : m₁ < 2 ^ 52) (hm₂ : m₂ < 2 ^ 52) :
    (ofFields .positive e₁ m₁).compare (ofFields .positive e₂ m₂) =
      some (compare (e₁ * 2 ^ 52 + m₁) (e₂ * 2 ^ 52 + m₂)) := by
  unfold infinityWord at h₁ h₂
  have hinf : ∀ {e m : Nat}, e * 2 ^ 52 + m ≤ 2047 * 2 ^ 52 → e = 2047 →
      ofFields .positive e m = .infinity .positive ∧ e * 2 ^ 52 + m = 2047 * 2 ^ 52 := by
    intro e m hle he
    subst he
    obtain rfl : m = 0 := by omega
    exact ⟨rfl, rfl⟩
  by_cases i₁ : e₁ = 2047
  · obtain ⟨q₁, n₁⟩ := hinf h₁ i₁
    by_cases i₂ : e₂ = 2047
    · obtain ⟨q₂, n₂⟩ := hinf h₂ i₂
      rw [q₁, q₂, n₁, n₂]
      rfl
    · have hlt : e₂ * 2 ^ 52 + m₂ < e₁ * 2 ^ 52 + m₁ := by omega
      rw [q₁, Nat.compare_eq_gt.2 hlt]
      obtain ⟨q₂, -⟩ | ⟨M, E, h, q₂, -⟩ := ofFields_cases hm₂ i₂ <;> rw [q₂] <;> rfl
  · by_cases i₂ : e₂ = 2047
    · obtain ⟨q₂, n₂⟩ := hinf h₂ i₂
      have hlt : e₁ * 2 ^ 52 + m₁ < e₂ * 2 ^ 52 + m₂ := by omega
      rw [q₂, Nat.compare_eq_lt.2 hlt]
      obtain ⟨q₁, -⟩ | ⟨M, E, h, q₁, -⟩ := ofFields_cases hm₁ i₁ <;> rw [q₁] <;> rfl
    · obtain ⟨q₁, n₁⟩ | ⟨M₁, E₁, p₁, q₁, n₁, a₁, b₁, c₁⟩ := ofFields_cases hm₁ i₁ <;>
        obtain ⟨q₂, n₂⟩ | ⟨M₂, E₂, p₂, q₂, n₂, a₂, b₂, c₂⟩ := ofFields_cases hm₂ i₂ <;>
        rw [q₁, q₂]
      · rw [n₁, n₂]
        rfl
      · rw [n₁, Nat.compare_eq_lt.2 (by omega)]
        rfl
      · rw [n₂, Nat.compare_eq_gt.2 (by omega)]
        rfl
      · rw [← compare_finite n₁ n₂ a₁ a₂ b₁ b₂ c₁ c₂]
        rfl

/-- Doubles without a sign compare as their words. -/
theorem compare_unpack {x y : Float} (hx : x.toBits.toNat ≤ infinityWord)
    (hy : y.toBits.toNat ≤ infinityWord) :
    x.toModel.unpack.compare y.toModel.unpack =
      some (compare x.toBits.toNat y.toBits.toNat) := by
  have hfields : ∀ n : Nat, n ≤ infinityWord →
      n / 2 ^ 52 % 2 ^ 11 * 2 ^ 52 + n % 2 ^ 52 = n := by
    intro n hn
    unfold infinityWord at hn
    omega
  have hpos : ∀ n : Nat, n ≤ infinityWord → signOf n = .positive := by
    intro n hn
    unfold infinityWord at hn
    rw [signOf, if_pos (by omega)]
  have hmod : ∀ n : Nat, n % 2 ^ 52 < 2 ^ 52 := fun n => Nat.mod_lt _ (by decide)
  show (UnpackedFloat.unpack Format.binary64 x.toBits.toBitVec).compare
    (UnpackedFloat.unpack Format.binary64 y.toBits.toBitVec) = _
  rw [unpack_eq_ofFields, unpack_eq_ofFields, UInt64.toNat_toBitVec, UInt64.toNat_toBitVec,
    hpos _ hx, hpos _ hy, compare_ofFields (by rw [hfields _ hx]; exact hx)
      (by rw [hfields _ hy]; exact hy) (hmod _) (hmod _), hfields _ hx, hfields _ hy]

theorem lt_iff_compare {x y : Float} :
    x < y ↔ x.toModel.unpack.compare y.toModel.unpack = some .lt := by
  show decide (x.toModel < y.toModel) = true ↔ _
  rw [decide_eq_true_iff]
  exact beq_iff_eq

theorem le_iff_compare {x y : Float} :
    x ≤ y ↔ (x.toModel.unpack.compare y.toModel.unpack).any (·.isLE) = true := by
  show decide (x.toModel ≤ y.toModel) = true ↔ _
  rw [decide_eq_true_iff]
  rfl

theorem beq_iff_compare {x y : Float} :
    x == y ↔ x.toModel.unpack.compare y.toModel.unpack = some .eq := by
  show (x.toModel.unpack.compare y.toModel.unpack == some .eq) = true ↔ _
  exact beq_iff_eq

theorem le_of_lt {x y : Float} (h : x < y) : x ≤ y := by
  rw [lt_iff_compare] at h
  rw [le_iff_compare, h]
  rfl

/-- Without a sign, a double is below another one if its word is. -/
theorem lt_iff_toBits {x y : Float} (hx : x.toBits.toNat ≤ infinityWord)
    (hy : y.toBits.toNat ≤ infinityWord) : x < y ↔ x.toBits.toNat < y.toBits.toNat := by
  rw [lt_iff_compare, compare_unpack hx hy, Option.some.injEq, Nat.compare_eq_lt]

/-- Without a sign, a double is at most another one if its word is. -/
theorem le_iff_toBits {x y : Float} (hx : x.toBits.toNat ≤ infinityWord)
    (hy : y.toBits.toNat ≤ infinityWord) : x ≤ y ↔ x.toBits.toNat ≤ y.toBits.toNat := by
  rw [le_iff_compare, compare_unpack hx hy, Option.any_some, Nat.isLE_compare]

theorem unpack_zero : (0.0 : Float).toModel.unpack = .zero .positive := by
  show UnpackedFloat.unpack Format.binary64 (0.0 : Float).toBits.toBitVec = _
  rw [show (0.0 : Float).toBits = 0 by decide, unpack_eq_ofFields]
  rfl

/-- Minus one is below every double without a sign. -/
theorem neg_one_lt {x : Float} (hx : x.toBits.toNat ≤ infinityWord) : (-1.0 : Float) < x := by
  rw [lt_iff_compare]
  have hone : (-1.0 : Float).toModel.unpack = .finite .negative (2 ^ 52) (-52) (by decide) := by
    show UnpackedFloat.unpack Format.binary64 (-1.0 : Float).toBits.toBitVec = _
    rw [show (-1.0 : Float).toBits = 0xBFF0000000000000 by decide, unpack_eq_ofFields]
    rfl
  have hword : x.toModel.unpack = ofFields (signOf x.toBits.toNat)
      (x.toBits.toNat / 2 ^ 52 % 2 ^ 11) (x.toBits.toNat % 2 ^ 52) := unpack_eq_ofFields _
  unfold infinityWord at hx
  rw [hone, hword, signOf, if_pos (by omega)]
  by_cases he : x.toBits.toNat / 2 ^ 52 % 2 ^ 11 = 2047
  · rw [ofFields, if_pos he, if_pos (by omega)]
    rfl
  · obtain ⟨q, -⟩ | ⟨M, E, h, q, -⟩ := ofFields_cases (Nat.mod_lt _ (by decide)) he
    all_goals
      rw [q]
      rfl

/-- A double with a sign is below zero, equal to it, or a NaN. -/
theorem toBits_le_of_not_lt_zero {x y : Float} (hneg : ¬ x < 0.0) (hzero : ¬ x == 0.0)
    (hlt : x < y) : x.toBits.toNat ≤ infinityWord := by
  rw [lt_iff_compare] at hneg hlt
  rw [beq_iff_compare] at hzero
  have hx : x.toModel.unpack = ofFields (signOf x.toBits.toNat)
      (x.toBits.toNat / 2 ^ 52 % 2 ^ 11) (x.toBits.toNat % 2 ^ 52) := unpack_eq_ofFields _
  have hlt64 := x.toBits.toNat_lt
  rw [hx, unpack_zero] at hneg hzero
  rw [hx] at hlt
  unfold infinityWord
  by_cases hs : x.toBits.toNat < 2 ^ 63
  · -- A word without a sign that is too great is that of a NaN.
    by_cases he : x.toBits.toNat / 2 ^ 52 % 2 ^ 11 = 2047
    · by_cases hm : x.toBits.toNat % 2 ^ 52 = 0
      · omega
      · rw [ofFields, if_pos he, if_neg hm] at hlt
        exact absurd hlt nofun
    · omega
  · exfalso
    rw [signOf, if_neg hs, ofFields] at hneg hzero hlt
    by_cases he : x.toBits.toNat / 2 ^ 52 % 2 ^ 11 = 2047
    · rw [if_pos he] at hneg hlt
      by_cases hm : x.toBits.toNat % 2 ^ 52 = 0
      · rw [if_pos hm] at hneg
        exact hneg rfl
      · rw [if_neg hm] at hlt
        exact absurd hlt nofun
    · rw [if_neg he] at hneg hzero
      by_cases hz : significand (x.toBits.toNat / 2 ^ 52 % 2 ^ 11) (x.toBits.toNat % 2 ^ 52) = 0
      · rw [dif_pos hz] at hzero
        exact hzero rfl
      · rw [dif_neg hz] at hneg
        exact hneg rfl

/-! ## Words -/

/-- A double is determined by its word. -/
theorem eq_of_toBits {x y : Float} (h : x.toBits = y.toBits) : x = y := by
  rcases x with ⟨⟨b, hb⟩⟩
  rcases y with ⟨⟨c, hc⟩⟩
  have hbc : b = c := h
  subst hbc
  rfl

/-- The word with the given exponent and fraction and no sign. -/
theorem toNat_packComponents_positive (a : BitVec 11) (b : BitVec 52) :
    (packComponents Format.binary64 .positive a b).toNat = a.toNat * 2 ^ 52 + b.toNat := by
  show ((0#1 ++ a) ++ b).toNat = _
  rw [BitVec.toNat_append, ← Nat.shiftLeft_add_eq_or_of_lt b.isLt, Nat.shiftLeft_eq,
    BitVec.toNat_append, BitVec.toNat_ofNat, Nat.zero_mod, Nat.zero_shiftLeft, Nat.zero_or]

/-- The word of a finite double without a sign holds its fields. -/
theorem toNat_pack_ofFields {e m : Nat} (he : e < 2047) (hm : m < 2 ^ 52) :
    (UnpackedFloat.pack Format.binary64 (ofFields .positive e m)).toNat = e * 2 ^ 52 + m := by
  unfold ofFields
  rw [if_neg (by omega)]
  by_cases hz : significand e m = 0
  · rw [dif_pos hz]
    unfold significand at hz
    split at hz
    · rename_i h0
      rw [h0, hz]
      rfl
    · omega
  · rw [dif_neg hz]
    have hbiased : (((max e 1 : Nat) : Int) - 1075 + Format.binary64.exponentBias +
        (Format.binary64.mantissaBitsWithoutImplicit : Nat)).toNat = max e 1 := by
      show (((max e 1 : Nat) : Int) - 1075 + Format.binary64.exponentBias + (52 : Nat)).toNat = _
      rw [Int.add_assoc, exponentBias_add]
      omega
    unfold UnpackedFloat.pack
    dsimp only
    rw [hbiased, if_neg (by omega)]
    have hbits : Format.binary64.mantissaBits = 53 := by decide
    rw [hbits]
    by_cases h0 : e = 0
    · subst h0
      have hlog : m.log2 < 52 := by
        rw [Nat.log2_lt (by simpa [significand] using hz)]
        exact hm
      have hsig : significand 0 m = m := by simp [significand]
      rw [hsig, if_neg (by omega), toNat_packComponents_positive, BitVec.toNat_ofNat,
        BitVec.toNat_ofNat, Nat.mod_eq_of_lt hm]
    · have hsig : significand e m = 2 ^ 52 + m := by rw [significand, if_neg h0]
      have hlog : (2 ^ 52 + m).log2 = 52 := by
        rw [Nat.log2_eq_iff (by omega)]
        omega
      rw [hsig, hlog, if_pos rfl, toNat_packComponents_positive, BitVec.toNat_ofNat,
        BitVec.toNat_ofNat]
      omega

/-- Every word without a sign that is below that of infinity is the word of a double. -/
theorem toNat_toBits_ofBits {w : UInt64} (h : w.toNat < infinityWord) :
    (Float.ofBits w).toBits.toNat = w.toNat := by
  unfold infinityWord at h
  have hw : w.toBitVec.toNat = w.toNat := rfl
  show (UnpackedFloat.pack Format.binary64
    (UnpackedFloat.unpack Format.binary64 w.toBitVec)).toNat = w.toNat
  rw [unpack_eq_ofFields, hw, signOf, if_pos (by omega)]
  refine (toNat_pack_ofFields (by omega) (Nat.mod_lt _ (by decide))).trans ?_
  omega

end SphereSearch.Binary64
