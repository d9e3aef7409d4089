import Mathlib.Data.Nat.Basic
import SphereSearch.Proofs.Number.Sign

/-!
# Rounding sums

The word of a rounded number is its exponent above its significand, and at most that of infinity.
This holds even where rounding carries into a further bit, so that the words of results can be
bounded from below by the significands before they were rounded
(`exists_toNat_pack_roundWithAccuracy`).  One consequence is that adding a number without a sign
never takes a number below where it was (`le_add`).
-/

open Float.Model Float.Model.UnpackedFloat

namespace SphereSearch.Binary64

/-! ### Words of results -/

/-- A number without a sign that is not a NaN. -/
def Plain : UnpackedFloat → Prop
  | .notANumber => False
  | .infinity s => s = .positive
  | .zero s => s = .positive
  | .finite s _ _ _ => s = .positive

lemma toNat_packedInfinity :
    (packedInfinity Format.binary64 .positive).toNat = infinityWord :=
  toNat_packComponents_positive _ _

lemma toNat_packedZero : (packedZero Format.binary64 .positive).toNat = 0 :=
  toNat_packComponents_positive _ _

/-- Packing a finite number: it is infinite, or it is normal, or the exponent is left out. -/
lemma toNat_pack_finite_cases (m : ℕ) (e : ℤ) (h : 0 < m) :
    (UnpackedFloat.pack Format.binary64 (.finite .positive m e h)).toNat =
      if 2047 ≤ (e + 1075).toNat then infinityWord
      else if m.log2 = 52 then (e + 1075).toNat * 2 ^ 52 + m % 2 ^ 52
      else m % 2 ^ 52 := by
  have hbiased : e + Format.binary64.exponentBias +
      Format.binary64.mantissaBitsWithoutImplicit = e + 1075 := by
    rw [Int.add_assoc]
    rfl
  unfold UnpackedFloat.pack
  dsimp only
  rw [hbiased]
  have hbits : Format.binary64.mantissaBits = 53 := rfl
  have hexponents : 2 ^ Format.binary64.exponentBits = 2048 := rfl
  rw [hbits, hexponents]
  by_cases hinf : 2047 ≤ (e + 1075).toNat
  · rw [if_pos hinf, if_pos (by omega), toNat_packedInfinity]
  · rw [if_neg hinf, if_neg (by omega)]
    by_cases hlog : m.log2 = 52
    · rw [if_pos hlog, if_pos (by omega), toNat_packComponents_positive, BitVec.toNat_ofNat,
        BitVec.toNat_ofNat, Nat.mod_eq_of_lt (by omega : (e + 1075).toNat < 2 ^ 11)]
    · rw [if_neg hlog, if_neg (by omega), toNat_packComponents_positive, BitVec.toNat_ofNat]
      exact Nat.zero_add _

/-- The word of a number without a sign is at most that of infinity. -/
lemma toNat_pack_le {u : UnpackedFloat} (h : Plain u) :
    (UnpackedFloat.pack Format.binary64 u).toNat ≤ infinityWord := by
  cases u with
  | notANumber => exact absurd h id
  | infinity s =>
    cases h
    exact toNat_packedInfinity.le
  | zero s =>
    cases h
    exact toNat_packedZero.le.trans (Nat.zero_le _)
  | finite s m e hm =>
    cases h
    rw [toNat_pack_finite_cases, infinityWord]
    split_ifs <;> omega

/-- A significand of 53 bits, which are all used unless the exponent is the least one. -/
structure Canonical (m : ℕ) (e : ℤ) : Prop where
  lt : m < 2 ^ 53
  le : -1074 ≤ e
  full : e = -1074 ∨ 2 ^ 52 ≤ m

/-- The exponent above the significand. -/
def word (m : ℕ) (e : ℤ) : ℕ := (e + 1074).toNat * 2 ^ 52 + m

lemma Canonical.log2_eq_iff {m : ℕ} {e : ℤ} (h : Canonical m e) (hm : 0 < m) :
    m.log2 = 52 ↔ 2 ^ 52 ≤ m := by
  rw [Nat.log2_eq_iff hm.ne', and_iff_left h.lt]

lemma Canonical.toNat_pack {m : ℕ} {e : ℤ} (h : Canonical m e) (hm : 0 < m) :
    (UnpackedFloat.pack Format.binary64 (.finite .positive m e hm)).toNat =
      min infinityWord (word m e) := by
  have hlt := h.lt
  have hle := h.le
  have hfull := h.full
  rw [toNat_pack_finite_cases, infinityWord, word]
  split_ifs with hinf hlog
  · omega
  · rw [h.log2_eq_iff hm] at hlog
    omega
  · rw [h.log2_eq_iff hm] at hlog
    omega

/-! ### Rounding -/

/-- Shifting to the right divides the mantissa. -/
lemma mantissa_shiftRight (em : ExtendedMantissa) (n : ℕ) :
    (em >>> n).mantissa = em.mantissa / 2 ^ n := by
  show (n.repeat ExtendedMantissa.shiftRightOne em).mantissa = _
  induction n with
  | zero => exact (Nat.div_one _).symm
  | succ n ih =>
    show (n.repeat ExtendedMantissa.shiftRightOne em).mantissa / 2 = _
    rw [ih, Nat.div_div_eq_div_mul, Nat.pow_succ]

/-- Rounding adds at most one to the mantissa. -/
lemma roundedMantissa_bounds (em : ExtendedMantissa) :
    em.mantissa ≤ em.roundedMantissa ∧ em.roundedMantissa ≤ em.mantissa + 1 := by
  rcases em with ⟨m, r, s⟩
  simp only [ExtendedMantissa.roundedMantissa]
  cases r <;> cases s <;> simp only [ExtendedMantissa.accuracy, Accuracy.roundToNearestEven] <;>
    omega

/-- The exponent that a number gets. -/
def exponentFor (m : ℕ) (e : ℤ) : ℤ := max (m.log2 + e - 52) (-1074)

lemma targetExponent_eq (m : ℕ) (e : ℤ) :
    Format.binary64.targetExponent (totalExponent m e) = exponentFor m e := by
  have hbits : Format.binary64.mantissaBits = 53 := rfl
  have hmin : Format.binary64.minExponent = -1074 := by decide
  rw [Format.targetExponent, hbits, hmin, totalExponent, exponentFor]
  omega

/-- A significand that fits 53 bits is kept. -/
lemma shiftToTargetExponent_of_lt {m : ℕ} {e : ℤ} (hm : m < 2 ^ 53) (he : -1074 ≤ e) :
    shiftToTargetExponent Format.binary64 m e .exact = (⟨m, false, false⟩, e) := by
  have hlog : m.log2 ≤ 52 := by
    rcases Nat.eq_zero_or_pos m with rfl | hpos
    · exact Nat.zero_le _
    · exact Nat.le_of_lt_succ ((Nat.log2_lt hpos.ne').2 hm)
  have hshift : (exponentFor m e - e).toNat = 0 := by
    rw [exponentFor]
    omega
  simp only [shiftToTargetExponent, targetExponent_eq, shiftToExponent]
  rw [hshift, Int.natCast_zero, Int.add_zero]
  rfl

/-- A significand that rounding has carried into a further bit is halved. -/
lemma shiftToTargetExponent_two_pow {e : ℤ} (he : -1074 ≤ e) :
    shiftToTargetExponent Format.binary64 (2 ^ 53) e .exact = (⟨2 ^ 52, false, false⟩, e + 1) := by
  have hshift : (exponentFor (2 ^ 53) e - e).toNat = 1 := by
    rw [exponentFor, Nat.log2_two_pow]
    omega
  simp only [shiftToTargetExponent, targetExponent_eq, shiftToExponent]
  rw [hshift]
  rfl

/-- What is left of a significand when its last bits are cut off. -/
lemma canonical_div {m : ℕ} {e : ℤ} (hm : 0 < m) (he : e ≤ exponentFor m e) :
    Canonical (m / 2 ^ (exponentFor m e - e).toNat) (exponentFor m e) := by
  have hexponent : exponentFor m e = m.log2 + e - 52 ∨ exponentFor m e = -1074 := by
    rw [exponentFor]
    omega
  have hle : -1074 ≤ exponentFor m e ∧ m.log2 + e - 52 ≤ exponentFor m e := by
    rw [exponentFor]
    omega
  generalize exponentFor m e = t at *
  -- As many bits are cut off as the exponent grows.
  obtain ⟨k, rfl⟩ : ∃ k : ℕ, t = e + k := ⟨(t - e).toNat, by omega⟩
  rw [show (e + k - e).toNat = k by omega]
  refine ⟨?_, hle.1, ?_⟩
  · rw [Nat.div_lt_iff_lt_mul (Nat.two_pow_pos k), ← Nat.pow_add]
    exact (Nat.log2_lt hm.ne').1 (by omega)
  · refine hexponent.symm.imp id fun hlog => ?_
    rw [Nat.le_div_iff_mul_le (Nat.two_pow_pos k), ← Nat.pow_add]
    exact (Nat.le_log2 hm.ne').1 (by omega)

/-- The word of a rounded number is its exponent above its significand, or that of infinity. -/
lemma exists_toNat_pack_roundWithAccuracy {m : ℕ} {e : ℤ} (hm : 0 < m)
    (he : e ≤ exponentFor m e) :
    ∃ r, m / 2 ^ (exponentFor m e - e).toNat ≤ r ∧
      (UnpackedFloat.pack Format.binary64
        (roundWithAccuracy Format.binary64 .positive m e .exact)).toNat =
          min infinityWord (word r (exponentFor m e)) := by
  have hcanonical := canonical_div hm he
  let cut : ExtendedMantissa :=
    ExtendedMantissa.ofMantissaAndAccuracy m .exact >>> (exponentFor m e - e).toNat
  have hshift : shiftToTargetExponent Format.binary64 m e .exact = (cut, exponentFor m e) := by
    simp only [shiftToTargetExponent, targetExponent_eq, shiftToExponent]
    rw [show e + ((exponentFor m e - e).toNat : ℤ) = exponentFor m e by omega]
  have hmantissa : cut.mantissa = m / 2 ^ (exponentFor m e - e).toNat := mantissa_shiftRight _ _
  have hbounds := roundedMantissa_bounds cut
  rw [hmantissa] at hbounds
  unfold roundWithAccuracy
  rw [hshift]
  dsimp only
  generalize cut.roundedMantissa = r at *
  generalize exponentFor m e = t at *
  refine ⟨r, hbounds.1, ?_⟩
  have hmin := hcanonical.le
  have hlt := hcanonical.lt
  rcases Nat.lt_or_ge r (2 ^ 53) with hr | hr
  · -- The significand fits, so that it is kept.
    have hfit := shiftToTargetExponent_of_lt hr hmin
    by_cases hzero : r = 0
    · subst hzero
      have hleast : t = -1074 := hcanonical.full.resolve_right (by omega)
      rw [hfit, dif_pos rfl, hleast]
      exact toNat_packedZero
    · rw [hfit, dif_neg hzero]
      exact Canonical.toNat_pack ⟨hr, hmin, hcanonical.full.imp_right (by omega)⟩ _
  · -- The significand was carried into a further bit, which goes to the exponent.
    obtain rfl : r = 2 ^ 53 := by omega
    have hfull : Canonical (2 ^ 52) (t + 1) := ⟨by decide, by omega, Or.inr (Nat.le_refl _)⟩
    rw [shiftToTargetExponent_two_pow hmin, dif_neg (show ¬ 2 ^ 52 = 0 by decide)]
    dsimp only
    rw [hfull.toNat_pack, word, word]
    omega

lemma log2_shiftLeft {m : ℕ} (hm : 0 < m) (k : ℕ) : (m <<< k).log2 = m.log2 + k := by
  have hpos : 0 < m * 2 ^ k := Nat.mul_pos hm (Nat.two_pow_pos k)
  have hlow := Nat.mul_le_mul_right (2 ^ k) (Nat.log2_self_le hm.ne')
  have hhigh := Nat.mul_lt_mul_of_pos_right (Nat.lt_log2_self (n := m)) (Nat.two_pow_pos k)
  rw [← Nat.pow_add] at hlow hhigh
  rw [Nat.shiftLeft_eq, Nat.log2_eq_iff hpos.ne']
  exact ⟨hlow, by rwa [Nat.add_right_comm]⟩

/-- Rounding takes no number below another one that need not be rounded. -/
lemma le_toNat_pack_round {m n : ℕ} {e f : ℤ} (hm : 0 < m) (h : Canonical m e) (hf : f ≤ e)
    (hle : m * 2 ^ (e - f).toNat ≤ n) :
    min infinityWord (word m e) ≤
      (UnpackedFloat.pack Format.binary64
        (UnpackedFloat.round Format.binary64 .positive n f)).toNat := by
  have hn : 0 < n := Nat.lt_of_lt_of_le (Nat.mul_pos hm (Nat.two_pow_pos _)) hle
  let a := (f - exponentFor n f).toNat
  have hround : UnpackedFloat.round Format.binary64 .positive n f =
      roundWithAccuracy Format.binary64 .positive (n <<< a) (f - a) .exact := by
    simp only [UnpackedFloat.round, decreaseExponent, targetExponent_eq]
    rfl
  have hexponent : exponentFor (n <<< a) (f - a) = exponentFor n f := by
    rw [exponentFor, exponentFor, log2_shiftLeft hn]
    omega
  have hshifted : 0 < n <<< a := by
    rw [Nat.shiftLeft_eq]
    exact Nat.mul_pos hn (Nat.two_pow_pos a)
  have hcanonical := canonical_div hshifted (e := f - a) (by omega)
  obtain ⟨r, hr, hword⟩ := exists_toNat_pack_roundWithAccuracy hshifted (e := f - a) (by omega)
  rw [hround, hword]
  rw [hexponent] at hcanonical hr ⊢
  have hmin := h.le
  have hlt := h.lt
  -- A greater number gets no lower exponent.
  have hexp : e ≤ exponentFor n f := by
    rcases h.full with hleast | hfull
    · rw [exponentFor]
      omega
    · have hlog : 52 + (e - f).toNat ≤ n.log2 := by
        rw [Nat.le_log2 hn.ne', Nat.pow_add]
        exact Nat.le_trans (Nat.mul_le_mul_right _ hfull) hle
      rw [exponentFor]
      omega
  have hwords : word m e ≤ word r (exponentFor n f) := by
    rw [word, word]
    rcases Int.lt_or_eq_of_le hexp with hlow | heq
    · -- One exponent counts for as much as all significands below it.
      have hfull := hcanonical.full.resolve_left (by omega)
      omega
    · have ha : a = 0 := by omega
      rw [ha, Nat.shiftLeft_zero, ← heq, show e - (f - (0 : ℕ)) = e - f by omega] at hr
      have hdiv : m ≤ n / 2 ^ (e - f).toNat :=
        (Nat.le_div_iff_mul_le (Nat.two_pow_pos _)).2 hle
      omega
  exact Nat.le_min.2 ⟨Nat.min_le_left _ _, (Nat.min_le_right _ _).trans hwords⟩

lemma normalize_natCast {n : ℕ} (hn : 0 < n) (e : ℤ) :
    UnpackedFloat.normalize Format.binary64 n e .positive =
      UnpackedFloat.round Format.binary64 .positive n e := by
  have hgt : compare (n : ℤ) 0 = .gt := Int.compare_eq_gt.2 (by omega)
  simp only [UnpackedFloat.normalize]
  rw [hgt]
  rfl

/-- A number without a sign as its fields say, or infinity. -/
lemma plain_cases {x : Float} (hx : x.toBits.toNat ≤ infinityWord) :
    x.toModel.unpack = .infinity .positive ∧ x.toBits.toNat = infinityWord ∨
      x.toModel.unpack = .zero .positive ∧ x.toBits.toNat = 0 ∨
      ∃ m e h, x.toModel.unpack = .finite .positive m e h ∧ Canonical m e ∧
        x.toBits.toNat = word m e := by
  have hword : x.toModel.unpack = ofFields (signOf x.toBits.toNat)
      (x.toBits.toNat / 2 ^ 52 % 2 ^ 11) (x.toBits.toNat % 2 ^ 52) := unpack_eq_ofFields _
  rw [infinityWord] at hx ⊢
  rw [signOf, if_pos (by omega)] at hword
  by_cases he : x.toBits.toNat / 2 ^ 52 % 2 ^ 11 = 2047
  · have hm : x.toBits.toNat % 2 ^ 52 = 0 := by omega
    rw [ofFields, if_pos he, if_pos hm] at hword
    exact Or.inl ⟨hword, by omega⟩
  · rcases ofFields_cases (Nat.mod_lt x.toBits.toNat (by decide : 0 < 2 ^ 52)) he with
      ⟨hfields, hzero⟩ | ⟨m, e, h, hfields, hnat, hm, hfull, hmin⟩
    · exact Or.inr (Or.inl ⟨hword.trans hfields, by omega⟩)
    · refine Or.inr (Or.inr ⟨m, e, h, hword.trans hfields, ⟨hm, hmin, hfull⟩, ?_⟩)
      rw [word]
      omega

/-- Packing keeps a number that was read from a word. -/
lemma toNat_pack_unpack {x : Float} (hx : x.toBits.toNat ≤ infinityWord) :
    (UnpackedFloat.pack Format.binary64 x.toModel.unpack).toNat = x.toBits.toNat := by
  rcases plain_cases hx with ⟨hinf, hword⟩ | ⟨hzero, hword⟩ | ⟨m, e, h, hfin, hcanonical, hword⟩
  · rw [hinf, hword]
    exact toNat_packedInfinity
  · rw [hzero, hword]
    exact toNat_packedZero
  · rw [hfin, hcanonical.toNat_pack, ← hword]
    exact min_eq_right hx

/-- A sum of finite numbers without a sign is taken at the lower of their exponents. -/
lemma add_finite {m n : ℕ} {e f : ℤ} (hm : 0 < m) (hn : 0 < n) :
    UnpackedFloat.add Format.binary64 (.finite .positive m e hm) (.finite .positive n f hn) =
      UnpackedFloat.round Format.binary64 .positive
        (m <<< (e - min e f).toNat + n <<< (f - min e f).toNat) (min e f) := by
  have hpos : 0 < m <<< (e - min e f).toNat := by
    rw [Nat.shiftLeft_eq]
    exact Nat.mul_pos hm (Nat.two_pow_pos _)
  rw [← normalize_natCast (Nat.add_pos_left hpos _)]
  rfl

/-- **Adding a number without a sign** takes no number without a sign below where it was. -/
theorem le_add {x y : Float} (hx : x.toBits.toNat ≤ infinityWord)
    (hy : y.toBits.toNat ≤ infinityWord) : x.toBits.toNat ≤ (x + y).toBits.toNat := by
  show _ ≤ (UnpackedFloat.pack Format.binary64
    (UnpackedFloat.add Format.binary64 x.toModel.unpack y.toModel.unpack)).toNat
  rcases plain_cases hx with ⟨hxu, -⟩ | ⟨hxu, hxw⟩ | ⟨m, e, h, hxu, hcanonical, hxw⟩
  · -- Infinity stays infinite.
    rcases plain_cases hy with ⟨hyu, -⟩ | ⟨hyu, -⟩ | ⟨n, f, h, hyu, -, -⟩
    all_goals
      rw [hxu, hyu]
      exact hx.trans toNat_packedInfinity.ge
  · rw [hxw]
    exact Nat.zero_le _
  · rcases plain_cases hy with ⟨hyu, -⟩ | ⟨hyu, -⟩ | ⟨n, f, h', hyu, -, -⟩
    · rw [hxu, hyu]
      exact hx.trans toNat_packedInfinity.ge
    · have hsum : UnpackedFloat.add Format.binary64 x.toModel.unpack y.toModel.unpack =
          x.toModel.unpack := by
        rw [hxu, hyu]
        rfl
      rw [hsum, toNat_pack_unpack hx]
    · rw [hxu, hyu, add_finite]
      have hle := le_toNat_pack_round (n := m <<< (e - min e f).toNat + n <<< (f - min e f).toNat)
        h hcanonical (Int.min_le_left e f) (Nat.shiftLeft_eq m _ ▸ Nat.le_add_right _ _)
      rwa [← hxw, Nat.min_eq_right hx] at hle

/-! ### Numbers without a sign -/

lemma plain_roundWithAccuracy (m : ℕ) (e : ℤ) (a : Accuracy) :
    Plain (roundWithAccuracy Format.binary64 .positive m e a) := by
  unfold roundWithAccuracy
  exact of_dite (fun _ => rfl) fun _ => rfl

/-- A sum of numbers without a sign has none, and it is not a NaN. -/
lemma toBits_add_le {x y : Float} (hx : x.toBits.toNat ≤ infinityWord)
    (hy : y.toBits.toNat ≤ infinityWord) : (x + y).toBits.toNat ≤ infinityWord := by
  refine toNat_pack_le (u := UnpackedFloat.add Format.binary64 x.toModel.unpack y.toModel.unpack) ?_
  rcases plain_cases hx with ⟨hxu, -⟩ | ⟨hxu, -⟩ | ⟨m, e, h, hxu, -, -⟩
  · rcases plain_cases hy with ⟨hyu, -⟩ | ⟨hyu, -⟩ | ⟨n, f, h, hyu, -, -⟩
    all_goals
      rw [hxu, hyu]
      rfl
  · rcases plain_cases hy with ⟨hyu, -⟩ | ⟨hyu, -⟩ | ⟨n, f, h, hyu, -, -⟩
    all_goals
      rw [hxu, hyu]
      rfl
  · rcases plain_cases hy with ⟨hyu, -⟩ | ⟨hyu, -⟩ | ⟨n, f, h', hyu, -, -⟩
    · rw [hxu, hyu]
      rfl
    · rw [hxu, hyu]
      rfl
    · rw [hxu, hyu, add_finite]
      exact plain_roundWithAccuracy _ _ _

/-- A product of finite numbers without a sign has none, and it is not a NaN. -/
lemma toBits_mul_le {x y : Float} (hx : x.toBits.toNat < infinityWord)
    (hy : y.toBits.toNat < infinityWord) : (x * y).toBits.toNat ≤ infinityWord := by
  refine toNat_pack_le (u := UnpackedFloat.mul Format.binary64 x.toModel.unpack y.toModel.unpack) ?_
  rcases plain_cases hx.le with ⟨-, hinf⟩ | ⟨hxu, -⟩ | ⟨m, e, h, hxu, -, -⟩
  · exact absurd hinf hx.ne
  · rcases plain_cases hy.le with ⟨-, hinf⟩ | ⟨hyu, -⟩ | ⟨n, f, h, hyu, -, -⟩
    · exact absurd hinf hy.ne
    all_goals
      rw [hxu, hyu]
      rfl
  · rcases plain_cases hy.le with ⟨-, hinf⟩ | ⟨hyu, -⟩ | ⟨n, f, h', hyu, -, -⟩
    · exact absurd hinf hy.ne
    · rw [hxu, hyu]
      rfl
    · rw [hxu, hyu]
      exact plain_roundWithAccuracy _ _ _

/-- A number that is not without a sign is a NaN or has a sign. -/
lemma signed_cases {x : Float} (hx : infinityWord < x.toBits.toNat) :
    x.toModel.unpack = .notANumber ∨ x.toModel.unpack = .infinity .negative ∨
      x.toModel.unpack = .zero .negative ∨
      ∃ m e h, x.toModel.unpack = .finite .negative m e h := by
  have hword : x.toModel.unpack = ofFields (signOf x.toBits.toNat)
      (x.toBits.toNat / 2 ^ 52 % 2 ^ 11) (x.toBits.toNat % 2 ^ 52) := unpack_eq_ofFields _
  rw [infinityWord] at hx
  rw [hword]
  by_cases hsign : x.toBits.toNat < 2 ^ 63
  · rw [ofFields, if_pos (by omega), if_neg (by omega)]
    exact Or.inl rfl
  · rw [signOf, if_neg hsign, ofFields]
    by_cases he : x.toBits.toNat / 2 ^ 52 % 2 ^ 11 = 2047
    · rw [if_pos he]
      by_cases hm : x.toBits.toNat % 2 ^ 52 = 0
      · rw [if_pos hm]
        exact Or.inr (Or.inl rfl)
      · rw [if_neg hm]
        exact Or.inl rfl
    · rw [if_neg he]
      by_cases hz : significand (x.toBits.toNat / 2 ^ 52 % 2 ^ 11) (x.toBits.toNat % 2 ^ 52) = 0
      · rw [dif_pos hz]
        exact Or.inr (Or.inr (Or.inl rfl))
      · rw [dif_neg hz]
        exact Or.inr (Or.inr (Or.inr ⟨_, _, _, rfl⟩))

/-- Only a number without a sign is above another one. -/
lemma toBits_le_of_lt {x y : Float} (hx : x.toBits.toNat ≤ infinityWord) (hlt : x < y) :
    y.toBits.toNat ≤ infinityWord := by
  by_contra hy
  rw [lt_iff_compare] at hlt
  rcases plain_cases hx with ⟨hxu, -⟩ | ⟨hxu, -⟩ | ⟨m, e, h, hxu, -, -⟩
  all_goals
    rcases signed_cases (Nat.lt_of_not_le hy) with hyu | hyu | hyu | ⟨n, f, h', hyu⟩
    all_goals
      rw [hxu, hyu] at hlt
      cases hlt

/-- No word up to that of infinity is the word of a NaN. -/
lemma isNaN_eq_false {x : Float} (hx : x.toBits.toNat ≤ infinityWord) : x.isNaN = false := by
  show x.toModel.unpack.isNaN = false
  rcases plain_cases hx with ⟨hxu, -⟩ | ⟨hxu, -⟩ | ⟨n, f, h, hxu, -, -⟩
  all_goals
    rw [hxu]
    rfl

/-- The larger of two numbers has no sign if the second one has none. -/
lemma toBits_maxNum_le {x y : Float} (hy : y.toBits.toNat ≤ infinityWord) :
    (maxNum x y).toBits.toNat ≤ infinityWord := by
  simp only [maxNum]
  rw [isNaN_eq_false hy, Bool.or_false]
  split
  · rename_i hlt
    exact toBits_le_of_lt hy (of_decide_eq_true hlt)
  · exact hy

end SphereSearch.Binary64
