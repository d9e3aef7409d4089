import SphereSearch.Proofs.Number.Finite
import SphereSearch.Proofs.Number.Opposite

/-!
# Exact operations

What is computed without an error: results that are doubles themselves (`Binary64.Rounds.eq`), whole
numbers of less than 53 digits (`Binary64.value_ofNat`), and signs, which may be moved from one side
of a division to the other (`Binary64.neg_div_eq_div_neg`).
-/

open Float.Model Float.Model.UnpackedFloat

namespace SphereSearch.Binary64

/-! ### Results that are doubles -/

lemma Rounds.eq {r : ℝ} {x : Float} (h : Rounds r x) (hr : Representable r) : value x = r :=
  le_antisymm (h.isRounding.le_of_le hr le_rfl) (h.isRounding.ge_of_ge hr le_rfl)

/-- A number between zero and `n` stays there when it is rounded, and `n` bounds the error. -/
lemma Rounds.upTo {r : ℝ} {x : Float} {n : ℕ} (h : Rounds r x) (hn : n < 2 ^ 53) (hr : 0 ≤ r)
    (hle : r ≤ n) : Within n x ∧ 0 ≤ value x ∧ value x ≤ n ∧
      |value x - r| ≤ 1.2e-16 * n + 1e-60 := by
  have habs : |r| ≤ n := by rwa [abs_of_nonneg hr]
  have hwithin := h.within hn habs
  refine ⟨hwithin, h.nonneg hr, (le_abs_self _).trans hwithin.abs_le, ?_⟩
  refine h.isRounding.abs_sub_le.trans ?_
  gcongr

lemma within_one : Within 1 1.0 := ⟨by decide, by rw [value_one]; norm_num⟩

lemma within_two : Within 2 2.0 := ⟨by decide, by rw [value_two]; norm_num⟩

/-- Whole numbers of less than 53 binary digits are doubles. -/
lemma value_ofNat {n : ℕ} (hn : n < 2 ^ 53) :
    (Float.ofNat n).isFinite ∧ value (Float.ofNat n) = n := by
  have hone : Float.ofNat n = n.toUInt64.toFloat * 1.0 := by
    show Float.ofScientific n false 0 = _
    rw [Float.ofScientific, dif_pos ⟨hn, Nat.zero_le _⟩]
    rfl
  have hround := isRounding_normalize n 0 .positive
  rw [zpow_zero, mul_one, Int.cast_natCast] at hround
  have hword : n.toUInt64.toFloat.toModel.unpack =
      UnpackedFloat.unpack Format.binary64 (UnpackedFloat.pack Format.binary64
        (UnpackedFloat.normalize Format.binary64 n 0 .positive)) := by
    show UnpackedFloat.unpack Format.binary64 (UnpackedFloat.pack Format.binary64
      (UnpackedFloat.normalize Format.binary64 (n.toUInt64.toNat : ℤ) 0 .positive)) = _
    rw [Nat.toUInt64, UInt64.toNat_ofNat', Nat.mod_eq_of_lt (hn.trans (by decide))]
  have hle : |(n : ℝ)| ≤ 2 ^ 1023 := by
    rw [abs_of_nonneg (Nat.cast_nonneg n)]
    exact natCast_le_two_pow_1023 hn
  have hfloat := rounds_of_proper hword hround.1 hround.2 (Or.inr hle)
  have hvalue : value n.toUInt64.toFloat = n := hfloat.eq (representable_natCast hn)
  have hproduct := rounds_mul hfloat.isFinite (y := 1.0) (by decide +kernel) (Or.inr (by
    rw [hvalue, value_one, mul_one]
    exact hle))
  rw [hvalue, value_one, mul_one] at hproduct
  rw [hone]
  exact ⟨hproduct.isFinite, hproduct.eq (representable_natCast hn)⟩

/-! ### Signs -/

lemma toModel_unpack_neg {x : Float} (hx : x.isFinite) :
    (-x).toModel.unpack = x.toModel.unpack.neg := by
  show UnpackedFloat.unpack Format.binary64
    (UnpackedFloat.pack Format.binary64 x.toModel.unpack.neg) = _
  rw [unpack_pack_neg, unpack_pack (proper_of_isFinite hx) (small_of_isFinite hx)]

lemma value_neg {x : Float} (hx : x.isFinite) : (-x).isFinite ∧ value (-x) = -value x := by
  rw [value, toModel_unpack_neg hx, unpackedValue_unpacked_neg]
  refine ⟨isFinite_of_proper ?_, rfl⟩
  rw [toModel_unpack_neg hx]
  exact (proper_of_isFinite hx).unpacked_neg

/-- A sign may stand on either side of a division. -/
lemma unpacked_neg_div (u v : UnpackedFloat) :
    UnpackedFloat.div Format.binary64 u.neg v = UnpackedFloat.div Format.binary64 u v.neg := by
  have hsign : ∀ s t : Sign, -s / t = s / -t := by
    intro s t
    cases s <;> cases t <;> rfl
  cases u <;> cases v <;> simp only [UnpackedFloat.neg, UnpackedFloat.div, hsign]

lemma neg_div_eq_div_neg {x y : Float} (hx : x.isFinite) (hy : y.isFinite) : -x / y = x / -y := by
  show Float.ofModel (Float.Model.pack (UnpackedFloat.div Format.binary64
    (-x).toModel.unpack y.toModel.unpack)) = Float.ofModel (Float.Model.pack
      (UnpackedFloat.div Format.binary64 x.toModel.unpack (-y).toModel.unpack))
  rw [toModel_unpack_neg hx, toModel_unpack_neg hy, unpacked_neg_div]

lemma neg_div_neg_eq_div {x y : Float} (hx : x.isFinite) (hy : y.isFinite) : -x / -y = x / y := by
  have hneg : ∀ u : UnpackedFloat, u.neg.neg = u := by
    intro u
    cases u <;> simp only [UnpackedFloat.neg, sign_neg_neg]
  show Float.ofModel (Float.Model.pack (UnpackedFloat.div Format.binary64
    (-x).toModel.unpack (-y).toModel.unpack)) = Float.ofModel (Float.Model.pack
      (UnpackedFloat.div Format.binary64 x.toModel.unpack y.toModel.unpack))
  rw [toModel_unpack_neg hx, toModel_unpack_neg hy, unpacked_neg_div, hneg]

lemma magnitude_of_neg {x : Float} (h : x < 0.0) : x.abs = -x := by
  show Float.ofModel (Float.Model.pack x.toModel.unpack.abs) =
    Float.ofModel (Float.Model.pack x.toModel.unpack.neg)
  have hsigned : ¬ Unsigned x.toModel.unpack := fun hu => not_lt_zero_iff.2 hu h
  cases hx : x.toModel.unpack with
  | notANumber => rfl
  | zero s => exact absurd (by rw [hx]; trivial) hsigned
  | infinity s =>
    cases s with
    | positive => exact absurd (by rw [hx]; rfl) hsigned
    | negative => rfl
  | finite s m e hm =>
    cases s with
    | positive => exact absurd (by rw [hx]; rfl) hsigned
    | negative => rfl

lemma magnitude_of_pos {x : Float} (h : 0.0 < x) : x.abs = x := by
  have hword : x.toBits.toNat ≤ infinityWord := toBits_le_of_lt (by decide +kernel) h
  have habs : x.toModel.unpack.abs = x.toModel.unpack := by
    rcases plain_cases hword with ⟨hx, -⟩ | ⟨hx, -⟩ | ⟨m, e, hm, hx, -⟩
    all_goals
      rw [hx]
      rfl
  have hpack : x.abs.toBits.toNat =
      (UnpackedFloat.pack Format.binary64 x.toModel.unpack.abs).toNat := rfl
  rw [habs, toNat_pack_unpack hword] at hpack
  exact eq_of_toBits (UInt64.toNat_inj.1 hpack)

end SphereSearch.Binary64
