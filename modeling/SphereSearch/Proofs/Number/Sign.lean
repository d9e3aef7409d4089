import Mathlib.Order.Basic
import SphereSearch.Number.Word

/-!
# Squares are not negative

Rounding keeps the sign of a number.  So the square of a double is not below zero, and neither
are sums and quotients of such doubles: each result is a number without a sign, a zero, or a
NaN.
-/

open Float.Model Float.Model.UnpackedFloat

namespace SphereSearch.Binary64

/-! ### Numbers without a sign -/

/-- The number is not below zero: it has no sign, or it is a zero or a NaN. -/
def Unsigned : UnpackedFloat → Prop
  | .notANumber => True
  | .infinity s => s = .positive
  | .zero _ => True
  | .finite s _ _ _ => s = .positive

lemma unsigned_iff_compare {u : UnpackedFloat} :
    Unsigned u ↔ u.compare (.zero .positive) ≠ some .lt := by
  cases u with
  | notANumber => exact iff_of_true trivial nofun
  | infinity s =>
    cases s with
    | positive => exact iff_of_true rfl nofun
    | negative => exact iff_of_false nofun fun h => h rfl
  | zero s => exact iff_of_true trivial nofun
  | finite s m e h =>
    cases s with
    | positive => exact iff_of_true rfl nofun
    | negative => exact iff_of_false nofun fun h => h rfl

lemma not_lt_zero_iff {x : Float} : ¬ x < 0.0 ↔ Unsigned x.toModel.unpack := by
  rw [lt_iff_compare, unpack_zero, unsigned_iff_compare]

lemma of_dite {P : UnpackedFloat → Prop} {c : Prop} [Decidable c] {u : c → UnpackedFloat}
    {v : ¬ c → UnpackedFloat} (hu : ∀ h, P (u h)) (hv : ∀ h, P (v h)) :
    P (if h : c then u h else v h) := by
  by_cases h : c
  · rw [dif_pos h]
    exact hu h
  · rw [dif_neg h]
    exact hv h

lemma unsigned_ofFields (e m : ℕ) : Unsigned (ofFields .positive e m) := by
  unfold ofFields
  by_cases he : e = 2047
  · rw [if_pos he]
    split
    · rfl
    · trivial
  · rw [if_neg he]
    exact of_dite (fun _ => trivial) fun _ => rfl

/-- A word without a sign bit is that of a number without a sign. -/
lemma unsigned_unpack {b : BitVec 64} (h : b.toNat < 2 ^ 63) :
    Unsigned (UnpackedFloat.unpack Format.binary64 b) := by
  rw [unpack_eq_ofFields, signOf, if_pos h]
  exact unsigned_ofFields _ _

lemma packComponents_positive_lt (e : BitVec 11) (m : BitVec 52) :
    (packComponents Format.binary64 .positive e m).toNat < 2 ^ 63 := by
  have he := e.isLt
  have hm := m.isLt
  rw [toNat_packComponents_positive]
  omega

/-- Packing keeps a number from getting a sign. -/
lemma unsigned_unpack_pack {u : UnpackedFloat} (h : Unsigned u) :
    Unsigned (UnpackedFloat.unpack Format.binary64 (UnpackedFloat.pack Format.binary64 u)) := by
  cases u with
  | notANumber => exact unsigned_unpack (packComponents_positive_lt _ _)
  | infinity s =>
    cases h
    exact unsigned_unpack (packComponents_positive_lt _ _)
  | zero s =>
    cases s with
    | positive => exact unsigned_unpack (packComponents_positive_lt _ _)
    | negative =>
      have hzero : UnpackedFloat.unpack Format.binary64
          (UnpackedFloat.pack Format.binary64 (.zero .negative)) = .zero .negative := by
        rw [unpack_eq_ofFields]
        rfl
      rw [hzero]
      trivial
  | finite s m e hm =>
    cases h
    refine unsigned_unpack ?_
    unfold UnpackedFloat.pack
    dsimp only
    split
    · exact packComponents_positive_lt _ _
    · split
      · exact packComponents_positive_lt _ _
      · exact packComponents_positive_lt _ _

lemma unsigned_roundWithAccuracy (m : ℕ) (e : Int) (a : Accuracy) :
    Unsigned (roundWithAccuracy Format.binary64 .positive m e a) := by
  unfold roundWithAccuracy
  exact of_dite (fun _ => trivial) fun _ => rfl

/-! ### Arithmetic -/

lemma sign_mul_self (s : Sign) : s * s = .positive := by
  cases s <;> rfl

lemma unsigned_mul_self (u : UnpackedFloat) :
    Unsigned (UnpackedFloat.mul Format.binary64 u u) := by
  cases u with
  | notANumber => trivial
  | infinity s => exact sign_mul_self s
  | zero s => trivial
  | finite s m e h =>
    show Unsigned (roundWithAccuracy Format.binary64 (s * s) (m * m) (e + e) .exact)
    rw [sign_mul_self]
    exact unsigned_roundWithAccuracy _ _ _

lemma unsigned_normalize {m : Int} (h : 0 ≤ m) (e : Int) :
    Unsigned (UnpackedFloat.normalize Format.binary64 m e .positive) := by
  unfold UnpackedFloat.normalize
  split
  · rename_i hlt
    rw [Int.compare_eq_lt] at hlt
    omega
  · trivial
  · exact unsigned_roundWithAccuracy _ _ _

lemma unsigned_add {u v : UnpackedFloat} (hu : Unsigned u) (hv : Unsigned v) :
    Unsigned (UnpackedFloat.add Format.binary64 u v) := by
  cases u with
  | notANumber => trivial
  | infinity s =>
    cases hu
    cases v with
    | notANumber => trivial
    | infinity t =>
      cases hv
      rfl
    | zero t => rfl
    | finite t m e h => rfl
  | zero s =>
    cases v with
    | notANumber => trivial
    | infinity t => exact hv
    | zero t => cases s <;> cases t <;> trivial
    | finite t m e h => exact hv
  | finite s m e h =>
    cases hu
    cases v with
    | notANumber => trivial
    | infinity t => exact hv
    | zero t => rfl
    | finite t m' e' h' =>
      cases hv
      refine unsigned_normalize ?_ _
      exact Int.add_nonneg (Int.natCast_nonneg _) (Int.natCast_nonneg _)

/-- Dividing keeps numbers from getting a sign, unless a zero with a sign divides. -/
lemma unsigned_div {u v : UnpackedFloat} (hu : Unsigned u) (hv : Unsigned v)
    (hzero : ∀ s, v ≠ .zero s) : Unsigned (UnpackedFloat.div Format.binary64 u v) := by
  cases u with
  | notANumber => trivial
  | infinity s =>
    cases hu
    cases v with
    | notANumber => trivial
    | infinity t => trivial
    | zero t => exact absurd rfl (hzero t)
    | finite t m e h =>
      cases hv
      rfl
  | zero s =>
    cases v with
    | notANumber => trivial
    | infinity t => trivial
    | zero t => trivial
    | finite t m e h => trivial
  | finite s m e h =>
    cases hu
    cases v with
    | notANumber => trivial
    | infinity t => trivial
    | zero t => exact absurd rfl (hzero t)
    | finite t m' e' h' =>
      cases hv
      exact unsigned_roundWithAccuracy _ _ _

/-- A square is not below zero. -/
lemma mul_self_not_neg (x : Float) : ¬ x * x < 0.0 := by
  rw [not_lt_zero_iff]
  exact unsigned_unpack_pack (unsigned_mul_self _)

/-- A sum is not below zero if its terms are not. -/
lemma add_not_neg {x y : Float} (hx : ¬ x < 0.0) (hy : ¬ y < 0.0) : ¬ x + y < 0.0 := by
  rw [not_lt_zero_iff] at hx hy ⊢
  exact unsigned_unpack_pack (unsigned_add hx hy)

/-- A quotient by something else than zero is not below zero if its terms are not. -/
lemma div_not_neg {x y : Float} (hx : ¬ x < 0.0) (hy : ¬ y < 0.0) (hne : ¬ y == 0.0) :
    ¬ x / y < 0.0 := by
  rw [not_lt_zero_iff] at hx hy ⊢
  refine unsigned_unpack_pack (unsigned_div hx hy ?_)
  intro s hs
  have hs' : y.toModel.unpack = .zero s := hs
  rw [beq_iff_compare, unpack_zero, hs'] at hne
  exact hne rfl

/-- What is above zero is not below it. -/
lemma not_lt_zero_of_zero_lt {x : Float} (h : 0.0 < x) : ¬ x < 0.0 := by
  rw [lt_iff_compare, unpack_zero] at h
  rw [not_lt_zero_iff]
  cases hx : x.toModel.unpack with
  | notANumber => trivial
  | zero s => trivial
  | infinity s =>
    rw [hx] at h
    cases s with
    | positive => rfl
    | negative => exact absurd h (by decide)
  | finite s m e hm =>
    rw [hx] at h
    cases s with
    | positive => rfl
    | negative => exact absurd (show some Ordering.gt = some .lt from h) (by decide)

/-- A number that is raised to zero at least is not below zero. -/
lemma maxNum_zero_not_neg (x : Float) : ¬ maxNum x 0.0 < 0.0 := by
  unfold maxNum
  rw [show (0.0 : Float).isNaN = false by decide, Bool.or_false]
  split
  · rename_i h
    exact not_lt_zero_of_zero_lt (of_decide_eq_true h)
  · decide

/-- The smaller of two numbers is not below zero if neither is. -/
lemma minNum_not_neg {x y : Float} (hx : ¬ x < 0.0) (hy : ¬ y < 0.0) : ¬ minNum x y < 0.0 := by
  unfold minNum
  split
  · exact hx
  · exact hy

end SphereSearch.Binary64
