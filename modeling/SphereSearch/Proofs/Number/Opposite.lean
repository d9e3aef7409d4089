import SphereSearch.Proofs.Number.Finite

/-!
# Opposite doubles

Sums and products of doubles do not depend on the order of their operands (`add_comm`,
`mul_comm`), whatever these are.  A change of sign goes through every operation, as rounding treats
both signs alike: differences taken both ways are opposite (`opposite_sub`), and so are products and
sums of opposite terms.  Only a zero may have the wrong sign, as in `x - x`, which is `0` both ways;
that is why doubles are called opposite (`Opposite`) when one is the negative of the other or both
are zeros.  No comparison with zero can tell.
-/

open Float.Model Float.Model.UnpackedFloat

namespace SphereSearch.Binary64

/-! ### Operands in either order -/

lemma unpacked_add_comm (u v : UnpackedFloat) :
    UnpackedFloat.add Format.binary64 u v = UnpackedFloat.add Format.binary64 v u := by
  cases u with
  | notANumber => cases v <;> rfl
  | infinity s =>
    cases v with
    | infinity t => cases s <;> cases t <;> rfl
    | _ => rfl
  | zero s =>
    cases v with
    | zero t => cases s <;> cases t <;> rfl
    | _ => rfl
  | finite s m e hm =>
    cases v with
    | finite t n f hn =>
      simp only [UnpackedFloat.add]
      rw [min_comm f e, Int.add_comm]
    | _ => rfl

lemma sign_mul_comm (s t : Sign) : s * t = t * s := by
  cases s <;> cases t <;> rfl

lemma unpacked_mul_comm (u v : UnpackedFloat) :
    UnpackedFloat.mul Format.binary64 u v = UnpackedFloat.mul Format.binary64 v u := by
  cases u <;> cases v <;>
    simp only [UnpackedFloat.mul, sign_mul_comm, Nat.mul_comm, Int.add_comm]

/-- The order of the terms of a sum does not matter. -/
protected lemma add_comm (x y : Float) : x + y = y + x :=
  congrArg (fun u => Float.ofModel (Float.Model.pack u)) (unpacked_add_comm _ _)

/-- The order of the factors of a product does not matter. -/
protected lemma mul_comm (x y : Float) : x * y = y * x :=
  congrArg (fun u => Float.ofModel (Float.Model.pack u)) (unpacked_mul_comm _ _)

/-! ### Unpacked doubles of opposite sign -/

/-- One is the negative of the other, or both are zeros. -/
def UnpackedOpposite (u v : UnpackedFloat) : Prop :=
  v = u.neg ∨ ∃ s t, u = .zero s ∧ v = .zero t

lemma sign_neg_neg (s : Sign) : - -s = s := by
  cases s <;> rfl

lemma neg_sign_mul (s t : Sign) : -s * t = -(s * t) := by
  cases s <;> cases t <;> rfl

lemma neg_ofFields (s : Sign) (e m : ℕ) : ofFields (-s) e m = (ofFields s e m).neg := by
  unfold ofFields
  by_cases he : e = 2047
  · rw [if_pos he, if_pos he]
    split <;> rfl
  · rw [if_neg he, if_neg he]
    split <;> rfl

lemma unpack_packComponents_neg (s : Sign) (a : BitVec 11) (b : BitVec 52) :
    UnpackedFloat.unpack Format.binary64 (packComponents Format.binary64 (-s) a b) =
      (UnpackedFloat.unpack Format.binary64 (packComponents Format.binary64 s a b)).neg := by
  rw [unpack_packComponents, unpack_packComponents, neg_ofFields]

/-- Packing treats both signs alike. -/
lemma unpack_pack_neg (u : UnpackedFloat) :
    UnpackedFloat.unpack Format.binary64 (UnpackedFloat.pack Format.binary64 u.neg) =
      (UnpackedFloat.unpack Format.binary64 (UnpackedFloat.pack Format.binary64 u)).neg := by
  cases u with
  | notANumber =>
    rw [UnpackedFloat.neg, unpack_pack_notANumber]
    rfl
  | infinity s =>
    rw [UnpackedFloat.neg, unpack_pack_infinity, unpack_pack_infinity]
    rfl
  | zero s =>
    rw [UnpackedFloat.neg, unpack_pack (u := .zero _) trivial trivial,
      unpack_pack (u := .zero _) trivial trivial]
    rfl
  | finite s m e hm =>
    simp only [UnpackedFloat.neg, UnpackedFloat.pack]
    split
    · exact unpack_packComponents_neg s _ _
    · split
      · exact unpack_packComponents_neg s _ _
      · exact unpack_packComponents_neg s _ _

lemma UnpackedOpposite.unpack_pack {u v : UnpackedFloat} (h : UnpackedOpposite u v) :
    UnpackedOpposite (UnpackedFloat.unpack Format.binary64 (UnpackedFloat.pack Format.binary64 u))
      (UnpackedFloat.unpack Format.binary64 (UnpackedFloat.pack Format.binary64 v)) := by
  rcases h with rfl | ⟨s, t, rfl, rfl⟩
  · exact Or.inl (unpack_pack_neg u)
  · exact Or.inr ⟨s, t, Binary64.unpack_pack (u := .zero _) trivial trivial,
      Binary64.unpack_pack (u := .zero _) trivial trivial⟩

lemma neg_roundWithAccuracy (s : Sign) (m : ℕ) (e : ℤ) (a : Accuracy) :
    roundWithAccuracy Format.binary64 (-s) m e a =
      (roundWithAccuracy Format.binary64 s m e a).neg := by
  unfold roundWithAccuracy
  dsimp only
  split <;> rfl

lemma opposite_normalize (n e : ℤ) :
    UnpackedOpposite (UnpackedFloat.normalize Format.binary64 n e .positive)
      (UnpackedFloat.normalize Format.binary64 (-n) e .positive) := by
  unfold UnpackedFloat.normalize
  rcases lt_trichotomy n 0 with hlt | rfl | hgt
  · have hneg : 0 < -n := by omega
    rw [Int.compare_eq_lt.2 hlt, Int.compare_eq_gt.2 hneg]
    exact Or.inl (neg_roundWithAccuracy .negative _ _ _)
  · exact Or.inr ⟨.positive, .positive, rfl, rfl⟩
  · have hneg : -n < 0 := by omega
    rw [Int.compare_eq_gt.2 hgt, Int.compare_eq_lt.2 hneg]
    dsimp only
    rw [Int.neg_neg]
    exact Or.inl (neg_roundWithAccuracy .positive _ _ _)

/-- Sums of opposite terms are opposite. -/
lemma UnpackedOpposite.add {u u' v v' : UnpackedFloat} (hu : UnpackedOpposite u u')
    (hv : UnpackedOpposite v v') :
    UnpackedOpposite (UnpackedFloat.add Format.binary64 u v)
      (UnpackedFloat.add Format.binary64 u' v') := by
  rcases hu with rfl | ⟨s, s', rfl, rfl⟩
  · rcases hv with rfl | ⟨t, t', rfl, rfl⟩
    · cases u with
      | notANumber => exact Or.inl rfl
      | infinity s =>
        cases v with
        | infinity t => cases s <;> cases t <;> exact Or.inl rfl
        | _ => exact Or.inl rfl
      | zero s =>
        cases v with
        | zero t => cases s <;> cases t <;> exact Or.inr ⟨_, _, rfl, rfl⟩
        | _ => exact Or.inl rfl
      | finite s m e hm =>
        cases v with
        | finite t n f hn =>
          simp only [UnpackedFloat.add, UnpackedFloat.neg]
          rw [apply_neg, apply_neg, ← Int.neg_add]
          exact opposite_normalize _ _
        | _ => exact Or.inl rfl
    · -- A zero adds nothing, whatever its sign.
      cases u with
      | zero s =>
        cases s <;> cases t <;> cases t' <;> exact Or.inr ⟨_, _, rfl, rfl⟩
      | _ => exact Or.inl rfl
  · rcases hv with rfl | ⟨t, t', rfl, rfl⟩
    · cases v with
      | zero t =>
        cases s <;> cases s' <;> cases t <;> exact Or.inr ⟨_, _, rfl, rfl⟩
      | _ => exact Or.inl rfl
    · cases s <;> cases s' <;> cases t <;> cases t' <;> exact Or.inr ⟨_, _, rfl, rfl⟩

/-- Products with opposite factors are opposite. -/
lemma UnpackedOpposite.mul {u u' : UnpackedFloat} (hu : UnpackedOpposite u u') (v : UnpackedFloat) :
    UnpackedOpposite (UnpackedFloat.mul Format.binary64 u v)
      (UnpackedFloat.mul Format.binary64 u' v) := by
  rcases hu with rfl | ⟨s, s', rfl, rfl⟩
  · left
    cases u with
    | finite s m e hm =>
      cases v with
      | finite t n f hn =>
        simp only [UnpackedFloat.mul, UnpackedFloat.neg]
        rw [neg_sign_mul, neg_roundWithAccuracy]
        rfl
      | _ => simp only [UnpackedFloat.mul, UnpackedFloat.neg, neg_sign_mul]
    | _ => cases v <;> simp only [UnpackedFloat.mul, UnpackedFloat.neg, neg_sign_mul]
  · cases v with
    | notANumber => exact Or.inl rfl
    | infinity t => exact Or.inl rfl
    | zero t => exact Or.inr ⟨_, _, rfl, rfl⟩
    | finite t n f hn => exact Or.inr ⟨_, _, rfl, rfl⟩

/-- Differences taken both ways are opposite. -/
lemma unpackedOpposite_sub (u v : UnpackedFloat) :
    UnpackedOpposite (UnpackedFloat.sub Format.binary64 u v)
      (UnpackedFloat.sub Format.binary64 v u) := by
  have hneg : ∀ w : UnpackedFloat, w.neg.neg = w := by
    intro w
    cases w <;> simp only [UnpackedFloat.neg, sign_neg_neg]
  rw [sub_eq_add_unpacked_neg, sub_eq_add_unpacked_neg, unpacked_add_comm v]
  exact UnpackedOpposite.add (Or.inl rfl) (Or.inl (hneg v).symm)

/-- What is above zero has its opposite below zero, and the other way round. -/
lemma UnpackedOpposite.compare_zero {u v : UnpackedFloat} (h : UnpackedOpposite u v) :
    UnpackedFloat.compare (.zero .positive) u = some .lt ↔
      v.compare (.zero .positive) = some .lt := by
  rcases h with rfl | ⟨s, t, rfl, rfl⟩
  · cases u with
    | notANumber => exact Iff.rfl
    | zero s => exact Iff.rfl
    | infinity s => cases s <;> exact Iff.rfl
    | finite s m e hm => cases s <;> exact Iff.rfl
  · exact Iff.rfl

/-! ### Doubles of opposite sign -/

/-- One is the negative of the other, or both are zeros. -/
def Opposite (x y : Float) : Prop := UnpackedOpposite x.toModel.unpack y.toModel.unpack

lemma opposite_sub (x y : Float) : Opposite (x - y) (y - x) :=
  (unpackedOpposite_sub _ _).unpack_pack

lemma Opposite.add {x x' y y' : Float} (hx : Opposite x x') (hy : Opposite y y') :
    Opposite (x + y) (x' + y') :=
  (UnpackedOpposite.add hx hy).unpack_pack

lemma Opposite.mul {x x' : Float} (hx : Opposite x x') (y : Float) : Opposite (x * y) (x' * y) :=
  (UnpackedOpposite.mul hx y.toModel.unpack).unpack_pack

lemma Opposite.symm {x y : Float} (h : Opposite x y) : Opposite y x := by
  rcases h with h | ⟨s, t, hx, hy⟩
  · left
    rw [h]
    cases x.toModel.unpack <;> simp only [UnpackedFloat.neg, sign_neg_neg]
  · exact Or.inr ⟨t, s, hy, hx⟩

/-- Of opposite doubles, one is above zero if the other one is below it. -/
lemma Opposite.zero_lt_iff {x y : Float} (h : Opposite x y) : 0.0 < x ↔ y < 0.0 := by
  rw [lt_iff_compare, lt_iff_compare, unpack_zero]
  exact UnpackedOpposite.compare_zero h

/-! ### Comparing both ways -/

lemma unpacked_compare_swap (u v : UnpackedFloat) :
    v.compare u = (u.compare v).map Ordering.swap := by
  have hfields : ∀ (e f : ℤ) (m n : ℕ), (compare f e).then (compare n m) =
      ((compare e f).then (compare m n)).swap := by
    intro e f m n
    rw [Ordering.swap_then, ← Std.OrientedCmp.eq_swap, ← Std.OrientedCmp.eq_swap]
  cases u with
  | notANumber => cases v <;> rfl
  | infinity s =>
    cases v with
    | infinity t => cases s <;> cases t <;> rfl
    | _ => cases s <;> rfl
  | zero s =>
    cases v with
    | infinity t => cases t <;> rfl
    | finite t n f hn => cases t <;> rfl
    | _ => rfl
  | finite s m e hm =>
    cases v with
    | notANumber => cases s <;> rfl
    | infinity t => cases s <;> cases t <;> rfl
    | zero t => cases s <;> rfl
    | finite t n f hn =>
      cases s <;> cases t
      · exact congrArg (fun o => some (Ordering.swap o)) (hfields e f m n)
      · rfl
      · rfl
      · exact congrArg some (hfields e f m n)

/-- Being equal as numbers goes both ways. -/
protected lemma beq_comm (x y : Float) : (x == y) = (y == x) := by
  rw [Bool.eq_iff_iff, beq_iff_compare, beq_iff_compare,
    unpacked_compare_swap x.toModel.unpack y.toModel.unpack]
  cases x.toModel.unpack.compare y.toModel.unpack with
  | none => exact Iff.rfl
  | some o => cases o <;> decide

end SphereSearch.Binary64
