import SphereSearch.Proofs.Number.Finite
import SphereSearch.Sphere.Point

/-!
# Points of unit length are bounded

The check of a length admits no coordinate that is infinite, and none that is large
(`Point.within_of_isUnit`).  Sums, differences and products of bounded vectors are bounded in turn
(`Point.Within`), so that nothing overflows where points of unit length are measured.
-/

namespace SphereSearch

open Binary64

namespace Point

/-- Every coordinate is finite, and its magnitude is at most `n`. -/
structure Within (n : ℕ) (p : Point) : Prop where
  x : Binary64.Within n p.x
  y : Binary64.Within n p.y
  z : Binary64.Within n p.z

namespace Within

variable {m n : ℕ} {p q : Point}

lemma add (hp : p.Within m) (hq : q.Within n) (h : m + n < 2 ^ 53) : (p + q).Within (m + n) :=
  ⟨hp.x.add hq.x h, hp.y.add hq.y h, hp.z.add hq.z h⟩

lemma sub (hp : p.Within m) (hq : q.Within n) (h : m + n < 2 ^ 53) : (p - q).Within (m + n) :=
  ⟨hp.x.sub hq.x h, hp.y.sub hq.y h, hp.z.sub hq.z h⟩

lemma dot (hp : p.Within m) (hq : q.Within n) (h : m * n + m * n + m * n < 2 ^ 53) :
    Binary64.Within (m * n + m * n + m * n) (p.dot q) := by
  have hmul : m * n < 2 ^ 53 := by omega
  exact ((hp.x.mul hq.x hmul).add (hp.y.mul hq.y hmul) (by omega)).add (hp.z.mul hq.z hmul) h

lemma cross (hp : p.Within m) (hq : q.Within n) (h : m * n + m * n < 2 ^ 53) :
    (p.cross q).Within (m * n + m * n) := by
  have hmul : m * n < 2 ^ 53 := by omega
  exact ⟨(hp.y.mul hq.z hmul).sub (hp.z.mul hq.y hmul) h,
    (hp.z.mul hq.x hmul).sub (hp.x.mul hq.z hmul) h,
    (hp.x.mul hq.y hmul).sub (hp.y.mul hq.x hmul) h⟩

end Within

/-! ### Unit length -/

/-- A finite square, with the bound that it gives for its root. -/
lemma value_mul_self {c : Float} (h : (c * c).isFinite) :
    Rounds (value c * value c) (c * c) ∧ 0 ≤ value (c * c) ∧
      (value (c * c) ≤ 2 → Binary64.Within 2 c) := by
  have hc := finite_of_mul_self h
  have hr := rounds_mul hc hc (Or.inl h)
  refine ⟨hr, hr.nonneg (mul_self_nonneg _), fun hle => ⟨hc, ?_⟩⟩
  have herror := (abs_le.1 hr.isRounding.abs_sub_le).1
  rw [abs_mul_self] at herror
  refine abs_le_of_sq_le_sq ?_ (Nat.cast_nonneg _)
  push_cast
  linarith

/-- No coordinate is much longer than the vector. -/
lemma within_of_norm2_le {p : Point} (h : p.norm2.isFinite) (hle : value p.norm2 ≤ 2) :
    p.Within 2 := by
  obtain ⟨hxy, hz⟩ := finite_of_add h
  obtain ⟨hx, hy⟩ := finite_of_add hxy
  have hsum := (rounds_add hx hy (Or.inl hxy)).isRounding
  have hnorm := (rounds_add hxy hz (Or.inl h)).isRounding
  obtain ⟨-, hx0, hxle⟩ := value_mul_self hx
  obtain ⟨-, hy0, hyle⟩ := value_mul_self hy
  obtain ⟨-, hz0, hzle⟩ := value_mul_self hz
  have hxs := hsum.ge_of_ge (representable_value hx) (by linarith)
  have hys := hsum.ge_of_ge (representable_value hy) (by linarith)
  have hsn := hnorm.ge_of_ge (representable_value hxy) (by linarith)
  have hzn := hnorm.ge_of_ge (representable_value hz) (by linarith)
  have hle : value (p.x * p.x + p.y * p.y + p.z * p.z) ≤ 2 := hle
  exact ⟨hxle (by linarith), hyle (by linarith), hzle (by linarith)⟩

lemma value_trillionth_le : value 1e-12 ≤ 1.0001e-12 := by
  have hle : rational 1e-12 ≤ 1.0001e-12 := by decide +kernel
  rw [value_eq_rational]
  refine (Rat.cast_le.2 hle).trans_eq ?_
  norm_num

/-- The square of a unit length, as it is computed. -/
lemma abs_norm2_sub_one_le {p : Point} (h : p.isUnit) :
    p.norm2.isFinite ∧ |value p.norm2 - 1| ≤ 1.001e-12 := by
  have hle : (p.norm2 - 1.0).abs ≤ 1e-12 := of_decide_eq_true h
  have htiny : (1e-12 : Float).isFinite := by decide
  have hfinite := finite_of_abs_le htiny hle
  obtain ⟨hnorm, hone⟩ := finite_of_sub hfinite
  refine ⟨hnorm, ?_⟩
  have hdiff := (abs_value_le htiny hle).trans value_trillionth_le
  have herror := (rounds_sub hnorm hone (Or.inl hfinite)).isRounding.abs_sub_le
  rw [value_one] at herror
  have htriangle := abs_sub (value (p.norm2 - 1.0)) (value (p.norm2 - 1.0) - (value p.norm2 - 1))
  rw [sub_sub_cancel] at htriangle
  linarith

/-- Points of unit length are bounded. -/
theorem within_of_isUnit {p : Point} (h : p.isUnit) : p.Within 2 := by
  obtain ⟨hfinite, hle⟩ := abs_norm2_sub_one_le h
  exact within_of_norm2_le hfinite (by linarith [(abs_le.1 hle).2])

end Point

end SphereSearch
