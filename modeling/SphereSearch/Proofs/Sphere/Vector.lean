import SphereSearch.Proofs.Sphere.Bounds

/-!
# Points as vectors

A finite point stands for a vector of real numbers (`Point.vec`), here a quaternion without a real
part, since quaternions have the scalar product that is needed.  Squared distances through the
sphere are computed with a small error (`Point.abs_chord2_sub_le`), and a point of unit length,
whose length is only nearly one, has a direction whose length is one (`Point.direction`).  Between
directions the triangle inequality of angles holds; in terms of chords it bounds `gap`, the real
number that a difference of two chords computes (`gap_le_norm_sub`).
-/

namespace SphereSearch

open Binary64 RealInnerProductSpace

/-! ### Unit vectors -/

/-- The length of the chord that is left of one with the square `a` when the angle of one with the
square `b` is taken from its angle. -/
noncomputable def gap (a b : ℝ) : ℝ := √(a * (1 - b / 4)) - √(b * (1 - a / 4))

variable {E : Type*} [NormedAddCommGroup E] [InnerProductSpace ℝ E] {c p q : E}

lemma norm_sub_sq_of_norm_one (hp : ‖p‖ = 1) (hq : ‖q‖ = 1) : ‖p - q‖ ^ 2 = 2 - 2 * ⟪p, q⟫ := by
  rw [norm_sub_sq_real, hp, hq]
  ring

/-- What is left of two unit vectors once their parts along a third one are taken away. -/
lemma inner_sub_mul_le (hc : ‖c‖ = 1) (hp : ‖p‖ = 1) (hq : ‖q‖ = 1) :
    ⟪p, q⟫ - ⟪c, p⟫ * ⟪c, q⟫ ≤ √(1 - ⟪c, p⟫ ^ 2) * √(1 - ⟪c, q⟫ ^ 2) := by
  have hcc : ⟪c, c⟫ = 1 := by rw [real_inner_self_eq_norm_sq, hc, one_pow]
  have hnorm : ∀ {x : E}, ‖x‖ = 1 → ‖x - ⟪c, x⟫ • c‖ = √(1 - ⟪c, x⟫ ^ 2) := by
    intro x hx
    rw [← Real.sqrt_sq (norm_nonneg (x - ⟪c, x⟫ • c)), norm_sub_sq_real, hx, norm_smul, hc,
      inner_smul_right, real_inner_comm c x, mul_one, Real.norm_eq_abs, sq_abs]
    congr 1
    ring
  have hinner : ⟪p - ⟪c, p⟫ • c, q - ⟪c, q⟫ • c⟫ = ⟪p, q⟫ - ⟪c, p⟫ * ⟪c, q⟫ := by
    rw [inner_sub_left, inner_sub_right, inner_sub_right, inner_smul_left, inner_smul_left,
      inner_smul_right, inner_smul_right, hcc, real_inner_comm c p]
    simp only [conj_trivial]
    ring
  rw [← hinner, ← hnorm hp, ← hnorm hq]
  exact real_inner_le_norm _ _

/-- **The triangle inequality on the sphere**, in terms of chords. -/
theorem gap_le_norm_sub (hc : ‖c‖ = 1) (hp : ‖p‖ = 1) (hq : ‖q‖ = 1) :
    gap (‖c - p‖ ^ 2) (‖c - q‖ ^ 2) ≤ ‖p - q‖ := by
  have hinner := inner_sub_mul_le hc hp hq
  have hbound : ∀ {x : E}, ‖x‖ = 1 → 0 ≤ 1 - ⟪c, x⟫ ∧ 0 ≤ 1 + ⟪c, x⟫ := by
    intro x hx
    have habs := abs_real_inner_le_norm c x
    rw [hc, hx, one_mul, abs_le] at habs
    constructor <;> linarith
  obtain ⟨hpsub, hpadd⟩ := hbound hp
  obtain ⟨hqsub, hqadd⟩ := hbound hq
  set u := ⟪c, p⟫
  set v := ⟪c, q⟫
  have hx : ‖c - p‖ ^ 2 * (1 - ‖c - q‖ ^ 2 / 4) = (1 - u) * (1 + v) := by
    rw [norm_sub_sq_of_norm_one hc hp, norm_sub_sq_of_norm_one hc hq]
    ring
  have hy : ‖c - q‖ ^ 2 * (1 - ‖c - p‖ ^ 2 / 4) = (1 - v) * (1 + u) := by
    rw [norm_sub_sq_of_norm_one hc hp, norm_sub_sq_of_norm_one hc hq]
    ring
  have hroots : √((1 - u) * (1 + v)) * √((1 - v) * (1 + u)) = √(1 - u ^ 2) * √(1 - v ^ 2) := by
    have hu : 0 ≤ 1 - u ^ 2 := by
      rw [show 1 - u ^ 2 = (1 - u) * (1 + u) by ring]
      exact mul_nonneg hpsub hpadd
    rw [← Real.sqrt_mul (mul_nonneg hpsub hqadd), ← Real.sqrt_mul hu]
    congr 1
    ring
  rw [gap, hx, hy]
  refine le_of_abs_le (abs_le_of_sq_le_sq ?_ (norm_nonneg _))
  rw [norm_sub_sq_of_norm_one hp hq, sub_sq, mul_assoc, hroots,
    Real.sq_sqrt (mul_nonneg hpsub hqadd), Real.sq_sqrt (mul_nonneg hqsub hpadd)]
  linarith

/-- Vectors that are nearly of unit length are as far from each other as their directions,
nearly. -/
lemma abs_norm_smul_sub_sq_le {s t δ : ℝ} (hp : ‖p‖ = 1) (hq : ‖q‖ = 1) (hs : 0 ≤ s) (ht : 0 ≤ t)
    (hsδ : |s ^ 2 - 1| ≤ δ) (htδ : |t ^ 2 - 1| ≤ δ) (hδ : δ ≤ 1) :
    |‖s • p - t • q‖ ^ 2 - ‖p - q‖ ^ 2| ≤ 4 * δ := by
  have hexpand : ‖s • p - t • q‖ ^ 2 - ‖p - q‖ ^ 2 =
      (s ^ 2 - 1) + (t ^ 2 - 1) - 2 * ((s * t - 1) * ⟪p, q⟫) := by
    rw [norm_sub_sq_real, norm_sub_sq_of_norm_one hp hq, norm_smul, norm_smul, hp, hq,
      inner_smul_left, inner_smul_right, conj_trivial, Real.norm_of_nonneg hs,
      Real.norm_of_nonneg ht]
    ring
  have hst : |s * t - 1| ≤ δ := by
    rw [abs_le] at hsδ htδ ⊢
    constructor
    · have hsq : (1 - δ) ^ 2 ≤ (s * t) ^ 2 := by
        rw [mul_pow, pow_two]
        exact mul_le_mul (by linarith) (by linarith) (by linarith) (sq_nonneg s)
      linarith [le_of_abs_le (abs_le_of_sq_le_sq hsq (mul_nonneg hs ht))]
    · linarith [two_mul_le_add_sq s t]
  have hinner : |⟪p, q⟫| ≤ 1 := by
    have := abs_real_inner_le_norm p q
    rwa [hp, hq, one_mul] at this
  have hproduct : |(s * t - 1) * ⟪p, q⟫| ≤ δ := by
    rw [abs_mul]
    exact (mul_le_of_le_one_right (abs_nonneg _) hinner).trans hst
  rw [hexpand]
  rw [abs_le] at *
  constructor <;> linarith

namespace Point

/-- The vector that a point stands for: a quaternion without a real part. -/
noncomputable def vec (p : Point) : Quaternion ℝ := ⟨0, value p.x, value p.y, value p.z⟩

lemma norm_sq_vec (p : Point) :
    ‖p.vec‖ ^ 2 = value p.x * value p.x + value p.y * value p.y + value p.z * value p.z := by
  rw [pow_two, ← Quaternion.normSq_eq_norm_mul_self, Quaternion.normSq_def']
  simp only [vec]
  ring

lemma norm_sq_vec_sub (p q : Point) :
    ‖p.vec - q.vec‖ ^ 2 = (value p.x - value q.x) ^ 2 + (value p.y - value q.y) ^ 2 +
      (value p.z - value q.z) ^ 2 := by
  rw [pow_two, ← Quaternion.normSq_eq_norm_mul_self, Quaternion.normSq_def', Quaternion.re_sub,
    Quaternion.imI_sub, Quaternion.imJ_sub, Quaternion.imK_sub]
  simp only [vec]
  ring

/-! ### The accuracy of squared lengths -/

/-- The square of a length is computed with a small relative error. -/
lemma Within.abs_norm2_sub_le {n : ℕ} {p : Point} (hp : p.Within n)
    (h : n * n + n * n + n * n < 2 ^ 53) :
    |value p.norm2 - ‖p.vec‖ ^ 2| ≤ 4e-16 * ‖p.vec‖ ^ 2 + 1e-58 := by
  have hmul : n * n < 2 ^ 53 := by omega
  have hsq : ∀ {c : Float}, Binary64.Within n c → 0 ≤ value (c * c) ∧
      |value (c * c) - value c * value c| ≤ 1.2e-16 * (value c * value c) + 1e-60 := by
    intro c hc
    have hr := hc.rounds_mul hc hmul
    have herror := hr.isRounding.abs_sub_le
    rw [abs_mul_self] at herror
    exact ⟨hr.nonneg (mul_self_nonneg _), herror⟩
  obtain ⟨hx, hxe⟩ := hsq hp.x
  obtain ⟨hy, hye⟩ := hsq hp.y
  obtain ⟨hz, hze⟩ := hsq hp.z
  have hxx := hp.x.mul hp.x hmul
  have hyy := hp.y.mul hp.y hmul
  have hsum := hxx.rounds_add hyy (by omega)
  have hnorm := (hxx.add hyy (by omega)).rounds_add (hp.z.mul hp.z hmul) h
  have hs := hsum.nonneg (add_nonneg hx hy)
  have hse := hsum.isRounding.abs_sub_le
  have hne := hnorm.isRounding.abs_sub_le
  rw [abs_of_nonneg (add_nonneg hx hy)] at hse
  rw [abs_of_nonneg (add_nonneg hs hz)] at hne
  rw [norm_sq_vec]
  show |value (p.x * p.x + p.y * p.y + p.z * p.z) - _| ≤ _
  rw [abs_le] at *
  constructor <;> linarith

/-- The length of a point that is accepted as having unit length. -/
lemma abs_norm_sq_sub_one_le {p : Point} (h : p.isUnit) : |‖p.vec‖ ^ 2 - 1| ≤ 1.01e-12 := by
  have hunit := (abs_norm2_sub_one_le h).2
  have herror := (within_of_isUnit h).abs_norm2_sub_le (by decide)
  rw [abs_le] at *
  constructor <;> linarith

/-- A difference of coordinates is squared with a small error. -/
lemma abs_sq_sub_le {c d : Float} (hc : Binary64.Within 2 c) (hd : Binary64.Within 2 d) :
    |value (c - d) * value (c - d) - (value c - value d) ^ 2| ≤ 2e-14 := by
  have herror := (hc.rounds_sub hd (by decide)).isRounding.abs_sub_le
  have hsub := (hc.sub hd (by decide)).abs_le
  have hc := hc.abs_le
  have hd := hd.abs_le
  push_cast at hsub hc hd
  have hdiff := (abs_sub (value c) (value d)).trans (add_le_add hc hd)
  have hsum : |value (c - d) + (value c - value d)| ≤ 8 :=
    (abs_add_le _ _).trans (by linarith)
  have hfactor : value (c - d) * value (c - d) - (value c - value d) ^ 2 =
      (value (c - d) - (value c - value d)) * (value (c - d) + (value c - value d)) := by ring
  rw [hfactor, abs_mul]
  calc |value (c - d) - (value c - value d)| * |value (c - d) + (value c - value d)|
      ≤ 5e-16 * 8 := by
        gcongr
        linarith
    _ ≤ 2e-14 := by norm_num

/-- The square of the distance between two points, through the sphere, is computed with a small
error. -/
lemma abs_chord2_sub_le {p q : Point} (hp : p.isUnit) (hq : q.isUnit) :
    |value (p.chord2 q) - ‖p.vec - q.vec‖ ^ 2| ≤ 1e-13 := by
  have hpw := within_of_isUnit hp
  have hqw := within_of_isUnit hq
  have hx : |value (p - q).x * value (p - q).x - _| ≤ _ := abs_sq_sub_le hpw.x hqw.x
  have hy : |value (p - q).y * value (p - q).y - _| ≤ _ := abs_sq_sub_le hpw.y hqw.y
  have hz : |value (p - q).z * value (p - q).z - _| ≤ _ := abs_sq_sub_le hpw.z hqw.z
  have hsub := hpw.sub hqw (by decide)
  have hle : ‖(p - q).vec‖ ^ 2 ≤ 48 := by
    have hsq : ∀ {c : Float}, Binary64.Within 4 c → value c * value c ≤ 16 := by
      intro c hc
      exact_mod_cast le_of_abs_le (hc.abs_mul_le hc)
    rw [norm_sq_vec]
    linarith [hsq hsub.x, hsq hsub.y, hsq hsub.z]
  have herror := hsub.abs_norm2_sub_le (by decide)
  rw [norm_sq_vec] at herror hle
  rw [norm_sq_vec_sub]
  show |value (p - q).norm2 - _| ≤ _
  rw [abs_le] at *
  constructor <;> linarith

/-! ### Directions -/

/-- The vector of length one that points to `p`. -/
noncomputable def direction (p : Point) : Quaternion ℝ := ‖p.vec‖⁻¹ • p.vec

lemma norm_vec_pos {p : Point} (h : p.isUnit) : 0 < ‖p.vec‖ := by
  refine lt_of_le_of_ne (norm_nonneg _) fun heq => ?_
  have herror := (abs_le.1 (abs_norm_sq_sub_one_le h)).1
  rw [← heq] at herror
  norm_num at herror

lemma norm_direction {p : Point} (h : p.isUnit) : ‖p.direction‖ = 1 := by
  rw [direction, norm_smul, norm_inv, norm_norm]
  exact inv_mul_cancel₀ (norm_vec_pos h).ne'

lemma norm_smul_direction {p : Point} (h : p.isUnit) : ‖p.vec‖ • p.direction = p.vec := by
  rw [direction, smul_smul, mul_inv_cancel₀ (norm_vec_pos h).ne', one_smul]

/-- The square of the distance between two points, as it is computed, is nearly that between their
directions. -/
theorem abs_chord2_sub_direction_le {p q : Point} (hp : p.isUnit) (hq : q.isUnit) :
    |value (p.chord2 q) - ‖p.direction - q.direction‖ ^ 2| ≤ 4.2e-12 := by
  have hchord := abs_chord2_sub_le hp hq
  have hnear := abs_norm_smul_sub_sq_le (norm_direction hp) (norm_direction hq) (norm_nonneg p.vec)
    (norm_nonneg q.vec) (abs_norm_sq_sub_one_le hp) (abs_norm_sq_sub_one_le hq) (by norm_num)
  rw [norm_smul_direction hp, norm_smul_direction hq] at hnear
  rw [abs_le] at *
  constructor <;> linarith

end Point

end SphereSearch
