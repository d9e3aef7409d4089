import SphereSearch.Proofs.Number.Arithmetic

/-!
# Results that are finite

A result is finite only if its operands are (`finite_of_add`, `finite_of_sub`,
`finite_of_mul_self`), and conversely, operands of bounded magnitude have results of bounded
magnitude (`Within`).  Where a quotient may overflow, the result is infinite but not a NaN: squares,
sums, quotients and roots of numbers without a sign stay such numbers (`toBits_mul_self_le`,
`toBits_div_le`, `toBits_sqrt_le`).
-/

open Float.Model Float.Model.UnpackedFloat

namespace SphereSearch.Binary64

/-! ### Finite operands -/

lemma unpack_pack_notANumber :
    UnpackedFloat.unpack Format.binary64 (UnpackedFloat.pack Format.binary64 .notANumber) =
      .notANumber := by
  rw [unpack_eq_ofFields]
  rfl

lemma unpack_pack_infinity (s : Sign) :
    UnpackedFloat.unpack Format.binary64 (UnpackedFloat.pack Format.binary64 (.infinity s)) =
      .infinity s := by
  cases s <;>
    rw [unpack_eq_ofFields] <;>
    rfl

/-- Only what is finite becomes finite when it is packed. -/
lemma isFinite_of_unpack_pack {u : UnpackedFloat}
    (h : (UnpackedFloat.unpack Format.binary64
      (UnpackedFloat.pack Format.binary64 u)).isFinite = true) : u.isFinite = true := by
  cases u with
  | notANumber =>
    rw [unpack_pack_notANumber] at h
    exact h
  | infinity s =>
    rw [unpack_pack_infinity] at h
    exact h
  | zero s => rfl
  | finite s m e hm => rfl

lemma isFinite_of_add {u v : UnpackedFloat}
    (h : (UnpackedFloat.add Format.binary64 u v).isFinite = true) :
    u.isFinite = true ∧ v.isFinite = true := by
  cases u with
  | notANumber => exact absurd h Bool.false_ne_true
  | infinity s =>
    cases v with
    | infinity t => cases s <;> cases t <;> exact absurd h Bool.false_ne_true
    | notANumber => exact absurd h Bool.false_ne_true
    | zero t => exact absurd h Bool.false_ne_true
    | finite t n f hn => exact absurd h Bool.false_ne_true
  | zero s =>
    cases v with
    | notANumber => exact absurd h Bool.false_ne_true
    | infinity t => exact absurd h Bool.false_ne_true
    | zero t => exact ⟨rfl, rfl⟩
    | finite t n f hn => exact ⟨rfl, rfl⟩
  | finite s m e hm =>
    cases v with
    | notANumber => exact absurd h Bool.false_ne_true
    | infinity t => exact absurd h Bool.false_ne_true
    | zero t => exact ⟨rfl, rfl⟩
    | finite t n f hn => exact ⟨rfl, rfl⟩

lemma finite_of_add {x y : Float} (h : (x + y).isFinite) : x.isFinite ∧ y.isFinite :=
  isFinite_of_add (isFinite_of_unpack_pack h)

lemma finite_of_sub {x y : Float} (h : (x - y).isFinite) : x.isFinite ∧ y.isFinite := by
  have hpacked : (UnpackedFloat.sub Format.binary64 x.toModel.unpack y.toModel.unpack).isFinite =
      true := isFinite_of_unpack_pack h
  rw [sub_eq_add_unpacked_neg] at hpacked
  obtain ⟨hx, hy⟩ := isFinite_of_add hpacked
  refine ⟨hx, ?_⟩
  show y.toModel.unpack.isFinite = true
  cases hu : y.toModel.unpack with
  | notANumber =>
    rw [hu] at hy
    exact hy
  | infinity s =>
    rw [hu] at hy
    exact hy
  | zero s => rfl
  | finite s m e hm => rfl

lemma finite_of_mul_self {x : Float} (h : (x * x).isFinite) : x.isFinite := by
  have hpacked : (UnpackedFloat.mul Format.binary64 x.toModel.unpack x.toModel.unpack).isFinite =
      true := isFinite_of_unpack_pack h
  show x.toModel.unpack.isFinite = true
  cases hu : x.toModel.unpack with
  | notANumber =>
    rw [hu] at hpacked
    exact hpacked
  | infinity s =>
    rw [hu] at hpacked
    exact hpacked
  | zero s => rfl
  | finite s m e hm => rfl

/-! ### Magnitudes -/

lemma small_of_isFinite {x : Float} (hx : x.isFinite) : Small x.toModel.unpack := by
  rcases finite_cases hx with ⟨s, h⟩ | ⟨s, m, e, hm, h, -, he⟩
  · rw [h]
    trivial
  · rw [h]
    exact he

lemma Proper.unpacked_abs {u : UnpackedFloat} (h : Proper u) : Proper u.abs := by
  cases u with
  | notANumber => exact h
  | infinity s => exact h
  | zero s => exact h
  | finite s m e hm => exact h

lemma unpackedValue_abs (u : UnpackedFloat) : unpackedValue u.abs = |unpackedValue u| := by
  cases u with
  | notANumber => exact abs_zero.symm
  | infinity s => exact abs_zero.symm
  | zero s => exact abs_zero.symm
  | finite s m e hm =>
    rw [unpackedValue_finite, abs_signValue_mul, abs_of_nonneg (by positivity)]
    exact one_mul _

/-- The magnitude of a finite double. -/
lemma value_abs {x : Float} (hx : x.isFinite) : x.abs.isFinite ∧ value x.abs = |value x| := by
  have hproper := (proper_of_isFinite hx).unpacked_abs
  have hsmall : Small x.toModel.unpack.abs := by
    have := small_of_isFinite hx
    cases hu : x.toModel.unpack with
    | finite s m e hm => rwa [hu] at this
    | _ => trivial
  have hunpack : x.abs.toModel.unpack = x.toModel.unpack.abs := unpack_pack hproper hsmall
  rw [value, hunpack, unpackedValue_abs]
  exact ⟨isFinite_of_proper (by rwa [hunpack]), rfl⟩

/-- A number whose magnitude is at most a finite one is finite. -/
lemma finite_of_abs_le {x y : Float} (hy : y.isFinite) (h : x.abs ≤ y) : x.isFinite := by
  have habs : x.abs.toModel.unpack = UnpackedFloat.unpack Format.binary64
      (UnpackedFloat.pack Format.binary64 x.toModel.unpack.abs) := rfl
  rw [le_iff_compare, habs] at h
  show x.toModel.unpack.isFinite = true
  cases hu : x.toModel.unpack with
  | notANumber =>
    rw [hu, UnpackedFloat.abs, unpack_pack_notANumber] at h
    exact absurd h Bool.false_ne_true
  | infinity s =>
    rw [hu, UnpackedFloat.abs, unpack_pack_infinity] at h
    rcases finite_cases hy with ⟨t, hv⟩ | ⟨t, n, f, hn, hv, -⟩
    all_goals
      rw [hv] at h
      exact absurd h Bool.false_ne_true
  | zero s => rfl
  | finite s m e hm => rfl

lemma abs_value_le {x y : Float} (hy : y.isFinite) (h : x.abs ≤ y) : |value x| ≤ value y := by
  obtain ⟨hfinite, hvalue⟩ := value_abs (finite_of_abs_le hy h)
  rw [← hvalue]
  exact (le_iff_value hfinite hy).1 h

/-! ### Bounds -/

/-- The double is finite, and its magnitude is at most `n`. -/
structure Within (n : ℕ) (x : Float) : Prop where
  isFinite : x.isFinite
  abs_le : |value x| ≤ n

lemma representable_natCast {n : ℕ} (hn : n < 2 ^ 53) : Representable n :=
  ⟨n, 0, by rw [Nat.abs_cast]; exact_mod_cast hn, by decide, by simp⟩

/-- Rounding takes no number beyond a bound that need not be rounded. -/
lemma Rounds.within {r : ℝ} {x : Float} {n : ℕ} (h : Rounds r x) (hn : n < 2 ^ 53)
    (hr : |r| ≤ n) : Within n x := by
  obtain ⟨hlow, hhigh⟩ := abs_le.1 hr
  exact ⟨h.isFinite, abs_le.2 ⟨h.isRounding.ge_of_ge (representable_natCast hn).neg hlow,
    h.isRounding.le_of_le (representable_natCast hn) hhigh⟩⟩

lemma representable_zero : Representable 0 := ⟨0, 0, by decide, by decide, by simp⟩

lemma Rounds.nonneg {r : ℝ} {x : Float} (h : Rounds r x) (hr : 0 ≤ r) : 0 ≤ value x :=
  h.isRounding.ge_of_ge representable_zero hr

lemma natCast_le_two_pow_1023 {n : ℕ} (hn : n < 2 ^ 53) : (n : ℝ) ≤ 2 ^ 1023 := by
  have hle : (n : ℝ) ≤ 2 ^ 53 := by exact_mod_cast hn.le
  refine hle.trans ?_
  gcongr <;> norm_num

namespace Within

variable {m n : ℕ} {x y : Float}

lemma mono (hx : Within m x) (h : m ≤ n) : Within n x :=
  ⟨hx.isFinite, hx.abs_le.trans (Nat.cast_le.2 h)⟩

lemma rounds_add (hx : Within m x) (hy : Within n y) (h : m + n < 2 ^ 53) :
    Rounds (value x + value y) (x + y) := by
  refine Binary64.rounds_add hx.isFinite hy.isFinite (Or.inr ?_)
  refine le_trans ?_ (natCast_le_two_pow_1023 h)
  rw [Nat.cast_add]
  exact (abs_add_le _ _).trans (add_le_add hx.abs_le hy.abs_le)

lemma add (hx : Within m x) (hy : Within n y) (h : m + n < 2 ^ 53) : Within (m + n) (x + y) := by
  refine (hx.rounds_add hy h).within h ?_
  rw [Nat.cast_add]
  exact (abs_add_le _ _).trans (add_le_add hx.abs_le hy.abs_le)

lemma rounds_sub (hx : Within m x) (hy : Within n y) (h : m + n < 2 ^ 53) :
    Rounds (value x - value y) (x - y) := by
  refine Binary64.rounds_sub hx.isFinite hy.isFinite (Or.inr ?_)
  refine le_trans ?_ (natCast_le_two_pow_1023 h)
  rw [Nat.cast_add]
  exact (abs_sub _ _).trans (add_le_add hx.abs_le hy.abs_le)

lemma sub (hx : Within m x) (hy : Within n y) (h : m + n < 2 ^ 53) : Within (m + n) (x - y) := by
  refine (hx.rounds_sub hy h).within h ?_
  rw [Nat.cast_add]
  exact (abs_sub _ _).trans (add_le_add hx.abs_le hy.abs_le)

lemma abs_mul_le (hx : Within m x) (hy : Within n y) :
    |value x * value y| ≤ (m * n : ℕ) := by
  rw [abs_mul, Nat.cast_mul]
  exact mul_le_mul hx.abs_le hy.abs_le (abs_nonneg _) (Nat.cast_nonneg _)

lemma rounds_mul (hx : Within m x) (hy : Within n y) (h : m * n < 2 ^ 53) :
    Rounds (value x * value y) (x * y) :=
  Binary64.rounds_mul hx.isFinite hy.isFinite
    (Or.inr ((hx.abs_mul_le hy).trans (natCast_le_two_pow_1023 h)))

lemma mul (hx : Within m x) (hy : Within n y) (h : m * n < 2 ^ 53) : Within (m * n) (x * y) :=
  (hx.rounds_mul hy h).within h (hx.abs_mul_le hy)

end Within

/-- The error of rounding, in decimals. -/
lemma IsRounding.abs_sub_le {r z : ℝ} (h : IsRounding r z) :
    |z - r| ≤ 1.2e-16 * |r| + 1e-60 := by
  have hunit : (2 : ℝ) ^ (-53 : ℤ) ≤ 1.2e-16 := by norm_num
  have htiny : (2 : ℝ) ^ (-1075 : ℤ) ≤ 1e-60 := by
    calc (2 : ℝ) ^ (-1075 : ℤ) ≤ (2 : ℝ) ^ (-200 : ℤ) := by
          gcongr
          · norm_num
          · norm_num
      _ ≤ 1e-60 := by norm_num
  exact h.error.trans (by gcongr)

/-! ### No NaN -/

lemma unpack_pack_ne_notANumber {u : UnpackedFloat} (h : Proper u) :
    UnpackedFloat.unpack Format.binary64 (UnpackedFloat.pack Format.binary64 u) ≠ .notANumber := by
  by_cases hsmall : Small u
  · rw [unpack_pack h hsmall]
    rintro rfl
    exact h
  · obtain ⟨s, hs⟩ := unpack_pack_of_not_small h hsmall
    rw [hs]
    exact nofun

lemma ne_notANumber {x : Float} (hx : x.isFinite) : x.toModel.unpack ≠ .notANumber := by
  intro hnan
  have hx : x.toModel.unpack.isFinite = true := hx
  rw [hnan] at hx
  exact absurd hx Bool.false_ne_true

/-- A number without a sign is finite unless it is infinite. -/
lemma isFinite_of_toBits_lt {x : Float} (hx : x.toBits.toNat < infinityWord) : x.isFinite := by
  show x.toModel.unpack.isFinite = true
  rcases plain_cases hx.le with ⟨-, hinf⟩ | ⟨hxu, -⟩ | ⟨m, e, h, hxu, -, -⟩
  · exact absurd hinf hx.ne
  all_goals
    rw [hxu]
    rfl

lemma toBits_lt_of_isFinite {x : Float} (hx : x.toBits.toNat ≤ infinityWord) (h : x.isFinite) :
    x.toBits.toNat < infinityWord := by
  refine lt_of_le_of_ne hx fun hinf => ?_
  have h : x.toModel.unpack.isFinite = true := h
  rw [unpack_of_toBits hinf] at h
  exact absurd h (by decide)

/-- A square has no sign, and it is a NaN only if its root is. -/
lemma toBits_mul_self_le {x : Float} (hx : x.toModel.unpack ≠ .notANumber) :
    (x * x).toBits.toNat ≤ infinityWord := by
  refine toNat_pack_le (u := UnpackedFloat.mul Format.binary64 x.toModel.unpack x.toModel.unpack) ?_
  cases hu : x.toModel.unpack with
  | notANumber => exact absurd hu hx
  | infinity s => exact sign_mul_self s
  | zero s => exact sign_mul_self s
  | finite s m e h =>
    show Plain (roundWithAccuracy Format.binary64 (s * s) (m * m) (e + e) .exact)
    rw [sign_mul_self]
    exact plain_roundWithAccuracy _ _ _

/-- A quotient of numbers without a sign has none; what is divided by is neither zero nor
infinite. -/
lemma toBits_div_le {x y : Float} (hx : x.toBits.toNat < infinityWord)
    (hy : y.toBits.toNat < infinityWord) (hne : ¬ y == 0.0) :
    (x / y).toBits.toNat ≤ infinityWord := by
  refine toNat_pack_le (u := UnpackedFloat.div Format.binary64 x.toModel.unpack y.toModel.unpack) ?_
  rcases plain_cases hy.le with ⟨-, hinf⟩ | ⟨hyu, -⟩ | ⟨n, f, h', hyu, -, -⟩
  · exact absurd hinf hy.ne
  · rw [beq_iff_compare, unpack_zero, hyu] at hne
    exact absurd rfl hne
  · rcases plain_cases hx.le with ⟨-, hinf⟩ | ⟨hxu, -⟩ | ⟨m, e, h, hxu, -, -⟩
    · exact absurd hinf hx.ne
    · rw [hxu, hyu]
      rfl
    · rw [hxu, hyu]
      exact plain_roundWithAccuracy _ _ _

lemma toBits_sqrt_le {x : Float} (hx : x.toBits.toNat ≤ infinityWord) :
    x.sqrt.toBits.toNat ≤ infinityWord := by
  refine toNat_pack_le (u := UnpackedFloat.sqrt Format.binary64 x.toModel.unpack) ?_
  rcases plain_cases hx with ⟨hxu, -⟩ | ⟨hxu, -⟩ | ⟨m, e, h, hxu, -, -⟩
  · rw [hxu]
    rfl
  · rw [hxu]
    rfl
  · rw [hxu]
    exact plain_roundWithAccuracy _ _ _

/-- Taking a number without a sign from a finite one does not give a NaN. -/
lemma sub_ne_notANumber {x y : Float} (hx : x.isFinite) (hy : y.toBits.toNat ≤ infinityWord) :
    (x - y).toModel.unpack ≠ .notANumber := by
  show UnpackedFloat.unpack Format.binary64 (UnpackedFloat.pack Format.binary64
    (UnpackedFloat.sub Format.binary64 x.toModel.unpack y.toModel.unpack)) ≠ .notANumber
  rcases hy.lt_or_eq with hlt | hinf
  · rw [sub_eq_add_unpacked_neg]
    exact unpack_pack_ne_notANumber (isRounding_add (proper_of_isFinite hx)
      (proper_of_isFinite (isFinite_of_toBits_lt hlt)).unpacked_neg).1
  · have hinfinite : y.toModel.unpack = .infinity .positive := by
      rw [unpack_of_toBits hinf]
      rfl
    rcases finite_cases hx with ⟨s, h⟩ | ⟨s, m, e, hm, h, -⟩
    all_goals
      rw [h, hinfinite]
      show UnpackedFloat.unpack Format.binary64 (UnpackedFloat.pack Format.binary64
        (.infinity .negative)) ≠ .notANumber
      rw [unpack_pack_infinity]
      exact nofun

/-! ### Products and quotients -/

lemma value_nonneg {x : Float} (hx : x.toBits.toNat ≤ infinityWord) : 0 ≤ value x := by
  rcases plain_cases hx with ⟨hxu, -⟩ | ⟨hxu, -⟩ | ⟨m, e, h, hxu, -, -⟩
  · rw [value, hxu]
    exact le_rfl
  · rw [value, hxu]
    exact le_rfl
  · rw [value, hxu]
    exact (unpackedValue_pos h).le

lemma value_pos {x : Float} (hx : x.toBits.toNat < infinityWord) (hne : ¬ x == 0.0) :
    0 < value x := by
  refine lt_of_le_of_ne (value_nonneg hx.le) fun heq => hne ?_
  rw [beq_iff_value (isFinite_of_toBits_lt hx) (by decide), value_zero]
  exact heq.symm

lemma toBits_mul_infinity {x y : Float} (hx : x.toBits.toNat < infinityWord) (hne : ¬ x == 0.0)
    (hy : y.toBits.toNat = infinityWord) : (x * y).toBits.toNat = infinityWord := by
  have hinfinite : y.toModel.unpack = .infinity .positive := by
    rw [unpack_of_toBits hy]
    rfl
  show (UnpackedFloat.pack Format.binary64
    (UnpackedFloat.mul Format.binary64 x.toModel.unpack y.toModel.unpack)).toNat = _
  rw [hinfinite]
  rcases plain_cases hx.le with ⟨-, hinf⟩ | ⟨hxu, -⟩ | ⟨m, e, h, hxu, -, -⟩
  · exact absurd hinf hx.ne
  · rw [beq_iff_compare, unpack_zero, hxu] at hne
    exact absurd rfl hne
  · rw [hxu]
    exact toNat_packedInfinity

/-- **Rounding keeps order.**  If the rounded product of two numbers is below a third one, then the
quotient is not rounded below the factor that is left. -/
theorem toBits_le_div_of_mul_lt {x y z : Float} (hx : x.toBits.toNat < infinityWord)
    (hy : y.toBits.toNat < infinityWord) (hne : ¬ y == 0.0) (hz : z.toBits.toNat ≤ infinityWord)
    (h : y * z < x) : z.toBits.toNat ≤ (x / y).toBits.toNat := by
  have hquotient := toBits_div_le hx hy hne
  have hxf := isFinite_of_toBits_lt hx
  have hyf := isFinite_of_toBits_lt hy
  rcases hz.lt_or_eq with hz | hinf
  · have hzf := isFinite_of_toBits_lt hz
    have hproduct := toBits_mul_le hy hz
    have hpf : (y * z).isFinite :=
      isFinite_of_toBits_lt (((lt_iff_toBits hproduct hx.le).1 h).trans hx)
    have hmul := rounds_mul hyf hzf (Or.inl hpf)
    rw [lt_iff_value hpf hxf] at h
    rcases hquotient.lt_or_eq with hlt | hinf
    · have hqf := isFinite_of_toBits_lt hlt
      have hpos := value_pos hy hne
      have hdiv := rounds_div hxf hyf hpos.ne' (Or.inl hqf)
      rw [← le_iff_toBits hz.le hquotient, le_iff_value hzf hqf]
      refine hdiv.isRounding.ge_of_ge (representable_value hzf) ?_
      rw [le_div_iff₀ hpos]
      by_contra hlt
      have hle := hmul.isRounding.ge_of_ge (representable_value hxf) (by linarith)
      linarith
    · rw [hinf]
      exact hz.le
  · rw [lt_iff_toBits (toBits_mul_infinity hy hne hinf).le hx.le,
      toBits_mul_infinity hy hne hinf] at h
    omega

end SphereSearch.Binary64
