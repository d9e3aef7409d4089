import SphereSearch.Grid.Weave
import SphereSearch.Proofs.Grid.Hierarchy

/-!
# What is woven

The moves of whole blocks interleave two numbers digit by digit (`CellId.ofGrid_eq_weave`) and take
them apart again (`CellId.square_eq_unweave`).

Each move and each mask treats the bits of a word alike and on their own, so a chain of them is
determined by what it does to words of a single bit (`CellId.eq_of_or`), of which there are 64.
-/

namespace SphereSearch

namespace CellId

/-! ### Bits of interleaved numbers -/

lemma testBit_interleave (n i j k : ℕ) : (interleave n i j).testBit k =
    (decide (k < 2 * n) && if k % 2 = 0 then j.testBit (k / 2) else i.testBit (k / 2)) := by
  induction n generalizing i j k with
  | zero => simp [interleave]
  | succ n ih =>
    rcases k with _ | _ | k
    · have hmod : (4 * interleave n (i / 2) (j / 2) + 2 * (i % 2) + j % 2) % 2 = j % 2 := by omega
      simp [interleave, Nat.testBit_zero, hmod]
    · have hmod : (4 * interleave n (i / 2) (j / 2) + 2 * (i % 2) + j % 2) / 2 % 2 = i % 2 := by
        omega
      have hlt : 1 < 2 * (n + 1) := by omega
      simp [interleave, Nat.testBit_succ, Nat.testBit_zero, hmod, hlt]
    · have hdiv : (4 * interleave n (i / 2) (j / 2) + 2 * (i % 2) + j % 2) / 2 / 2 =
          interleave n (i / 2) (j / 2) := by omega
      have hplace : (k + 1 + 1) / 2 = k / 2 + 1 := by omega
      have hparity : (k + 1 + 1) % 2 = k % 2 := by omega
      have hlt : k + 1 + 1 < 2 * (n + 1) ↔ k < 2 * n := by omega
      rw [interleave, Nat.testBit_succ, Nat.testBit_succ, hdiv, ih, hplace, Nat.testBit_succ,
        Nat.testBit_succ, hparity, decide_eq_decide.2 hlt]

lemma testBit_everySecondBit (n x k : ℕ) :
    (everySecondBit n x).testBit k = (decide (k < n) && x.testBit (2 * k)) := by
  induction n generalizing x k with
  | zero => simp [everySecondBit]
  | succ n ih =>
    cases k with
    | zero =>
      have hmod : (2 * everySecondBit n (x / 4) + x % 2) % 2 = x % 2 := by omega
      simp [everySecondBit, Nat.testBit_zero, hmod]
    | succ k =>
      have hdiv : (2 * everySecondBit n (x / 4) + x % 2) / 2 = everySecondBit n (x / 4) := by omega
      have hquarter : (x / 4).testBit (2 * k) = x.testBit (2 * (k + 1)) := by
        rw [show x / 4 = x / 2 ^ 2 from rfl, Nat.testBit_div_two_pow, Nat.mul_succ]
      rw [everySecondBit, Nat.testBit_succ, hdiv, ih, hquarter,
        decide_eq_decide.2 Nat.succ_lt_succ_iff]

/-- Taking the digits apart undoes the interleaving. -/
lemma everySecondBit_interleave {n m : ℕ} (hnm : n ≤ m) (i j : ℕ) :
    everySecondBit n (interleave m i j) = j % 2 ^ n := by
  apply Nat.eq_of_testBit_eq
  intro k
  rw [testBit_everySecondBit, testBit_interleave, Nat.testBit_mod_two_pow, Nat.mul_mod_right,
    if_pos rfl, Nat.mul_div_cancel_left _ Nat.two_pos]
  by_cases hk : k < n
  · have hlt : 2 * k < 2 * m := by omega
    rw [decide_eq_true hlt, Bool.true_and]
  · rw [decide_eq_false hk, Bool.false_and, Bool.false_and]

lemma everySecondBit_interleave_div_two {n m : ℕ} (hnm : n ≤ m) (i j : ℕ) :
    everySecondBit n (interleave m i j / 2) = i % 2 ^ n := by
  apply Nat.eq_of_testBit_eq
  intro k
  have hodd : (2 * k + 1) % 2 ≠ 0 := by omega
  have hhalf : (2 * k + 1) / 2 = k := by omega
  rw [testBit_everySecondBit, ← Nat.testBit_succ, testBit_interleave, Nat.testBit_mod_two_pow,
    if_neg hodd, hhalf]
  by_cases hk : k < n
  · have hlt : 2 * k + 1 < 2 * m := by omega
    rw [decide_eq_true hlt, Bool.true_and]
  · rw [decide_eq_false hk, Bool.false_and, Bool.false_and]

lemma interleave_or (n i j i' j' : ℕ) :
    interleave n (i ||| i') (j ||| j') = interleave n i j ||| interleave n i' j' := by
  apply Nat.eq_of_testBit_eq
  intro k
  rw [Nat.testBit_or, testBit_interleave, testBit_interleave, testBit_interleave,
    ← Bool.and_or_distrib_left, Nat.testBit_or, Nat.testBit_or]
  split
  · rfl
  · rfl

lemma everySecondBit_or (n x y : ℕ) :
    everySecondBit n (x ||| y) = everySecondBit n x ||| everySecondBit n y := by
  apply Nat.eq_of_testBit_eq
  intro k
  rw [Nat.testBit_or, testBit_everySecondBit, testBit_everySecondBit, testBit_everySecondBit,
    ← Bool.and_or_distrib_left, Nat.testBit_or]

lemma interleave_zero (n : ℕ) : interleave n 0 0 = 0 := by
  induction n with
  | zero => rfl
  | succ n ih => rw [interleave, Nat.zero_div, ih]

/-- The digits of the first number stand one place further than those of the second. -/
lemma interleave_zero_right (n i : ℕ) : interleave n i 0 = 2 * interleave n 0 i := by
  induction n generalizing i with
  | zero => rfl
  | succ n ih =>
    rw [interleave, interleave, Nat.zero_div, ih]
    omega

lemma interleave_zero_two_pow (n k : ℕ) :
    interleave n 0 (2 ^ k) = if k < n then 4 ^ k else 0 := by
  induction n generalizing k with
  | zero => rfl
  | succ n ih =>
    cases k with
    | zero => rw [Nat.pow_zero, interleave, Nat.zero_div, interleave_zero, if_pos n.succ_pos]
    | succ k =>
      rw [interleave, Nat.zero_div, Nat.pow_succ, Nat.mul_div_cancel _ Nat.two_pos, ih,
        Nat.mul_mod_left, Nat.pow_succ']
      simp only [Nat.succ_lt_succ_iff]
      split
      · rfl
      · rfl

lemma everySecondBit_zero (n : ℕ) : everySecondBit n 0 = 0 := by
  induction n with
  | zero => rfl
  | succ n ih => rw [everySecondBit, Nat.zero_div, ih]

lemma everySecondBit_two_pow {n k : ℕ} (hk : k < 2 * n) :
    everySecondBit n (2 ^ k) = if k % 2 = 0 then 2 ^ (k / 2) else 0 := by
  induction n generalizing k with
  | zero => omega
  | succ n ih =>
    rcases k with _ | _ | k
    · rw [Nat.pow_zero, everySecondBit, everySecondBit_zero]
      rfl
    · rw [Nat.zero_add, Nat.pow_one, everySecondBit, everySecondBit_zero]
      rfl
    · have hpow : 2 ^ (k + 1 + 1) = 4 * 2 ^ k := by
        rw [Nat.pow_succ, Nat.pow_succ]
        omega
      have hplace : (k + 1 + 1) / 2 = k / 2 + 1 := by omega
      have hparity : (k + 1 + 1) % 2 = k % 2 := by omega
      rw [everySecondBit, hpow, Nat.mul_div_cancel_left _ (by decide), ih (by omega), hplace,
        hparity, Nat.pow_succ]
      split
      · omega
      · omega

/-! ### Words of a single bit -/

lemma or_and_distrib (x y mask : UInt64) : (x ||| y) &&& mask = x &&& mask ||| y &&& mask := by
  rw [← UInt64.toNat_inj, UInt64.toNat_and, UInt64.toNat_or, UInt64.toNat_or, UInt64.toNat_and,
    UInt64.toNat_and, Nat.and_or_distrib_right]

/-- Steps that each keep unions of words keep them in a chain. -/
lemma foldl_or {σ : Type} {f : UInt64 → σ → UInt64}
    (hf : ∀ x y s, f (x ||| y) s = f x s ||| f y s) (steps : List σ) (x y : UInt64) :
    steps.foldl f (x ||| y) = steps.foldl f x ||| steps.foldl f y := by
  induction steps generalizing x y with
  | nil => rfl
  | cons s steps ih => rw [List.foldl_cons, hf, ih, List.foldl_cons, List.foldl_cons]

lemma spread_or (x y : UInt64) : spread (x ||| y) = spread x ||| spread y := by
  rw [spread, or_and_distrib]
  refine foldl_or (fun x y step => ?_) spreadSteps _ _
  rw [UInt64.shiftLeft_or, ← or_and_distrib]
  congr 1
  ac_rfl

lemma gather_or (x y : UInt64) : gather (x ||| y) = gather x ||| gather y := by
  rw [gather, or_and_distrib]
  refine foldl_or (fun x y step => ?_) gatherSteps _ _
  rw [UInt64.shiftRight_or, ← or_and_distrib]
  congr 1
  ac_rfl

/-- What keeps unions of bits is determined by what it does to single bits. -/
lemma eq_of_or {f g : ℕ → UInt64} (hf : ∀ x y, f (x ||| y) = f x ||| f y)
    (hg : ∀ x y, g (x ||| y) = g x ||| g y) (hzero : f 0 = g 0) {n : ℕ}
    (hbit : ∀ k < n, f (2 ^ k) = g (2 ^ k)) {x : ℕ} (hx : x < 2 ^ n) : f x = g x := by
  induction n generalizing x with
  | zero =>
    obtain rfl : x = 0 := by omega
    exact hzero
  | succ n ih =>
    have hlow := fun {x} => ih (fun k hk => hbit k (Nat.lt_succ_of_lt hk)) (x := x)
    by_cases hlt : x < 2 ^ n
    · exact hlow hlt
    · have hrest : x - 2 ^ n < 2 ^ n := by
        rw [Nat.pow_succ] at hx
        omega
      have hsum : x = 2 ^ n ||| (x - 2 ^ n) := by
        have hor := Nat.two_pow_add_eq_or_of_lt hrest 1
        rw [Nat.mul_one] at hor
        omega
      rw [hsum, hf, hg, hlow hrest, hbit n (Nat.lt_succ_self n)]

/-- The digits of a number are moved to the places of the second of two numbers. -/
lemma spread_ofNat {x : ℕ} (hx : x < 2 ^ 64) :
    spread (UInt64.ofNat x) = UInt64.ofNat (interleave 32 0 x) := by
  refine eq_of_or (f := fun x => spread (UInt64.ofNat x))
    (g := fun x => UInt64.ofNat (interleave 32 0 x)) (fun x y => ?_) (fun x y => ?_) ?_
    (fun k hk => ?_) hx
  · rw [UInt64.ofNat_or, spread_or]
  · rw [← UInt64.ofNat_or, ← interleave_or, Nat.or_self]
  · decide
  · have hbit : ∀ k < 64, spread (UInt64.ofNat (2 ^ k)) =
        UInt64.ofNat (if k < 32 then 4 ^ k else 0) := by decide
    rw [hbit k hk, interleave_zero_two_pow]

/-- The digits at even places are moved together. -/
lemma gather_ofNat {x : ℕ} (hx : x < 2 ^ 64) :
    gather (UInt64.ofNat x) = UInt64.ofNat (everySecondBit 32 x) := by
  refine eq_of_or (f := fun x => gather (UInt64.ofNat x))
    (g := fun x => UInt64.ofNat (everySecondBit 32 x)) (fun x y => ?_) (fun x y => ?_) ?_
    (fun k hk => ?_) hx
  · rw [UInt64.ofNat_or, gather_or]
  · rw [← UInt64.ofNat_or, ← everySecondBit_or]
  · decide
  · have hbit : ∀ k < 64, gather (UInt64.ofNat (2 ^ k)) =
        UInt64.ofNat (if k % 2 = 0 then 2 ^ (k / 2) else 0) := by decide
    rw [hbit k hk, everySecondBit_two_pow hk]

/-! ### Leaves and squares -/

/-- Digits beyond those that are interleaved are not looked at. -/
lemma interleave_mod {n m : ℕ} (hnm : n ≤ m) (i j : ℕ) :
    interleave n (i % 2 ^ m) (j % 2 ^ m) = interleave n i j := by
  apply Nat.eq_of_testBit_eq
  intro k
  rw [testBit_interleave, testBit_interleave]
  by_cases hk : k < 2 * n
  · have hplace : k / 2 < m := by omega
    rw [Nat.testBit_mod_two_pow, Nat.testBit_mod_two_pow, decide_eq_true hplace, Bool.true_and,
      Bool.true_and]
  · rw [decide_eq_false hk, Bool.false_and, Bool.false_and]

/-- **Weaving.**  The moves of blocks interleave the digits of the grid steps of a leaf. -/
theorem ofGrid_eq_weave (face i j : ℕ) : ofGrid face i j = weave face i j := by
  have hspread : ∀ x : ℕ, spread x.toUInt64 = UInt64.ofNat (interleave 32 0 x) := by
    intro x
    have hmod : interleave 32 0 (x % 2 ^ 64) = interleave 32 0 x :=
      interleave_mod (m := 64) (by decide) 0 x
    rw [← hmod, ← spread_ofNat (Nat.mod_lt _ (by decide)), UInt64.ofNat_mod_size]
  have hsum : interleave 32 i j = 2 * interleave 32 0 i ||| interleave 32 0 j := by
    rw [← interleave_zero_right, ← interleave_or, Nat.or_zero, Nat.zero_or]
  have hdouble : UInt64.ofNat (2 * interleave 32 0 i) = UInt64.ofNat (interleave 32 0 i) <<< 1 := by
    rw [Nat.mul_comm, ← Nat.pow_one 2, ← Nat.shiftLeft_eq, UInt64.ofNat_shiftLeft _ _ (by decide)]
    rfl
  rw [ofGrid, weave, hspread, hspread, ← hdouble, ← UInt64.ofNat_or, ← hsum]

/-- A number below a power of four has no digits beyond. -/
lemma everySecondBit_of_lt {n m x : ℕ} (hnm : n ≤ m) (hx : x < 4 ^ n) :
    everySecondBit m x = everySecondBit n x := by
  apply Nat.eq_of_testBit_eq
  intro k
  rw [testBit_everySecondBit, testBit_everySecondBit]
  by_cases hk : k < n
  · rw [decide_eq_true hk, decide_eq_true (hk.trans_le hnm)]
  · rw [four_pow] at hx
    have hfalse : x.testBit (2 * k) = false :=
      Nat.testBit_lt_two_pow (hx.trans_le (Nat.pow_le_pow_right Nat.two_pos (by omega)))
    rw [hfalse, Bool.and_false, Bool.and_false]

/-- **Taking apart.**  The moves of blocks find the square of a cell. -/
theorem square_eq_unweave (id : CellId) : id.square = id.unweave := by
  have hgather : ∀ x : UInt64, x.toNat < 2 ^ 60 →
      (gather x).toNat = everySecondBit maxLevel x.toNat := by
    intro x hx
    rw [← UInt64.ofNat_toNat (x := x), gather_ofNat x.toNat_lt, UInt64.ofNat_toNat,
      UInt64.toNat_ofNat', everySecondBit_of_lt (n := maxLevel) (by decide) hx]
    exact Nat.mod_eq_of_lt ((everySecondBit_lt _ _).trans (by decide))
  rw [square, unweave]
  generalize hword : id.rangeMin.raw &&& 0x1FFFFFFFFFFFFFFF = word
  have hlt : word.toNat < 2 ^ 61 := by
    rw [← hword, UInt64.toNat_and]
    exact Nat.and_le_right.trans_lt (by decide)
  have hhalf : ∀ x : UInt64, (x >>> 1).toNat = x.toNat / 2 := by
    intro x
    rw [UInt64.toNat_shiftRight, Nat.shiftRight_eq_div_pow]
    rfl
  rw [hgather, hgather, hhalf, hhalf]
  · rw [hhalf]
    omega
  · rw [hhalf, hhalf]
    omega

end CellId

end SphereSearch
