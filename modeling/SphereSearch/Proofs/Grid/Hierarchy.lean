import Mathlib.Data.Set.Basic
import Mathlib.Tactic.TFAE
import SphereSearch.Proofs.Grid.Place

/-!
# One tree in four forms

The tree of cells can be read off the words in four ways: from the interval of leaves around a
word, from the words in it, from the path up to an ancestor, and from the squares that the cells
cover on their faces.  For valid words all four agree (`CellId.agree_of_isValid`), and the
arithmetic that reads them never leaves the words of 64 bits.

All of them are compared with `Holds`.  The interval of a cell never has the word of a larger
cell in it, since that word stands between two halves of the larger cell
(`At.contains_iff_holds`); a square is a prefix of the digits of its grid steps, as a cell is a
prefix of the path of its leaves (`At.mem_steps_iff`).
-/

namespace SphereSearch

namespace CellId

/-! ### Valid words -/

/-- A word is valid exactly if it names a cell of the grid. -/
lemma isValid_iff_exists_at {id : CellId} : id.isValid = true ↔ ∃ h n, id.At h n := by
  refine ⟨fun hvalid => ?_, fun ⟨_, _, ha⟩ => ha.isValid⟩
  rw [isValid, Bool.and_eq_true, decide_eq_true_iff, decide_eq_true_iff, face_eq_div] at hvalid
  obtain ⟨hface, hbit⟩ := hvalid
  have hpos : 0 < id.raw.toNat := by
    refine Nat.pos_of_ne_zero fun hzero => hbit ?_
    have hraw : id.raw = 0 := UInt64.toNat_inj.1 hzero
    rw [marker, hraw]
    rfl
  -- The lowest bit is a power of four and leaves room for a path of this length.
  obtain ⟨t, m, hm⟩ := exists_eq_two_pow_mul_odd hpos
  have ht : t < 64 := by
    refine (Nat.pow_lt_pow_iff_right (show 1 < 2 by decide)).1 ?_
    exact (hm ▸ Nat.le_mul_of_pos_right _ (by omega) : 2 ^ t ≤ id.raw.toNat).trans_lt
      id.raw.toNat_lt
  have hmarker : id.marker = (2 ^ t).toUInt64 := by
    rw [← UInt64.toNat_inj, CellId.toNat_marker hm, Nat.toUInt64, UInt64.toNat_ofNat',
      Nat.mod_eq_of_lt (Nat.pow_lt_pow_right (by decide) ht)]
  have hplaces : ∀ t < 64, (2 ^ t).toUInt64 &&& 0x1555555555555555 ≠ 0 → t % 2 = 0 ∧ t ≤ 60 := by
    decide
  obtain ⟨heven, hle⟩ := hplaces t ht (hmarker ▸ hbit)
  obtain ⟨h, rfl⟩ : ∃ h, t = 2 * h := ⟨t / 2, by omega⟩
  rw [← four_pow] at hm
  have hh : h ≤ 30 := by omega
  refine ⟨h, m, hm, hh, ?_⟩
  have hsplit : 4 ^ 30 = 4 ^ h * 4 ^ (30 - h) := by
    rw [← Nat.pow_add, Nat.add_sub_cancel' hh]
  have hlt : 4 ^ h * (2 * m + 1) < 4 ^ h * (2 * (6 * 4 ^ (30 - h))) := by
    rw [Nat.div_lt_iff_lt_mul (by decide), hm] at hface
    calc 4 ^ h * (2 * m + 1) < 12 * 4 ^ 30 := hface
      _ = 4 ^ h * (2 * (6 * 4 ^ (30 - h))) := by rw [hsplit]; ring
  have hodd := Nat.lt_of_mul_lt_mul_left hlt
  simp only [faceCount, maxLevel]
  omega

/-! ### Intervals, words and ancestors -/

namespace At

variable {a b : CellId} {h n H N : ℕ}

lemma number_eq {n' : ℕ} (ha : a.At h n) (hb : a.At h n') : n = n' := by
  have heq := ha.toNat_eq.symm.trans hb.toNat_eq
  rw [Nat.mul_right_inj (Nat.pow_pos (by decide)).ne'] at heq
  omega

/-- The word of a larger cell stands between two of its quarters, so it is in no interval of a
smaller one. -/
lemma contains_iff_holds (ha : a.At H N) (hb : b.At h n) : a.contains b = true ↔ a.Holds b := by
  have hmin := ha.toNat_rangeMin
  have hmax := ha.toNat_rangeMax
  have hlow := hb.low_lt
  have hhigh := hb.lt_high
  rw [contains, Bool.and_eq_true, decide_eq_true_iff, decide_eq_true_iff, le_iff_toNat,
    le_iff_toNat, hmin]
  rcases le_or_gt h H with hle | hlt
  · rcases ha.contains_or_disjoint hb hle with hold | hbefore | hafter
    · have hall := hold
      obtain ⟨h1, h2⟩ := hall
      exact iff_of_true ⟨by omega, by omega⟩ hold
    · exact iff_of_false (by omega) fun hold => by have := hold.1; omega
    · exact iff_of_false (by omega) fun hold => by have := hold.2; omega
  · -- Measured in leaves of `a`, the word of `b` is even, and there is none between the ends.
    refine iff_of_false ?_ fun hold => absurd (ha.height_le_of_holds hb hold) (by omega)
    obtain ⟨d, rfl⟩ : ∃ d, h = H + (d + 1) := ⟨h - H - 1, by omega⟩
    have hraw : b.raw.toNat = 4 ^ H * (2 * (2 * 4 ^ d * (2 * n + 1))) := by
      rw [hb.toNat_eq]
      ring
    rintro ⟨h1, h2⟩
    have hmin' : 4 ^ H * (2 * N) < 4 ^ H * (2 * (2 * 4 ^ d * (2 * n + 1))) := by
      rw [← hraw, ← ha.low_eq]
      omega
    have hmax' : 4 ^ H * (2 * (2 * 4 ^ d * (2 * n + 1))) < 4 ^ H * (2 * N + 2) := by
      rw [← hraw, ← ha.high_eq]
      omega
    have := Nat.lt_of_mul_lt_mul_left hmin'
    have := Nat.lt_of_mul_lt_mul_left hmax'
    omega

/-- The words of the interval of a cell are in the interval of another if its leaves are. -/
lemma range_iff_holds (ha : a.At H N) (hb : b.At h n) :
    (∀ c : CellId, b.rangeMin ≤ c ∧ c ≤ b.rangeMax → a.rangeMin ≤ c ∧ c ≤ a.rangeMax) ↔
      a.Holds b := by
  have hmin := ha.toNat_rangeMin
  have hmax := ha.toNat_rangeMax
  have hmin' := hb.toNat_rangeMin
  have hmax' := hb.toNat_rangeMax
  have hlow := hb.low_lt
  have hhigh := hb.lt_high
  simp only [le_iff_toNat]
  constructor
  · intro hall
    obtain ⟨h1, -⟩ := hall b.rangeMin ⟨le_rfl, by omega⟩
    obtain ⟨-, h2⟩ := hall b.rangeMax ⟨by omega, le_rfl⟩
    exact ⟨by omega, by omega⟩
  · rintro ⟨h1, h2⟩ c ⟨h3, h4⟩
    omega

lemma parentAt_iff_holds (ha : a.At H N) (hb : b.At h n) :
    a.level ≤ b.level ∧ b.parentAt a.level = a ↔ a.Holds b := by
  have hlevel := ha.level_eq
  have hlevel' := hb.level_eq
  have hH := ha.height_le
  have hheight : maxLevel - a.level = H := by omega
  constructor
  · rintro ⟨hle, hparent⟩
    have hat := hb.parentAt hle
    rw [hparent, hheight] at hat
    rw [ha.holds_iff hb (by have := hb.height_le; omega), hat.number_eq ha]
  · intro hold
    have hle := ha.height_le_of_holds hb hold
    have hle' : a.level ≤ b.level := by omega
    have hat := hb.parentAt hle'
    rw [hheight, (ha.holds_iff hb hle).1 hold] at hat
    exact ⟨hle', hat.eq ha⟩

/-- The intervals of two cells begin and end at even numbers, so they share a word only if they
share a leaf. -/
lemma intersects_iff (ha : a.At H N) (hb : b.At h n) :
    a.intersects b = true ↔ a.Holds b ∨ b.Holds a := by
  have hlow : a.low = 2 * (4 ^ H * N) := by rw [ha.low_eq]; ring
  have hhigh : a.high = 2 * (4 ^ H * (N + 1)) := by rw [ha.high_eq]; ring
  have hlow' : b.low = 2 * (4 ^ h * n) := by rw [hb.low_eq]; ring
  have hhigh' : b.high = 2 * (4 ^ h * (n + 1)) := by rw [hb.high_eq]; ring
  have hmeet : a.intersects b = true ↔ b.low < a.high ∧ a.low < b.high := by
    have hmin := ha.toNat_rangeMin
    have hmax := ha.toNat_rangeMax
    have hmin' := hb.toNat_rangeMin
    have hmax' := hb.toNat_rangeMax
    rw [intersects, Bool.and_eq_true, decide_eq_true_iff, decide_eq_true_iff, ge_iff_le,
      le_iff_toNat, le_iff_toNat]
    omega
  have ha' := ha.low_lt_high
  have hb' := hb.low_lt_high
  rw [hmeet]
  constructor
  · rintro ⟨h1, h2⟩
    exact ha.holds_or_holds hb h2 h1
  · rintro (⟨h1, h2⟩ | ⟨h1, h2⟩)
    · omega
    · omega

/-- Cells of which neither holds the other lie one after the other. -/
lemma apart_of_not_holds (ha : a.At H N) (hb : b.At h n) (hab : ¬ a.Holds b) (hba : ¬ b.Holds a) :
    b.high ≤ a.low ∨ a.high ≤ b.low := by
  by_contra hmeet
  rw [not_or, not_le, not_le] at hmeet
  exact (ha.holds_or_holds hb hmeet.1 hmeet.2).elim hab hba

end At

/-! ### Digits of grid steps -/

lemma everySecondBit_lt (n x : ℕ) : everySecondBit n x < 2 ^ n := by
  induction n generalizing x with
  | zero => exact Nat.one_pos
  | succ n ih =>
    have := ih (x / 4)
    rw [everySecondBit, Nat.pow_succ]
    omega

/-- Dropping the last digit of a path halves the grid steps. -/
lemma everySecondBit_div_two_pow (n d x : ℕ) :
    everySecondBit (n + d) x / 2 ^ d = everySecondBit n (x / 4 ^ d) := by
  induction d generalizing x with
  | zero => simp
  | succ d ih =>
    rw [← Nat.add_assoc, everySecondBit, Nat.pow_succ', ← Nat.div_div_eq_div_mul,
      show (2 * everySecondBit (n + d) (x / 4) + x % 2) / 2 = everySecondBit (n + d) (x / 4) by
        omega, ih, Nat.div_div_eq_div_mul, ← Nat.pow_succ']

/-- The first leaf of a cell has its digits and zeros behind them. -/
lemma everySecondBit_four_pow_mul (n d x : ℕ) :
    everySecondBit (n + d) (4 ^ d * x) = 2 ^ d * everySecondBit n x := by
  induction d with
  | zero => simp
  | succ d ih =>
    rw [← Nat.add_assoc, everySecondBit, Nat.pow_succ', Nat.mul_assoc,
      Nat.mul_div_cancel_left _ (by decide), ih, Nat.pow_succ', Nat.mul_assoc]
    omega

lemma everySecondBit_four_pow_mul_div_two (n d x : ℕ) :
    everySecondBit (n + d) (4 ^ d * x / 2) = 2 ^ d * everySecondBit n (x / 2) := by
  induction d with
  | zero => simp
  | succ d ih =>
    rw [← Nat.add_assoc, everySecondBit, Nat.pow_succ', Nat.mul_assoc, Nat.pow_succ',
      Nat.mul_assoc, ← ih, show 4 * (4 ^ d * x) / 2 / 4 = 4 ^ d * x / 2 by omega]
    omega

/-- Interleaving undoes the splitting of digits. -/
lemma interleave_everySecondBit {n x : ℕ} (hx : x < 4 ^ n) :
    interleave n (everySecondBit n (x / 2)) (everySecondBit n x) = x := by
  induction n generalizing x with
  | zero =>
    rw [Nat.pow_zero] at hx
    rw [interleave]
    omega
  | succ n ih =>
    rw [Nat.pow_succ] at hx
    have hi : everySecondBit (n + 1) (x / 2) / 2 = everySecondBit n (x / 4 / 2) := by
      rw [everySecondBit, show x / 2 / 4 = x / 4 / 2 by omega]
      omega
    have hj : everySecondBit (n + 1) x / 2 = everySecondBit n (x / 4) := by
      rw [everySecondBit]
      omega
    rw [interleave, hi, hj, ih (by omega), everySecondBit, everySecondBit]
    omega

/-- Both grid steps of a path determine it. -/
lemma eq_of_everySecondBit_eq {n x y : ℕ} (hx : x < 4 ^ n) (hy : y < 4 ^ n)
    (hi : everySecondBit n (x / 2) = everySecondBit n (y / 2))
    (hj : everySecondBit n x = everySecondBit n y) : x = y := by
  rw [← interleave_everySecondBit hx, hi, hj, interleave_everySecondBit hy]

/-! ### Squares -/

/-- The grid steps that a square covers, with its face. -/
def Square.steps (s : Square) : Set (ℕ × ℕ × ℕ) :=
  { p | p.1 = s.face ∧ (s.i ≤ p.2.1 ∧ p.2.1 < s.i + s.size) ∧
    s.j ≤ p.2.2 ∧ p.2.2 < s.j + s.size }

lemma Square.mem_steps {s : Square} {face i j : ℕ} : (face, i, j) ∈ s.steps ↔
    face = s.face ∧ (s.i ≤ i ∧ i < s.i + s.size) ∧ s.j ≤ j ∧ j < s.j + s.size :=
  Iff.rfl

/-- What is computed from a word, as numbers without a bound: the differences are not below zero,
the sum fits a word, and the square fits the grid of its face. -/
structure Exact (id : CellId) : Prop where
  marker_sub_one : (id.marker - 1).toNat + 1 = id.marker.toNat
  rangeMin_add : id.rangeMin.raw.toNat + (id.marker - 1).toNat = id.raw.toNat
  rangeMax_eq : id.rangeMax.raw.toNat = id.raw.toNat + (id.marker - 1).toNat
  level_add_height : id.level + id.height = maxLevel
  markerAt_level : (markerAt id.level).toNat = 2 ^ (2 * (maxLevel - id.level))
  square_le : id.square.i + id.square.size ≤ 2 ^ maxLevel ∧
    id.square.j + id.square.size ≤ 2 ^ maxLevel

namespace At

variable {a b : CellId} {h n H N : ℕ}

/-- The path of a cell, without its face, gives the digits of its grid steps. -/
lemma square_eq (ha : a.At h n) :
    a.square = { face := n / 4 ^ (maxLevel - h)
                 i := 2 ^ h * everySecondBit (maxLevel - h) (n % 4 ^ (maxLevel - h) / 2)
                 j := 2 ^ h * everySecondBit (maxLevel - h) (n % 4 ^ (maxLevel - h))
                 size := 2 ^ h } := by
  have hle := ha.height_le
  have hposition : (a.rangeMin.raw &&& 0x1FFFFFFFFFFFFFFF).toNat / 2 =
      4 ^ h * (n % 4 ^ (maxLevel - h)) := by
    have hmask : (0x1FFFFFFFFFFFFFFF : UInt64).toNat = 2 ^ 61 - 1 := rfl
    have hsplit : 2 ^ 60 = 4 ^ h * 4 ^ (maxLevel - h) := by
      rw [← Nat.pow_add, Nat.add_sub_cancel' hle]
      rfl
    rw [UInt64.toNat_and, hmask, Nat.and_two_pow_sub_one_eq_mod, ha.toNat_rangeMin, ha.low_eq,
      ← Nat.mul_mod_mul_left, ← hsplit, Nat.mul_left_comm]
    omega
  have hi := everySecondBit_four_pow_mul_div_two (maxLevel - h) h (n % 4 ^ (maxLevel - h))
  have hj := everySecondBit_four_pow_mul (maxLevel - h) h (n % 4 ^ (maxLevel - h))
  rw [Nat.sub_add_cancel hle] at hi hj
  rw [square, hposition, ha.face_eq, ha.height_eq, hi, hj]

lemma mem_interval_iff {k x s : ℕ} (hs : 0 < s) : s * k ≤ x ∧ x < s * k + s ↔ x / s = k := by
  rw [Nat.div_eq_iff hs, Nat.mul_comm k s]
  omega

/-- A grid step is in the square of a cell if it begins with its digits. -/
lemma mem_steps_iff (ha : a.At h n) {face i j : ℕ} :
    (face, i, j) ∈ a.square.steps ↔ face = n / 4 ^ (maxLevel - h) ∧
      i / 2 ^ h = everySecondBit (maxLevel - h) (n % 4 ^ (maxLevel - h) / 2) ∧
      j / 2 ^ h = everySecondBit (maxLevel - h) (n % 4 ^ (maxLevel - h)) := by
  have hsize : 0 < 2 ^ h := Nat.two_pow_pos h
  rw [ha.square_eq, Square.mem_steps]
  dsimp only
  rw [mem_interval_iff hsize, mem_interval_iff hsize]

/-- The first grid step of a square and the last one along `u`. -/
lemma corner_mem_steps (ha : a.At h n) : (a.square.face, a.square.i, a.square.j) ∈ a.square.steps ∧
    (a.square.face, a.square.i + (a.square.size - 1), a.square.j) ∈ a.square.steps := by
  have hsize : 0 < a.square.size := by
    rw [ha.square_eq]
    exact Nat.two_pow_pos h
  rw [Square.mem_steps, Square.mem_steps]
  omega

/-- The digits of the ancestor, found from its number. -/
lemma mod_div_eq {d : ℕ} (hd : h + d ≤ maxLevel) : n / 4 ^ d % 4 ^ (maxLevel - (h + d)) =
    n % 4 ^ (maxLevel - h) / 4 ^ d := by
  have hsplit : 4 ^ (maxLevel - h) = 4 ^ d * 4 ^ (maxLevel - (h + d)) := by
    rw [← Nat.pow_add]
    congr 1
    omega
  rw [hsplit, Nat.mod_mul_right_div_self]

/-- The grid steps of a smaller cell begin with digits that a larger one of the same face must
have to share one of them. -/
lemma steps_digits {d face i j : ℕ} (hb : b.At h n) (hd : h + d ≤ maxLevel)
    (hp : (face, i, j) ∈ b.square.steps) : face = n / 4 ^ d / 4 ^ (maxLevel - (h + d)) ∧
      i / 2 ^ (h + d) = everySecondBit (maxLevel - (h + d))
        (n / 4 ^ d % 4 ^ (maxLevel - (h + d)) / 2) ∧
      j / 2 ^ (h + d) = everySecondBit (maxLevel - (h + d))
        (n / 4 ^ d % 4 ^ (maxLevel - (h + d))) := by
  obtain ⟨hface, hi, hj⟩ := hb.mem_steps_iff.1 hp
  have hlevels : maxLevel - h = maxLevel - (h + d) + d := by omega
  refine ⟨?_, ?_, ?_⟩
  · rw [hface, Nat.div_div_eq_div_mul, ← Nat.pow_add]
    congr 2
    omega
  · rw [Nat.pow_add, ← Nat.div_div_eq_div_mul, hi, mod_div_eq hd, Nat.div_right_comm]
    conv_lhs => rw [hlevels]
    rw [everySecondBit_div_two_pow, ← hlevels]
  · rw [Nat.pow_add, ← Nat.div_div_eq_div_mul, hj, mod_div_eq hd]
    conv_lhs => rw [hlevels]
    rw [everySecondBit_div_two_pow, ← hlevels]

/-- The square of a cell covers the squares of what it holds. -/
lemma steps_subset_of_holds (ha : a.At H N) (hb : b.At h n) (hold : a.Holds b) :
    b.square.steps ⊆ a.square.steps := by
  have hle := ha.height_le_of_holds hb hold
  have hnumber := (ha.holds_iff hb hle).1 hold
  obtain ⟨d, rfl⟩ := Nat.exists_eq_add_of_le hle
  rw [Nat.add_sub_cancel_left] at hnumber
  subst hnumber
  rintro ⟨face, i, j⟩ hp
  exact ha.mem_steps_iff.2 (hb.steps_digits ha.height_le hp)

/-- Squares that share a grid step belong to cells of which the larger holds the smaller. -/
lemma holds_of_mem_steps (ha : a.At H N) (hb : b.At h n) (hle : h ≤ H) {p : ℕ × ℕ × ℕ}
    (hpa : p ∈ a.square.steps) (hpb : p ∈ b.square.steps) : a.Holds b := by
  obtain ⟨d, rfl⟩ := Nat.exists_eq_add_of_le hle
  obtain ⟨hface, hi, hj⟩ := ha.mem_steps_iff.1 hpa
  obtain ⟨hface', hi', hj'⟩ := hb.steps_digits ha.height_le hpb
  have hpos : 0 < 4 ^ (maxLevel - (h + d)) := Nat.pow_pos (by decide)
  have hmod := eq_of_everySecondBit_eq (Nat.mod_lt _ hpos) (Nat.mod_lt _ hpos)
    (hi'.symm.trans hi) (hj'.symm.trans hj)
  rw [ha.holds_iff hb hle, Nat.add_sub_cancel_left]
  rw [← Nat.div_add_mod (n / 4 ^ d) (4 ^ (maxLevel - (h + d))), hmod, ← hface', hface,
    Nat.div_add_mod]

lemma steps_subset_iff_holds (ha : a.At H N) (hb : b.At h n) :
    b.square.steps ⊆ a.square.steps ↔ a.Holds b := by
  refine ⟨fun hsub => ?_, ha.steps_subset_of_holds hb⟩
  obtain ⟨hfirst, hlast⟩ := hb.corner_mem_steps
  refine ha.holds_of_mem_steps hb ?_ (hsub hfirst) hfirst
  -- The corners of the smaller square are less than its side apart.
  obtain ⟨-, ⟨h1, -⟩, -⟩ := Square.mem_steps.1 (hsub hfirst)
  obtain ⟨-, ⟨-, h2⟩, -⟩ := Square.mem_steps.1 (hsub hlast)
  have hsize : a.square.size = 2 ^ H := by rw [ha.square_eq]
  have hsize' : b.square.size = 2 ^ h := by rw [hb.square_eq]
  rw [hsize] at h2
  rw [hsize'] at h2
  have hpow : 2 ^ h ≤ 2 ^ H := by omega
  exact (Nat.pow_le_pow_iff_right (by decide)).1 hpow

lemma steps_inter_nonempty_iff (ha : a.At H N) (hb : b.At h n) :
    (a.square.steps ∩ b.square.steps).Nonempty ↔ a.Holds b ∨ b.Holds a := by
  constructor
  · rintro ⟨p, hpa, hpb⟩
    rcases le_total h H with hle | hle
    · exact Or.inl (ha.holds_of_mem_steps hb hle hpa hpb)
    · exact Or.inr (hb.holds_of_mem_steps ha hle hpb hpa)
  · rintro (hold | hold)
    · exact ⟨_, ha.steps_subset_of_holds hb hold hb.corner_mem_steps.1, hb.corner_mem_steps.1⟩
    · exact ⟨_, ha.corner_mem_steps.1, hb.steps_subset_of_holds ha hold ha.corner_mem_steps.1⟩

/-- A square lies inside the grid of its face. -/
lemma square_le (ha : a.At h n) :
    a.square.i + a.square.size ≤ 2 ^ maxLevel ∧ a.square.j + a.square.size ≤ 2 ^ maxLevel := by
  have hsplit : 2 ^ maxLevel = 2 ^ h * 2 ^ (maxLevel - h) := by
    rw [← Nat.pow_add, Nat.add_sub_cancel' ha.height_le]
  rw [ha.square_eq, hsplit]
  dsimp only
  exact ⟨Nat.mul_le_mul_left _ (everySecondBit_lt _ _),
    Nat.mul_le_mul_left _ (everySecondBit_lt _ _)⟩

/-- Whatever is computed from a valid word stays within the numbers that it is computed in. -/
lemma exact (ha : a.At h n) : a.Exact where
  marker_sub_one := ha.toNat_marker_sub_one
  rangeMin_add := by
    have hone := ha.toNat_marker_sub_one
    have hle := ha.toNat_marker_le
    rw [ha.toNat_rangeMin, low]
    omega
  rangeMax_eq := by
    have hone := ha.toNat_marker_sub_one
    have hmax := ha.toNat_rangeMax
    rw [high] at hmax
    omega
  level_add_height := by
    rw [ha.level_eq, ha.height_eq, Nat.sub_add_cancel ha.height_le]
  markerAt_level := toNat_markerAt (by rw [level]; omega)
  square_le := ha.square_le

end At

/-! ### All forms agree -/

/-- The ways to compare two cells agree: by words and intervals, by ancestors and by squares. -/
structure Agree (a b : CellId) : Prop where
  /-- What it says that `a` contains `b`. -/
  contains_tfae : List.TFAE [
    a.contains b = true,
    b.square.steps ⊆ a.square.steps,
    a.level ≤ b.level ∧ b.parentAt a.level = a,
    ∀ c : CellId, b.rangeMin ≤ c ∧ c ≤ b.rangeMax → a.rangeMin ≤ c ∧ c ≤ a.rangeMax]
  /-- What it says that the cells have a leaf in common. -/
  intersects_tfae : List.TFAE [
    a.intersects b = true,
    (a.square.steps ∩ b.square.steps).Nonempty,
    a.contains b = true ∨ b.contains a = true]
  /-- Cells that are apart are in the order of their intervals. -/
  lt_iff : a.contains b = false → b.contains a = false → (a < b ↔ a.rangeMax < b.rangeMin)

/-- **One tree.**  For valid words, intervals, words, paths and squares tell the same about which
cells lie in which, and none of them is computed with a carry out of 64 bits. -/
theorem agree_of_isValid {a b : CellId} (ha : a.isValid = true) (hb : b.isValid = true) :
    a.Agree b ∧ a.Exact ∧ b.Exact := by
  obtain ⟨H, N, ha⟩ := isValid_iff_exists_at.1 ha
  obtain ⟨h, n, hb⟩ := isValid_iff_exists_at.1 hb
  have hab := ha.contains_iff_holds hb
  have hba := hb.contains_iff_holds ha
  refine ⟨⟨?_, ?_, fun hnot hnot' => ?_⟩, ha.exact, hb.exact⟩
  · tfae_have 1 ↔ 2 := hab.trans (ha.steps_subset_iff_holds hb).symm
    tfae_have 1 ↔ 3 := hab.trans (ha.parentAt_iff_holds hb).symm
    tfae_have 1 ↔ 4 := hab.trans (ha.range_iff_holds hb).symm
    tfae_finish
  · rw [hab, hba]
    tfae_have 1 ↔ 3 := ha.intersects_iff hb
    tfae_have 2 ↔ 3 := ha.steps_inter_nonempty_iff hb
    tfae_finish
  · have hmax := ha.toNat_rangeMax
    have hmin := hb.toNat_rangeMin
    have hla := ha.low_lt
    have hlb := hb.low_lt
    have hha := ha.lt_high
    have hhb := hb.lt_high
    rw [lt_iff_toNat, lt_iff_toNat]
    rcases ha.apart_of_not_holds hb (by rw [← hab, hnot]; decide) (by rw [← hba, hnot']; decide)
      with hapart | hapart
    · omega
    · omega

/-- A quarter of a face and a cell two steps further down. -/
theorem agree_child_child_ofFace :
    let a := (ofFace 4).child 2
    let b := ((ofFace 4).child 2 |>.child 3).child 1
    (a.isValid = true ∧ b.isValid = true) ∧ a.Agree b ∧ a.Exact ∧ b.Exact := by
  have ha : ((ofFace 4).child 2).isValid = true := by decide
  have hb : (((ofFace 4).child 2 |>.child 3).child 1).isValid = true := by decide
  exact ⟨⟨ha, hb⟩, agree_of_isValid ha hb⟩

end CellId

end SphereSearch
