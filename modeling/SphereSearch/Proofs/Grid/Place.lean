import Mathlib.Tactic.IntervalCases
import Mathlib.Tactic.Linarith
import Mathlib.Tactic.Ring
import SphereSearch.Grid.Marker

/-!
# The place of a cell

A cell that can be split `h` times has a number among the cells of its size, counted through all
faces (`CellId.At`).  Its word is then `4 ^ h * (2 * n + 1)`, and everything that is done to
words becomes arithmetic with `h` and `n`: a quarter has the number `4 * n + k`, an ancestor the
number `n / 4 ^ d`.

The leaves of the cell fill the interval between `low` and `high`.  Two such intervals are
disjoint unless one of the cells contains the other (`At.contains_or_disjoint`), and what lies
in a cell is the cell or lies in one of its quarters (`At.exists_child`).
-/

namespace SphereSearch

namespace CellId

/-- The cell can be split `h` times, and `n` cells that can come before it. -/
structure At (id : CellId) (h n : ℕ) : Prop where
  toNat_eq : id.raw.toNat = 4 ^ h * (2 * n + 1)
  height_le : h ≤ maxLevel
  number_lt : n < faceCount * 4 ^ (maxLevel - h)

/-- The end of the leaves before the cell. -/
def low (id : CellId) : ℕ := id.raw.toNat - id.marker.toNat

/-- The end of the leaves of the cell. -/
def high (id : CellId) : ℕ := id.raw.toNat + id.marker.toNat

/-- Every leaf of the second cell belongs to the first. -/
def Holds (id other : CellId) : Prop := id.low ≤ other.low ∧ other.high ≤ id.high

lemma four_pow (h : ℕ) : 4 ^ h = 2 ^ (2 * h) := by
  rw [Nat.pow_mul]

lemma eq_of_toNat {id other : CellId} (h : id.raw.toNat = other.raw.toNat) : id = other := by
  rcases id with ⟨a⟩
  rcases other with ⟨b⟩
  have hab : a = b := UInt64.toNat_inj.1 h
  rw [hab]

lemma lt_iff_toNat {id other : CellId} : id < other ↔ id.raw.toNat < other.raw.toNat :=
  UInt64.lt_iff_toNat_lt

lemma le_iff_toNat {id other : CellId} : id ≤ other ↔ id.raw.toNat ≤ other.raw.toNat :=
  UInt64.le_iff_toNat_le

lemma toNat_markerAt {level : ℕ} (hl : level ≤ maxLevel) :
    (markerAt level).toNat = 2 ^ (2 * (maxLevel - level)) := by
  simp only [maxLevel] at hl
  have hshift : ((2 * (30 - level)).toUInt64).toNat = 2 * (30 - level) := by
    rw [Nat.toUInt64, UInt64.toNat_ofNat']
    omega
  simp only [markerAt, maxLevel]
  rw [UInt64.toNat_shiftLeft, hshift, Nat.mod_eq_of_lt (show 2 * (30 - level) < 64 by omega),
    Nat.shiftLeft_eq, Nat.mod_eq_of_lt]
  · exact Nat.one_mul _
  · rw [show (1 : UInt64).toNat = 1 from rfl, Nat.one_mul]
    exact Nat.pow_lt_pow_right (by decide) (by omega)

lemma face_eq_div (id : CellId) : id.face = id.raw.toNat / 2 ^ 61 := by
  show (id.raw >>> 61).toNat = _
  rw [UInt64.toNat_shiftRight, show (61 : UInt64).toNat % 64 = 61 from rfl,
    Nat.shiftRight_eq_div_pow]

namespace At

variable {id other : CellId} {h n H N k : ℕ}

lemma toNat_marker (ha : id.At h n) : id.marker.toNat = 4 ^ h := by
  have heq : id.raw.toNat = 2 ^ (2 * h) * (2 * n + 1) := by rw [ha.toNat_eq, four_pow]
  rw [CellId.toNat_marker heq, four_pow]

lemma height_eq (ha : id.At h n) : id.height = h := by
  have heq : id.raw.toNat = 2 ^ (2 * h) * (2 * n + 1) := by rw [ha.toNat_eq, four_pow]
  rw [CellId.height_eq heq]
  omega

lemma level_eq (ha : id.At h n) : id.level = maxLevel - h := by
  rw [level, ha.height_eq]

lemma low_eq (ha : id.At h n) : id.low = 4 ^ h * (2 * n) := by
  rw [low, ha.toNat_marker, ha.toNat_eq, Nat.mul_add, Nat.mul_one, Nat.add_sub_cancel]

lemma high_eq (ha : id.At h n) : id.high = 4 ^ h * (2 * n + 2) := by
  rw [high, ha.toNat_marker, ha.toNat_eq]
  ring

lemma low_lt (ha : id.At h n) : id.low < id.raw.toNat := by
  have hpos : 0 < 4 ^ h := Nat.pow_pos (by decide)
  rw [ha.low_eq, ha.toNat_eq]
  exact Nat.mul_lt_mul_of_pos_left (by omega) hpos

lemma lt_high (ha : id.At h n) : id.raw.toNat < id.high := by
  have hpos : 0 < 4 ^ h := Nat.pow_pos (by decide)
  rw [ha.high_eq, ha.toNat_eq]
  exact Nat.mul_lt_mul_of_pos_left (by omega) hpos

lemma low_lt_high (ha : id.At h n) : id.low < id.high := ha.low_lt.trans ha.lt_high

/-- All leaves are below the end of the last face. -/
lemma high_le (ha : id.At h n) : id.high ≤ 12 * 2 ^ 60 := by
  have hle : n + 1 ≤ 6 * 4 ^ (30 - h) := ha.number_lt
  have hsplit : 4 ^ h * 4 ^ (30 - h) = 4 ^ 30 := by
    rw [← Nat.pow_add]
    congr 1
    have := ha.height_le
    simp only [maxLevel] at this
    omega
  rw [ha.high_eq]
  calc 4 ^ h * (2 * n + 2) = 2 * (4 ^ h * (n + 1)) := by ring
    _ ≤ 2 * (4 ^ h * (6 * 4 ^ (30 - h))) := by gcongr
    _ = 12 * (4 ^ h * 4 ^ (30 - h)) := by ring
    _ = 12 * 2 ^ 60 := by rw [hsplit]

lemma toNat_marker_sub_one (ha : id.At h n) : (id.marker - 1).toNat + 1 = id.marker.toNat := by
  have hpos : 0 < 4 ^ h := Nat.pow_pos (by decide)
  have hm := ha.toNat_marker
  rw [UInt64.toNat_sub_of_le _ _ (by rw [UInt64.le_iff_toNat_le, hm]; exact hpos), hm,
    show (1 : UInt64).toNat = 1 from rfl]
  omega

lemma toNat_marker_le (ha : id.At h n) : id.marker.toNat ≤ id.raw.toNat := by
  rw [ha.toNat_marker, ha.toNat_eq]
  exact Nat.le_mul_of_pos_right _ (by omega)

lemma toNat_rangeMin (ha : id.At h n) : id.rangeMin.raw.toNat = id.low + 1 := by
  have hone := ha.toNat_marker_sub_one
  have hle := ha.toNat_marker_le
  rw [low]
  show (id.raw - (id.marker - 1)).toNat = _
  rw [UInt64.toNat_sub_of_le _ _ (by rw [UInt64.le_iff_toNat_le]; omega)]
  omega

lemma toNat_rangeMax (ha : id.At h n) : id.rangeMax.raw.toNat + 1 = id.high := by
  have hone := ha.toNat_marker_sub_one
  have hhigh := ha.high_le
  rw [high] at hhigh ⊢
  show (id.raw + (id.marker - 1)).toNat + 1 = _
  rw [UInt64.toNat_add, Nat.mod_eq_of_lt (by omega)]
  omega

/-- Cells without a common leaf have ranges one after the other. -/
lemma rangeMax_lt_rangeMin (ha : id.At h n) (hb : other.At H N) (hle : id.high ≤ other.low) :
    id.rangeMax < other.rangeMin := by
  rw [lt_iff_toNat, hb.toNat_rangeMin]
  have hmax := ha.toNat_rangeMax
  omega

/-! ### Faces, quarters and ancestors -/

lemma eq (ha : id.At h n) (hb : other.At h n) : id = other :=
  eq_of_toNat (by rw [ha.toNat_eq, hb.toNat_eq])

lemma ofFace {face : ℕ} (hf : face < faceCount) : (CellId.ofFace face).At maxLevel face where
  toNat_eq := by
    simp only [faceCount] at hf
    interval_cases face <;> decide
  height_le := Nat.le_refl _
  number_lt := by simpa using hf

lemma child (ha : id.At (h + 1) n) (hk : k < 4) : (id.child k).At h (4 * n + k) where
  toNat_eq := by
    have heq : id.raw.toNat = 2 ^ (2 * h + 2) * (2 * n + 1) := by
      rw [ha.toNat_eq, four_pow]
      congr 2
    rw [toNat_child heq hk, four_pow]
  height_le := (Nat.le_succ h).trans ha.height_le
  number_lt := by
    have hlt := ha.number_lt
    have hle := ha.height_le
    have hpow : 4 ^ (maxLevel - h) = 4 * 4 ^ (maxLevel - (h + 1)) := by
      rw [← Nat.pow_succ']
      congr 1
      omega
    rw [hpow]
    simp only [faceCount] at *
    omega

/-- Cutting a word at a higher marker. -/
lemma and_or_two_pow {x t : ℕ} (hx : x < 2 ^ 64) (ht : t < 64) :
    (x &&& (2 ^ 64 - 2 ^ t)) ||| 2 ^ t = 2 ^ t * (2 * (x / 2 ^ (t + 1)) + 1) := by
  have hpow : 0 < 2 ^ t := Nat.two_pow_pos t
  have hmask : 2 ^ 64 - 2 ^ t = 2 ^ 64 - (2 ^ t - 1 + 1) := by omega
  have hlt : 2 ^ t - 1 < 2 ^ 64 := by
    have := Nat.pow_lt_pow_right (show 1 < 2 by decide) ht
    omega
  apply Nat.eq_of_testBit_eq
  intro i
  rw [Nat.testBit_or, Nat.testBit_and, hmask, Nat.testBit_two_pow_sub_succ hlt,
    Nat.testBit_two_pow_sub_one, Nat.testBit_two_pow, Nat.testBit_two_pow_mul]
  rcases lt_trichotomy i t with hi | rfl | hi
  · have h1 : ¬ t ≤ i := by omega
    have h2 : t ≠ i := by omega
    simp [hi, h1, h2]
  · simp
  · obtain ⟨j, rfl⟩ : ∃ j, i = t + (j + 1) := ⟨i - t - 1, by omega⟩
    have h1 : ¬ t + (j + 1) < t := by omega
    have h2 : t ≠ t + (j + 1) := by omega
    have hodd : (2 * (x / 2 ^ (t + 1)) + 1).testBit (j + 1) = x.testBit (t + (j + 1)) := by
      rw [Nat.testBit_succ, show (2 * (x / 2 ^ (t + 1)) + 1) / 2 = x / 2 ^ (t + 1) by omega,
        Nat.testBit_div_two_pow]
      congr 1
      omega
    by_cases h64 : t + (j + 1) < 64
    · simp [h1, hodd, h64]
    · have hfalse : x.testBit (t + (j + 1)) = false :=
        Nat.testBit_lt_two_pow (hx.trans_le (Nat.pow_le_pow_right (by decide) (by omega)))
      simp [hodd, hfalse]

/-- The word of an odd number, divided by a greater marker. -/
lemma mul_odd_div {d : ℕ} : 4 ^ h * (2 * n + 1) / 2 ^ (2 * (h + d) + 1) = n / 4 ^ d := by
  have hpow : 2 ^ (2 * (h + d) + 1) = 4 ^ h * (2 * 4 ^ d) := by
    rw [four_pow, four_pow, show 2 * (h + d) + 1 = 2 * h + (2 * d + 1) by ring, Nat.pow_add,
      Nat.pow_succ']
  rw [hpow, Nat.mul_div_mul_left _ _ (Nat.pow_pos (by decide)), ← Nat.div_div_eq_div_mul]
  congr 1
  omega

/-- What stands in a word above the bits of a level is the number of the ancestor there. -/
lemma div_eq {l : ℕ} (ha : id.At h n) (hl : l ≤ id.level) :
    id.raw.toNat / 2 ^ (2 * (maxLevel - l) + 1) = n / 4 ^ (maxLevel - l - h) := by
  have hle := ha.height_le
  have hlevel := ha.level_eq
  rw [ha.toNat_eq, show maxLevel - l = h + (maxLevel - l - h) by omega, mul_odd_div,
    Nat.add_sub_cancel_left]

lemma face_eq (ha : id.At h n) : id.face = n / 4 ^ (maxLevel - h) := by
  rw [face_eq_div]
  exact ha.div_eq (Nat.zero_le _)

lemma face_lt (ha : id.At h n) : id.face < faceCount := by
  rw [ha.face_eq, Nat.div_lt_iff_lt_mul (Nat.pow_pos (by decide))]
  exact ha.number_lt

/-- A cell of the grid has a valid word: its marker is one of the bits at which a path can
end. -/
lemma isValid (ha : id.At h n) : id.isValid = true := by
  have hmarker : id.marker = (4 ^ h).toUInt64 := by
    rw [← UInt64.toNat_inj, ha.toNat_marker, Nat.toUInt64, UInt64.toNat_ofNat',
      Nat.mod_eq_of_lt]
    have hle : h ≤ 30 := ha.height_le
    exact (Nat.pow_le_pow_right (by decide) hle).trans_lt (by decide)
  have hbit : ∀ h ≤ maxLevel, (4 ^ h).toUInt64 &&& 0x1555555555555555 ≠ 0 := by decide
  simp only [CellId.isValid]
  rw [Bool.and_eq_true, decide_eq_true_iff, hmarker]
  exact ⟨ha.face_lt, decide_eq_true (hbit h ha.height_le)⟩

lemma parentAt {level : ℕ} (ha : id.At h n) (hl : level ≤ id.level) :
    (id.parentAt level).At (maxLevel - level) (n / 4 ^ (maxLevel - level - h)) where
  toNat_eq := by
    have hlevel := ha.level_eq
    have hle := ha.height_le
    simp only [maxLevel] at *
    have hm : (markerAt level).toNat = 2 ^ (2 * (30 - level)) :=
      toNat_markerAt (hl.trans (by rw [hlevel]; exact Nat.sub_le _ _))
    have hneg : (0 - markerAt level).toNat = 2 ^ 64 - 2 ^ (2 * (30 - level)) := by
      have hpos : 0 < 2 ^ (2 * (30 - level)) := Nat.two_pow_pos _
      rw [UInt64.toNat_sub, hm, UInt64.toNat_zero, Nat.add_zero, Nat.mod_eq_of_lt (by omega)]
    show ((id.raw &&& (0 - markerAt level)) ||| markerAt level).toNat = _
    rw [UInt64.toNat_or, UInt64.toNat_and, hneg, hm,
      and_or_two_pow id.raw.toNat_lt (by omega), ha.toNat_eq, ← four_pow]
    obtain ⟨d, hd⟩ : ∃ d, 30 - level = h + d := ⟨30 - level - h, by omega⟩
    rw [hd, mul_odd_div, Nat.add_sub_cancel_left]
  height_le := Nat.sub_le _ _
  number_lt := by
    have hlevel := ha.level_eq
    have hle := ha.height_le
    have hlt := ha.number_lt
    rw [Nat.div_lt_iff_lt_mul (Nat.pow_pos (by decide)), Nat.mul_assoc, ← Nat.pow_add]
    convert hlt using 3
    omega

/-- A cell is its own ancestor at its level. -/
lemma parentAt_level (ha : id.At h n) : id.parentAt id.level = id := by
  have hparent := ha.parentAt le_rfl
  rw [ha.level_eq, Nat.sub_sub_self ha.height_le, Nat.sub_self, Nat.pow_zero,
    Nat.div_one] at hparent
  rw [ha.level_eq]
  exact hparent.eq ha

lemma level_child (ha : id.At (h + 1) n) (hk : k < 4) : (id.child k).level = id.level + 1 := by
  have hle := ha.height_le
  rw [(ha.child hk).level_eq, ha.level_eq]
  omega

lemma level_ofFace {face : ℕ} (hf : face < faceCount) : (CellId.ofFace face).level = 0 := by
  rw [(ofFace hf).level_eq, Nat.sub_self]

/-- A face has no cell around it but itself. -/
lemma parentAt_ofFace {face level : ℕ} (hf : face < faceCount)
    (hl : level ≤ (CellId.ofFace face).level) :
    (CellId.ofFace face).parentAt level = CellId.ofFace face := by
  have hlevel : level = (CellId.ofFace face).level := by
    rw [level_ofFace hf] at hl ⊢
    exact Nat.le_zero.1 hl
  rw [hlevel, (ofFace hf).parentAt_level]

/-- A quarter has the ancestors of its cell. -/
lemma parentAt_child (ha : id.At (h + 1) n) (hk : k < 4) {level : ℕ} (hl : level ≤ id.level) :
    (id.child k).parentAt level = id.parentAt level := by
  have hlevel := ha.level_eq
  have hle := ha.height_le
  have hparent := (ha.child hk).parentAt (hl.trans (ha.level_child hk ▸ Nat.le_succ _))
  obtain ⟨d, hd⟩ : ∃ d, maxLevel - level - h = d + 1 := ⟨maxLevel - level - (h + 1), by omega⟩
  have hnumber : (4 * n + k) / 4 ^ (maxLevel - level - h) =
      n / 4 ^ (maxLevel - level - (h + 1)) := by
    rw [hd, show maxLevel - level - (h + 1) = d by omega, Nat.pow_succ',
      ← Nat.div_div_eq_div_mul, show (4 * n + k) / 4 = n by omega]
  rw [hnumber] at hparent
  exact hparent.eq (ha.parentAt hl)

/-! ### Cells inside cells -/

/-- A cell of at least the size holds another one exactly if it is its ancestor of that size. -/
lemma holds_iff (ha : id.At H N) (hb : other.At h n) (hle : h ≤ H) :
    id.Holds other ↔ n / 4 ^ (H - h) = N := by
  obtain ⟨d, rfl⟩ := Nat.exists_eq_add_of_le hle
  have hpos : 0 < 4 ^ h := Nat.pow_pos (by decide)
  rw [Holds, ha.low_eq, ha.high_eq, hb.low_eq, hb.high_eq, Nat.add_sub_cancel_left,
    Nat.div_eq_iff (Nat.pow_pos (by decide)), Nat.pow_add]
  have h1 : 4 ^ h * 4 ^ d * (2 * N) ≤ 4 ^ h * (2 * n) ↔ N * 4 ^ d ≤ n := by
    rw [Nat.mul_assoc, Nat.mul_le_mul_left_iff hpos]
    constructor <;> intro hx <;> linarith
  have h2 : 4 ^ h * (2 * n + 2) ≤ 4 ^ h * 4 ^ d * (2 * N + 2) ↔ n < N * 4 ^ d + 4 ^ d := by
    rw [Nat.mul_assoc, Nat.mul_le_mul_left_iff hpos]
    constructor <;> intro hx <;> linarith
  rw [h1, h2]
  have hpos' : 0 < 4 ^ d := Nat.pow_pos (by decide)
  omega

/-- **Nested or apart.**  Of two cells one holds the other, or their leaves are disjoint. -/
theorem contains_or_disjoint (ha : id.At H N) (hb : other.At h n) (hle : h ≤ H) :
    id.Holds other ∨ other.high ≤ id.low ∨ id.high ≤ other.low := by
  obtain ⟨d, rfl⟩ := Nat.exists_eq_add_of_le hle
  rw [ha.holds_iff hb hle, ha.low_eq, ha.high_eq, hb.low_eq, hb.high_eq,
    Nat.add_sub_cancel_left, Nat.pow_add, Nat.mul_assoc, Nat.mul_assoc]
  rcases lt_trichotomy (n / 4 ^ d) N with hlt | heq | hgt
  · right
    left
    rw [Nat.div_lt_iff_lt_mul (Nat.pow_pos (by decide))] at hlt
    exact Nat.mul_le_mul_left _ (by linarith)
  · exact Or.inl heq
  · right
    right
    have hle' : (N + 1) * 4 ^ d ≤ n := by
      rw [← Nat.le_div_iff_mul_le (Nat.pow_pos (by decide))]
      exact hgt
    exact Nat.mul_le_mul_left _ (by linarith)

/-- Cells that hold the same one have leaves in common. -/
lemma overlap (hc : id.At h n) {a b : CellId} (ha : a.Holds id) (hb : b.Holds id) :
    a.low < b.high ∧ b.low < a.high := by
  have hlt := hc.low_lt_high
  exact ⟨ha.1.trans_lt (hlt.trans_le hb.2), hb.1.trans_lt (hlt.trans_le ha.2)⟩

/-- Of two cells with a common leaf one holds the other. -/
lemma holds_or_holds (ha : id.At H N) (hb : other.At h n) (hlow : id.low < other.high)
    (hhigh : other.low < id.high) : id.Holds other ∨ other.Holds id := by
  rcases Nat.le_total h H with hle | hle
  · rcases ha.contains_or_disjoint hb hle with hold | hapart | hapart
    · exact Or.inl hold
    · omega
    · omega
  · rcases hb.contains_or_disjoint ha hle with hold | hapart | hapart
    · exact Or.inr hold
    · omega
    · omega

/-- A cell is no smaller than what it holds. -/
lemma height_le_of_holds (ha : id.At H N) (hb : other.At h n) (hold : id.Holds other) :
    h ≤ H := by
  obtain ⟨hlow, hhigh⟩ := hold
  rw [ha.low_eq, hb.low_eq] at hlow
  rw [ha.high_eq, hb.high_eq] at hhigh
  have hle : 4 ^ h ≤ 4 ^ H := by linarith
  exact (Nat.pow_le_pow_iff_right (by decide)).1 hle

/-- Cells of the same size that hold each other are the same. -/
lemma eq_of_holds (ha : id.At H N) (hb : other.At H n) (hold : id.Holds other) :
    other = id := by
  rw [ha.holds_iff hb le_rfl, Nat.sub_self, Nat.pow_zero, Nat.div_one] at hold
  subst hold
  exact hb.eq ha

/-- What holds a cell is its ancestor at some level. -/
lemma exists_eq_parentAt (ha : id.At H N) (hb : other.At h n) (hold : id.Holds other) :
    ∃ level ≤ other.level, id = other.parentAt level := by
  have hle := ha.height_le_of_holds hb hold
  have hlevel : maxLevel - H ≤ other.level := by
    rw [hb.level_eq]
    omega
  have hparent := hb.parentAt hlevel
  rw [Nat.sub_sub_self ha.height_le] at hparent
  rw [ha.holds_iff hb hle] at hold
  subst hold
  exact ⟨maxLevel - H, hlevel, ha.eq hparent⟩

/-- **Into the quarters.**  What a cell holds is the cell itself or lies in one of its
quarters. -/
theorem exists_child (ha : id.At H N) (hb : other.At h n) (hold : id.Holds other)
    (hne : other ≠ id) : 0 < H ∧ ∃ k < 4, (id.child k).Holds other := by
  have hlt : h < H := by
    refine lt_of_le_of_ne (ha.height_le_of_holds hb hold) ?_
    rintro rfl
    exact hne (ha.eq_of_holds hb hold)
  obtain ⟨H', rfl⟩ : ∃ H', H = H' + 1 := ⟨H - 1, by omega⟩
  refine ⟨Nat.succ_pos _, n / 4 ^ (H' - h) % 4, Nat.mod_lt _ (by decide), ?_⟩
  rw [(ha.child (Nat.mod_lt _ (by decide))).holds_iff hb (by omega)]
  rw [ha.holds_iff hb hlt.le, show H' + 1 - h = H' - h + 1 by omega, Nat.pow_succ,
    ← Nat.div_div_eq_div_mul] at hold
  omega

end At

end CellId

end SphereSearch
