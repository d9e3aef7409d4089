import SphereSearch.Proofs.Grid.Apart
import SphereSearch.Proofs.Grid.Leaf
import SphereSearch.Proofs.Grid.Weave

/-!
# Squares of cells

A leaf is named by its face and grid step and tells them again, so cells and the squares of the grid
that are halved from a face stand for each other.  The square of an ancestor is that of the cell,
rounded down to the larger size, and the squares of the quarters are the quarters of the square
(`CellId.square_roundTrip`).
-/

namespace SphereSearch

namespace CellId

/-! ### Squares in squares -/

namespace Square

/-- The square of a greater size that a square lies in, on a grid of that size. -/
def around (s : Square) (size : ℕ) : Square :=
  { face := s.face, i := s.i / size * size, j := s.j / size * size, size := size }

/-- A quarter of a square: the first binary digit of its number halves the square along `u`, the
second one along `v`. -/
def quarter (s : Square) (k : ℕ) : Square :=
  { face := s.face
    i := s.i + (k >>> 1) * s.size / 2
    j := s.j + (k &&& 1) * s.size / 2
    size := s.size / 2 }

variable {s : Square} {k m : ℕ}

/-- The quarters of a square with an even side begin half a side apart. -/
lemma quarter_eq (hm : s.size = 2 * m) : s.quarter k =
    { face := s.face, i := s.i + k / 2 * m, j := s.j + k % 2 * m, size := m } := by
  have hhalf : ∀ a, a * (2 * m) / 2 = a * m := by
    intro a
    rw [Nat.mul_left_comm, Nat.mul_div_cancel_left _ Nat.two_pos]
  rw [quarter, hm, hhalf, hhalf, Nat.mul_div_cancel_left _ Nat.two_pos, Nat.shiftRight_eq_div_pow,
    Nat.and_one_is_mod, Nat.pow_one]

/-- A grid step is in the quarter whose digits tell in which half it is along `u` and `v`. -/
lemma mem_quarter_iff (hm : s.size = 2 * m) (hpos : 0 < m) {face i j : ℕ} :
    (face, i, j) ∈ (s.quarter k).steps ↔
      face = s.face ∧ (s.i ≤ i ∧ (i - s.i) / m = k / 2) ∧ s.j ≤ j ∧ (j - s.j) / m = k % 2 := by
  have hhalf : ∀ first x digit, first + digit * m ≤ x ∧ x < first + digit * m + m ↔
      first ≤ x ∧ (x - first) / m = digit := by
    intro first x digit
    rw [Nat.div_eq_iff hpos]
    omega
  rw [quarter_eq hm, mem_steps]
  dsimp only
  rw [hhalf, hhalf]

/-- **The quarters tile the square.**  Each of its grid steps is in one of them, and in one only. -/
theorem mem_steps_iff_existsUnique_quarter (hm : s.size = 2 * m) (hpos : 0 < m) {p : ℕ × ℕ × ℕ} :
    p ∈ s.steps ↔ ∃! k, k < 4 ∧ p ∈ (s.quarter k).steps := by
  obtain ⟨face, i, j⟩ := p
  have hwhole : ∀ first x, first ≤ x ∧ x < first + 2 * m ↔ first ≤ x ∧ (x - first) / m < 2 := by
    intro first x
    rw [Nat.div_lt_iff_lt_mul hpos]
    omega
  simp only [mem_quarter_iff hm hpos]
  rw [mem_steps, hm, hwhole, hwhole]
  generalize (i - s.i) / m = u
  generalize (j - s.j) / m = v
  constructor
  · rintro ⟨hface, ⟨hi, hu⟩, hj, hv⟩
    refine ⟨2 * u + v, ⟨by omega, hface, ⟨hi, by omega⟩, hj, by omega⟩, ?_⟩
    rintro k ⟨hk, -, ⟨-, hu'⟩, -, hv'⟩
    omega
  · rintro ⟨k, ⟨hk, hface, ⟨hi, hu⟩, hj, hv⟩, -⟩
    exact ⟨hface, ⟨hi, by omega⟩, hj, by omega⟩

end Square

/-! ### Leaves and their grid steps -/

variable {id a b : CellId} {h n k l : ℕ}

namespace At

/-- Cells with the same square are the same. -/
lemma eq_of_square_eq {H N : ℕ} (ha : a.At H N) (hb : b.At h n) (heq : a.square = b.square) :
    a = b := by
  refine ha.eq_of_holds_of_holds hb ?_ ?_
  · rw [← ha.steps_subset_iff_holds hb, heq]
  · rw [← hb.steps_subset_iff_holds ha, heq]

lemma square_ofGrid {face i j : ℕ} (hface : face < faceCount) (hi : i < 2 ^ maxLevel)
    (hj : j < 2 ^ maxLevel) : (CellId.ofGrid face i j).square = ⟨face, i, j, 1⟩ := by
  have hlt : interleave 32 i j < 4 ^ maxLevel := interleave_lt (m := maxLevel) hi hj
  have hdiv : (face * 4 ^ maxLevel + interleave 32 i j) / 4 ^ maxLevel = face := by
    rw [Nat.mul_comm, Nat.mul_add_div (Nat.pow_pos (by decide)), Nat.div_eq_of_lt hlt,
      Nat.add_zero]
  have hmod : (face * 4 ^ maxLevel + interleave 32 i j) % 4 ^ maxLevel = interleave 32 i j := by
    rw [Nat.mul_comm, Nat.mul_add_mod, Nat.mod_eq_of_lt hlt]
  rw [(At.ofGrid hface hi hj).square_eq, Nat.sub_zero, hdiv, hmod,
    everySecondBit_interleave (by decide), everySecondBit_interleave_div_two (by decide),
    Nat.pow_zero, Nat.one_mul, Nat.one_mul, Nat.mod_eq_of_lt hi, Nat.mod_eq_of_lt hj]

/-- A leaf is the one at its grid step. -/
lemma ofGrid_square (ha : a.At 0 n) :
    CellId.ofGrid a.square.face a.square.i a.square.j = a := by
  obtain ⟨hi, hj⟩ := ha.square_le
  have hface : a.square.face < faceCount := ha.face_lt
  have hsize : a.square.size = 1 := by rw [ha.square_eq, Nat.pow_zero]
  rw [hsize] at hi hj
  refine (At.ofGrid hface hi hj).eq_of_square_eq ha ?_
  rw [square_ofGrid hface hi hj, ← hsize]

/-! ### Squares of ancestors and quarters -/

/-- The square of an ancestor is that of the cell, rounded down. -/
lemma square_parentAt (ha : a.At h n) (hl : l ≤ a.level) :
    (a.parentAt l).square = a.square.around (2 ^ (maxLevel - l)) := by
  have hle := ha.height_le
  rw [ha.level_eq] at hl
  obtain ⟨d, hd⟩ : ∃ d, maxLevel - l = h + d := ⟨maxLevel - l - h, by omega⟩
  have hparent := ha.parentAt (ha.level_eq ▸ hl)
  rw [hd, Nat.add_sub_cancel_left] at hparent
  obtain ⟨hface, hi, hj⟩ := ha.steps_digits (d := d) (by omega) ha.corner_mem_steps.1
  rw [hparent.square_eq, Square.around, hd, hface, hi, hj, Nat.mul_comm, Nat.mul_comm (2 ^ (h + d))]

lemma square_child (ha : a.At (h + 1) n) (hk : k < 4) :
    (a.child k).square = a.square.quarter k := by
  have hle := ha.height_le
  obtain ⟨d, hd⟩ : ∃ d, maxLevel - h = d + 1 := ⟨maxLevel - (h + 1), by omega⟩
  have hd' : maxLevel - (h + 1) = d := by omega
  have hsize : a.square.size = 2 * 2 ^ h := by rw [ha.square_eq, Nat.pow_succ']
  have hface : (4 * n + k) / 4 ^ (d + 1) = n / 4 ^ d := by
    rw [Nat.pow_succ', ← Nat.div_div_eq_div_mul, show (4 * n + k) / 4 = n by omega]
  have hdigits : (4 * n + k) % 4 ^ (d + 1) = 4 * (n % 4 ^ d) + k := by
    rw [Nat.pow_succ', Nat.mod_mul, show (4 * n + k) / 4 = n by omega]
    omega
  have hi : everySecondBit (d + 1) ((4 * (n % 4 ^ d) + k) / 2) =
      2 * everySecondBit d (n % 4 ^ d / 2) + k / 2 := by
    rw [everySecondBit, show (4 * (n % 4 ^ d) + k) / 2 / 4 = n % 4 ^ d / 2 by omega]
    omega
  have hj : everySecondBit (d + 1) (4 * (n % 4 ^ d) + k) =
      2 * everySecondBit d (n % 4 ^ d) + k % 2 := by
    rw [everySecondBit, show (4 * (n % 4 ^ d) + k) / 4 = n % 4 ^ d by omega]
    omega
  rw [Square.quarter_eq hsize, (ha.child hk).square_eq, ha.square_eq, hd, hd', hface, hdigits, hi,
    hj, Square.mk.injEq]
  refine ⟨rfl, ?_, ?_, rfl⟩
  · ring
  · ring

/-- The cell of which a quarter is a quarter. -/
lemma parent_child (ha : a.At (h + 1) n) (hk : k < 4) : (a.child k).parent = a := by
  have hchild := ha.child hk
  have hle : h + 1 ≤ maxLevel := ha.height_le
  have hmarker : (a.child k).marker <<< 2 = markerAt a.level := by
    have hlt : 4 ^ (h + 1) < 2 ^ 64 := by
      rw [four_pow]
      exact Nat.pow_lt_pow_right (by decide) (by rw [maxLevel] at hle; omega)
    rw [← UInt64.toNat_inj, UInt64.toNat_shiftLeft, hchild.toNat_marker, Nat.shiftLeft_eq,
      toNat_markerAt (show a.level ≤ maxLevel from Nat.sub_le _ _), ha.level_eq, Nat.sub_sub_self hle, ← four_pow]
    exact Nat.mod_eq_of_lt hlt
  rw [parent, hmarker]
  exact (ha.parentAt_child hk le_rfl).trans ha.parentAt_level

end At

/-- **Cells and squares.**  A grid step of a face names a leaf with this step for its square, and
every leaf is named so.  The square of an ancestor is that of the cell, rounded down to a multiple of
the larger side, and the squares of the quarters of a cell, whose parent it is, tile its square.  The
moves of blocks in words compute the same leaves and squares. -/
theorem square_roundTrip :
    (∀ face < faceCount, ∀ i < 2 ^ 30, ∀ j < 2 ^ 30, (ofGrid face i j).isValid = true ∧
      (ofGrid face i j).isLeaf = true ∧ (ofGrid face i j).square = ⟨face, i, j, 1⟩) ∧
    (∀ id : CellId, id.isValid = true → id.isLeaf = true →
      ofGrid id.square.face id.square.i id.square.j = id) ∧
    (∀ c : CellId, c.isValid = true → ∀ l ≤ c.level,
      (c.parentAt l).square = c.square.around (2 ^ (30 - l))) ∧
    (∀ c : CellId, c.isValid = true → c.isLeaf = false →
      (∀ k < 4, (c.child k).square = c.square.quarter k ∧ (c.child k).parent = c) ∧
      ∀ p, p ∈ c.square.steps ↔ ∃! k, k < 4 ∧ p ∈ (c.child k).square.steps) ∧
    (∀ face i j, ofGrid face i j = weave face i j) ∧ ∀ id : CellId, id.square = id.unweave := by
  refine ⟨fun face hface i hi j hj => ?_, fun id hvalid hleaf => ?_, fun c hvalid l hl => ?_,
    fun c hvalid hleaf => ?_, ofGrid_eq_weave, square_eq_unweave⟩
  · have ha := At.ofGrid hface hi hj
    exact ⟨ha.isValid, ha.isLeaf_eq_true, At.square_ofGrid hface hi hj⟩
  · obtain ⟨n, ha⟩ := exists_at_zero hvalid hleaf
    exact ha.ofGrid_square
  · obtain ⟨h, n, ha⟩ := isValid_iff_exists_at.1 hvalid
    exact ha.square_parentAt hl
  · obtain ⟨h, n, ha⟩ := exists_at_succ hvalid hleaf
    have hsize : c.square.size = 2 * 2 ^ h := by rw [ha.square_eq, Nat.pow_succ']
    refine ⟨fun k hk => ⟨ha.square_child hk, ha.parent_child hk⟩, fun p => ?_⟩
    rw [Square.mem_steps_iff_existsUnique_quarter hsize (Nat.two_pow_pos h)]
    refine existsUnique_congr fun k => and_congr_right fun hk => ?_
    rw [ha.square_child hk]

/-- A leaf of the last face but one, its ancestor ten steps down, and the last quarter of that. -/
theorem square_roundTrip_lastFaceButOne :
    let a := ofGrid 4 123456789 987654321
    let c := a.parentAt 10
    (a.square = ⟨4, 123456789, 987654321, 1⟩ ∧ ofGrid a.square.face a.square.i a.square.j = a) ∧
      (c.isValid = true ∧ c.isLeaf = false) ∧ c.square = ⟨4, 122683392, 986710016, 1048576⟩ ∧
      (c.child 3).square = ⟨4, 123207680, 987234304, 524288⟩ ∧ (c.child 3).parent = c := by
  obtain ⟨hgrid, hleaves, hancestors, hquarters, -⟩ := square_roundTrip
  obtain ⟨hvalid, hleaf, hsquare⟩ := hgrid 4 (by decide) 123456789 (by decide) 987654321 (by decide)
  have hc : ((ofGrid 4 123456789 987654321).parentAt 10).isValid = true ∧
      ((ofGrid 4 123456789 987654321).parentAt 10).isLeaf = false := by decide
  have hancestor := hancestors _ hvalid 10 (by decide)
  obtain ⟨hchildren, -⟩ := hquarters _ hc.1 hc.2
  obtain ⟨hchild, hparent⟩ := hchildren 3 (by decide)
  rw [hancestor, hsquare] at hchild
  rw [hsquare] at hancestor
  exact ⟨⟨hsquare, hleaves _ hvalid hleaf⟩, hc, hancestor, hchild, hparent⟩

end CellId

end SphereSearch
