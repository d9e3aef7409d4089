import SphereSearch.Proofs.Grid.Hierarchy

/-!
# Cells without a common leaf

Holding each other is an order on cells, in which a cell holds its quarters.  Cells that hold each
other are the same, cells of different faces and different quarters of a cell have no leaf in common
(`CellId.Apart`), and a cell that can be split is no leaf.
-/

namespace SphereSearch

namespace CellId

variable {a b c : CellId} {h n H N k l : ℕ}

lemma Holds.trans (h : a.Holds b) (h' : b.Holds c) : a.Holds c :=
  ⟨h.1.trans h'.1, h'.2.trans h.2⟩

lemma Holds.refl (a : CellId) : a.Holds a := ⟨le_rfl, le_rfl⟩

/-- The cells have no leaf in common. -/
def Apart (a b : CellId) : Prop := a.high ≤ b.low ∨ b.high ≤ a.low

lemma Apart.symm (hab : a.Apart b) : b.Apart a := Or.symm hab

/-- What is apart from a cell is apart from all that this cell holds. -/
lemma Apart.of_holds (hab : a.Apart b) (hold : b.Holds c) : a.Apart c :=
  hab.imp (fun hle => hle.trans hold.1) fun hle => hold.2.trans hle

namespace At

lemma not_apart_of_holds (hb : b.At h n) (hold : a.Holds b) : ¬ a.Apart b := by
  have hlt := hb.low_lt_high
  obtain ⟨hlow, hhigh⟩ := hold
  rintro (hle | hle)
  · omega
  · omega

/-- Cells that hold each other are the same. -/
lemma eq_of_holds_of_holds (ha : a.At H N) (hb : b.At h n) (hab : a.Holds b) (hba : b.Holds a) :
    a = b := by
  obtain rfl : h = H := le_antisymm (ha.height_le_of_holds hb hab) (hb.height_le_of_holds ha hba)
  exact (ha.eq_of_holds hb hab).symm

/-- A cell lies on the face of what it holds. -/
lemma face_eq_of_holds (ha : a.At H N) (hb : b.At h n) (hold : a.Holds b) : a.face = b.face := by
  have hle := ha.height_le_of_holds hb hold
  have hH := ha.height_le
  rw [ha.face_eq, hb.face_eq, ← (ha.holds_iff hb hle).1 hold, Nat.div_div_eq_div_mul,
    ← Nat.pow_add]
  congr 2
  omega

/-- Cells of different faces are apart. -/
lemma apart_of_face_ne (ha : a.At H N) (hb : b.At h n) (hne : a.face ≠ b.face) : a.Apart b :=
  (ha.apart_of_not_holds hb (fun hold => hne (ha.face_eq_of_holds hb hold))
    fun hold => hne (hb.face_eq_of_holds ha hold).symm).symm

/-- The leaves of a quarter. -/
lemma low_child (ha : a.At (h + 1) n) (hk : k < 4) :
    (a.child k).low = a.low + 4 ^ h * (2 * k) := by
  rw [(ha.child hk).low_eq, ha.low_eq, Nat.pow_succ]
  ring

lemma high_child (ha : a.At (h + 1) n) (hk : k < 4) :
    (a.child k).high = a.low + 4 ^ h * (2 * k + 2) := by
  rw [(ha.child hk).high_eq, ha.low_eq, Nat.pow_succ]
  ring

lemma holds_child (ha : a.At (h + 1) n) (hk : k < 4) : a.Holds (a.child k) := by
  rw [ha.holds_iff (ha.child hk) (Nat.le_succ h), Nat.add_sub_cancel_left, Nat.pow_one]
  omega

/-- Different quarters of a cell are apart. -/
lemma apart_child (ha : a.At (h + 1) n) (hk : k < 4) (hl : l < 4) (hne : k ≠ l) :
    (a.child k).Apart (a.child l) := by
  rw [Apart, ha.high_child hk, ha.low_child hl, ha.high_child hl, ha.low_child hk]
  rcases Nat.lt_or_gt_of_ne hne with hlt | hgt
  · exact Or.inl (Nat.add_le_add_left (Nat.mul_le_mul_left _ (by omega)) _)
  · exact Or.inr (Nat.add_le_add_left (Nat.mul_le_mul_left _ (by omega)) _)

/-- What can be split is no leaf. -/
lemma isLeaf_eq_false (ha : a.At (h + 1) n) : a.isLeaf = false := by
  have heven : a.raw.toNat % 2 = 0 := by
    rw [ha.toNat_eq, Nat.pow_succ', Nat.mul_assoc]
    omega
  have hzero : a.raw &&& 1 = 0 := by
    rw [← UInt64.toNat_inj, UInt64.toNat_and]
    exact (Nat.and_one_is_mod _).trans heven
  rw [isLeaf, hzero]
  rfl

/-- What cannot be split is a leaf. -/
lemma isLeaf_eq_true (ha : a.At 0 n) : a.isLeaf = true := by
  have hodd : (a.raw &&& 1).toNat = 1 := by
    rw [UInt64.toNat_and, ha.toNat_eq]
    show 4 ^ 0 * (2 * n + 1) &&& 1 = 1
    rw [Nat.and_one_is_mod]
    omega
  refine decide_eq_true fun hzero => ?_
  rw [hzero] at hodd
  exact absurd hodd (by decide)

/-- The marker of a word stands at an even place. -/
lemma toNat_ne (hb : b.At H N) (h m : ℕ) : b.raw.toNat ≠ 4 ^ h * (4 * m + 2) := by
  rw [hb.toNat_eq]
  intro heq
  -- Divided by the lower of both powers, one side is odd and the other is even.
  rcases Nat.lt_or_ge h H with hlt | hle
  · obtain ⟨d, rfl⟩ : ∃ d, H = h + (d + 1) := ⟨H - h - 1, by omega⟩
    rw [Nat.pow_add, Nat.mul_assoc, Nat.mul_right_inj (Nat.pow_pos (by decide)).ne',
      Nat.pow_succ', Nat.mul_assoc] at heq
    omega
  · obtain ⟨d, rfl⟩ := Nat.exists_eq_add_of_le hle
    rw [Nat.pow_add, Nat.mul_assoc, Nat.mul_right_inj (Nat.pow_pos (by decide)).ne',
      show 4 ^ d * (4 * m + 2) = 2 * (4 ^ d * (2 * m + 1)) by ring] at heq
    omega

end At

/-- A valid leaf has a number among the leaves. -/
lemma exists_at_zero (hvalid : a.isValid = true) (hleaf : a.isLeaf = true) : ∃ n, a.At 0 n := by
  obtain ⟨h, n, ha⟩ := isValid_iff_exists_at.1 hvalid
  cases h with
  | zero => exact ⟨n, ha⟩
  | succ h => exact absurd (ha.isLeaf_eq_false.symm.trans hleaf) Bool.false_ne_true

/-- A valid word that is no leaf names a cell that can be split. -/
lemma exists_at_succ (hvalid : a.isValid = true) (hleaf : a.isLeaf = false) :
    ∃ h n, a.At (h + 1) n := by
  obtain ⟨h, n, ha⟩ := isValid_iff_exists_at.1 hvalid
  cases h with
  | zero => exact absurd (hleaf.symm.trans ha.isLeaf_eq_true) Bool.false_ne_true
  | succ h => exact ⟨h, n, ha⟩

end CellId

end SphereSearch
