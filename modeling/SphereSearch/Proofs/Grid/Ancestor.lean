import Mathlib.Data.Nat.Bitwise
import SphereSearch.Proofs.Grid.Apart

/-!
# Common ancestors

Two cells of one face have the same ancestors down to some level and different ones below it.  The
highest bit in which their words differ tells this level, unless one of the paths has ended before
(`CellId.At.parentAt_eq_parentAt_iff`).  So the cell that is computed from this bit is the least one
that holds both (`CellId.exists_commonAncestor?`).  It does not depend on the order of the two, and
if neither of them holds the other, they are in different quarters of it
(`CellId.commonAncestor?_isJoin`).
-/

namespace SphereSearch

namespace CellId

/-- Words differ only below a power of two exactly if they agree above it. -/
lemma xor_lt_two_pow_iff {x y m : ℕ} : x ^^^ y < 2 ^ m ↔ x / 2 ^ m = y / 2 ^ m := by
  rw [← Nat.shiftRight_eq_div_pow, ← Nat.shiftRight_eq_div_pow, ← Nat.xor_eq_zero_iff,
    ← Nat.shiftRight_xor_distrib, Nat.shiftRight_eq_div_pow, Nat.div_eq_zero_iff]
  have hpos : 2 ^ m ≠ 0 := (Nat.two_pow_pos m).ne'
  rw [or_iff_right hpos]

lemma toNat_max (x y : UInt64) : (max x y).toNat = max x.toNat y.toNat := by
  show (if x ≤ y then y else x).toNat = _
  rw [Nat.max_def]
  simp only [UInt64.le_iff_toNat_le]
  split
  · rfl
  · rfl

namespace At

variable {a b d : CellId} {h n h' n' l : ℕ}

/-- A cell lies in its ancestors. -/
lemma parentAt_holds (ha : a.At h n) (hl : l ≤ a.level) : (a.parentAt l).Holds a := by
  have hlevel := ha.level_eq
  have hle := ha.height_le
  rw [(ha.parentAt hl).holds_iff ha (by omega)]

/-- The bits of a path above a level are those of the ancestor there. -/
lemma parentAt_eq_iff_xor_lt (ha : a.At h n) (hb : b.At h' n') (hla : l ≤ a.level)
    (hlb : l ≤ b.level) :
    a.parentAt l = b.parentAt l ↔
      a.raw.toNat ^^^ b.raw.toNat < 2 ^ (2 * (maxLevel - l) + 1) := by
  have hat := ha.parentAt hla
  have hbt := hb.parentAt hlb
  rw [xor_lt_two_pow_iff, ha.div_eq hla, hb.div_eq hlb]
  constructor
  · intro heq
    rw [heq] at hat
    exact hat.number_eq hbt
  · intro heq
    rw [heq] at hat
    exact hat.eq hbt

/-- **Shared levels.**  Two cells have the same ancestor at a level of both exactly if the highest
bit in which their words differ, and both markers, stand below the path to this level. -/
lemma parentAt_eq_parentAt_iff (ha : a.At h n) (hb : b.At h' n') (hla : l ≤ a.level)
    (hlb : l ≤ b.level) :
    a.parentAt l = b.parentAt l ↔
      ((max (a.raw ^^^ b.raw) (max a.marker b.marker)).toNat.log2 + 1) / 2 ≤ maxLevel - l := by
  have hlevel := ha.level_eq
  have hlevel' := hb.level_eq
  have hle := ha.height_le
  have hle' := hb.height_le
  have hmarker : 2 ^ (2 * h) < 2 ^ (2 * (maxLevel - l) + 1) :=
    Nat.pow_lt_pow_right (by decide) (by omega)
  have hmarker' : 2 ^ (2 * h') < 2 ^ (2 * (maxLevel - l) + 1) :=
    Nat.pow_lt_pow_right (by decide) (by omega)
  have hpos : 0 < 2 ^ (2 * h) := Nat.two_pow_pos _
  rw [ha.parentAt_eq_iff_xor_lt hb hla hlb, toNat_max, toNat_max, UInt64.toNat_xor,
    ha.toNat_marker, hb.toNat_marker, four_pow, four_pow]
  generalize hdiffering : max (a.raw.toNat ^^^ b.raw.toNat) (max (2 ^ (2 * h)) (2 ^ (2 * h'))) =
    differing
  have hlog : differing < 2 ^ (2 * (maxLevel - l) + 1) ↔
      differing.log2 < 2 * (maxLevel - l) + 1 := (Nat.log2_lt (by omega)).symm
  omega

/-- The highest bit in which words of one face differ is not in the face, so that the level that it
tells is not below zero. -/
lemma log2_differing_le (ha : a.At h n) (hb : b.At h' n') (hface : a.face = b.face) :
    ((max (a.raw ^^^ b.raw) (max a.marker b.marker)).toNat.log2 + 1) / 2 ≤ maxLevel := by
  rw [← Nat.sub_zero maxLevel, ← ha.parentAt_eq_parentAt_iff hb (Nat.zero_le _) (Nat.zero_le _),
    ha.parentAt_eq_iff_xor_lt hb (Nat.zero_le _) (Nat.zero_le _), xor_lt_two_pow_iff]
  rw [face_eq_div, face_eq_div] at hface
  exact hface

end At

/-- **The least common ancestor.**  Two cells of one face have a common ancestor, and it lies in
every cell that holds both. -/
theorem exists_commonAncestor? {a b : CellId} {h n h' n' : ℕ} (ha : a.At h n) (hb : b.At h' n')
    (hface : a.face = b.face) :
    ∃ c, a.commonAncestor? b = some c ∧ (∃ H N, c.At H N) ∧ (c.Holds a ∧ c.Holds b) ∧
      ∀ d : CellId, (∃ H N, d.At H N) → d.Holds a → d.Holds b → d.Holds c := by
  have hroot := ha.log2_differing_le hb hface
  unfold commonAncestor?
  rw [if_neg (not_not.2 hface)]
  dsimp only
  generalize hl : min (maxLevel -
    ((max (a.raw ^^^ b.raw) (max a.marker b.marker)).toNat.log2 + 1) / 2)
      (min a.level b.level) = l
  have hla : l ≤ a.level := by omega
  have hlb : l ≤ b.level := by omega
  have hle : a.level ≤ maxLevel := Nat.sub_le _ _
  have hshared : a.parentAt l = b.parentAt l := by
    rw [ha.parentAt_eq_parentAt_iff hb hla hlb]
    omega
  have hc := ha.parentAt hla
  refine ⟨a.parentAt l, rfl, ⟨_, _, hc⟩, ⟨ha.parentAt_holds hla, ?_⟩, ?_⟩
  · rw [hshared]
    exact hb.parentAt_holds hlb
  · rintro d ⟨H, N, hd⟩ hda hdb
    obtain ⟨hdla, hdpa⟩ := (hd.parentAt_iff_holds ha).2 hda
    obtain ⟨hdlb, hdpb⟩ := (hd.parentAt_iff_holds hb).2 hdb
    -- The other cell is an ancestor of both, so its level is one of those that are shared.
    have hless : d.level ≤ l := by
      have hagree := (ha.parentAt_eq_parentAt_iff hb hdla hdlb).1 (hdpa.trans hdpb.symm)
      omega
    have hheight : maxLevel - l ≤ H := by
      have hlevel := hd.level_eq
      have hH := hd.height_le
      omega
    have hlow := ha.low_lt_high
    obtain ⟨hlow', hhigh'⟩ := ha.parentAt_holds hla
    obtain ⟨hlow'', hhigh''⟩ := hda
    rcases hd.contains_or_disjoint hc hheight with hold | hapart | hapart
    · exact hold
    · omega
    · omega

/-! ### The least upper bound -/

/-- The cell is the least one that contains both `a` and `b`.  If neither of them contains the other,
their paths part here. -/
structure IsJoin (c a b : CellId) : Prop where
  valid : c.isValid = true
  contains_left : c.contains a = true
  contains_right : c.contains b = true
  least : ∀ d : CellId, d.isValid = true → d.contains a = true → d.contains b = true →
    d.contains c = true
  parts : a.contains b = false → b.contains a = false → c.isLeaf = false ∧
    ∃ k < 4, ∃ l < 4, k ≠ l ∧ (c.child k).contains a = true ∧ (c.child l).contains b = true

/-- Cells that contain each other are the same. -/
lemma eq_of_contains {a b : CellId} (ha : a.isValid = true) (hb : b.isValid = true)
    (hab : a.contains b = true) (hba : b.contains a = true) : a = b := by
  obtain ⟨h, n, ha⟩ := isValid_iff_exists_at.1 ha
  obtain ⟨h', n', hb⟩ := isValid_iff_exists_at.1 hb
  exact ha.eq_of_holds_of_holds hb ((ha.contains_iff_holds hb).1 hab)
    ((hb.contains_iff_holds ha).1 hba)

namespace IsJoin

variable {a b c d : CellId}

/-- There is only one least cell. -/
lemma eq (hc : c.IsJoin a b) (hd : d.IsJoin a b) : c = d :=
  eq_of_contains hc.valid hd.valid (hd.least c hc.valid hc.contains_left hc.contains_right)
    (hc.least d hd.valid hd.contains_left hd.contains_right)

lemma symm (hc : c.IsJoin a b) : c.IsJoin b a where
  valid := hc.valid
  contains_left := hc.contains_right
  contains_right := hc.contains_left
  least d hvalid hdb hda := hc.least d hvalid hda hdb
  parts hba hab := by
    obtain ⟨hleaf, k, hk, l, hl, hne, hka, hlb⟩ := hc.parts hab hba
    exact ⟨hleaf, l, hl, k, hk, hne.symm, hlb, hka⟩

/-- A cell is the join of itself and what it contains. -/
lemma of_contains (ha : a.isValid = true) (hab : a.contains b = true) : a.IsJoin a b where
  valid := ha
  contains_left := by
    obtain ⟨h, n, ha⟩ := isValid_iff_exists_at.1 ha
    exact (ha.contains_iff_holds ha).2 (.refl a)
  contains_right := hab
  least _ _ hda _ := hda
  parts hnot := by
    rw [hab] at hnot
    exact absurd hnot.symm Bool.false_ne_true

end IsJoin

/-- Two cells of one face have a join, and it is the cell that is computed. -/
lemma exists_isJoin {a b : CellId} (ha : a.isValid = true) (hb : b.isValid = true)
    (hface : a.face = b.face) : ∃ c, a.commonAncestor? b = some c ∧ c.IsJoin a b := by
  obtain ⟨h, n, ha⟩ := isValid_iff_exists_at.1 ha
  obtain ⟨h', n', hb⟩ := isValid_iff_exists_at.1 hb
  obtain ⟨c, hsome, ⟨H, N, hc⟩, ⟨hca, hcb⟩, hleast⟩ := exists_commonAncestor? ha hb hface
  refine ⟨c, hsome, hc.isValid, (hc.contains_iff_holds ha).2 hca, (hc.contains_iff_holds hb).2 hcb,
    fun d hvalid hda hdb => ?_, fun hab hba => ?_⟩
  · obtain ⟨H', N', hd⟩ := isValid_iff_exists_at.1 hvalid
    rw [hd.contains_iff_holds ha] at hda
    rw [hd.contains_iff_holds hb] at hdb
    rw [hd.contains_iff_holds hc]
    exact hleast d ⟨H', N', hd⟩ hda hdb
  · rw [← Bool.not_eq_true, ha.contains_iff_holds hb] at hab
    rw [← Bool.not_eq_true, hb.contains_iff_holds ha] at hba
    have hne : a ≠ c := fun heq => hab (heq ▸ hcb)
    have hne' : b ≠ c := fun heq => hba (heq ▸ hca)
    obtain ⟨hpos, k, hk, hka⟩ := hc.exists_child ha hca hne
    obtain ⟨-, l, hl, hlb⟩ := hc.exists_child hb hcb hne'
    obtain ⟨H', rfl⟩ : ∃ H', H = H' + 1 := ⟨H - 1, by omega⟩
    refine ⟨hc.isLeaf_eq_false, k, hk, l, hl, ?_, ((hc.child hk).contains_iff_holds ha).2 hka,
      ((hc.child hl).contains_iff_holds hb).2 hlb⟩
    -- A quarter with both of them in it would hold the whole cell.
    rintro rfl
    have hchild := hc.child hk
    have hle := hchild.height_le_of_holds hc (hleast _ ⟨_, _, hchild⟩ hka hlb)
    omega

/-- **Common ancestors are least upper bounds.**  Two cells of one face have one, and only these do.
It is the join of both, whatever their order, and the larger of them if it contains the other. -/
theorem commonAncestor?_isJoin {a b : CellId} (ha : a.isValid = true) (hb : b.isValid = true) :
    (a.commonAncestor? b = none ↔ a.face ≠ b.face) ∧
      (a.face = b.face → ∃ c, a.commonAncestor? b = some c ∧ c.IsJoin a b) ∧
      a.commonAncestor? b = b.commonAncestor? a ∧
      (a.contains b = true → a.commonAncestor? b = some a) := by
  have hnone : ∀ a b : CellId, a.face ≠ b.face → a.commonAncestor? b = none :=
    fun a b hface => if_pos hface
  have hjoin := fun hface => exists_isJoin ha hb hface
  refine ⟨⟨?_, hnone a b⟩, hjoin, ?_, fun hab => ?_⟩
  · rintro hnot hface
    obtain ⟨c, hsome, -⟩ := hjoin hface
    rw [hsome] at hnot
    exact absurd hnot (Option.some_ne_none c)
  · by_cases hface : a.face = b.face
    · obtain ⟨c, hsome, hc⟩ := hjoin hface
      obtain ⟨d, hsome', hd⟩ := exists_isJoin hb ha hface.symm
      rw [hsome, hsome', hc.eq hd.symm]
    · rw [hnone a b hface, hnone b a (Ne.symm hface)]
  · have hface : a.face = b.face := by
      obtain ⟨h, n, ha⟩ := isValid_iff_exists_at.1 ha
      obtain ⟨h', n', hb⟩ := isValid_iff_exists_at.1 hb
      exact ha.face_eq_of_holds hb ((ha.contains_iff_holds hb).1 hab)
    obtain ⟨c, hsome, hc⟩ := hjoin hface
    rw [hsome, hc.eq (.of_contains ha hab)]

/-- Two cells of different levels with the same first step. -/
theorem commonAncestor?_isJoin_parted :
    let a := ((ofFace 2).child 3).child 0
    let b := (((ofFace 2).child 3).child 2).child 1
    (a.isValid = true ∧ b.isValid = true) ∧
      a.commonAncestor? b = some ((ofFace 2).child 3) ∧ ((ofFace 2).child 3).IsJoin a b := by
  have ha : (((ofFace 2).child 3).child 0).isValid = true := by decide
  have hb : ((((ofFace 2).child 3).child 2).child 1).isValid = true := by decide
  obtain ⟨-, hjoin, -⟩ := commonAncestor?_isJoin ha hb
  obtain ⟨c, hsome, hc⟩ := hjoin (by decide)
  have heq : (((ofFace 2).child 3).child 0).commonAncestor?
      ((((ofFace 2).child 3).child 2).child 1) = some ((ofFace 2).child 3) := by decide
  obtain rfl := Option.some.inj (hsome.symm.trans heq)
  exact ⟨⟨ha, hb⟩, heq, hc⟩

end CellId

end SphereSearch
