import SphereSearch.Proofs.Grid.Place
import SphereSearch.Proofs.Number.Rounding

/-!
# The leaf of a point

A coordinate is cut to the steps of a face before it is rounded down, so that its step is below
the size of the grid whatever the coordinate is (`Cube.gridStep_lt`).  So every triple of numbers
has a leaf on one of the faces (`CellId.exists_at_ofPoint`).
-/

open Float.Model Float.Model.UnpackedFloat

namespace SphereSearch

namespace Binary64

/-! ### Rounding down to a step -/

/-- The greatest number of a step, as it stands in a word. -/
lemma unpack_lastStep :
    (1073741823.0 : Float).toModel.unpack =
      .finite .positive 9007199246352384 (-23) (by decide) := by
  show UnpackedFloat.unpack Format.binary64 (1073741823.0 : Float).toBits.toBitVec = _
  rw [show (1073741823.0 : Float).toBits = 0x41CFFFFFFF800000 by decide, unpack_eq_ofFields]
  rfl

/-- A positive number with an exponent that is not positive is rounded down to an integer. -/
lemma roundToInt_positive {m k : ℕ} :
    roundToInt .positive m (-(k : ℤ)) = (m / 2 ^ k : ℕ) := by
  have hzero : ((-(k : ℤ)) - 0).toNat = 0 := by omega
  have hshift : ((0 : ℤ) - (-(k : ℤ) - ((0 : ℕ) : ℤ))).toNat = k := by omega
  simp only [roundToInt, decreaseExponent, shiftToExponent]
  rw [hzero, hshift, Nat.shiftLeft_zero, mantissa_shiftRight]
  rfl

/-- The significand of a finite number fits 53 bits. -/
lemma lt_of_unpack_eq_finite {x : Float} {s : Sign} {m : ℕ} {e : ℤ} {h : 0 < m}
    (hx : x.toModel.unpack = .finite s m e h) : m < 2 ^ 53 := by
  have hword : x.toModel.unpack = ofFields (signOf x.toBits.toNat)
      (x.toBits.toNat / 2 ^ 52 % 2 ^ 11) (x.toBits.toNat % 2 ^ 52) := unpack_eq_ofFields _
  rw [hx] at hword
  by_cases hexponent : x.toBits.toNat / 2 ^ 52 % 2 ^ 11 = 2047
  · by_cases hfraction : x.toBits.toNat % 2 ^ 52 = 0
    · rw [ofFields, if_pos hexponent, if_pos hfraction] at hword
      cases hword
    · rw [ofFields, if_pos hexponent, if_neg hfraction] at hword
      cases hword
  · by_cases hzero : significand (x.toBits.toNat / 2 ^ 52 % 2 ^ 11) (x.toBits.toNat % 2 ^ 52) = 0
    · rw [ofFields, if_neg hexponent, dif_pos hzero] at hword
      cases hword
    · rw [ofFields, if_neg hexponent, dif_neg hzero] at hword
      injection hword with _ hm
      rw [hm]
      exact significand_lt (Nat.mod_lt _ (by decide))

/-- A number that is neither below zero nor above the last step is rounded down to a step. -/
lemma toUInt32_lt {x : Float} (hzero : ¬ x < 0.0) (hlast : ¬ (1073741823.0 : Float) < x) :
    x.toUInt32.toNat < 2 ^ 30 := by
  show x.toModel.unpack.toUInt32.toNat < 2 ^ 30
  rw [not_lt_zero_iff] at hzero
  rw [lt_iff_compare, unpack_lastStep] at hlast
  cases hx : x.toModel.unpack with
  | notANumber => decide
  | zero s => exact (by decide : (UInt32.ofNatClamp 0).toNat < 2 ^ 30)
  | infinity s =>
    rw [hx] at hzero hlast
    obtain rfl : s = .positive := hzero
    exact absurd rfl hlast
  | finite s m e h =>
    have hm := lt_of_unpack_eq_finite hx
    rw [hx] at hzero hlast
    obtain rfl : s = .positive := hzero
    have hexp : e ≤ -23 := by
      by_contra hgt
      refine hlast ?_
      show some ((compare (-23) e).then (compare 9007199246352384 m)) = some .lt
      rw [show compare (-23) e = .lt from Int.compare_eq_lt.2 (not_le.1 hgt)]
      rfl
    obtain ⟨k, rfl⟩ : ∃ k : ℕ, e = -(k : ℤ) := ⟨(-e).toNat, by omega⟩
    have hle : m / 2 ^ k < 2 ^ 30 := by
      rw [Nat.div_lt_iff_lt_mul (Nat.two_pow_pos k)]
      calc m < 2 ^ 30 * 2 ^ 23 := hm
        _ ≤ 2 ^ 30 * 2 ^ k := Nat.mul_le_mul_left _ (Nat.pow_le_pow_right (by decide) (by omega))
    show (UInt32.ofNatClamp (roundToInt .positive m (-(k : ℤ))).toNat).toNat < 2 ^ 30
    rw [roundToInt_positive, Int.toNat_natCast, UInt32.ofNatClamp,
      dif_pos (hle.trans (by decide)), UInt32.toNat_ofNatLT]
    exact hle

end Binary64

namespace Cube

/-- Every coordinate has a step of the grid. -/
lemma gridStep_lt (coordinate : Float) : gridStep coordinate < gridSize := by
  simp only [gridStep, Binary64.clamp]
  split
  · decide
  · rename_i hzero
    split
    · decide
    · rename_i hlast
      exact Binary64.toUInt32_lt hzero hlast

lemma face_project_lt (p : Point) : (project p).face < CellId.faceCount := by
  simp only [project]
  split_ifs <;> exact Nat.le_of_ble_eq_true rfl

end Cube

namespace CellId

/-- Interleaving steps below a power of two gives a number below its square. -/
lemma interleave_lt {n m i j : ℕ} (hi : i < 2 ^ m) (hj : j < 2 ^ m) :
    interleave n i j < 4 ^ m := by
  induction n generalizing m i j with
  | zero => exact Nat.pow_pos (by decide)
  | succ n ih =>
    simp only [interleave]
    cases m with
    | zero =>
      have hzero := ih (show i / 2 < 2 ^ 0 by omega) (show j / 2 < 2 ^ 0 by omega)
      omega
    | succ m =>
      have hquarter := ih (show i / 2 < 2 ^ m by omega) (show j / 2 < 2 ^ m by omega)
      rw [Nat.pow_succ]
      omega

/-- The word of a leaf: the face, the interleaved steps and the marker. -/
lemma At.ofGrid {face i j : ℕ} (hface : face < faceCount) (hi : i < Cube.gridSize)
    (hj : j < Cube.gridSize) :
    (CellId.ofGrid face i j).At 0 (face * 4 ^ maxLevel + interleave 32 i j) where
  toNat_eq := by
    have hlt : interleave 32 i j < 2 ^ 60 := interleave_lt (m := 30) hi hj
    simp only [faceCount] at hface
    have hsteps : ((interleave 32 i j).toUInt64 <<< 1).toNat = 2 * interleave 32 i j := by
      rw [UInt64.toNat_shiftLeft, Nat.toUInt64, UInt64.toNat_ofNat', Nat.shiftLeft_eq]
      show interleave 32 i j % 2 ^ 64 * 2 ^ 1 % 2 ^ 64 = _
      omega
    have hhigh : (face.toUInt64 <<< 61).toNat = face <<< 61 := by
      rw [UInt64.toNat_shiftLeft, Nat.toUInt64, UInt64.toNat_ofNat', Nat.shiftLeft_eq,
        Nat.shiftLeft_eq]
      show face % 2 ^ 64 * 2 ^ 61 % 2 ^ 64 = _
      omega
    show (face.toUInt64 <<< 61 ||| (interleave 32 i j).toUInt64 <<< 1 ||| 1).toNat = _
    rw [UInt64.toNat_or, UInt64.toNat_or, hsteps, hhigh, Nat.or_assoc]
    have hodd : 2 * interleave 32 i j ||| (1 : UInt64).toNat = 2 * interleave 32 i j + 1 := by
      have hshift : 2 * interleave 32 i j = interleave 32 i j <<< 1 := by
        rw [Nat.shiftLeft_eq, Nat.mul_comm]
      rw [hshift, Nat.shiftLeft_add_eq_or_of_lt (by decide)]
      rfl
    rw [hodd, ← Nat.shiftLeft_add_eq_or_of_lt (by omega), Nat.shiftLeft_eq]
    simp only [maxLevel]
    omega
  height_le := Nat.zero_le _
  number_lt := by
    have hlt : interleave 32 i j < 4 ^ 30 := interleave_lt (m := 30) hi hj
    simp only [faceCount, maxLevel] at *
    omega

/-- **Every point has a leaf** on one of the faces. -/
theorem exists_at_ofPoint (p : Point) : ∃ n, (CellId.ofPoint p).At 0 n :=
  ⟨_, .ofGrid (Cube.face_project_lt p) (Cube.gridStep_lt _) (Cube.gridStep_lt _)⟩

end CellId

end SphereSearch
