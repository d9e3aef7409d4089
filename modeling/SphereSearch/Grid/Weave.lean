import SphereSearch.Grid.CellId

/-!
# Weaving in words

The digits of two grid steps are interleaved in a word without a look at single digits.  The upper
half of the digits is moved away from the lower one, then the upper half of each half, and so on down
to single digits, five times in all; a mask clears what each move leaves behind.  Moving the blocks
together again, the smallest first, takes the digits apart.
-/

namespace SphereSearch.CellId

/-- By how many places the upper half of each block is moved away, and the places of the digits after
that. -/
def spreadSteps : List (UInt64 × UInt64) :=
  [(16, 0x0000FFFF0000FFFF), (8, 0x00FF00FF00FF00FF), (4, 0x0F0F0F0F0F0F0F0F),
    (2, 0x3333333333333333), (1, 0x5555555555555555)]

/-- By how many places the upper half of each block is moved back, and the places of the digits after
that. -/
def gatherSteps : List (UInt64 × UInt64) :=
  [(1, 0x3333333333333333), (2, 0x0F0F0F0F0F0F0F0F), (4, 0x00FF00FF00FF00FF),
    (8, 0x0000FFFF0000FFFF), (16, 0x00000000FFFFFFFF)]

/-- Moves each of the last 32 digits to twice its place. -/
def spread (x : UInt64) : UInt64 :=
  spreadSteps.foldl (fun x step => (x ||| x <<< step.1) &&& step.2) (x &&& 0xFFFFFFFF)

/-- Moves each digit at an even place to half its place. -/
def gather (x : UInt64) : UInt64 :=
  gatherSteps.foldl (fun x step => (x ||| x >>> step.1) &&& step.2) (x &&& 0x5555555555555555)

/-- The leaf at a grid step of a face, woven in a word. -/
def weave (face i j : Nat) : CellId :=
  ⟨(face.toUInt64 <<< 61) ||| (((spread i.toUInt64 <<< 1) ||| spread j.toUInt64) <<< 1) ||| 1⟩

/-- The square of a cell, with the grid steps taken out of the first leaf of the cell. -/
def unweave (id : CellId) : Square :=
  let position := (id.rangeMin.raw &&& 0x1FFFFFFFFFFFFFFF) >>> 1
  { face := id.face
    i := (gather (position >>> 1)).toNat
    j := (gather position).toNat
    size := 2 ^ id.height }

end SphereSearch.CellId
