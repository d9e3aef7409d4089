import SphereSearch.Number.Positional
import SphereSearch.Number.Word
import SphereSearch.Sphere.Point

/-!
# Chords: distances on the sphere

A distance between points of the unit sphere is kept as the square of the length of the
straight chord between them.  This is cheap to compute and grows with the angle: `0` is no
distance, `2` a right angle, `4` the distance between opposite points.  Two values lie
outside that range: `negative` is below every distance and `infinity` above every one.  There
are no others: a `Chord` carries the proof of it (`Chord.InRange`).

Chords are compared by `Binary64.orderKey`, so their order is total.  `successor` and
`predecessor` step through that order, which turns a limit that excludes a distance into
one that admits it.
-/

namespace SphereSearch

/-- Whether a double can stand for a chord: it is a number from zero to four without a sign, or
one of the two special values. -/
def Chord.InRange (len2 : Float) : Prop :=
  len2.toBits ≤ (4.0 : Float).toBits ∨ len2 = -1.0 ∨ len2 = Binary64.infinity

instance : DecidablePred Chord.InRange := fun _ => inferInstanceAs (Decidable (_ ∨ _ ∨ _))

/-- A distance on the unit sphere, or one of the two values outside its range. -/
structure Chord where
  /-- The square of the chord's length. -/
  len2 : Float
  /-- It is a distance or a special value. -/
  inRange : Chord.InRange len2
deriving DecidableEq

namespace Chord

/-- No distance at all. -/
def zero : Chord := ⟨0.0, by decide⟩

/-- The distance of a right angle. -/
def right : Chord := ⟨2.0, by decide⟩

/-- The greatest distance on the sphere. -/
def straight : Chord := ⟨4.0, by decide⟩

/-- A value above every distance. -/
def infinity : Chord := ⟨Binary64.infinity, by decide⟩

/-- A value below every distance. -/
def negative : Chord := ⟨-1.0, by decide⟩

instance : Inhabited Chord := ⟨zero⟩

/-! ## Order -/

/-- The place of a chord in the total order. -/
def orderKey (c : Chord) : UInt64 := Binary64.orderKey c.len2

instance : LT Chord := ⟨fun c d => c.orderKey < d.orderKey⟩
instance : LE Chord := ⟨fun c d => c.orderKey ≤ d.orderKey⟩
instance (c d : Chord) : Decidable (c < d) := inferInstanceAs (Decidable (c.orderKey < d.orderKey))
instance (c d : Chord) : Decidable (c ≤ d) := inferInstanceAs (Decidable (c.orderKey ≤ d.orderKey))
instance : Ord Chord := ⟨fun c d => compare c.orderKey d.orderKey⟩
instance : Max Chord := maxOfLe
instance : Min Chord := minOfLe

/-- Whether this is no distance at all. -/
def isZero (c : Chord) : Bool := c.len2 == 0.0

/-- Whether this value is below every distance. -/
def isNegative (c : Chord) : Bool := c.len2 < 0.0

/-- Whether this value is above every distance. -/
def isInfinite (c : Chord) : Bool := c.len2 == Binary64.infinity

/-- Whether this value is not the distance of two points. -/
def isSpecial (c : Chord) : Bool := c.isNegative || c.isInfinite

/-! ## Construction -/

theorem toNat_toBits_four : (4.0 : Float).toBits.toNat = 0x4010000000000000 := by decide

theorem inRange_minNum {len2 : Float} (hneg : ¬ len2 < 0.0) (hzero : ¬ len2 == 0.0) :
    InRange (Binary64.minNum len2 4.0) := by
  left
  unfold Binary64.minNum
  split
  · rename_i h
    have hlt : len2 < 4.0 := by
      rwa [show (4.0 : Float).isNaN = false by decide, Bool.or_false, decide_eq_true_iff] at h
    have hle := Binary64.toBits_le_of_not_lt_zero hneg hzero hlt
    rw [Binary64.lt_iff_toBits hle (by decide)] at hlt
    rw [UInt64.le_iff_toNat_le]
    omega
  · exact Nat.le_refl _

/-- The chord with the given squared length.  Everything below zero becomes `negative`, and
everything above four becomes `straight`, which is the answer for a NaN too. -/
def ofLen2 (len2 : Float) : Chord :=
  if hneg : len2 < 0.0 then negative
  else if hzero : len2 == 0.0 then zero
  else ⟨Binary64.minNum len2 4.0, inRange_minNum hneg hzero⟩

/-- The chord of an angle in radians; angles above `π` count as `π`, but an infinite angle
gives `infinity`. -/
def ofRadians (angle : Float) : Chord :=
  if angle < 0.0 then negative
  else if angle.isInf then infinity
  else
    let length := 2.0 * (0.5 * Binary64.minNum angle Binary64.pi).sin
    ofLen2 (length * length)

/-- The chord of an angle in degrees. -/
def ofDegrees (angle : Float) : Chord := ofRadians (Binary64.toRadians angle)

/-- The chord between two points. -/
def between (p q : Point) : Chord := ofLen2 (p.chord2 q)

/-- The angle in radians; `-1` and infinity for the two special values. -/
def radians (c : Chord) : Float :=
  if c.isNegative then -1.0
  else if c.isInfinite then Binary64.infinity
  else 2.0 * (0.5 * c.len2.sqrt).asin

/-- The angle in degrees. -/
def degrees (c : Chord) : Float := Binary64.toDegrees c.radians

/-- The distance for a reader: its angle in degrees. -/
def text (c : Chord) : String := Decimal.text c.degrees ++ "°"

/-! ## Neighbours -/

theorem inRange_nextUp {c : Chord} (hge : ¬ c.len2 ≥ 4.0) (hneg : ¬ c.len2 < 0.0) :
    InRange (Binary64.nextUp c.len2) := by
  rcases c.inRange with h | h | h
  · left
    have hfour := toNat_toBits_four
    rw [UInt64.le_iff_toNat_le] at h ⊢
    have hlt : c.len2.toBits.toNat < (4.0 : Float).toBits.toNat := by
      refine Nat.lt_of_le_of_ne h fun heq => hge ?_
      rw [Binary64.eq_of_toBits (UInt64.toNat_inj.1 heq)]
      decide
    have hnext : (c.len2.toBits + 1).toNat = c.len2.toBits.toNat + 1 := by
      rw [UInt64.toNat_add, Nat.mod_eq_of_lt]
      · rfl
      · rw [hfour] at hlt
        show _ + 1 < _
        omega
    rw [Binary64.nextUp, Binary64.toNat_toBits_ofBits, hnext]
    · exact hlt
    · rw [hnext, Binary64.infinityWord]
      omega
  · exact absurd (by rw [h]; decide) hneg
  · exact absurd (by rw [h]; decide) hge

/-- The next value of the order: after `straight` comes `infinity`, and `zero` follows
`negative`. -/
def successor (c : Chord) : Chord :=
  if hge : c.len2 ≥ 4.0 then infinity
  else if hneg : c.len2 < 0.0 then zero
  else ⟨Binary64.nextUp c.len2, inRange_nextUp hge hneg⟩

/-- The value just before: `straight` for `infinity`, `negative` for `zero`. -/
def predecessor (c : Chord) : Chord :=
  if c.len2 ≤ 0.0 then negative
  else if c.len2 > 4.0 then straight
  else ofLen2 (Binary64.nextDown c.len2)

/-! ## Arithmetic -/

/-- Adds `error` to the squared length; the result is a distance again.  Special values stay
as they are. -/
def widen (c : Chord) (error : Float) : Chord :=
  if c.isSpecial then c else ofLen2 (Binary64.maxNum (c.len2 + error) 0.0)

/-- A bound on the error of the squared length of a chord between two points: both may miss
unit length by a few units in the last place, and the subtraction rounds. -/
def pointError (c : Chord) : Float :=
  4.5 * Binary64.epsilon * c.len2 + 16.0 * Binary64.epsilon * Binary64.epsilon

/-- The sum of two angles, at most `straight`.  With squared chords `a` and `b` it is
`x + y + 2 √(x y)` for `x = a (1 - b / 4)` and `y = b (1 - a / 4)`.  A left operand that is
special, and a right one that is no positive distance, change nothing. -/
def add (c d : Chord) : Chord :=
  if d.len2 ≤ 0.0 || c.isSpecial then c
  else if c.len2 + d.len2 ≥ 4.0 then straight
  else
    let x := c.len2 * (1.0 - 0.25 * d.len2)
    let y := d.len2 * (1.0 - 0.25 * c.len2)
    ofLen2 (x + y + 2.0 * (x * y).sqrt)

/-- The difference of two angles, at least `zero`, by the same formula with the root
subtracted. -/
def sub (c d : Chord) : Chord :=
  if d.len2 ≤ 0.0 || c.isSpecial then c
  else if c.len2 ≤ d.len2 then zero
  else
    let x := c.len2 * (1.0 - 0.25 * d.len2)
    let y := d.len2 * (1.0 - 0.25 * c.len2)
    ofLen2 (Binary64.maxNum (x + y - 2.0 * (x * y).sqrt) 0.0)

instance : Add Chord := ⟨add⟩
instance : Sub Chord := ⟨sub⟩

end Chord

/-! ## Tests against a running minimum -/

/-- A test against a running minimum.  Given the least distance so far it returns a smaller
one, or `none` if what it measures is not closer. -/
abbrev Closer := Chord → Option Chord

namespace Closer

/-- Runs the tests in turn, each against the least distance that those before it left.  The
answer is the last improvement, if there was any. -/
def chain (tests : List Closer) : Closer := fun least =>
  tests.foldl (fun found test => (test (found.getD least)).or found) none

/-- The distance that a test measures: what it returns when nothing has been found yet. -/
def distance (test : Closer) : Chord := (test Chord.infinity).getD Chord.infinity

/-- The test for a distance that is known already. -/
def ofChord (d : Chord) : Closer := fun least => if d < least then some d else none

end Closer

end SphereSearch
