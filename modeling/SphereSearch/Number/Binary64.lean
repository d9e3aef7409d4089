/-!
# Double-precision numbers as an ordered set of bit patterns

Distances are compared, stepped and bounded as doubles.  This file fixes what the rest of
the library means by that: the total order on bit patterns (`orderKey`), the neighbouring
doubles of a number without a sign (`nextUp`, `nextDown`), the minimum and maximum that let
a number win over a NaN (`minNum`, `maxNum`), and the constants that convert between
degrees and radians.  No operation here rounds anything but the conversions.
-/

-- Powers of natural numbers are computed by the core library in every file, also where algebra
-- offers another instance.
attribute [instance (high), default_instance (high + 1)] instPowNat

namespace SphereSearch.Binary64

/-- The distance from `1` to the next double, `2 ^ (-52)`. -/
def epsilon : Float := Float.ofBits 0x3CB0000000000000

/-- Positive infinity. -/
def infinity : Float := Float.ofBits 0x7FF0000000000000

/-- The double nearest to `π`. -/
def pi : Float := 3.141592653589793

/-- The double nearest to `π / 180`. -/
def radiansPerDegree : Float := 0.017453292519943295

/-- The double nearest to `180 / π`. -/
def degreesPerRadian : Float := 57.29577951308232

/-- An angle given in degrees, in radians. -/
def toRadians (degrees : Float) : Float := degrees * radiansPerDegree

/-- An angle given in radians, in degrees. -/
def toDegrees (radians : Float) : Float := radians * degreesPerRadian

/-! ## Order -/

/-- The place of a double in the total order of bit patterns: negative numbers come first,
by falling magnitude, then the positive ones by rising magnitude.  `-0` is just below `0`,
and each NaN has a place at its end of the line. -/
def orderKey (x : Float) : UInt64 :=
  if x.toBits < 0x8000000000000000 then x.toBits + 0x8000000000000000 else ~~~ x.toBits

/-- The least double above `x`, for a finite `x` without a sign. -/
def nextUp (x : Float) : Float := Float.ofBits (x.toBits + 1)

/-- The greatest double below `x`, for an `x > 0`. -/
def nextDown (x : Float) : Float := Float.ofBits (x.toBits - 1)

/-- The smaller of two numbers; a NaN gives way to the other argument. -/
def minNum (x y : Float) : Float := if x < y || y.isNaN then x else y

/-- The larger of two numbers; a NaN gives way to the other argument. -/
def maxNum (x y : Float) : Float := if y < x || y.isNaN then x else y

/-- The number of the interval from `lo` to `hi` that is closest to `x`; a NaN stays. -/
def clamp (lo hi x : Float) : Float := if x < lo then lo else if hi < x then hi else x

/-- The length of the vector `(x, y)`.  Both are divided by the larger one first, so that no
square overflows or vanishes.  An infinite side is infinitely long, whatever the other is. -/
def hypot (x y : Float) : Float :=
  let m := maxNum x.abs y.abs
  if m == infinity then m
  else if m == 0.0 then x.abs + y.abs
  else m * ((x / m) * (x / m) + (y / m) * (y / m)).sqrt

end SphereSearch.Binary64
