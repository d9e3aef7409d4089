import SphereSearch.Number.Binary64

/-!
# Points and vectors

A point of the unit sphere is a vector of three doubles.  Every operation rounds after each
single step, in the order written here; sums of three products associate to the left.
Nothing forces a `Point` to have length one: `Point.IsUnit` is checked where geometry is
accepted.
-/

namespace SphereSearch

/-- A vector with double-precision coordinates; as a point, one of the unit sphere. -/
structure Point where
  /-- The axis through latitude and longitude zero. -/
  x : Float
  /-- The axis through longitude 90° on the equator. -/
  y : Float
  /-- The axis through the north pole. -/
  z : Float
deriving DecidableEq

namespace Point

/-- The centre of the sphere. -/
def origin : Point := ⟨0.0, 0.0, 0.0⟩

/-- The north pole. -/
def north : Point := ⟨0.0, 0.0, 1.0⟩

instance : Add Point := ⟨fun p q => ⟨p.x + q.x, p.y + q.y, p.z + q.z⟩⟩
instance : Sub Point := ⟨fun p q => ⟨p.x - q.x, p.y - q.y, p.z - q.z⟩⟩
instance : Neg Point := ⟨fun p => ⟨-p.x, -p.y, -p.z⟩⟩

/-- Multiplies each coordinate by `s`. -/
def scale (p : Point) (s : Float) : Point := ⟨p.x * s, p.y * s, p.z * s⟩

/-- The scalar product. -/
def dot (p q : Point) : Float := p.x * q.x + p.y * q.y + p.z * q.z

/-- The vector product. -/
def cross (p q : Point) : Point :=
  ⟨p.y * q.z - p.z * q.y, p.z * q.x - p.x * q.z, p.x * q.y - p.y * q.x⟩

/-- The square of the length. -/
def norm2 (p : Point) : Float := p.dot p

/-- The length. -/
def norm (p : Point) : Float := p.norm2.sqrt

/-- The vector of length one in the same direction. -/
def normalize (p : Point) : Point :=
  let n := p.norm
  ⟨p.x / n, p.y / n, p.z / n⟩

/-- Whether the coordinates are equal as numbers: `0` and `-0` are, and a NaN is equal to
nothing. -/
def same (p q : Point) : Bool := p.x == q.x && p.y == q.y && p.z == q.z

/-- Whether the squared length differs from one by at most `1e-12`. -/
def isUnit (p : Point) : Bool := (p.norm2 - 1.0).abs ≤ 1e-12

/-- The square of the distance between two points, through the sphere. -/
def chord2 (p q : Point) : Float := (p - q).norm2

/-- The sum of a list of vectors, from the left. -/
def sum (ps : List Point) : Point := ps.foldl (· + ·) origin

/-- The direction half way between two points, unless they cancel. -/
def midpoint? (p q : Point) : Option Point :=
  let s := p + q
  if s.norm2 > 0.0 then some s.normalize else none

/-! ## Latitude and longitude -/

/-- The point at a latitude and longitude in degrees. -/
def ofLatLng (lat lng : Float) : Point :=
  let phi := Binary64.toRadians lat
  let theta := Binary64.toRadians lng
  ⟨phi.cos * theta.cos, phi.cos * theta.sin, phi.sin⟩

/-- The latitude in degrees, between -90 and 90. -/
def latitude (p : Point) : Float :=
  Binary64.toDegrees (Float.atan2 p.z (Binary64.hypot p.x p.y))

/-- The longitude in degrees, between -180 and 180. -/
def longitude (p : Point) : Float := Binary64.toDegrees (Float.atan2 p.y p.x)

/-! ## Great circles -/

/-- Which side of the great circle from `a` to `b` holds `c`: `1` for the left, `-1` for the
right, `0` on it (or where a coordinate is not a number). -/
def orientation (a b c : Point) : Int :=
  let det := (a.cross b).dot c
  if det > 0.0 then 1 else if det < 0.0 then -1 else 0

/-- A normal of the great circle through `a` and `b`, of about twice the length of the vector
product.  It stays accurate for points close together and for nearly opposite ones. -/
def circleNormal (a b : Point) : Point := (b + a).cross (b - a)

/-- The axis on which `p` is largest in magnitude; of equal ones, the last. -/
def largestAxis (p : Point) : Nat :=
  if p.x.abs > p.y.abs then (if p.x.abs > p.z.abs then 0 else 2)
  else if p.y.abs > p.z.abs then 1 else 2

/-- A unit vector at right angles to `p`.  The auxiliary vector has a one on the axis before
the largest axis of `p`, so that it is never parallel to `p`. -/
def perpendicular (p : Point) : Point :=
  let aux : Point := match p.largestAxis with
    | 0 => ⟨0.012, 0.0053, 1.0⟩
    | 1 => ⟨1.0, 0.0053, 0.00457⟩
    | _ => ⟨0.012, 1.0, 0.00457⟩
  (p.cross aux).normalize

/-- The angle between two vectors in radians. -/
def angle (a b : Point) : Float := Float.atan2 (a.cross b).norm (a.dot b)

/-- The point at distance `r` radians from `a` on the way to `b`. -/
def toward (a b : Point) (r : Float) : Point :=
  let tangent := ((circleNormal a b).cross a).normalize
  (a.scale r.cos + tangent.scale r.sin).normalize

/-- The point at the fraction `t` of the way from `a` to `b`. -/
def interpolate (a b : Point) (t : Float) : Point :=
  if t == 0.0 then a else if t == 1.0 then b else a.toward b (t * a.angle b)

end Point

end SphereSearch
