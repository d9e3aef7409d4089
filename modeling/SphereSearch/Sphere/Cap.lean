import SphereSearch.Sphere.Edge

/-!
# Caps

A cap is the part of the sphere within a distance of its centre.  A negative radius makes it
empty, and the radius `straight` makes it the whole sphere.  Distances to a cap are lower
bounds: the distance to the centre less the radius.
-/

namespace SphereSearch

/-- The points within `radius` of `center`. -/
structure Cap where
  /-- The centre. -/
  center : Point
  /-- The distance up to which points belong to the cap. -/
  radius : Chord

namespace Cap

/-- No point at all. -/
def empty : Cap := ⟨Point.north, Chord.negative⟩

/-- The whole sphere. -/
def full : Cap := ⟨Point.north, Chord.straight⟩

/-- A single point. -/
def ofPoint (p : Point) : Cap := ⟨p, Chord.zero⟩

/-- Whether no point belongs to the cap. -/
def isEmpty (c : Cap) : Bool := c.radius.isNegative

/-- Whether `p` belongs to the cap. -/
def contains (c : Cap) (p : Point) : Bool := Chord.between c.center p ≤ c.radius

/-- Whether two caps have numerically equal centres and the same radius. -/
def same (c d : Cap) : Bool := c.center.same d.center && c.radius = d.radius

/-- The cap grown to hold `p`.  The centre stays, unless the cap was empty. -/
def addPoint (c : Cap) (p : Point) : Cap :=
  if c.isEmpty then ofPoint p
  else ⟨c.center, max c.radius (Chord.between c.center p)⟩

/-- A distance, reduced by the radius of a cap that it ends at; nothing is near an empty
cap. -/
def reduce (c : Cap) (toCenter : Chord) : Chord :=
  if c.isEmpty then Chord.infinity else toCenter - c.radius

/-- A lower bound on the distance from `p` to the cap. -/
def distanceToPoint (c : Cap) (p : Point) : Chord := c.reduce (Chord.between c.center p)

/-- A lower bound on the distance from an edge to the cap. -/
def distanceToEdge (c : Cap) (e : Edge) : Chord := c.reduce (e.distance c.center)

/-- A lower bound on the distance between two caps. -/
def distanceToCap (c d : Cap) : Chord :=
  if d.isEmpty then Chord.infinity
  else c.reduce (Chord.between c.center d.center) - d.radius

end Cap

end SphereSearch
