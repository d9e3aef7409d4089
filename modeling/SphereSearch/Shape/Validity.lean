import SphereSearch.Number.Positional
import SphereSearch.Sphere.Point

/-!
# Faults of geometry

What can be wrong with the points of a shape, and the words for it.
-/

namespace SphereSearch

/-- Why a shape was refused. -/
inductive GeometryError where
  /-- A point is not on the unit sphere. -/
  | notUnitLength (point : Point)
  /-- The loop at this position has too few vertices. -/
  | loopTooShort (index length : Nat)
  /-- Around no vertex can the inside of the polygon be told from the outside. -/
  | noInteriorWedge
deriving DecidableEq

namespace GeometryError

/-- The fault in words. -/
def message : GeometryError → String
  | notUnitLength p =>
    "point (" ++ Decimal.text p.x ++ ", " ++ Decimal.text p.y ++ ", " ++ Decimal.text p.z ++
      ") is not unit length"
  | loopTooShort index length =>
    "loop " ++ toString index ++ " has " ++ toString length ++
      " vertices, at least 3 are required"
  | noInteriorWedge =>
    "degenerate geometry: no polygon vertex has a well-defined interior wedge"

end GeometryError

/-- The fault of the first point that is not on the unit sphere. -/
def unitLengthFault? (points : Array Point) : Option GeometryError :=
  (points.find? fun p => !p.isUnit).map .notUnitLength

end SphereSearch
