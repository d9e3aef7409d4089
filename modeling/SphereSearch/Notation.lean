import SphereSearch.Number.Reading
import SphereSearch.Search.Query
import SphereSearch.Text.Blank
import SphereSearch.Text.Quoted

/-!
# A notation for shapes

Shapes can be written down.  A point is a latitude and a longitude in degrees with a colon
between them; points are separated by commas; the loops of a polygon by semicolons; several
shapes of one kind by bars.  An index has three sections, points, polylines and polygons, with
a `#` between them:

    1:1 | 2:2 # 0:0, 0:5 # 0:0, 0:5, 5:5 | full

All points together form one shape.  Items that are blank are skipped, and blanks around
anything are ignored.  The words `empty` and `full` stand for the polygons without loops.
-/

namespace SphereSearch

/-- Why a text denotes no shapes. -/
inductive NotationError where
  /-- This is not a latitude and a longitude. -/
  | invalidLatLng (text : List Char)
  /-- The text has so many sections, and not three. -/
  | sectionCount (count : Nat)
  /-- The points do not make a shape. -/
  | geometry (fault : GeometryError)
deriving DecidableEq

/-- The reason in words. -/
def NotationError.message : NotationError → String
  | invalidLatLng text => "invalid lat:lng pair " ++ Text.quoted text
  | sectionCount count =>
    "expected 3 '#'-separated sections in index description, got " ++ toString count
  | geometry fault => fault.message

namespace Notation

open Text

/-- Reports a fault of geometry as a fault of the text. -/
def checked {α : Type} (result : Except GeometryError α) : Except NotationError α :=
  result.mapError .geometry

/-- The point at a latitude and longitude. -/
def point (text : List Char) : Except NotationError Point :=
  let trimmed := trim text
  let coordinates? : Option (Float × Float) := do
    let (lat, lng) ← cut? ':' trimmed
    return (← Decimal.read? (trim lat), ← Decimal.read? (trim lng))
  match coordinates? with
  | some (lat, lng) => .ok (Point.ofLatLng lat lng)
  | none => .error (.invalidLatLng trimmed)

/-- Points separated by commas; a blank text has none. -/
def points (text : List Char) : Except NotationError (List Point) :=
  if (trim text).isEmpty then .ok [] else (pieces ',' text).mapM point

/-- A polygon: one of two words, or loops separated by semicolons. -/
def polygon (text : List Char) : Except NotationError Polygon :=
  let trimmed := trim text
  if trimmed = "empty".toList then .ok Polygon.empty
  else if trimmed = "full".toList then .ok Polygon.full
  else do
    let loops ← (pieces ';' trimmed).mapM points
    checked (Polygon.ofLoops (loops.map List.toArray))

/-- The items of a section: its pieces between bars that are not blank. -/
def items (section_ : List Char) : List (List Char) :=
  ((pieces '|' section_).map trim).filter fun item => !item.isEmpty

/-- The shape of all points of a section, if it has any. -/
def pointShapes (section_ : List Char) : Except NotationError (List Shape) := do
  let groups ← (items section_).mapM points
  let all := groups.flatten
  if all.isEmpty then return []
  else return [← checked (Shape.ofPoints all.toArray)]

/-- The polyline that an item denotes. -/
def polyline (item : List Char) : Except NotationError Shape := do
  let vertices ← points item
  checked (Shape.ofVertices vertices.toArray)

/-- The shapes of an index.  Faults are reported in the order of the sections: first those of
points as text, then those of points off the sphere, then polylines and polygons in turn. -/
def shapes (text : List Char) : Except NotationError (List Shape) :=
  match pieces '#' text with
  | [pointSection, polylineSection, polygonSection] => do
    let pointShapes ← pointShapes pointSection
    let polylines ← (items polylineSection).mapM polyline
    let polygons ← (items polygonSection).mapM polygon
    return pointShapes ++ polylines ++ polygons.map .polygon
  | sections => .error (.sectionCount sections.length)

/-- The index that a text denotes, with default settings. -/
def index (text : List Char) : Except NotationError Index := do
  return Index.build (← shapes text) Index.Settings.default

end Notation

end SphereSearch
