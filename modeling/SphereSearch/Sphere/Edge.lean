import SphereSearch.Sphere.Chord

/-!
# Edges and their distance to points

An edge is the shorter arc of a great circle between two points; its ends may coincide.
The distance of a point to an edge is measured to the interior of the arc when the nearest
point of the great circle lies there, and to the nearer end otherwise.

`Edge.closerPoint?` measures against a running minimum: it gives up as soon as the distance
is seen not to be smaller.
-/

namespace SphereSearch

/-- An arc of a great circle between two points. -/
structure Edge where
  /-- The point where the edge begins. -/
  start : Point
  /-- The point where it ends. -/
  stop : Point
deriving DecidableEq

namespace Edge

/-- The edge from a point to itself. -/
def degenerate (p : Point) : Edge := ⟨p, p⟩

/-- The edge in the other direction. -/
def reverse (e : Edge) : Edge := ⟨e.stop, e.start⟩

/-! ## Distance to a point -/

/-- The squared distance from `x` to the interior of the edge, when that is where the
nearest point lies and the distance is below `least`.  The arguments `toStart` and `toStop`
are the squared distances from `x` to the two ends: unless both angles at the ends are
acute, an end is nearest.  The distance to the plane of the edge bounds the distance to the
edge from below. -/
def interiorLen2? (e : Edge) (x : Point) (toStart toStop : Float) (least : Chord) :
    Option Float :=
  if Binary64.maxNum toStart toStop ≥
      Binary64.minNum toStart toStop + e.start.chord2 e.stop then none
  else
    let normal := Point.circleNormal e.start e.stop
    let normal2 := normal.norm2
    let height := x.dot normal
    let height2 := height * height
    let across := normal.cross x
    if normal2 == 0.0 then none
    else if height2 > normal2 * least.len2 then none
    else if e.start.dot across ≥ 0.0 || e.stop.dot across ≤ 0.0 then none
    else
      let inward := 1.0 - (across.norm2 / normal2).sqrt
      let len2 := height2 / normal2 + inward * inward
      if len2 ≥ least.len2 then none else some len2

/-- The distance from `x` to the edge, if it is below a given one. -/
def closerPoint? (e : Edge) (x : Point) : Closer := fun least =>
  let toStart := x.chord2 e.start
  let toStop := x.chord2 e.stop
  match e.interiorLen2? x toStart toStop least with
  | some len2 => some (Chord.ofLen2 len2)
  | none =>
    let len2 := Binary64.minNum toStart toStop
    if len2 ≥ least.len2 then none else some (Chord.ofLen2 len2)

/-- The distance from `x` to the edge. -/
def distance (e : Edge) (x : Point) : Chord := Closer.distance (e.closerPoint? x)

/-- The point of the edge closest to `x`.  The projection of `x` to the plane of the edge
counts if it falls between the ends; otherwise the nearer end does, the first one in a
tie. -/
def project (e : Edge) (x : Point) : Point :=
  let nearerEnd := if x.chord2 e.start ≤ x.chord2 e.stop then e.start else e.stop
  let normal := Point.circleNormal e.start e.stop
  let normal2 := normal.norm2
  if normal2 > 0.0 then
    let p := x - normal.scale (x.dot normal / normal2)
    if (normal.cross e.start).dot p > 0.0 && (p.cross e.stop).dot normal > 0.0 then p.normalize
    else nearerEnd
  else nearerEnd

end Edge

namespace Chord

/-- A bound on the error of a distance to the interior of an edge.  From a right angle on,
an end of the edge is always nearest and the bound is zero. -/
def interiorError (d : Chord) : Float :=
  if right ≤ d then 0.0
  else
    let root3 := (3.0 : Float).sqrt
    let b := Binary64.minNum (0.5 * d.len2) 1.0
    let a := (b * (2.0 - b)).sqrt
    ((2.5 + 2.0 * root3 + 8.5 * a) * a +
      (2.0 + 2.0 * root3 / 3.0 + 6.5 * (1.0 - b)) * b +
      (23.0 + 16.0 / root3) * Binary64.epsilon) * Binary64.epsilon

/-- A bound on the error of a distance from a point to an edge. -/
def edgeError (d : Chord) : Float := Binary64.maxNum d.interiorError d.pointError

end Chord

end SphereSearch
