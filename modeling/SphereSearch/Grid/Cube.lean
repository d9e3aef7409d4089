import SphereSearch.Sphere.Point

/-!
# The sphere on the faces of a cube

The sphere is projected from its centre to the six faces of the cube around it.  Faces `0`,
`2`, `4` are met by the positive axes and faces `1`, `3`, `5` by the negative ones.  On its
face a point has two coordinates `u` and `v` between `-1` and `1`.
-/

namespace SphereSearch.Cube

/-- A point of a face. -/
structure FacePoint where
  /-- The number of the face. -/
  face : Nat
  /-- The first coordinate. -/
  u : Float
  /-- The second coordinate. -/
  v : Float

/-- The face that a direction meets and the coordinates there.  The axis of largest
magnitude decides; of equal ones, the first. -/
def project (p : Point) : FacePoint :=
  let x := p.x.abs
  let y := p.y.abs
  let z := p.z.abs
  if x ≥ y && x ≥ z then
    if p.x ≥ 0.0 then ⟨0, -p.z / x, p.y / x⟩ else ⟨1, p.z / x, p.y / x⟩
  else if y ≥ z then
    if p.y ≥ 0.0 then ⟨2, p.x / y, -p.z / y⟩ else ⟨3, p.x / y, p.z / y⟩
  else if p.z ≥ 0.0 then ⟨4, p.x / z, p.y / z⟩
  else ⟨5, -p.x / z, p.y / z⟩

/-- The coordinates of a direction on the plane of a given face, if the direction points to
that side of the cube. -/
def projectTo? (face : Nat) (p : Point) : Option (Float × Float) :=
  match face with
  | 0 => if p.x > 0.0 then some (-p.z / p.x, p.y / p.x) else none
  | 1 => if p.x < 0.0 then some (-p.z / p.x, -p.y / p.x) else none
  | 2 => if p.y > 0.0 then some (p.x / p.y, -p.z / p.y) else none
  | 3 => if p.y < 0.0 then some (-p.x / p.y, -p.z / p.y) else none
  | 4 => if p.z > 0.0 then some (p.x / p.z, p.y / p.z) else none
  | 5 => if p.z < 0.0 then some (p.x / p.z, -p.y / p.z) else none
  | _ => none

/-- The direction of a point of the cube, not normalised.  Every number from `5` on names
the last face. -/
def FacePoint.direction (p : FacePoint) : Point :=
  match p.face with
  | 0 => ⟨1.0, p.v, -p.u⟩
  | 1 => ⟨-1.0, p.v, p.u⟩
  | 2 => ⟨p.u, 1.0, -p.v⟩
  | 3 => ⟨p.u, -1.0, p.v⟩
  | 4 => ⟨p.u, p.v, 1.0⟩
  | _ => ⟨-p.u, p.v, -1.0⟩

/-! ## The grid of a face -/

/-- The number of grid steps along a side of a face. -/
def gridSize : Nat := 2 ^ 30

/-- The coordinate of a grid line. -/
def gridLine (n : Nat) : Float := 2.0 * Float.ofNat n / 1073741824.0 - 1.0

/-- The grid step that holds a coordinate; coordinates beyond the face belong to the first
and the last step, and one that is not a number to the first. -/
def gridStep (coordinate : Float) : Nat :=
  (Binary64.clamp 0.0 1073741823.0 (0.5 * (coordinate + 1.0) * 1073741824.0)).toUInt32.toNat

end SphereSearch.Cube
