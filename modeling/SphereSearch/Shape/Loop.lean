import SphereSearch.Sphere.Edge

/-!
# Loops and their edges

A loop is a closed chain of vertices: edge `j` runs from vertex `j` to the next one, and the
last edge returns to the first vertex.  Several loops in a row number their edges through,
loop after loop.
-/

namespace SphereSearch

/-- A closed chain of vertices, counter-clockwise around what it encloses. -/
abbrev Loop := Array Point

namespace Loop

/-- The edge that begins at vertex `j`. -/
def edge? (l : Loop) (j : Nat) : Option Edge :=
  if h : j < l.size then
    have _ : (j + 1) % l.size < l.size := Nat.mod_lt _ (by omega)
    some ⟨l[j], l[(j + 1) % l.size]⟩
  else none

/-- All edges in order. -/
def edges (l : Loop) : List Edge := (List.range l.size).filterMap (edge? l)

/-- Edge `e` of several loops, counted through. -/
def edgeAt? : List Loop → Nat → Option Edge
  | [], _ => none
  | l :: rest, e => if e < l.size then edge? l e else edgeAt? rest (e - l.size)

/-- A vertex of a loop with the vertices before and after it. -/
structure Corner where
  /-- The vertex before. -/
  before : Point
  /-- The vertex itself. -/
  vertex : Point
  /-- The vertex after. -/
  after : Point

/-- The corner at vertex `i`. -/
def corner? (l : Loop) (i : Nat) : Option Corner :=
  if h : i < l.size then
    have _ : (i + 1) % l.size < l.size := Nat.mod_lt _ (by omega)
    have _ : (i + l.size - 1) % l.size < l.size := Nat.mod_lt _ (by omega)
    some ⟨l[(i + l.size - 1) % l.size], l[i], l[(i + 1) % l.size]⟩
  else none

/-- The edges of the loop that do not end at vertex `i`. -/
def edgesApart (l : Loop) (i : Nat) : List Edge :=
  ((List.range l.size).filter fun j => j ≠ i && (j + 1) % l.size ≠ i).filterMap (edge? l)

end Loop

end SphereSearch
