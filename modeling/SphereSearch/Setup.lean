import SphereSearch.Fault

/-!
# Settings changed in place

The settings of an index and of a search are changed by calls, one after the other.  Here a call
works on the bare fields (`Setup`), which carry no proof that they are in range: it looks at its
argument first, and then writes one field.  Whatever has been written when a fault is met stays
written (`Setup.Change`), so that nothing but the order of these steps keeps a refused call from
leaving a trace.
-/

namespace SphereSearch

/-- The fields of the settings of an index and of a search. -/
structure Setup where
  /-- A cell with more edges than this is split. -/
  maxEdges : Nat
  /-- No cell is split beyond this level. -/
  maxLevel : Nat
  /-- The greatest number of results. -/
  maxResults : Nat
  /-- The distance below which results have to be. -/
  maxDistance : Chord
  /-- How much closer than the results an edge may be that is not among them. -/
  maxError : Chord
  /-- Whether shapes whose interior holds the target are results. -/
  includeInteriors : Bool
  /-- Whether every edge is measured. -/
  useBruteForce : Bool
deriving DecidableEq

namespace Setup

/-- The fields of given settings. -/
def ofSettings (x : Index.Settings) (s : Search.Settings) : Setup where
  maxEdges := x.maxEdges
  maxLevel := x.maxLevel
  maxResults := s.maxResults
  maxDistance := s.maxDistance
  maxError := s.maxError
  includeInteriors := s.includeInteriors
  useBruteForce := s.useBruteForce

/-- The fields before any call. -/
def default : Setup := ofSettings Index.Settings.default Search.Settings.default

instance : Inhabited Setup := ⟨default⟩

/-- A program on the fields.  They stay as it leaves them, also where it fails. -/
abbrev Change := ExceptT Fault (StateM Setup)

/-- A distance that is given for a setting, unless it is below every distance. -/
def nonNegative (setting : Search.DistanceSetting) (d : Chord) : Change Chord := do
  if d.isNegative then throw (.settings (.negativeDistance setting d))
  return d

/-- A call that sets a field. -/
inductive Call where
  /-- Sets the number of edges from which on a cell is not split. -/
  | maxEdges (n : Nat)
  /-- Sets the deepest level. -/
  | maxLevel (level : Nat)
  /-- Sets the greatest number of results. -/
  | maxResults (n : Nat)
  /-- Sets the distance below which results have to be. -/
  | maxDistance (d : Chord)
  /-- Lets results be at the given distance and below. -/
  | inclusiveMaxDistance (d : Chord)
  /-- Lets results be at every distance that may, up to the error of its measurement, be the given
  one or below. -/
  | conservativeMaxDistance (d : Chord)
  /-- Sets how much closer an edge may be that is left out. -/
  | maxError (d : Chord)
  /-- Sets whether interiors count. -/
  | includeInteriors (on : Bool)
  /-- Sets whether every edge is measured. -/
  | useBruteForce (on : Bool)
deriving DecidableEq

namespace Call

/-- What a call does, step by step. -/
def change : Call → Change Unit
  | maxEdges n => do
    if n = 0 then throw (.index .zeroEdgesPerCell)
    modify ({ · with maxEdges := n })
  | maxLevel level => do
    if level > CellId.maxLevel then throw (.index (.levelOutOfRange level))
    modify ({ · with maxLevel := level })
  | maxResults n => do
    if n = 0 then throw (.settings .zeroMaxResults)
    modify ({ · with maxResults := n })
  | maxDistance d => do
    let d ← nonNegative .maxDistance d
    modify ({ · with maxDistance := d })
  | inclusiveMaxDistance d => do
    let d ← nonNegative .maxDistance d
    modify ({ · with maxDistance := d.successor })
  | conservativeMaxDistance d => do
    let d ← nonNegative .maxDistance d
    modify ({ · with maxDistance := (d.widen d.edgeError).successor })
  | maxError d => do
    let d ← nonNegative .maxError d
    modify ({ · with maxError := d })
  | includeInteriors on => modify ({ · with includeInteriors := on })
  | useBruteForce on => modify ({ · with useBruteForce := on })

/-- The answer of a call, and the fields that it leaves. -/
def run (c : Call) (s : Setup) : Except Fault Unit × Setup := (c.change.run.run s).run

/-- The same call on settings that carry the proof that they are in range. -/
def set (x : Index.Settings) (s : Search.Settings) :
    Call → Except Fault (Index.Settings × Search.Settings)
  | maxEdges n => ((x.setMaxEdges n).mapError .index).map (·, s)
  | maxLevel level => ((x.setMaxLevel level).mapError .index).map (·, s)
  | maxResults n => ((s.setMaxResults n).mapError .settings).map (x, ·)
  | maxDistance d => ((s.setMaxDistance d).mapError .settings).map (x, ·)
  | inclusiveMaxDistance d => ((s.setInclusiveMaxDistance d).mapError .settings).map (x, ·)
  | conservativeMaxDistance d => ((s.setConservativeMaxDistance d).mapError .settings).map (x, ·)
  | maxError d => ((s.setMaxError d).mapError .settings).map (x, ·)
  | includeInteriors on => .ok (x, s.setIncludeInteriors on)
  | useBruteForce on => .ok (x, s.setUseBruteForce on)

/-- Settings that carry proofs, after a call: as they were if it is refused. -/
def setOrKeep (settings : Index.Settings × Search.Settings) (c : Call) :
    Index.Settings × Search.Settings :=
  (c.set settings.1 settings.2).toOption.getD settings

end Call

/-- The fields after some calls, refused ones among them. -/
def after (s : Setup) (calls : List Call) : Setup := calls.foldl (fun s c => (c.run s).2) s

end Setup

end SphereSearch
