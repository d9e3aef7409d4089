import SphereSearch.Number.Positional
import SphereSearch.Sphere.Edge

/-!
# Settings of a search

How many results a search may return, how far away they may be, how much closer another edge
may be than those returned, and what else counts as a result.  A setter refuses a value out of
range and then changes nothing.
-/

namespace SphereSearch.Search

/-- A number of results that no search reaches. -/
def unlimited : Nat := 2 ^ 64 - 1

/-- What a search is asked for. -/
structure Settings where
  /-- The greatest number of results. -/
  maxResults : Nat
  /-- The distance below which results have to be. -/
  maxDistance : Chord
  /-- How much closer than the results an edge may be that is not among them. -/
  maxError : Chord
  /-- Whether shapes whose interior holds the target are results at distance zero. -/
  includeInteriors : Bool
  /-- Whether every edge is measured, with no use of the index cells. -/
  useBruteForce : Bool
  /-- A search for no results has no answer. -/
  maxResults_pos : 0 < maxResults
deriving DecidableEq

/-- The settings that are distances. -/
inductive DistanceSetting where
  /-- The distance below which results have to be. -/
  | maxDistance
  /-- How much closer an edge left out may be. -/
  | maxError
deriving DecidableEq

/-- The name of the setting for a reader. -/
def DistanceSetting.name : DistanceSetting → String
  | maxDistance => "max_distance"
  | maxError => "max_error"

/-- Why a setting was refused. -/
inductive SettingsError where
  /-- A search for no results has no answer. -/
  | zeroMaxResults
  /-- Nothing is closer than no distance. -/
  | negativeDistance (setting : DistanceSetting) (value : Chord)
deriving DecidableEq

/-- The reason in words. -/
def SettingsError.message : SettingsError → String
  | zeroMaxResults => "max_results must be at least 1"
  | negativeDistance setting value =>
    setting.name ++ " must be a non-negative distance, got " ++ Decimal.text value.len2

namespace Settings

/-- All edges, however far away, exactly. -/
def default : Settings :=
  ⟨unlimited, Chord.infinity, Chord.zero, false, false, by decide⟩

instance : Inhabited Settings := ⟨default⟩

/-- Sets the greatest number of results. -/
def setMaxResults (s : Settings) (n : Nat) : Except SettingsError Settings :=
  if h : n = 0 then .error .zeroMaxResults
  else .ok { s with maxResults := n, maxResults_pos := Nat.pos_of_ne_zero h }

/-- Sets the distance below which results have to be. -/
def setMaxDistance (s : Settings) (d : Chord) : Except SettingsError Settings :=
  if d.isNegative then .error (.negativeDistance .maxDistance d)
  else .ok { s with maxDistance := d }

/-- Lets results be at the given distance and below. -/
def setInclusiveMaxDistance (s : Settings) (d : Chord) : Except SettingsError Settings :=
  if d.isNegative then .error (.negativeDistance .maxDistance d)
  else .ok { s with maxDistance := d.successor }

/-- Lets results be at every distance that may, up to the error of its measurement, be the
given one or below. -/
def setConservativeMaxDistance (s : Settings) (d : Chord) : Except SettingsError Settings :=
  if d.isNegative then .error (.negativeDistance .maxDistance d)
  else .ok { s with maxDistance := (d.widen d.edgeError).successor }

/-- Sets how much closer an edge may be that is left out. -/
def setMaxError (s : Settings) (d : Chord) : Except SettingsError Settings :=
  if d.isNegative then .error (.negativeDistance .maxError d)
  else .ok { s with maxError := d }

/-- Sets whether interiors count. -/
def setIncludeInteriors (s : Settings) (on : Bool) : Settings := { s with includeInteriors := on }

/-- Sets whether every edge is measured. -/
def setUseBruteForce (s : Settings) (on : Bool) : Settings := { s with useBruteForce := on }

end Settings

end SphereSearch.Search
