import SphereSearch.Grid.CellId

/-!
# Settings of an index

Two numbers steer how fine an index becomes.  Settings carry the proof that both are in range: a
setter refuses a number that is not, and then changes nothing.
-/

namespace SphereSearch.Index

/-- How finely an index divides the sphere. -/
structure Settings where
  /-- A cell with more edges than this is split. -/
  maxEdges : Nat
  /-- No cell is split beyond this level. -/
  maxLevel : Nat
  /-- A cell can hold something without being split. -/
  one_le_maxEdges : 1 ≤ maxEdges
  /-- The grid is deep enough. -/
  maxLevel_le : maxLevel ≤ CellId.maxLevel
deriving DecidableEq

/-- Why a setting was refused. -/
inductive SettingsError where
  /-- Cells without edges could not hold anything. -/
  | zeroEdgesPerCell
  /-- The grid is not that deep. -/
  | levelOutOfRange (level : Nat)
deriving DecidableEq

/-- The reason in words. -/
def SettingsError.message : SettingsError → String
  | zeroEdgesPerCell => "max_edges_per_cell must be at least 1"
  | levelOutOfRange level =>
    "max_level " ++ toString level ++ " exceeds the deepest cell level " ++
      toString CellId.maxLevel

namespace Settings

/-- Ten edges per cell, and cells of about a metre. -/
def default : Settings := ⟨10, 24, by decide, by decide⟩

instance : Inhabited Settings := ⟨default⟩

/-- Sets the number of edges from which on a cell is not split. -/
def setMaxEdges (s : Settings) (n : Nat) : Except SettingsError Settings :=
  if h : n = 0 then .error .zeroEdgesPerCell
  else .ok { s with maxEdges := n, one_le_maxEdges := Nat.pos_of_ne_zero h }

/-- Sets the deepest level. -/
def setMaxLevel (s : Settings) (level : Nat) : Except SettingsError Settings :=
  if h : level > CellId.maxLevel then .error (.levelOutOfRange level)
  else .ok { s with maxLevel := level, maxLevel_le := Nat.le_of_not_gt h }

end Settings

end SphereSearch.Index
