import SphereSearch.Notation

/-!
# Every fault

A program that reads shapes, builds an index and searches it can meet each kind of fault of the
library.  `Fault` is their union.
-/

namespace SphereSearch

/-- Any fault of the library. -/
inductive Fault where
  /-- A fault of a written shape. -/
  | parse (error : NotationError)
  /-- A fault of a shape. -/
  | geometry (error : GeometryError)
  /-- A refused setting of an index. -/
  | index (error : Index.SettingsError)
  /-- A refused setting of a search. -/
  | settings (error : Search.SettingsError)
deriving DecidableEq

/-- The fault in words: those of its kind. -/
def Fault.message : Fault → String
  | parse e => e.message
  | geometry e => e.message
  | index e => e.message
  | settings e => e.message

end SphereSearch
