import Mathlib.Data.List.Forall2
import SphereSearch.Notation
import SphereSearch.Proofs.Text.Pieces

/-!
# The grammar of the notation

What a text denotes, and what is wrong with a text that denotes nothing, is told here without
reading it in steps: `IsPoint`, `ArePoints`, `IsLoop`, `IsPolyline` and `IsPolygon` relate a text to
its value, and to each of them there is a relation for its faults.  A list of texts has the fault of
the first one that denotes nothing (`FirstFault`).

Reading agrees with these relations (`Settles`), at each level because it does so below.  So a text
gives the index of the shapes that it denotes, and every other text gives its fault (`index_eq_iff`).
-/

namespace SphereSearch.Notation

open Text

/-! ### Values and faults -/

section Settled

variable {α β ε : Type} {Value : α → Prop} {Fault : ε → Prop}

/-- A result has just these values and just these faults. -/
structure Settles (result : Except ε α) (Value : α → Prop) (Fault : ε → Prop) : Prop where
  /-- It is a value exactly if the value is one of these. -/
  ok_iff : ∀ a, result = .ok a ↔ Value a
  /-- It fails exactly with one of these faults. -/
  error_iff : ∀ e, result = .error e ↔ Fault e

/-- The fault of the first element that has one; those in front of it have values. -/
def FirstFault (Value : α → β → Prop) (Fault : α → ε → Prop) (l : List α) (e : ε) : Prop :=
  ∃ front a back, l = front ++ a :: back ∧ (∀ b ∈ front, ∃ y, Value b y) ∧ Fault a e

lemma settles_ok (a : α) : Settles (.ok a : Except ε α) (· = a) fun _ => False where
  ok_iff b := by rw [Except.ok.injEq, eq_comm]
  error_iff _ := iff_of_false (by simp) id

lemma settles_error (e : ε) : Settles (.error e : Except ε α) (fun _ => False) (· = e) where
  ok_iff _ := iff_of_false (by simp) id
  error_iff e' := by rw [Except.error.injEq, eq_comm]

lemma Settles.congr {result : Except ε α} {Value' : α → Prop} {Fault' : ε → Prop}
    (h : Settles result Value Fault) (hvalue : ∀ a, Value a ↔ Value' a)
    (hfault : ∀ e, Fault e ↔ Fault' e) : Settles result Value' Fault' where
  ok_iff a := (h.ok_iff a).trans (hvalue a)
  error_iff e := (h.error_iff e).trans (hfault e)

/-- Of two steps, the second one is taken with the value of the first. -/
lemma Settles.bind {result : Except ε α} {next : α → Except ε β} {Value' : α → β → Prop}
    {Fault' : α → ε → Prop} (h : Settles result Value Fault)
    (hnext : ∀ a, Value a → Settles (next a) (Value' a) (Fault' a)) :
    Settles (result >>= next) (fun b => ∃ a, Value a ∧ Value' a b)
      fun e => Fault e ∨ ∃ a, Value a ∧ Fault' a e := by
  cases result with
  | error e =>
    -- There is no value to take the second step with.
    have hvalue : ∀ a, ¬ Value a := fun a => by simp [← h.ok_iff]
    refine (settles_error e).congr (fun b => ?_) fun e' => ?_
    · exact iff_of_false id fun ⟨a, ha, _⟩ => hvalue a ha
    · rw [← h.error_iff, Except.error.injEq, eq_comm]
      exact (or_iff_left fun ⟨a, ha, _⟩ => hvalue a ha).symm
  | ok a =>
    have hvalue : ∀ b, Value b ↔ a = b := fun b => by rw [← h.ok_iff, Except.ok.injEq]
    have hfault : ∀ e, ¬ Fault e := fun e => by simp [← h.error_iff]
    refine (hnext a ((hvalue a).2 rfl)).congr (fun b => ?_) fun e => ?_
    · simp only [hvalue, exists_eq_left']
    · simp only [hvalue, exists_eq_left', or_iff_right (hfault e)]

variable {Value : α → β → Prop} {Fault : α → ε → Prop}

lemma not_firstFault_nil (e : ε) : ¬ FirstFault Value Fault [] e := by
  rintro ⟨front, a, back, h, -⟩
  exact List.append_ne_nil_of_right_ne_nil front (List.cons_ne_nil a back) h.symm

lemma firstFault_cons {a : α} {l : List α} {e : ε} :
    FirstFault Value Fault (a :: l) e ↔
      Fault a e ∨ (∃ y, Value a y) ∧ FirstFault Value Fault l e := by
  constructor
  · rintro ⟨front, b, back, heq, hfront, hb⟩
    cases front with
    | nil =>
      cases heq
      exact Or.inl hb
    | cons c front =>
      cases heq
      rw [List.forall_mem_cons] at hfront
      exact Or.inr ⟨hfront.1, front, b, back, rfl, hfront.2, hb⟩
  · rintro (ha | ⟨hy, front, b, back, rfl, hfront, hb⟩)
    · exact ⟨[], a, l, rfl, by simp, ha⟩
    · exact ⟨a :: front, b, back, rfl, List.forall_mem_cons.2 ⟨hy, hfront⟩, hb⟩

/-- A list is read element by element, up to the first fault. -/
lemma settles_mapM {read : α → Except ε β} {l : List α}
    (h : ∀ a ∈ l, Settles (read a) (Value a) (Fault a)) :
    Settles (l.mapM read) (List.Forall₂ Value l) (FirstFault Value Fault l) := by
  induction l with
  | nil =>
    refine (settles_ok []).congr (fun ys => ?_) fun e => ?_
    · exact List.forall₂_nil_left_iff.symm
    · exact iff_of_false id (not_firstFault_nil e)
  | cons a l ih =>
    rw [List.forall_mem_cons] at h
    -- The rest is read only once the first element has a value.
    have hrest := fun y (_ : Value a y) => (ih h.2).bind fun ys _ => settles_ok (y :: ys)
    rw [List.mapM_cons]
    refine (h.1.bind hrest).congr (fun ys => ?_) fun e => ?_
    · rw [List.forall₂_cons_left_iff]
      simp only [exists_and_left]
    · rw [firstFault_cons]
      simp only [and_false, exists_false, or_false, exists_and_right]

end Settled

/-! ### Points -/

/-- A text is two numbers with a colon between them. -/
def Coordinates (text : List Char) (lat lng : Float) : Prop :=
  ∃ front back, trim text = front ++ ':' :: back ∧ ':' ∉ front ∧
    Decimal.read? (trim front) = some lat ∧ Decimal.read? (trim back) = some lng

/-- A text is the latitude and longitude of a point. -/
def IsPoint (text : List Char) (p : Point) : Prop :=
  ∃ lat lng, Coordinates text lat lng ∧ p = Point.ofLatLng lat lng

/-- A text is not a latitude and longitude. -/
def PointFault (text : List Char) (e : NotationError) : Prop :=
  (∀ lat lng, ¬ Coordinates text lat lng) ∧ e = .invalidLatLng (trim text)

/-- A text is a list of points with commas between them. -/
def ArePoints (text : List Char) (ps : List Point) : Prop :=
  List.Forall₂ IsPoint (text.splitOn ',') ps

/-- The fault of the first point of a list. -/
def PointsFault (text : List Char) (e : NotationError) : Prop :=
  FirstFault IsPoint PointFault (text.splitOn ',') e

lemma coordinates_eq_some_iff {text : List Char} {lat lng : Float} :
    (do
      let (front, back) ← cut? ':' (trim text)
      return (← Decimal.read? (trim front), ← Decimal.read? (trim back))) = some (lat, lng) ↔
      Coordinates text lat lng := by
  simp only [Coordinates, Option.bind_eq_bind, Option.bind_eq_some_iff, Prod.exists,
    cut?_eq_some_iff, Option.pure_def, Option.some.injEq, Prod.mk.injEq, and_assoc]
  constructor
  · rintro ⟨front, back, htext, hcolon, x, hx, y, hy, rfl, rfl⟩
    exact ⟨front, back, htext, hcolon, hx, hy⟩
  · rintro ⟨front, back, htext, hcolon, hlat, hlng⟩
    exact ⟨front, back, htext, hcolon, lat, hlat, lng, hlng, rfl, rfl⟩

lemma settles_point (text : List Char) :
    Settles (point text) (IsPoint text) (PointFault text) := by
  unfold point
  dsimp only
  -- A cut is made in one place only, so no other coordinates can be read.
  split
  case h_1 lat lng h =>
    have hcoordinates := coordinates_eq_some_iff.1 h
    refine (settles_ok _).congr (fun p => ⟨?_, ?_⟩) fun e => ?_
    · rintro rfl
      exact ⟨lat, lng, hcoordinates, rfl⟩
    · rintro ⟨lat', lng', hother, rfl⟩
      cases h.symm.trans (coordinates_eq_some_iff.2 hother)
      rfl
    · exact iff_of_false id fun hfault => hfault.1 lat lng hcoordinates
  case h_2 h =>
    have hnone : ∀ lat lng, ¬ Coordinates text lat lng := by
      intro lat lng hcoordinates
      cases h.symm.trans (coordinates_eq_some_iff.2 hcoordinates)
    refine (settles_error _).congr (fun p => ?_) fun e => ?_
    · exact iff_of_false id fun ⟨lat, lng, hcoordinates, _⟩ => hnone lat lng hcoordinates
    · exact (and_iff_right hnone).symm

lemma settles_points {text : List Char} (h : trim text ≠ []) :
    Settles (points text) (ArePoints text) (PointsFault text) := by
  rw [points, if_neg (mt List.isEmpty_iff.1 h), pieces_eq_splitOn]
  exact settles_mapM fun piece _ => settles_point piece

/-! ### Points of unit length -/

/-- Points on the unit sphere. -/
def AllUnit (ps : List Point) : Prop := ∀ p ∈ ps, p.isUnit

/-- The fault of the first point off the unit sphere. -/
def UnitFault (ps : List Point) (e : NotationError) : Prop :=
  ∃ front p back, ps = front ++ p :: back ∧ AllUnit front ∧ ¬ p.isUnit ∧
    e = .geometry (.notUnitLength p)

lemma unitLengthFault?_eq_none_iff {ps : List Point} :
    unitLengthFault? ps.toArray = none ↔ AllUnit ps := by
  simp [unitLengthFault?, AllUnit]

lemma unitFault_iff {ps : List Point} {e : NotationError} :
    UnitFault ps e ↔ ∃ fault, unitLengthFault? ps.toArray = some fault ∧ e = .geometry fault := by
  simp only [unitLengthFault?, Option.map_eq_some_iff, List.find?_toArray,
    List.find?_eq_some_iff_append, Bool.not_not, Bool.not_eq_true']
  constructor
  · rintro ⟨front, p, back, rfl, hfront, hp, rfl⟩
    have hp : p.isUnit = false := eq_false_of_ne_true hp
    exact ⟨_, ⟨p, ⟨hp, front, back, rfl, hfront⟩, rfl⟩, rfl⟩
  · rintro ⟨_, ⟨p, ⟨hp, front, back, rfl, hfront⟩, rfl⟩, rfl⟩
    exact ⟨front, p, back, rfl, hfront, ne_true_of_eq_false hp, rfl⟩

lemma settles_checked {α : Type} (result : Except GeometryError α) :
    Settles (checked result) (result = .ok ·)
      fun e => ∃ fault, result = .error fault ∧ e = .geometry fault := by
  cases result with
  | error fault =>
    refine (settles_error _).congr (fun a => iff_of_false id (by simp)) fun e => ?_
    simp only [Except.error.injEq, exists_eq_left']
  | ok a =>
    refine (settles_ok a).congr (fun b => ?_) fun e => iff_of_false id (by simp)
    rw [Except.ok.injEq, eq_comm]

/-- What is made of points once their lengths are checked. -/
lemma settles_unit {ps : List Point} {result : Except GeometryError Shape} {s : Shape}
    (h : result = (unitLengthFault? ps.toArray).elim (.ok s) .error) :
    Settles (checked result) (fun t => AllUnit ps ∧ t = s) (UnitFault ps) := by
  subst h
  refine (settles_checked _).congr (fun t => ?_) fun e => ?_
  · rw [← unitLengthFault?_eq_none_iff]
    cases unitLengthFault? ps.toArray with
    | none => simp [eq_comm]
    | some fault => simp
  · rw [unitFault_iff]
    cases unitLengthFault? ps.toArray <;> simp

lemma settles_ofPoints (ps : List Point) :
    Settles (checked (Shape.ofPoints ps.toArray)) (fun s => AllUnit ps ∧ s = .points ps.toArray)
      (UnitFault ps) := by
  refine settles_unit ?_
  rw [Shape.ofPoints]
  cases unitLengthFault? ps.toArray <;> rfl

lemma settles_ofVertices (ps : List Point) :
    Settles (checked (Shape.ofVertices ps.toArray))
      (fun s => AllUnit ps ∧ s = .polyline ps.toArray) (UnitFault ps) := by
  refine settles_unit ?_
  rw [Shape.ofVertices]
  cases unitLengthFault? ps.toArray <;> rfl

/-! ### Sections -/

/-- The items of a section: what is between its bars, less blanks around it, if anything is left. -/
def itemsOf (section_ : List Char) : List (List Char) :=
  ((section_.splitOn '|').map trim).filter (· ≠ [])

lemma items_eq (section_ : List Char) : items section_ = itemsOf section_ := by
  rw [items, itemsOf, pieces_eq_splitOn]
  refine List.filter_congr fun item _ => ?_
  cases item <;> rfl

lemma trim_of_mem_items {section_ item : List Char} (h : item ∈ itemsOf section_) :
    trim item = item := by
  obtain ⟨piece, -, rfl⟩ := List.mem_map.1 (List.mem_filter.1 h).1
  exact trim_trim piece

lemma trim_ne_nil_of_mem_items {section_ item : List Char} (h : item ∈ itemsOf section_) :
    trim item ≠ [] := by
  rw [trim_of_mem_items h]
  exact of_decide_eq_true (List.mem_filter.1 h).2

/-- The points of all items make one shape, unless there are none. -/
def IsPointSection (section_ : List Char) (shapes : List Shape) : Prop :=
  ∃ groups, List.Forall₂ ArePoints (itemsOf section_) groups ∧ AllUnit groups.flatten ∧
    shapes = if groups.flatten = [] then [] else [.points groups.flatten.toArray]

/-- The first text that is no point, or else the first point off the unit sphere. -/
def PointSectionFault (section_ : List Char) (e : NotationError) : Prop :=
  FirstFault ArePoints PointsFault (itemsOf section_) e ∨
    ∃ groups, List.Forall₂ ArePoints (itemsOf section_) groups ∧ UnitFault groups.flatten e

lemma settles_pointShapes (section_ : List Char) :
    Settles (pointShapes section_) (IsPointSection section_) (PointSectionFault section_) := by
  rw [pointShapes, items_eq]
  have hgroups := settles_mapM fun item (hitem : item ∈ itemsOf section_) =>
    settles_points (trim_ne_nil_of_mem_items hitem)
  refine hgroups.bind fun groups _ => ?_
  dsimp only
  by_cases hnil : groups.flatten = []
  · -- Without points there is nothing to check, and no shape.
    rw [hnil, if_pos List.isEmpty_nil, if_pos rfl]
    refine (settles_ok []).congr (fun shapes => ?_) fun e => iff_of_false id ?_
    · exact (and_iff_right (by simp [AllUnit])).symm
    · rintro ⟨front, p, back, h, -⟩
      exact List.append_ne_nil_of_right_ne_nil front (List.cons_ne_nil p back) h.symm
  · rw [if_neg (mt List.isEmpty_iff.1 hnil), if_neg hnil]
    have hshape := (settles_ofPoints groups.flatten).bind fun s _ => settles_ok [s]
    refine hshape.congr (fun shapes => ?_) fun e => ?_
    · simp only [and_assoc, exists_and_left, exists_eq_left]
    · simp only [and_false, exists_false, or_false]

/-- An item is the vertices of a polyline. -/
def IsPolyline (item : List Char) (s : Shape) : Prop :=
  ∃ ps, ArePoints item ps ∧ AllUnit ps ∧ s = .polyline ps.toArray

/-- The first text that is no point, or else the first point off the unit sphere. -/
def PolylineFault (item : List Char) (e : NotationError) : Prop :=
  PointsFault item e ∨ ∃ ps, ArePoints item ps ∧ UnitFault ps e

lemma settles_polyline {item : List Char} (h : trim item ≠ []) :
    Settles (polyline item) (IsPolyline item) (PolylineFault item) :=
  (settles_points h).bind fun ps _ => settles_ofVertices ps

/-! ### Polygons -/

/-- A text is a loop: it is blank, which gives a loop of no points, or a list of points. -/
def IsLoop (text : List Char) (ps : List Point) : Prop :=
  if trim text = [] then ps = [] else ArePoints text ps

/-- A text that is not blank has the fault of a list of points. -/
def LoopFault (text : List Char) (e : NotationError) : Prop :=
  trim text ≠ [] ∧ PointsFault text e

lemma settles_loop (text : List Char) :
    Settles (points text) (IsLoop text) (LoopFault text) := by
  by_cases h : trim text = []
  · rw [points, if_pos (List.isEmpty_iff.2 h)]
    refine (settles_ok []).congr (fun ps => ?_) fun e => ?_
    · rw [IsLoop, if_pos h]
    · exact iff_of_false id fun hfault => hfault.1 h
  · refine (settles_points h).congr (fun ps => ?_) fun e => ?_
    · rw [IsLoop, if_neg h]
    · exact (and_iff_right h).symm

/-- An item is one of two words, or loops with semicolons between them that make a polygon. -/
def IsPolygon (item : List Char) (p : Polygon) : Prop :=
  if item = "empty".toList then p = .empty
  else if item = "full".toList then p = .full
  else ∃ loops, List.Forall₂ IsLoop (item.splitOn ';') loops ∧
    Polygon.ofLoops (loops.map List.toArray) = .ok p

/-- An item is neither of the words: the fault of the first loop, or else of all loops together. -/
def PolygonFault (item : List Char) (e : NotationError) : Prop :=
  item ≠ "empty".toList ∧ item ≠ "full".toList ∧
    (FirstFault IsLoop LoopFault (item.splitOn ';') e ∨
      ∃ loops, List.Forall₂ IsLoop (item.splitOn ';') loops ∧
        ∃ fault, Polygon.ofLoops (loops.map List.toArray) = .error fault ∧ e = .geometry fault)

lemma settles_polygon {item : List Char} (h : trim item = item) :
    Settles (polygon item) (IsPolygon item) (PolygonFault item) := by
  unfold polygon IsPolygon PolygonFault
  rw [h]
  by_cases hempty : item = "empty".toList
  · simp only [if_pos hempty]
    exact (settles_ok _).congr (fun p => Iff.rfl) fun e => iff_of_false id fun hf => hf.1 hempty
  by_cases hfull : item = "full".toList
  · simp only [if_neg hempty, if_pos hfull]
    exact (settles_ok _).congr (fun p => Iff.rfl) fun e => iff_of_false id fun hf => hf.2.1 hfull
  simp only [if_neg hempty, if_neg hfull]
  rw [pieces_eq_splitOn]
  have hloops := settles_mapM fun piece (_ : piece ∈ item.splitOn ';') => settles_loop piece
  refine (hloops.bind fun loops _ => settles_checked _).congr (fun p => Iff.rfl) fun e => ?_
  rw [and_iff_right hempty, and_iff_right hfull]

/-! ### Indexes -/

/-- Three sections, of points, of polylines and of polygons: the shapes of all of them in order. -/
def AreSections (a b c : List Char) (shapes : List Shape) : Prop :=
  ∃ points polylines polygons, IsPointSection a points ∧
    List.Forall₂ IsPolyline (itemsOf b) polylines ∧ List.Forall₂ IsPolygon (itemsOf c) polygons ∧
    shapes = points ++ polylines ++ polygons.map .polygon

/-- The fault of the first section that has one. -/
inductive SectionsFault (a b c : List Char) (e : NotationError) : Prop
  | points (h : PointSectionFault a e)
  | polylines {points : List Shape} (hpoints : IsPointSection a points)
      (h : FirstFault IsPolyline PolylineFault (itemsOf b) e)
  | polygons {points polylines : List Shape} (hpoints : IsPointSection a points)
      (hpolylines : List.Forall₂ IsPolyline (itemsOf b) polylines)
      (h : FirstFault IsPolygon PolygonFault (itemsOf c) e)

lemma settles_sections (a b c : List Char) :
    Settles (do
      let points ← pointShapes a
      let polylines ← (items b).mapM polyline
      let polygons ← (items c).mapM polygon
      return points ++ polylines ++ polygons.map .polygon)
      (AreSections a b c) (SectionsFault a b c) := by
  have hpolylines := settles_mapM fun item (hitem : item ∈ itemsOf b) =>
    settles_polyline (trim_ne_nil_of_mem_items hitem)
  have hpolygons := settles_mapM fun item (hitem : item ∈ itemsOf c) =>
    settles_polygon (trim_of_mem_items hitem)
  rw [items_eq, items_eq]
  refine ((settles_pointShapes a).bind fun points _ => hpolylines.bind fun polylines _ =>
    hpolygons.bind fun polygons _ =>
      settles_ok (points ++ polylines ++ polygons.map .polygon)).congr
    (fun shapes => ?_) fun e => ⟨?_, ?_⟩
  · simp only [AreSections, exists_and_left]
  · rintro (h | ⟨points, hpoints, h | ⟨polylines, hpolylines, h | ⟨-, -, h⟩⟩⟩)
    · exact .points h
    · exact .polylines hpoints h
    · exact .polygons hpoints hpolylines h
    · exact h.elim
  · rintro (h | ⟨hpoints, h⟩ | ⟨hpoints, hpolylines, h⟩)
    · exact Or.inl h
    · exact Or.inr ⟨_, hpoints, Or.inl h⟩
    · exact Or.inr ⟨_, hpoints, Or.inr ⟨_, hpolylines, Or.inl h⟩⟩

/-- A text is three sections with a `#` between them. -/
def Denotes (text : List Char) (shapes : List Shape) : Prop :=
  ∃ a b c, text.splitOn '#' = [a, b, c] ∧ AreSections a b c shapes

/-- A text has another number of sections, or sections with a fault. -/
inductive TextFault (text : List Char) : NotationError → Prop
  | sectionCount (h : text.count '#' + 1 ≠ 3) : TextFault text (.sectionCount (text.count '#' + 1))
  | sections {a b c : List Char} {e : NotationError} (htext : text.splitOn '#' = [a, b, c])
      (h : SectionsFault a b c e) : TextFault text e

lemma settles_shapes (text : List Char) :
    Settles (shapes text) (Denotes text) (TextFault text) := by
  have hlength := length_pieces '#' text
  rw [shapes, pieces_eq_splitOn]
  rw [pieces_eq_splitOn] at hlength
  split
  case h_1 a b c htext =>
    refine (settles_sections a b c).congr (fun shapes => ⟨?_, ?_⟩) fun e => ⟨?_, ?_⟩
    · exact fun h => ⟨a, b, c, htext, h⟩
    · rintro ⟨a', b', c', htext', h⟩
      cases htext.symm.trans htext'
      exact h
    · exact .sections htext
    · rintro (hcount | ⟨htext', h⟩)
      · rw [htext] at hlength
        exact absurd hlength.symm hcount
      · cases htext.symm.trans htext'
        exact h
  case h_2 hsections =>
    have hcount : text.count '#' + 1 ≠ 3 := by
      intro hthree
      obtain ⟨a, b, c, htext⟩ := List.length_eq_three.1 (hlength.trans hthree)
      exact hsections a b c htext
    rw [hlength]
    refine (settles_error _).congr (fun shapes => iff_of_false id ?_) fun e => ⟨?_, ?_⟩
    · rintro ⟨a, b, c, htext, -⟩
      exact hsections a b c htext
    · rintro rfl
      exact .sectionCount hcount
    · rintro (- | ⟨htext, -⟩)
      · rfl
      · exact (hsections _ _ _ htext).elim

/-- **The grammar.**  A text gives the index of the shapes that it denotes, and every text that
denotes none gives its fault. -/
theorem index_eq_iff (text : List Char) :
    (∀ x, index text = .ok x ↔
      ∃ shapes, Denotes text shapes ∧ x = Index.build shapes Index.Settings.default) ∧
    ∀ e, index text = .error e ↔ TextFault text e := by
  have h : Settles (index text) _ _ := (settles_shapes text).bind fun shapes _ =>
    settles_ok (Index.build shapes Index.Settings.default)
  refine ⟨h.ok_iff, fun e => (h.error_iff e).trans ?_⟩
  simp only [and_false, exists_false, or_false]

example : shapes " # # empty | | full ".toList = .ok [.polygon .empty, .polygon .full] := rfl

example : shapes "0:0, | 1 # x # y".toList = .error (.invalidLatLng []) := rfl

end SphereSearch.Notation
