import SphereSearch.Proofs.Sphere.Caps
import SphereSearch.Proofs.Sphere.Widening
import SphereSearch.Setup

/-!
# Setters are atomic

A call that sets a field is refused for its argument alone (`Setup.Call.Refused`), whatever the
settings are, and then changes nothing (`run_eq_error`); any other call puts one value into one
field (`run_eq_ok`).  Everything else is read off these two.  What a call puts into a field belongs
there, so that all fields are in range after every sequence of calls (`admits_after`); and a field
depends on the calls that set this field only (`get_after_filter`), so that calls on different
fields may change places.  Of the three calls that set the limit of distances, the conservative one
never sets it below the inclusive one, since widening lowers no limit (`Chord.le_widen_edgeError`).

The setters of the settings that carry proofs are refused for the same arguments
(`Call.set_error_iff`) and lead to the same fields (`after_ofSettings`).
-/

namespace SphereSearch.Setup

/-! ### Fields -/

/-- A field of the settings. -/
inductive Field where
  | maxEdges
  | maxLevel
  | maxResults
  | maxDistance
  | maxError
  | includeInteriors
  | useBruteForce
deriving DecidableEq

namespace Field

/-- What a field holds. -/
def Value : Field → Type
  | maxEdges | maxLevel | maxResults => ℕ
  | maxDistance | maxError => Chord
  | includeInteriors | useBruteForce => Bool

/-- What a field may hold: counts that are not zero, levels of the grid, and distances that are not
negative. -/
def Admits : (f : Field) → f.Value → Prop
  | maxEdges, (n : ℕ) => 1 ≤ n
  | maxLevel, (level : ℕ) => level ≤ 30
  | maxResults, (n : ℕ) => 1 ≤ n
  | maxDistance, (d : Chord) => Chord.zero ≤ d
  | maxError, (d : Chord) => Chord.zero ≤ d
  | includeInteriors, _ => True
  | useBruteForce, _ => True

end Field

/-- The value of a field. -/
def get (s : Setup) : (f : Field) → f.Value
  | .maxEdges => s.maxEdges
  | .maxLevel => s.maxLevel
  | .maxResults => s.maxResults
  | .maxDistance => s.maxDistance
  | .maxError => s.maxError
  | .includeInteriors => s.includeInteriors
  | .useBruteForce => s.useBruteForce

/-- The fields with another value for one of them. -/
def put (s : Setup) : (f : Field) → f.Value → Setup
  | .maxEdges, n => { s with maxEdges := n }
  | .maxLevel, level => { s with maxLevel := level }
  | .maxResults, n => { s with maxResults := n }
  | .maxDistance, d => { s with maxDistance := d }
  | .maxError, d => { s with maxError := d }
  | .includeInteriors, on => { s with includeInteriors := on }
  | .useBruteForce, on => { s with useBruteForce := on }

variable {s t : Setup} {f g : Field}

lemma get_put (s : Setup) (f : Field) (v : f.Value) : (s.put f v).get f = v := by
  cases f <;> rfl

lemma get_put_of_ne (s : Setup) (v : f.Value) (h : g ≠ f) : (s.put f v).get g = s.get g := by
  cases f <;> cases g <;> first | rfl | exact absurd rfl h

/-- Settings are their fields. -/
lemma ext_get (h : ∀ f, s.get f = t.get f) : s = t := by
  have hmaxEdges := h .maxEdges
  have hmaxLevel := h .maxLevel
  have hmaxResults := h .maxResults
  have hmaxDistance := h .maxDistance
  have hmaxError := h .maxError
  have hincludeInteriors := h .includeInteriors
  have huseBruteForce := h .useBruteForce
  cases s
  cases t
  simp only [get] at *
  subst_vars
  rfl

/-! ### One call -/

namespace Call

/-- The field that a call sets. -/
def field : Call → Field
  | maxEdges _ => .maxEdges
  | maxLevel _ => .maxLevel
  | maxResults _ => .maxResults
  | maxDistance _ | inclusiveMaxDistance _ | conservativeMaxDistance _ => .maxDistance
  | maxError _ => .maxError
  | includeInteriors _ => .includeInteriors
  | useBruteForce _ => .useBruteForce

/-- The value that a call sets its field to. -/
def stored : (c : Call) → c.field.Value
  | maxEdges n => n
  | maxLevel level => level
  | maxResults n => n
  | maxDistance d => d
  | inclusiveMaxDistance d => d.successor
  | conservativeMaxDistance d => (d.widen d.edgeError).successor
  | maxError d => d
  | includeInteriors on => on
  | useBruteForce on => on

/-- The argument of a call is in range: a count that is not zero, a level of the grid, or a
distance that is not negative. -/
def InRange : Call → Prop
  | maxEdges n | maxResults n => 1 ≤ n
  | maxLevel level => level ≤ 30
  | maxDistance d | inclusiveMaxDistance d | conservativeMaxDistance d | maxError d =>
    Chord.zero ≤ d
  | includeInteriors _ | useBruteForce _ => True

/-- A call is refused if its argument is a count of zero, a level beyond the grid or a negative
distance, and the fault says so. -/
inductive Refused : Call → Fault → Prop
  | maxEdges : Refused (maxEdges 0) (.index .zeroEdgesPerCell)
  | maxLevel {level : ℕ} (h : 30 < level) :
      Refused (maxLevel level) (.index (.levelOutOfRange level))
  | maxResults : Refused (maxResults 0) (.settings .zeroMaxResults)
  | maxDistance {d : Chord} (h : d < Chord.zero) :
      Refused (maxDistance d) (.settings (.negativeDistance .maxDistance d))
  | inclusiveMaxDistance {d : Chord} (h : d < Chord.zero) :
      Refused (inclusiveMaxDistance d) (.settings (.negativeDistance .maxDistance d))
  | conservativeMaxDistance {d : Chord} (h : d < Chord.zero) :
      Refused (conservativeMaxDistance d) (.settings (.negativeDistance .maxDistance d))
  | maxError {d : Chord} (h : d < Chord.zero) :
      Refused (maxError d) (.settings (.negativeDistance .maxError d))

variable {c : Call} {e : Fault}

lemma nonNegative_of_lt {d : Chord} (h : d < Chord.zero) (setting : Search.DistanceSetting) :
    nonNegative setting d = throw (.settings (.negativeDistance setting d)) := by
  rw [nonNegative, if_pos (Chord.isNegative_iff.2 h)]
  rfl

lemma nonNegative_of_le {d : Chord} (h : Chord.zero ≤ d) (setting : Search.DistanceSetting) :
    nonNegative setting d = pure d := by
  rw [nonNegative, if_neg (Bool.eq_false_iff.1 (Chord.isNegative_eq_false h))]

lemma refused_or_inRange (c : Call) : (∃ e, c.Refused e) ∨ c.InRange := by
  cases c with
  | maxEdges n =>
    rcases n.eq_zero_or_pos with rfl | hn
    · exact .inl ⟨_, .maxEdges⟩
    · exact .inr hn
  | maxLevel level => exact (Nat.lt_or_ge 30 level).imp_left fun h => ⟨_, .maxLevel h⟩
  | maxResults n =>
    rcases n.eq_zero_or_pos with rfl | hn
    · exact .inl ⟨_, .maxResults⟩
    · exact .inr hn
  | maxDistance d => exact (lt_or_ge d Chord.zero).imp_left fun h => ⟨_, .maxDistance h⟩
  | inclusiveMaxDistance d =>
    exact (lt_or_ge d Chord.zero).imp_left fun h => ⟨_, .inclusiveMaxDistance h⟩
  | conservativeMaxDistance d =>
    exact (lt_or_ge d Chord.zero).imp_left fun h => ⟨_, .conservativeMaxDistance h⟩
  | maxError d => exact (lt_or_ge d Chord.zero).imp_left fun h => ⟨_, .maxError h⟩
  | includeInteriors on => exact .inr trivial
  | useBruteForce on => exact .inr trivial

lemma Refused.not_inRange (h : c.Refused e) : ¬ c.InRange := by
  cases h with
  | maxEdges | maxResults => exact Nat.not_succ_le_zero 0
  | maxLevel h => exact not_le.2 h
  | maxDistance h | inclusiveMaxDistance h | conservativeMaxDistance h | maxError h =>
    exact not_le.2 h

/-- A refused call changes nothing. -/
lemma run_eq_error (h : c.Refused e) (s : Setup) : c.run s = (.error e, s) := by
  cases h with
  | maxEdges => rfl
  | maxLevel h =>
    rw [run, change, if_pos (show _ > CellId.maxLevel from h)]
    rfl
  | maxResults => rfl
  | maxDistance h | inclusiveMaxDistance h | conservativeMaxDistance h | maxError h =>
    rw [run, change, nonNegative_of_lt h]
    rfl

/-- A call whose argument is in range sets its field. -/
lemma run_eq_ok (h : c.InRange) (s : Setup) : c.run s = (.ok (), s.put c.field c.stored) := by
  cases c with
  | maxEdges n | maxResults n =>
    rw [run, change, if_neg (Nat.one_le_iff_ne_zero.1 h)]
    rfl
  | maxLevel level =>
    rw [run, change, if_neg (not_lt.2 h : ¬ level > CellId.maxLevel)]
    rfl
  | maxDistance d | inclusiveMaxDistance d | conservativeMaxDistance d | maxError d =>
    rw [run, change, nonNegative_of_le h]
    rfl
  | includeInteriors on | useBruteForce on => rfl

/-- A call is refused for its argument alone. -/
lemma run_error_iff : (c.run s).1 = .error e ↔ c.Refused e := by
  rcases c.refused_or_inRange with ⟨e', h⟩ | h
  · refine ⟨fun heq => ?_, fun h => by rw [run_eq_error h]⟩
    rw [run_eq_error h] at heq
    obtain rfl := Except.error.inj heq
    exact h
  · rw [run_eq_ok h]
    exact iff_of_false (by simp) fun hrefused => hrefused.not_inRange h

/-- What a call does to the settings. -/
structure Atomic (c : Call) (s : Setup) : Prop where
  /-- It is refused for its argument alone. -/
  error_iff : ∀ e, (c.run s).1 = .error e ↔ c.Refused e
  /-- If it is refused, every field is as it was. -/
  unchanged : ∀ e, (c.run s).1 = .error e → (c.run s).2 = s
  /-- Otherwise it sets its field. -/
  get_field : (c.run s).1 = .ok () → (c.run s).2.get c.field = c.stored
  /-- It changes no other field. -/
  get_of_ne : ∀ f, f ≠ c.field → (c.run s).2.get f = s.get f

theorem atomic (c : Call) (s : Setup) : c.Atomic s := by
  rcases c.refused_or_inRange with ⟨e, h⟩ | h
  · have hrun := run_eq_error h s
    exact {
      error_iff := fun _ => run_error_iff
      unchanged := fun _ _ => by rw [hrun]
      get_field := fun hok => absurd (hok.symm.trans (congrArg Prod.fst hrun)) (by simp)
      get_of_ne := fun _ _ => by rw [hrun] }
  · have hrun := run_eq_ok h s
    exact {
      error_iff := fun _ => run_error_iff
      unchanged := fun e he => absurd h (run_error_iff.1 he).not_inRange
      get_field := fun _ => by rw [hrun, get_put]
      get_of_ne := fun _ hne => by rw [hrun, get_put_of_ne _ _ hne] }

/-- A call whose argument is in range stores what belongs into its field. -/
lemma admits_stored (h : c.InRange) : c.field.Admits c.stored := by
  cases c with
  | maxEdges n | maxLevel level | maxResults n | maxDistance d | maxError d => exact h
  | inclusiveMaxDistance d => exact le_trans h d.le_successor
  | conservativeMaxDistance d => exact (Chord.zero_le_widen h _).trans (Chord.le_successor _)
  | includeInteriors on | useBruteForce on => trivial

/-- What a call leaves in a field hangs on this field only. -/
lemma get_run_congr (c : Call) (h : s.get f = t.get f) :
    (c.run s).2.get f = (c.run t).2.get f := by
  rcases c.refused_or_inRange with ⟨e, hrefused⟩ | hrange
  · rw [run_eq_error hrefused, run_eq_error hrefused]
    exact h
  · rw [run_eq_ok hrange, run_eq_ok hrange]
    by_cases hf : f = c.field
    · subst hf
      rw [get_put, get_put]
    · rw [get_put_of_ne _ _ hf, get_put_of_ne _ _ hf]
      exact h

end Call

/-! ### Sequences of calls -/

lemma after_cons (s : Setup) (c : Call) (calls : List Call) :
    s.after (c :: calls) = (c.run s).2.after calls := rfl

lemma admits_default (f : Field) : f.Admits (default.get f) := by
  cases f with
  | maxEdges => exact Index.Settings.default.one_le_maxEdges
  | maxLevel => exact Index.Settings.default.maxLevel_le
  | maxResults => exact Search.Settings.default.maxResults_pos
  | maxDistance => exact Chord.le_infinity _
  | maxError => exact le_refl Chord.zero
  | includeInteriors => trivial
  | useBruteForce => trivial

lemma admits_run (h : ∀ f : Field, f.Admits (s.get f)) (c : Call) (f : Field) :
    f.Admits ((c.run s).2.get f) := by
  rcases c.refused_or_inRange with ⟨e, hrefused⟩ | hrange
  · rw [Call.run_eq_error hrefused]
    exact h f
  · rw [Call.run_eq_ok hrange]
    by_cases hf : f = c.field
    · subst hf
      rw [get_put]
      exact Call.admits_stored hrange
    · rw [get_put_of_ne _ _ hf]
      exact h f

/-- Fields stay in range. -/
lemma admits_after (h : ∀ f : Field, f.Admits (s.get f)) (calls : List Call) (f : Field) :
    f.Admits ((s.after calls).get f) := by
  induction calls generalizing s with
  | nil => exact h f
  | cons c calls ih => exact ih (admits_run h c)

/-- A field hangs on the calls only that set it. -/
lemma get_after_filter (h : s.get f = t.get f) (calls : List Call) :
    (s.after calls).get f = (t.after (calls.filter (·.field = f))).get f := by
  induction calls generalizing s t with
  | nil => exact h
  | cons c calls ih =>
    rw [after_cons]
    by_cases hf : c.field = f
    · rw [List.filter_cons, if_pos (decide_eq_true hf), after_cons]
      exact ih (c.get_run_congr h)
    · rw [List.filter_cons, if_neg (by simpa using hf)]
      exact ih (((c.atomic s).get_of_ne f (Ne.symm hf)).trans h)

/-- Calls may change places as long as those on the same field keep theirs. -/
lemma after_eq_of_filter_eq {calls calls' : List Call}
    (h : ∀ f, calls.filter (·.field = f) = calls'.filter (·.field = f)) (s : Setup) :
    s.after calls = s.after calls' := by
  refine ext_get fun f => ?_
  rw [get_after_filter rfl calls, h f, ← get_after_filter rfl calls']

lemma after_swap {c d : Call} (h : c.field ≠ d.field) (s : Setup) :
    s.after [c, d] = s.after [d, c] := by
  refine after_eq_of_filter_eq (fun f => ?_) s
  by_cases hc : c.field = f
  · have hd : d.field ≠ f := fun hd => h (hc.trans hd.symm)
    simp [hc, hd]
  · simp [List.filter_cons, hc]

/-! ### Limits of distances -/

/-- The conservative limit is not below the inclusive one, and this one admits the distance. -/
lemma maxDistance_le_maxDistance {d : Chord} (hd : Chord.zero ≤ d) (s : Setup) :
    ((Call.inclusiveMaxDistance d).run s).1 = .ok () ∧
      ((Call.conservativeMaxDistance d).run s).1 = .ok () ∧
      ((Call.inclusiveMaxDistance d).run s).2.maxDistance ≤
        ((Call.conservativeMaxDistance d).run s).2.maxDistance ∧
      (d ≠ Chord.infinity → d < ((Call.inclusiveMaxDistance d).run s).2.maxDistance) := by
  have hinclusive : (Call.inclusiveMaxDistance d).InRange := hd
  have hconservative : (Call.conservativeMaxDistance d).InRange := hd
  rw [Call.run_eq_ok hinclusive, Call.run_eq_ok hconservative]
  refine ⟨rfl, rfl, ?_, fun hne => ?_⟩
  · exact Chord.successor_le_successor (Chord.le_widen_edgeError d)
  · exact (Chord.lt_successor_iff hne).2 le_rfl

/-! ### Settings that carry proofs -/

namespace Call

variable {c : Call} {e : Fault} (x : Index.Settings) (s : Search.Settings)

lemma set_eq_error (h : c.Refused e) : c.set x s = .error e := by
  cases h with
  | maxEdges => rfl
  | maxLevel h =>
    rw [set, Index.Settings.setMaxLevel, dif_pos (show _ > CellId.maxLevel from h)]
    rfl
  | maxResults => rfl
  | maxDistance h =>
    rw [set, Search.Settings.setMaxDistance, if_pos (Chord.isNegative_iff.2 h)]
    rfl
  | inclusiveMaxDistance h =>
    rw [set, Search.Settings.setInclusiveMaxDistance, if_pos (Chord.isNegative_iff.2 h)]
    rfl
  | conservativeMaxDistance h =>
    rw [set, Search.Settings.setConservativeMaxDistance, if_pos (Chord.isNegative_iff.2 h)]
    rfl
  | maxError h =>
    rw [set, Search.Settings.setMaxError, if_pos (Chord.isNegative_iff.2 h)]
    rfl

lemma set_eq_ok (h : c.InRange) :
    ∃ y t, c.set x s = .ok (y, t) ∧ ofSettings y t = (ofSettings x s).put c.field c.stored := by
  cases c with
  | maxEdges n =>
    rw [set, Index.Settings.setMaxEdges, dif_neg (Nat.one_le_iff_ne_zero.1 h)]
    exact ⟨_, s, rfl, rfl⟩
  | maxLevel level =>
    rw [set, Index.Settings.setMaxLevel, dif_neg (not_lt.2 h : ¬ level > CellId.maxLevel)]
    exact ⟨_, s, rfl, rfl⟩
  | maxResults n =>
    rw [set, Search.Settings.setMaxResults, dif_neg (Nat.one_le_iff_ne_zero.1 h)]
    exact ⟨x, _, rfl, rfl⟩
  | maxDistance d =>
    rw [set, Search.Settings.setMaxDistance, if_neg (mt Chord.isNegative_iff.1 (not_lt.2 h))]
    exact ⟨x, _, rfl, rfl⟩
  | inclusiveMaxDistance d =>
    rw [set, Search.Settings.setInclusiveMaxDistance,
      if_neg (mt Chord.isNegative_iff.1 (not_lt.2 h))]
    exact ⟨x, _, rfl, rfl⟩
  | conservativeMaxDistance d =>
    rw [set, Search.Settings.setConservativeMaxDistance,
      if_neg (mt Chord.isNegative_iff.1 (not_lt.2 h))]
    exact ⟨x, _, rfl, rfl⟩
  | maxError d =>
    rw [set, Search.Settings.setMaxError, if_neg (mt Chord.isNegative_iff.1 (not_lt.2 h))]
    exact ⟨x, _, rfl, rfl⟩
  | includeInteriors on | useBruteForce on => exact ⟨x, _, rfl, rfl⟩

lemma set_error_iff : c.set x s = .error e ↔ c.Refused e := by
  refine ⟨fun heq => ?_, set_eq_error x s⟩
  rcases c.refused_or_inRange with ⟨e', hrefused⟩ | hrange
  · rw [set_eq_error x s hrefused] at heq
    obtain rfl := Except.error.inj heq
    exact hrefused
  · obtain ⟨y, t, hset, -⟩ := set_eq_ok x s hrange
    rw [hset] at heq
    cases heq

/-- Fields that carry proofs are set as those that carry none. -/
lemma run_ofSettings (settings : Index.Settings × Search.Settings) (c : Call) :
    (c.run (ofSettings settings.1 settings.2)).2 =
      ofSettings (setOrKeep settings c).1 (setOrKeep settings c).2 := by
  rcases c.refused_or_inRange with ⟨e, hrefused⟩ | hrange
  · rw [run_eq_error hrefused, setOrKeep, set_eq_error _ _ hrefused]
    rfl
  · obtain ⟨y, t, hset, hput⟩ := set_eq_ok settings.1 settings.2 hrange
    rw [run_eq_ok hrange, setOrKeep, hset]
    exact hput.symm

end Call

/-- So they are after any calls. -/
lemma after_ofSettings (settings : Index.Settings × Search.Settings) (calls : List Call) :
    (ofSettings settings.1 settings.2).after calls =
      ofSettings (calls.foldl Call.setOrKeep settings).1
        (calls.foldl Call.setOrKeep settings).2 := by
  induction calls generalizing settings with
  | nil => rfl
  | cons c calls ih =>
    rw [after_cons, Call.run_ofSettings, ih]
    rfl

/-! ### Any sequence of calls -/

/-- **Setters are atomic.**  From the defaults on, every sequence of calls leaves every field in
range.  A call whose argument is out of range changes nothing, and any other its own field only, so
that calls on different fields may change places.  An inclusive limit is above its distance, and a
conservative one not below it.  Settings that carry proofs are set in the same way. -/
theorem setters_atomic :
    (∀ (calls : List Call) (f : Field), f.Admits ((default.after calls).get f)) ∧
      (∀ (c : Call) (s : Setup), c.Atomic s) ∧
      (∀ (c d : Call) (s : Setup), c.field ≠ d.field → s.after [c, d] = s.after [d, c]) ∧
      (∀ (calls calls' : List Call) (s : Setup),
        (∀ f, calls.filter (·.field = f) = calls'.filter (·.field = f)) →
          s.after calls = s.after calls') ∧
      (∀ (d : Chord) (s : Setup), Chord.zero ≤ d →
        ((Call.inclusiveMaxDistance d).run s).1 = .ok () ∧
          ((Call.conservativeMaxDistance d).run s).1 = .ok () ∧
          ((Call.inclusiveMaxDistance d).run s).2.maxDistance ≤
            ((Call.conservativeMaxDistance d).run s).2.maxDistance ∧
          (d ≠ Chord.infinity → d < ((Call.inclusiveMaxDistance d).run s).2.maxDistance)) ∧
      (∀ (c : Call) (x : Index.Settings) (s : Search.Settings) (e : Fault),
        c.set x s = .error e ↔ c.Refused e) ∧
      ∀ (settings : Index.Settings × Search.Settings) (calls : List Call),
        (ofSettings settings.1 settings.2).after calls =
          ofSettings (calls.foldl Call.setOrKeep settings).1
            (calls.foldl Call.setOrKeep settings).2 :=
  ⟨admits_after admits_default, Call.atomic, fun _ _ s h => after_swap h s,
    fun _ _ s h => after_eq_of_filter_eq h s, fun _ s hd => maxDistance_le_maxDistance hd s,
    fun _ x s _ => Call.set_error_iff x s, after_ofSettings⟩

/-- From the defaults on: a level beyond the grid leaves no trace, as no results at all are refused
by settings that carry proofs; a limit may be set before or after the number of results; and half
the circle is below its own inclusive limit, which is not above its conservative one. -/
theorem setters_atomic_straight :
    (default.after [.maxLevel 31, .maxResults 3, .maxLevel 7]).maxLevel ≤ 30 ∧
      (Call.maxLevel 31).run default = (.error (.index (.levelOutOfRange 31)), default) ∧
      default.after [.maxResults 3, .maxDistance Chord.right] =
        default.after [.maxDistance Chord.right, .maxResults 3] ∧
      default.after [.maxResults 3, .maxDistance Chord.right, .includeInteriors true] =
        default.after [.includeInteriors true, .maxResults 3, .maxDistance Chord.right] ∧
      Chord.straight < ((Call.inclusiveMaxDistance Chord.straight).run default).2.maxDistance ∧
      ((Call.inclusiveMaxDistance Chord.straight).run default).2.maxDistance ≤
        ((Call.conservativeMaxDistance Chord.straight).run default).2.maxDistance ∧
      (Call.maxResults 0).set Index.Settings.default Search.Settings.default =
        .error (.settings .zeroMaxResults) := by
  obtain ⟨hadmits, hatomic, hswap, hfilter, hlimit, hset, -⟩ := setters_atomic
  have hlevel := hatomic (.maxLevel 31) default
  have hrefused : ((Call.maxLevel 31).run default).1 = .error (.index (.levelOutOfRange 31)) :=
    (hlevel.error_iff _).2 (.maxLevel (by decide))
  obtain ⟨-, -, hle, hlt⟩ := hlimit Chord.straight default (by decide)
  refine ⟨hadmits _ .maxLevel, Prod.ext hrefused (hlevel.unchanged _ hrefused),
    hswap _ _ _ (by decide), hfilter _ _ _ (fun f => ?_), hlt (by decide), hle,
    (hset _ _ _ _).2 .maxResults⟩
  cases f <;> rfl

end SphereSearch.Setup
