import SphereSearch.Proofs.Search.Run
import SphereSearch.Proofs.Sphere.Caps
import SphereSearch.Proofs.Sphere.Limit

/-!
# A running minimum only falls

Measurements share one contract: whatever a test finds is below the limit that it was given, so that
a running minimum falls with every answer and stays where it is without one.  Between points of unit
length this holds of every test and every limit but one case: edges that cross are found to be at
distance zero, and the guard against limits that are not above zero knows of `zero`, not of
`negative` (`Update.strict_iff`).  A sequence of updates keeps to the contract exactly if it does
not start from `negative`, or no two edges cross in it (`Update.contract_iff`).
-/

namespace SphereSearch

/-! ### Points and edges -/

namespace Closer

/-- A chain of tests that keep to the limit keeps to it. -/
lemma lt_of_chain {tests : List Closer} (h : ∀ test ∈ tests, ∀ m d, test m = some d → d < m)
    {m d : Chord} (hd : chain tests m = some d) : d < m := by
  have hfold : ∀ found ∈ tests.foldl (fun found test => (test (found.getD m)).or found) none,
      found < m := by
    refine List.foldlRecOn (motive := fun found => ∀ d ∈ found, d < m) _ _
      (fun _ h => by cases h) ?_
    intro found hfound test htest d hd
    rcases Option.or_eq_some_iff.1 (Option.mem_def.1 hd) with hd | ⟨-, hd⟩
    · have hlt := h test htest _ _ hd
      cases found with
      | none => exact hlt
      | some c => exact hlt.trans (hfound c rfl)
    · exact hfound d hd
  exact hfold d hd

end Closer

namespace Edge

variable {e f : Edge} {x : Point}

/-- Nothing is found below every distance. -/
lemma closerPoint?_negative (hx : x.isUnit) (hstart : e.start.isUnit) (hstop : e.stop.isUnit) :
    e.closerPoint? x Chord.negative = none := by
  have hinterior : e.interiorLen2? x (x.chord2 e.start) (x.chord2 e.stop) Chord.negative =
      none := by
    by_cases hout : e.Outside x (x.chord2 e.start) (x.chord2 e.stop)
    · exact interiorLen2?_of_outside hout
    · have hcircle := toBits_circleLen2_le hx hstart hstop fun h => hout (Or.inr (Or.inl h))
      have hge : e.circleLen2 x ≥ Chord.negative.len2 :=
        Binary64.le_of_lt (Binary64.neg_one_lt hcircle)
      rw [interiorLen2?_of_not_outside hout, if_pos hge, ite_self]
  have hnearer := toBits_minNum_lt (Point.toBits_chord2_lt hx hstart)
    (Point.toBits_chord2_lt hx hstop)
  simp only [closerPoint?]
  rw [hinterior]
  exact if_pos (Binary64.le_of_lt (Binary64.neg_one_lt hnearer.le))

/-- A distance to an edge that is found is below the limit. -/
lemma lt_of_closerPoint? (hx : x.isUnit) (hstart : e.start.isUnit) (hstop : e.stop.isUnit)
    {m d : Chord} (h : e.closerPoint? x m = some d) : d < m := by
  by_cases hm : m = Chord.negative
  · rw [hm, closerPoint?_negative hx hstart hstop] at h
    cases h
  · rw [closerPoint?_eq hx hstart hstop (Chord.zero_le_of_ne_negative hm)] at h
    rcases Option.or_eq_some_iff.1 h with h | ⟨-, h⟩
    · obtain ⟨c, -, hc⟩ := Option.bind_eq_some_iff.1 h
      obtain ⟨hlt, rfl⟩ := Closer.eq_some_of_ofChord hc
      exact hlt
    · obtain ⟨hlt, rfl⟩ := Closer.eq_some_of_ofChord h
      exact hlt

/-- Whether both ends have unit length. -/
structure OnSphere (e : Edge) : Prop where
  start : e.start.isUnit
  stop : e.stop.isUnit

lemma lt_of_endTests (he : e.OnSphere) (hf : f.OnSphere) :
    ∀ test ∈ e.endTests f, ∀ m d, test m = some d → d < m := by
  intro test htest m d h
  simp only [endTests, List.mem_cons, List.not_mem_nil, or_false] at htest
  rcases htest with rfl | rfl | rfl | rfl
  · exact lt_of_closerPoint? he.start hf.start hf.stop h
  · exact lt_of_closerPoint? he.stop hf.start hf.stop h
  · exact lt_of_closerPoint? hf.start he.start he.stop h
  · exact lt_of_closerPoint? hf.stop he.start he.stop h

/-- A distance between edges that is found is below the limit, unless the edges cross and nothing is
below the limit. -/
lemma lt_of_closerEdge? (he : e.OnSphere) (hf : f.OnSphere) {m d : Chord}
    (h : e.closerEdge? f m = some d) : d < m ∨ m = Chord.negative ∧ e.crosses f = true := by
  simp only [closerEdge?] at h
  by_cases hzero : m.isZero
  · rw [if_pos hzero] at h
    cases h
  · rw [if_neg hzero] at h
    by_cases hcross : e.crosses f = true
    · rw [if_pos hcross] at h
      by_cases hm : m = Chord.negative
      · exact Or.inr ⟨hm, hcross⟩
      · refine Or.inl (lt_of_le_of_ne ?_ ?_)
        · rw [← Option.some.inj h]
          exact Chord.zero_le_of_ne_negative hm
        · rintro rfl
          rw [← Option.some.inj h] at hzero
          exact hzero (by decide)
    · rw [if_neg hcross] at h
      exact Or.inl (Closer.lt_of_chain (lt_of_endTests he hf) h)

/-- Edges that cross are found at distance zero also where nothing is below the limit. -/
lemma closerEdge?_negative (h : e.crosses f = true) :
    e.closerEdge? f Chord.negative = some Chord.zero := by
  simp only [closerEdge?]
  rw [show Chord.negative.isZero = false by decide, if_neg Bool.false_ne_true, if_pos h]

end Edge

/-! ### One measurement -/

namespace Search

/-- A measurement against a running minimum. -/
inductive Update where
  /-- From a point to an edge. -/
  | point (x : Point) (e : Edge)
  /-- Between two edges. -/
  | pair (e f : Edge)
  /-- From a target to an edge. -/
  | toEdge (t : Target) (e : Edge)
  /-- From a target to a cell. -/
  | toCell (t : Target) (c : Cell)

/-- Whether the points of a target that are measured have unit length. -/
def Target.OnSphere : Target → Prop
  | .site (.point p) => p.isUnit
  | .site (.edge f) => f.OnSphere
  | _ => True

/-- Whether the distance of a target from an edge is seen to be zero by their crossing. -/
def Target.Crosses : Target → Edge → Prop
  | .site (.edge f), e => f.crosses e
  | _, _ => False

namespace Update

/-- The test of the measurement. -/
def closer : Update → Closer
  | point x e => e.closerPoint? x
  | pair e f => e.closerEdge? f
  | toEdge t e => t.measure.toEdge e
  | toCell t c => t.measure.toCell c

/-- Whether the points between which distances are measured have unit length. -/
def OnSphere : Update → Prop
  | point x e => x.isUnit ∧ e.OnSphere
  | pair e f => e.OnSphere ∧ f.OnSphere
  | toEdge t e => t.OnSphere ∧ e.OnSphere
  | toCell _ _ => True

/-- Whether the distance is seen to be zero by a crossing of edges. -/
def Crosses : Update → Prop
  | pair e f => e.crosses f
  | toEdge t e => t.Crosses e
  | _ => False

lemma lt_of_indexTarget {t : IndexTarget} {s : Site} {m d : Chord}
    (h : t.closer? s m = some d) : d < m := by
  simp only [IndexTarget.closer?] at h
  split at h
  · cases h
  · split at h
    · cases h
    · rename_i hguard
      rw [← Option.some.inj h]
      rw [Bool.or_eq_true, decide_eq_true_iff, not_or, ge_iff_le, not_le] at hguard
      exact hguard.2

/-- What a measurement finds is below the minimum, unless edges cross and nothing is below it. -/
lemma lt_of_closer {u : Update} (hu : u.OnSphere) {m d : Chord} (h : u.closer m = some d) :
    d < m ∨ m = Chord.negative ∧ u.Crosses := by
  cases u with
  | point x e => exact Or.inl (Edge.lt_of_closerPoint? hu.1 hu.2.start hu.2.stop h)
  | pair e f => exact Edge.lt_of_closerEdge? hu.1 hu.2 h
  | toEdge t e =>
    cases t with
    | index t => exact Or.inl (lt_of_indexTarget h)
    | site s =>
      cases s with
      | point p => exact Or.inl (Edge.lt_of_closerPoint? hu.1 hu.2.start hu.2.stop h)
      | edge f => exact Edge.lt_of_closerEdge? hu.1 hu.2 h
      | cell c =>
        left
        obtain ⟨hlt, rfl⟩ := Closer.eq_some_of_ofChord h
        exact hlt
  | toCell t c =>
    cases t with
    | index t => exact Or.inl (lt_of_indexTarget h)
    | site s =>
      left
      cases s <;>
        · obtain ⟨hlt, rfl⟩ := Closer.eq_some_of_ofChord h
          exact hlt

lemma closer_of_crosses {u : Update} (hu : u.Crosses) :
    u.closer Chord.negative = some Chord.zero := by
  cases u with
  | point x e => exact absurd hu id
  | pair e f => exact Edge.closerEdge?_negative hu
  | toEdge t e =>
    cases t with
    | index t => exact absurd hu id
    | site s =>
      cases s with
      | point p => exact absurd hu id
      | edge f => exact Edge.closerEdge?_negative hu
      | cell c => exact absurd hu id
  | toCell t c => exact absurd hu id

lemma zero_le_of_toCell {s : Site} {c : Cell} {m d : Chord}
    (h : s.measure.toCell c m = some d) : Chord.zero ≤ d := by
  cases s with
  | point p =>
    rw [(Closer.eq_some_of_ofChord h).2]
    exact Cap.zero_le_reduce _ (Chord.zero_le_between _ _)
  | edge f =>
    rw [(Closer.eq_some_of_ofChord h).2]
    exact Cap.zero_le_reduce _ (Closer.le_distance fun _ _ => Edge.zero_le_of_closerPoint?)
  | cell b =>
    rw [(Closer.eq_some_of_ofChord h).2]
    simp only [Cap.distanceToCap]
    split
    · exact Chord.le_infinity _
    · exact Chord.zero_le_sub (Cap.zero_le_reduce _ (Chord.zero_le_between _ _)) _

/-- No measurement finds a distance below zero. -/
lemma zero_le_of_closer {u : Update} {m d : Chord} (h : u.closer m = some d) : Chord.zero ≤ d := by
  cases u with
  | point x e => exact Edge.zero_le_of_closerPoint? h
  | pair e f => exact Edge.zero_le_of_closerEdge? h
  | toEdge t e => exact Target.zero_le_of_toEdge h
  | toCell t c =>
    cases t with
    | site s => exact zero_le_of_toCell h
    | index t =>
      have hcloser : t.closer? (.cell c) m = some d := h
      simp only [IndexTarget.closer?] at hcloser
      split at hcloser
      · cases hcloser
      · rename_i r rest hsearch
        split at hcloser
        · cases hcloser
        · rw [← Option.some.inj hcloser]
          exact Site.zero_le_of_mem_search (hsearch ▸ List.mem_cons_self)

/-- A measurement keeps to its contract against every minimum, unless edges cross in it and nothing
is below the minimum. -/
lemma strict_iff {u : Update} (hu : u.OnSphere) (m : Chord) :
    (∀ d, u.closer m = some d → d < m) ↔ (m = Chord.negative → ¬ u.Crosses) := by
  constructor
  · rintro h rfl hcross
    exact absurd (h _ (closer_of_crosses hcross)) (by decide)
  · intro h d hd
    rcases lt_of_closer hu hd with hlt | ⟨hm, hcross⟩
    · exact hlt
    · exact absurd hcross (h hm)

/-! ### A sequence of measurements -/

/-- The minimum after a measurement. -/
def step (m : Chord) (u : Update) : Chord := (u.closer m).getD m

/-- The minima before, between and after measurements. -/
def minima (m : Chord) : List Update → List Chord
  | [] => [m]
  | u :: us => m :: minima (step m u) us

/-- How many of the measurements find something. -/
def answers (m : Chord) : List Update → ℕ
  | [] => 0
  | u :: us => (if (u.closer m).isSome then 1 else 0) + answers (step m u) us

/-- How often the minimum gets less. -/
def drops (m : Chord) : List Update → ℕ
  | [] => 0
  | u :: us => (if step m u < m then 1 else 0) + drops (step m u) us

/-- The minimum never rises, and it gets less exactly as often as something is found. -/
structure Contract (m : Chord) (us : List Update) : Prop where
  falls : (minima m us).Pairwise (· ≥ ·)
  counted : answers m us = drops m us

variable {u : Update} {us : List Update} {m d : Chord}

lemma mem_minima_self (m : Chord) (us : List Update) : m ∈ minima m us := by
  cases us <;> exact List.mem_cons_self

lemma Contract.le_of_mem (h : Contract m us) : ∀ c ∈ minima m us, c ≤ m := by
  have hfalls := h.falls
  cases us with
  | nil =>
    intro c hc
    rw [List.mem_singleton.1 hc]
  | cons u us =>
    intro c hc
    rcases List.mem_cons.1 hc with rfl | hc
    · exact le_rfl
    · exact (List.pairwise_cons.1 hfalls).1 c hc

/-- A measurement that finds nothing changes nothing. -/
lemma contract_cons_of_none (h : u.closer m = none) : Contract m (u :: us) ↔ Contract m us := by
  have hstep : step m u = m := by rw [step, h, Option.getD_none]
  constructor
  · intro hc
    obtain ⟨hfalls, hcounted⟩ := hc
    simp only [minima, answers, drops, hstep, h, Option.isSome_none, Bool.false_eq_true, if_false,
      lt_irrefl, Nat.zero_add] at hfalls hcounted
    exact ⟨hfalls.of_cons, hcounted⟩
  · intro hc
    refine ⟨?_, ?_⟩
    · rw [minima, hstep]
      exact List.pairwise_cons.2 ⟨hc.le_of_mem, hc.falls⟩
    · simp only [answers, drops, hstep, h, Option.isSome_none, Bool.false_eq_true, if_false,
        lt_irrefl, Nat.zero_add]
      exact hc.counted

/-- A measurement that finds something closer takes the minimum down. -/
lemma contract_cons_of_some (h : u.closer m = some d) (hlt : d < m) (hc : Contract d us) :
    Contract m (u :: us) := by
  have hstep : step m u = d := by rw [step, h, Option.getD_some]
  refine ⟨?_, ?_⟩
  · rw [minima, hstep]
    exact List.pairwise_cons.2 ⟨fun c hc' => (hc.le_of_mem c hc').trans hlt.le, hc.falls⟩
  · simp only [answers, drops, hstep, h, Option.isSome_some, if_true, if_pos hlt]
    rw [hc.counted]

/-- A sequence of measurements keeps to the contract, unless it starts where nothing is below and
has a crossing of edges. -/
lemma contract_iff (hus : ∀ u ∈ us, u.OnSphere) :
    Contract m us ↔ (m = Chord.negative → ∀ u ∈ us, ¬ u.Crosses) := by
  induction us generalizing m with
  | nil =>
    refine iff_of_true ⟨List.pairwise_singleton _ _, rfl⟩ ?_
    exact fun _ u hu => absurd hu List.not_mem_nil
  | cons u us ih =>
    have hu := hus u List.mem_cons_self
    have hrest : ∀ v ∈ us, v.OnSphere := fun v hv => hus v (List.mem_cons_of_mem _ hv)
    cases hcloser : u.closer m with
    | none =>
      rw [contract_cons_of_none hcloser, ih hrest]
      constructor
      · intro h hm v hv
        rcases List.mem_cons.1 hv with rfl | hv
        · intro hcross
          rw [hm, closer_of_crosses hcross] at hcloser
          cases hcloser
        · exact h hm v hv
      · exact fun h hm v hv => h hm v (List.mem_cons_of_mem _ hv)
    | some d =>
      constructor
      · -- Whatever is found takes the minimum up.
        rintro ⟨hfalls, -⟩ rfl
        have hstep : step Chord.negative u = d := by rw [step, hcloser, Option.getD_some]
        rw [minima, hstep] at hfalls
        have hle := (List.pairwise_cons.1 hfalls).1 d (mem_minima_self d us)
        exact absurd ((zero_le_of_closer hcloser).trans hle) (by decide)
      · intro h
        have hlt : d < m := (strict_iff hu m).2 (fun hm => h hm u List.mem_cons_self) d hcloser
        refine contract_cons_of_some hcloser hlt ((ih hrest).2 ?_)
        rintro rfl
        exact absurd (zero_le_of_closer hcloser) (by decide)

/-- **The contract of measurements.**  Between points of unit length, whatever a measurement finds
is below the minimum, and in a sequence of measurements the minimum never rises and gets less as
often as something is found: both without exception against every minimum but `negative`, and
against that one exactly if no edges cross. -/
theorem keeps_contract (hus : ∀ u ∈ us, u.OnSphere) (m : Chord) :
    (∀ u ∈ us, (∀ d, u.closer m = some d → d < m) ↔ (m = Chord.negative → ¬ u.Crosses)) ∧
      (Contract m us ↔ (m = Chord.negative → ∀ u ∈ us, ¬ u.Crosses)) :=
  ⟨fun u hu => strict_iff (hus u hu) m, contract_iff hus⟩

/-- Two edges through the same point, which cross there. -/
def crossingPair : Update :=
  pair ⟨⟨1.0, 0.0, 0.0⟩, ⟨0.0, 1.0, 0.0⟩⟩ ⟨⟨0.6, 0.64, 0.48⟩, ⟨0.6, 0.64, -0.48⟩⟩

/-- The contract is kept by a pair of edges that cross, against the limit zero. -/
theorem keeps_contract_crossingPair :
    crossingPair.OnSphere ∧ (∀ d, crossingPair.closer Chord.zero = some d → d < Chord.zero) ∧
      Contract Chord.zero [crossingPair, crossingPair] := by
  have hsphere : crossingPair.OnSphere :=
    ⟨⟨by decide +kernel, by decide +kernel⟩, ⟨by decide +kernel, by decide +kernel⟩⟩
  have hspheres : ∀ u ∈ [crossingPair, crossingPair], u.OnSphere := by
    intro u hu
    rcases List.mem_cons.1 hu with rfl | hu
    · exact hsphere
    · rw [List.mem_singleton.1 hu]
      exact hsphere
  have hzero : Chord.zero ≠ Chord.negative := by decide
  obtain ⟨hstrict, hcontract⟩ := keeps_contract hspheres Chord.zero
  exact ⟨hsphere, (hstrict _ List.mem_cons_self).2 fun h => absurd h hzero,
    hcontract.2 fun h => absurd h hzero⟩

/-- Where nothing is below the minimum, edges that cross take it up to zero. -/
theorem exists_not_lt_of_closer :
    ∃ (u : Update) (m d : Chord), u.OnSphere ∧ u.closer m = some d ∧ ¬ d < m := by
  refine ⟨crossingPair, Chord.negative, Chord.zero,
    ⟨⟨by decide +kernel, by decide +kernel⟩, ⟨by decide +kernel, by decide +kernel⟩⟩, ?_, by decide⟩
  exact closer_of_crosses (show (Edge.crosses _ _ = true) by decide +kernel)

end Update

end Search

end SphereSearch
