import SphereSearch.Proofs.Shape.Rewriting
import SphereSearch.Proofs.Sphere.EdgeDistance

/-!
# Which loops make a polygon

Loops are refused for one of two reasons: one of them is faulty by itself, in which case the first
fault is reported (`Polygon.FirstFault`), or no corner tells where the inside is.  A corner does so
if its two edges have a wedge between them and all other edges keep away from its vertex
(`Polygon.Qualifies`).  The two edges that meet at the corner are left out by their place, not by
their ends, so that another edge through the same vertex disqualifies it.  In every other case there
is a polygon, and its reference point comes from the first corner that qualifies
(`Polygon.ofLoops_settled`).
-/

namespace SphereSearch

/-- The first result of a test is that of the first element that has one. -/
lemma findSome?_eq_some_iff_getElem? {α β : Type} {f : α → Option β} {l : List α} {b : β} :
    l.findSome? f = some b ↔ ∃ (k : ℕ) (a : α), l[k]? = some a ∧ f a = some b ∧
      ∀ k' < k, ∀ a' : α, l[k']? = some a' → f a' = none := by
  induction l with
  | nil => simp
  | cons a l ih =>
    rw [List.findSome?_cons]
    cases ha : f a with
    | some c =>
      rw [Option.some_inj]
      constructor
      · rintro rfl
        exact ⟨0, a, rfl, ha, fun k' hk' => absurd hk' (Nat.not_lt_zero k')⟩
      · rintro ⟨k, a', hget, hb, hfirst⟩
        cases k with
        | zero => simp_all
        | succ k => simpa [ha] using hfirst 0 (Nat.succ_pos k) a rfl
    | none =>
      dsimp only
      rw [ih]
      constructor
      · rintro ⟨k, a', hget, hb, hfirst⟩
        refine ⟨k + 1, a', hget, hb, fun k' hk' a'' hget' => ?_⟩
        cases k' with
        | zero => simp_all
        | succ k' => exact hfirst k' (Nat.lt_of_succ_lt_succ hk') a'' hget'
      · rintro ⟨k, a', hget, hb, hfirst⟩
        cases k with
        | zero => simp_all
        | succ k =>
          exact ⟨k, a', hget, hb, fun k' hk' => hfirst (k' + 1) (Nat.succ_lt_succ hk')⟩

lemma Chord.isZero_iff {c : Chord} : c.isZero = true ↔ c = Chord.zero := by
  constructor
  · intro h
    by_contra hne
    rcases eq_or_ne c negative with rfl | hneg
    · exact absurd h (by decide)
    · have hlt := lt_of_le_of_ne (zero_le_of_ne_negative hneg) (Ne.symm hne)
      rw [isZero_eq_false hlt] at h
      exact Bool.false_ne_true h
  · rintro rfl
    decide

/-! ### Loops -/

namespace Loop

variable {l : Loop} {i k : ℕ} {e : Edge}

/-- A loop has at least three vertices, all of unit length. -/
def Sound (l : Loop) : Prop := 3 ≤ l.size ∧ ∀ p ∈ l, p.isUnit

/-- The fault of loop `k`: too few vertices, or else its first vertex that is not of unit length. -/
inductive Fault (l : Loop) (k : ℕ) : GeometryError → Prop
  | tooShort (h : l.size < 3) : Fault l k (.loopTooShort k l.size)
  | notUnitLength {i : ℕ} {p : Point} (h : 3 ≤ l.size) (hp : l[i]? = some p) (hunit : ¬ p.isUnit)
      (hfirst : ∀ i' < i, ∀ p' : Point, l[i']? = some p' → p'.isUnit) : Fault l k (.notUnitLength p)

lemma unitLengthFault?_eq_some_iff {e : GeometryError} :
    unitLengthFault? l = some e ↔ ∃ (i : ℕ) (p : Point), l[i]? = some p ∧ ¬ p.isUnit ∧
      (∀ i' < i, ∀ p' : Point, l[i']? = some p' → p'.isUnit) ∧ e = .notUnitLength p := by
  rw [unitLengthFault?, Option.map_eq_some_iff]
  simp only [Array.find?_eq_some_iff_getElem, Bool.not_eq_true']
  constructor
  · rintro ⟨p, ⟨hp, i, hi, rfl, hfirst⟩, rfl⟩
    refine ⟨i, _, Array.getElem?_eq_getElem hi, by simpa using hp, fun i' hi' p' hp' => ?_, rfl⟩
    obtain ⟨hlt, rfl⟩ := Array.getElem?_eq_some_iff.1 hp'
    simpa using hfirst i' hi'
  · rintro ⟨i, p, hp, hunit, hfirst, rfl⟩
    obtain ⟨hi, rfl⟩ := Array.getElem?_eq_some_iff.1 hp
    refine ⟨_, ⟨by simpa using hunit, i, hi, rfl, fun j hj => ?_⟩, rfl⟩
    simpa using hfirst j hj _ (Array.getElem?_eq_getElem (hj.trans hi))

lemma loopFault?_eq_some_iff {e : GeometryError} :
    Polygon.loopFault? l k = some e ↔ Fault l k e := by
  rw [Polygon.loopFault?]
  split
  · rename_i hshort
    rw [Option.some_inj]
    constructor
    · rintro rfl
      exact .tooShort hshort
    · rintro (- | ⟨h, -⟩)
      · rfl
      · omega
  · rename_i hlong
    rw [unitLengthFault?_eq_some_iff]
    constructor
    · rintro ⟨i, p, hp, hunit, hfirst, rfl⟩
      exact .notUnitLength (not_lt.1 hlong) hp hunit hfirst
    · rintro (h | ⟨-, hp, hunit, hfirst⟩)
      · exact absurd h hlong
      · exact ⟨_, _, hp, hunit, hfirst, rfl⟩

/-- A loop without a fault is sound. -/
lemma loopFault?_eq_none_iff : Polygon.loopFault? l k = none ↔ l.Sound := by
  rw [Polygon.loopFault?, Sound]
  split
  · exact iff_of_false (by simp) fun h => by omega
  · rename_i hlong
    simp only [unitLengthFault?, Option.map_eq_none_iff, Array.find?_eq_none, Bool.not_eq_true',
      Bool.not_eq_false, not_lt.1 hlong, true_and]

lemma mem_edges : e ∈ l.edges ↔ ∃ j, edge? l j = some e := by
  rw [edges, List.mem_filterMap]
  refine exists_congr fun j => and_iff_right_of_imp fun h => ?_
  rw [List.mem_range, ← isSome_edge?, h]
  rfl

lemma mem_edgesApart :
    e ∈ l.edgesApart i ↔ ∃ j, edge? l j = some e ∧ j ≠ i ∧ (j + 1) % l.size ≠ i := by
  rw [edgesApart, List.mem_filterMap]
  refine exists_congr fun j => ?_
  rw [List.mem_filter, List.mem_range, Bool.and_eq_true, decide_eq_true_iff, decide_eq_true_iff]
  constructor
  · rintro ⟨⟨-, hj⟩, he⟩
    exact ⟨he, hj⟩
  · rintro ⟨he, hj⟩
    refine ⟨⟨?_, hj⟩, he⟩
    rw [← isSome_edge?, he]
    rfl

/-- The point a step away from a corner in a direction, half as far as everything else there is or
less. -/
def Corner.step (c : Corner) (direction : Point) (clearance : Chord) : Point :=
  let step := Binary64.minNum (0.5 * clearance.radians) maxReferenceStep
  (c.vertex.scale step.cos + direction.scale step.sin).normalize

end Loop

namespace Polygon

variable {loops : List Loop} {P : Polygon} {k i : ℕ} {e : Edge} {c : Loop.Corner} {b : Point}
  {d : Chord}

/-! ### Corners -/

/-- An edge of the loops is neither the one that begins at vertex `i` of loop `k` nor the one that
ends there. -/
def Elsewhere (loops : List Loop) (k i : ℕ) (e : Edge) : Prop :=
  ∃ m l j, loops[m]? = some l ∧ Loop.edge? l j = some e ∧
    ¬ (m = k ∧ (j = i ∨ (j + 1) % l.size = i))

lemma mem_edgesApart : e ∈ edgesApart loops k i ↔ Elsewhere loops k i e := by
  rw [edgesApart, List.mem_flatMap, Elsewhere, Prod.exists, exists_comm]
  refine exists_congr fun m => exists_congr fun l => ?_
  rw [List.mk_mem_zipIdx_iff_getElem?, exists_and_left, and_congr_right_iff]
  intro _
  dsimp only
  by_cases hm : m = k
  · simp [hm, Loop.mem_edgesApart]
  · simp [hm, Loop.mem_edges]

/-- The distance from `v` to the nearest edge that does not meet at vertex `i` of loop `k`; infinite
if there is none. -/
def IsClearance (loops : List Loop) (k i : ℕ) (v : Point) (d : Chord) : Prop :=
  IsLeast (insert Chord.infinity {d | ∃ e, Elsewhere loops k i e ∧ d = e.distance v}) d

/-- A corner with a wedge in the direction `b`, from whose vertex all other edges keep at least the
distance `d`, which is not zero. -/
structure Qualifies (loops : List Loop) (k i : ℕ) (c : Loop.Corner) (b : Point) (d : Chord) :
    Prop where
  corner : ∃ l, loops[k]? = some l ∧ l.corner? i = some c
  bisector : c.bisector? = some b
  clearance : IsClearance loops k i c.vertex d
  apart : d ≠ Chord.zero

/-- A minimum that is taken from the left is the least of all numbers. -/
lemma isLeast_foldl_min {α β : Type} [LinearOrder β] (f : α → β) (l : List α) (m : β) :
    IsLeast (insert m {x | ∃ a ∈ l, x = f a}) (l.foldl (fun m a => min m (f a)) m) := by
  induction l generalizing m with
  | nil => simp
  | cons a l ih =>
    obtain ⟨hmem, hle⟩ := ih (min m (f a))
    rw [List.foldl_cons]
    constructor
    · rcases hmem with hmin | ⟨a', ha', hx⟩
      · rcases min_choice m (f a) with h | h
        · exact Or.inl (hmin.trans h)
        · exact Or.inr ⟨a, List.mem_cons_self, hmin.trans h⟩
      · exact Or.inr ⟨a', List.mem_cons_of_mem a ha', hx⟩
    · have hmin := hle (Set.mem_insert _ _)
      rintro x (rfl | ⟨a', ha', rfl⟩)
      · exact hmin.trans (min_le_left _ _)
      · rcases List.mem_cons.1 ha' with rfl | ha'
        · exact hmin.trans (min_le_right _ _)
        · exact hle (Or.inr ⟨a', ha', rfl⟩)

lemma isClearance_iff {v : Point} : IsClearance loops k i v d ↔
    d = (edgesApart loops k i).foldl (fun d e => min d (e.distance v)) Chord.infinity := by
  have h := isLeast_foldl_min (fun e : Edge => e.distance v) (edgesApart loops k i) Chord.infinity
  simp only [mem_edgesApart] at h
  exact ⟨fun hd => hd.unique h, fun hd => hd ▸ h⟩

/-- The inside of a corner is found exactly if the corner qualifies. -/
lemma inside?_eq_some_iff {l : Loop} (hl : loops[k]? = some l) (hc : l.corner? i = some c)
    {q : Point} : c.inside? (edgesApart loops k i) = some q ↔
      ∃ b d, Qualifies loops k i c b d ∧ q = c.step b d := by
  have hiff : ∀ b d, Qualifies loops k i c b d ↔ c.bisector? = some b ∧
      d = (edgesApart loops k i).foldl (fun d e => min d (e.distance c.vertex)) Chord.infinity ∧
      d ≠ Chord.zero := by
    intro b d
    rw [← isClearance_iff]
    exact ⟨fun h => ⟨h.bisector, h.clearance, h.apart⟩,
      fun ⟨hb, hd, hne⟩ => ⟨⟨l, hl, hc⟩, hb, hd, hne⟩⟩
  simp only [hiff, Loop.Corner.inside?, Option.bind_eq_bind, Option.bind_eq_some_iff]
  refine exists_congr fun b => ?_
  split
  · rename_i hzero
    rw [Chord.isZero_iff] at hzero
    constructor
    · rintro ⟨-, h⟩
      exact absurd h (by simp)
    · rintro ⟨d, ⟨-, rfl, hne⟩, -⟩
      exact absurd hzero hne
  · rename_i hpos
    rw [Chord.isZero_iff] at hpos
    constructor
    · rintro ⟨hb, h⟩
      exact ⟨_, ⟨hb, rfl, hpos⟩, (Option.some.inj h).symm⟩
    · rintro ⟨d, ⟨hb, rfl, -⟩, rfl⟩
      exact ⟨hb, rfl⟩

/-- No corner before the one at vertex `i` of loop `k` qualifies. -/
def NoneBefore (loops : List Loop) (k i : ℕ) : Prop :=
  ∀ k' i', k' < k ∨ k' = k ∧ i' < i → ∀ c b d, ¬ Qualifies loops k' i' c b d

section Corner

variable {l : Loop} (hl : loops[k]? = some l)

include hl

lemma cornerInside?_eq_some_iff {q : Point} :
    ((l.corner? i).bind fun c => c.inside? (edgesApart loops k i)) = some q ↔
      ∃ c b d, Qualifies loops k i c b d ∧ q = c.step b d := by
  rw [Option.bind_eq_some_iff]
  refine exists_congr fun c => ?_
  constructor
  · rintro ⟨hc, h⟩
    exact (inside?_eq_some_iff hl hc).1 h
  · rintro ⟨b, d, hq, rfl⟩
    obtain ⟨l', hl', hc⟩ := hq.corner
    obtain rfl := Option.some.inj (hl.symm.trans hl')
    exact ⟨hc, (inside?_eq_some_iff hl hc).2 ⟨b, d, hq, rfl⟩⟩

lemma cornerInside?_eq_none_iff :
    ((l.corner? i).bind fun c => c.inside? (edgesApart loops k i)) = none ↔
      ∀ c b d, ¬ Qualifies loops k i c b d := by
  rw [Option.eq_none_iff_forall_ne_some]
  constructor
  · intro h c b d hq
    exact h _ ((cornerInside?_eq_some_iff hl).2 ⟨c, b, d, hq, rfl⟩)
  · intro h q hq
    obtain ⟨c, b, d, hq, -⟩ := (cornerInside?_eq_some_iff hl).1 hq
    exact h c b d hq

/-- A corner that qualifies is at a vertex of its loop. -/
lemma Qualifies.lt_size (h : Qualifies loops k i c b d) : i < l.size := by
  obtain ⟨l', hl', hc⟩ := h.corner
  obtain rfl := Option.some.inj (hl.symm.trans hl')
  by_contra hi
  rw [Loop.corner?, dif_neg hi] at hc
  cases hc

end Corner

/-- The point inside the loops comes from the first corner that qualifies. -/
lemma insidePoint?_eq_some_iff {q : Point} : insidePoint? loops = some q ↔
    ∃ k i c b d, Qualifies loops k i c b d ∧ NoneBefore loops k i ∧ q = c.step b d := by
  rw [insidePoint?, findSome?_eq_some_iff_getElem?]
  simp only [List.getElem?_zipIdx, Option.map_eq_some_iff, Option.bind_eq_bind]
  constructor
  · rintro ⟨k, -, ⟨l, hl, rfl⟩, hq, hloops⟩
    rw [Nat.zero_add, findSome?_eq_some_iff_getElem?] at hq
    obtain ⟨n, i, hi, hq, hcorners⟩ := hq
    obtain ⟨hn, rfl⟩ := List.getElem?_eq_some_iff.1 hi
    rw [List.getElem_range] at hq
    obtain ⟨c, b, d, hqualifies, rfl⟩ := (cornerInside?_eq_some_iff hl).1 hq
    refine ⟨k, n, c, b, d, hqualifies, ?_, rfl⟩
    rintro k' i' (hk' | ⟨rfl, hi'⟩) c' b' d' hq'
    · obtain ⟨l', hl', -⟩ := hq'.corner
      have hnone := hloops k' hk' _ ⟨l', hl', rfl⟩
      rw [List.findSome?_eq_none_iff] at hnone
      have hi' := hnone i' (List.mem_range.2 (hq'.lt_size hl'))
      rw [Nat.zero_add, cornerInside?_eq_none_iff hl'] at hi'
      exact hi' c' b' d' hq'
    · have hnone := hcorners i' hi' i' (List.getElem?_range (hq'.lt_size hl))
      exact (cornerInside?_eq_none_iff hl).1 hnone c' b' d' hq'
  · rintro ⟨k, i, c, b, d, hq, hbefore, rfl⟩
    obtain ⟨l, hl, -⟩ := hq.corner
    refine ⟨k, _, ⟨l, hl, rfl⟩, ?_, ?_⟩
    · rw [Nat.zero_add, findSome?_eq_some_iff_getElem?]
      refine ⟨i, i, List.getElem?_range (hq.lt_size hl),
        (cornerInside?_eq_some_iff hl).2 ⟨c, b, d, hq, rfl⟩, fun i' hi' j hj => ?_⟩
      obtain ⟨-, rfl⟩ := List.getElem?_eq_some_iff.1 hj
      rw [List.getElem_range, cornerInside?_eq_none_iff hl]
      exact hbefore k i' (Or.inr ⟨rfl, hi'⟩)
    · rintro k' hk' - ⟨l', hl', rfl⟩
      rw [List.findSome?_eq_none_iff]
      intro i' _
      rw [Nat.zero_add, cornerInside?_eq_none_iff hl']
      exact hbefore k' i' (Or.inl hk')

lemma insidePoint?_eq_none_iff :
    insidePoint? loops = none ↔ ∀ k i c b d, ¬ Qualifies loops k i c b d := by
  rw [insidePoint?, List.findSome?_eq_none_iff]
  simp only [List.findSome?_eq_none_iff, List.mem_range, Prod.forall,
    List.mk_mem_zipIdx_iff_getElem?, Option.bind_eq_bind]
  constructor
  · intro h k i c b d hq
    obtain ⟨l, hl, -⟩ := hq.corner
    exact (cornerInside?_eq_none_iff hl).1 (h l k hl i (hq.lt_size hl)) c b d hq
  · intro h l k hl i _
    exact (cornerInside?_eq_none_iff hl).2 (h k i)

/-! ### Refusal and success -/

/-- The fault of the first loop that is not sound. -/
def FirstFault (loops : List Loop) (e : GeometryError) : Prop :=
  ∃ (k : ℕ) (l : Loop), loops[k]? = some l ∧ l.Fault k e ∧
    ∀ k' < k, ∀ l' : Loop, loops[k']? = some l' → l'.Sound

/-- The first fault of the loops, as the polygon is refused for it. -/
def firstFault? (loops : List Loop) : Option GeometryError :=
  loops.zipIdx.findSome? fun (l, k) => loopFault? l k

lemma firstFault?_eq_some_iff {e : GeometryError} :
    firstFault? loops = some e ↔ FirstFault loops e := by
  rw [firstFault?, findSome?_eq_some_iff_getElem?, FirstFault]
  simp only [List.getElem?_zipIdx, Option.map_eq_some_iff]
  refine exists_congr fun k => ?_
  constructor
  · rintro ⟨-, ⟨l, hl, rfl⟩, hfault, hfirst⟩
    rw [Nat.zero_add, Loop.loopFault?_eq_some_iff] at hfault
    exact ⟨l, hl, hfault, fun k' hk' l' hl' =>
      Loop.loopFault?_eq_none_iff.1 (hfirst k' hk' _ ⟨l', hl', rfl⟩)⟩
  · rintro ⟨l, hl, hfault, hfirst⟩
    refine ⟨_, ⟨l, hl, rfl⟩, ?_, ?_⟩
    · rw [Nat.zero_add, Loop.loopFault?_eq_some_iff]
      exact hfault
    · rintro k' hk' - ⟨l', hl', rfl⟩
      exact Loop.loopFault?_eq_none_iff.2 (hfirst k' hk' l' hl')

lemma firstFault?_eq_none_iff : firstFault? loops = none ↔ ∀ l ∈ loops, l.Sound := by
  rw [firstFault?, List.findSome?_eq_none_iff]
  simp only [Prod.forall, List.mk_mem_zipIdx_iff_getElem?, Loop.loopFault?_eq_none_iff]
  constructor
  · intro h l hl
    obtain ⟨k, hk⟩ := List.mem_iff_getElem?.1 hl
    exact h l k hk
  · intro h l k hk
    exact h l (List.mem_of_getElem? hk)

lemma ofLoops_eq_of_firstFault? {e : GeometryError} (h : firstFault? loops = some e) :
    ofLoops loops = .error e := by
  rw [firstFault?] at h
  simp only [ofLoops, h]

lemma ofLoops_nil : ofLoops [] = .ok empty := rfl

/-- Loops that are sound and some are refused exactly if no corner tells the inside. -/
lemma ofLoops_eq_of_sound (hsound : ∀ l ∈ loops, l.Sound) (hne : loops ≠ []) :
    ofLoops loops = (insidePoint? loops).elim (.error .noInteriorWedge)
      fun q => .ok ⟨loops, ⟨q, true⟩⟩ := by
  have hfault := firstFault?_eq_none_iff.2 hsound
  rw [firstFault?] at hfault
  simp only [ofLoops, hfault, List.isEmpty_iff, hne, if_false]
  cases insidePoint? loops with
  | none => rfl
  | some q => rfl

/-- The fault of a loop is never the lack of a wedge. -/
lemma FirstFault.ne_noInteriorWedge {e : GeometryError} (h : FirstFault loops e) :
    e ≠ .noInteriorWedge := by
  obtain ⟨k, l, -, hfault, -⟩ := h
  rintro rfl
  cases hfault

/-- Loops that are not all sound have a first fault. -/
lemma exists_firstFault (h : ∃ l ∈ loops, ¬ l.Sound) : ∃ e, FirstFault loops e := by
  cases hfault : firstFault? loops with
  | some e => exact ⟨e, firstFault?_eq_some_iff.1 hfault⟩
  | none =>
    obtain ⟨l, hl, hunsound⟩ := h
    exact absurd (firstFault?_eq_none_iff.1 hfault l hl) hunsound

/-- A first fault is that of a loop that is not sound. -/
lemma FirstFault.exists_not_sound {e : GeometryError} (h : FirstFault loops e) :
    ∃ l ∈ loops, ¬ l.Sound := by
  by_contra hall
  push Not at hall
  rw [← firstFault?_eq_some_iff, firstFault?_eq_none_iff.2 hall] at h
  cases h

/-- The reference point comes from the first corner that qualifies; without loops it is outside. -/
def IsReference (loops : List Loop) (r : ReferencePoint) : Prop :=
  loops = [] ∧ r = ReferencePoint.outside ∨
    ∃ k i c b d, Qualifies loops k i c b d ∧ NoneBefore loops k i ∧ r = ⟨c.step b d, true⟩

/-- What becomes of loops: they are refused for the first fault of a loop, or because there are
loops but no corner of them qualifies, or they make a polygon that keeps them and has its reference
point from the first corner that does. -/
inductive Outcome (loops : List Loop) : Except GeometryError Polygon → Prop
  | faulty {e : GeometryError} (h : FirstFault loops e) : Outcome loops (.error e)
  | noWedge (hsound : ∀ l ∈ loops, l.Sound) (hne : loops ≠ [])
      (h : ∀ k i c b d, ¬ Qualifies loops k i c b d) : Outcome loops (.error .noInteriorWedge)
  | made {r : ReferencePoint} (hsound : ∀ l ∈ loops, l.Sound) (h : IsReference loops r) :
      Outcome loops (.ok ⟨loops, r⟩)

lemma outcome_ofLoops (loops : List Loop) : Outcome loops (ofLoops loops) := by
  by_cases hsound : ∀ l ∈ loops, l.Sound
  · rcases eq_or_ne loops [] with rfl | hne
    · exact .made hsound (Or.inl ⟨rfl, rfl⟩)
    · rw [ofLoops_eq_of_sound hsound hne]
      cases hinside : insidePoint? loops with
      | none => exact .noWedge hsound hne (insidePoint?_eq_none_iff.1 hinside)
      | some q =>
        obtain ⟨k, i, c, b, d, hq, hbefore, rfl⟩ := insidePoint?_eq_some_iff.1 hinside
        exact .made hsound (Or.inr ⟨k, i, c, b, d, hq, hbefore, rfl⟩)
  · push Not at hsound
    obtain ⟨e, he⟩ := exists_firstFault hsound
    rw [ofLoops_eq_of_firstFault? (firstFault?_eq_some_iff.2 he)]
    exact .faulty he

/-- There is only one outcome. -/
lemma Outcome.eq_ofLoops {r : Except GeometryError Polygon} (h : Outcome loops r) :
    ofLoops loops = r := by
  cases h with
  | faulty h => exact ofLoops_eq_of_firstFault? (firstFault?_eq_some_iff.2 h)
  | noWedge hsound hne h =>
    rw [ofLoops_eq_of_sound hsound hne, insidePoint?_eq_none_iff.2 h]
    rfl
  | made hsound h =>
    rcases h with ⟨rfl, rfl⟩ | ⟨k, i, c, b, d, hq, hbefore, rfl⟩
    · exact ofLoops_nil
    · have hne : loops ≠ [] := by
        rintro rfl
        obtain ⟨l, hl, -⟩ := hq.corner
        cases hl
      rw [ofLoops_eq_of_sound hsound hne,
        insidePoint?_eq_some_iff.2 ⟨k, i, c, b, d, hq, hbefore, rfl⟩]
      rfl

lemma ofLoops_eq_iff {r : Except GeometryError Polygon} :
    ofLoops loops = r ↔ Outcome loops r :=
  ⟨fun h => h ▸ outcome_ofLoops loops, Outcome.eq_ofLoops⟩

/-- Loops make a polygon if they are sound and, unless there are none, a corner qualifies. -/
lemma exists_made_iff : (∃ P, Outcome loops (.ok P)) ↔
    (∀ l ∈ loops, l.Sound) ∧ (loops = [] ∨ ∃ k i c b d, Qualifies loops k i c b d) := by
  constructor
  · rintro ⟨P, h⟩
    cases h with
    | made hsound h =>
      refine ⟨hsound, ?_⟩
      rcases h with ⟨hnil, -⟩ | ⟨k, i, c, b, d, hq, -⟩
      · exact Or.inl hnil
      · exact Or.inr ⟨k, i, c, b, d, hq⟩
  · rintro ⟨hsound, h⟩
    cases hout : ofLoops loops with
    | ok P => exact ⟨P, ofLoops_eq_iff.1 hout⟩
    | error e =>
      cases ofLoops_eq_iff.1 hout with
      | faulty hfault =>
        obtain ⟨l, hl, hunsound⟩ := hfault.exists_not_sound
        exact absurd (hsound l hl) hunsound
      | noWedge _ hne hnone =>
        obtain ⟨k, i, c, b, d, hq⟩ := h.resolve_left hne
        exact absurd hq (hnone k i c b d)

/-- Loops are refused for a fault of their own exactly if one of them is not sound, and then it is
the first fault that is reported; otherwise they are refused exactly if there are some and no corner
qualifies; otherwise they make a polygon with these loops, whose reference point comes from the
first corner that qualifies.  It is inside if there are loops: a polygon made from loops is never
full, and empty only without them. -/
theorem ofLoops_settled (loops : List Loop) :
    ((∃ e, ofLoops loops = .error e ∧ e ≠ .noInteriorWedge) ↔ ∃ l ∈ loops, ¬ l.Sound) ∧
    (∀ e, e ≠ .noInteriorWedge → (ofLoops loops = .error e ↔ FirstFault loops e)) ∧
    (ofLoops loops = .error .noInteriorWedge ↔
      (∀ l ∈ loops, l.Sound) ∧ loops ≠ [] ∧ ∀ k i c b d, ¬ Qualifies loops k i c b d) ∧
    ((∃ P, ofLoops loops = .ok P) ↔
      (∀ l ∈ loops, l.Sound) ∧ (loops = [] ∨ ∃ k i c b d, Qualifies loops k i c b d)) ∧
    (∀ P, ofLoops loops = .ok P → P.loops = loops ∧ IsReference loops P.reference ∧
      P.reference.contained = !loops.isEmpty ∧ P.isFull = false ∧ (P.isEmpty ↔ loops = [])) ∧
    full.isFull ∧ ¬ full.isEmpty := by
  simp only [ofLoops_eq_iff]
  refine ⟨⟨?_, fun h => ?_⟩, fun e hne => ⟨?_, .faulty⟩, ⟨?_, ?_⟩, exists_made_iff, fun P h => ?_,
    rfl, by decide⟩
  · rintro ⟨e, h, hne⟩
    cases h with
    | faulty h => exact h.exists_not_sound
    | noWedge => exact absurd rfl hne
  · obtain ⟨e, he⟩ := exists_firstFault h
    exact ⟨e, .faulty he, he.ne_noInteriorWedge⟩
  · intro h
    cases h with
    | faulty h => exact h
    | noWedge => exact absurd rfl hne
  · intro h
    cases h with
    | faulty h => exact absurd rfl h.ne_noInteriorWedge
    | noWedge hsound hne h => exact ⟨hsound, hne, h⟩
  · rintro ⟨hsound, hne, h⟩
    exact .noWedge hsound hne h
  · obtain ⟨hloops, hcontained⟩ := reference_of_ofLoops (ofLoops_eq_iff.2 h)
    refine ⟨hloops, ?_, hcontained, ?_, ?_⟩
    · cases h with
      | made _ h => exact h
    · rw [isFull, hloops, hcontained, Bool.and_not_self]
    · rw [isEmpty, hloops, hcontained, Bool.not_not, Bool.and_self, List.isEmpty_iff]

end Polygon

end SphereSearch
