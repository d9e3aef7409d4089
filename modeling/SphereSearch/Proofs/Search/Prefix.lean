import SphereSearch.Proofs.Index.Coverage
import SphereSearch.Proofs.Search.BestFirst
import SphereSearch.Search.Query

/-!
# Fewer results

A search for `k` results should return the first `k` of what a search without a limit returns.
With exact distances it does, except for the shapes around the target: the resolver of these
shapes stops as soon as it has found enough of them, and near an index it does not find the
least ones first.  So the results are the first `k` exactly if the resolver has found all the
shapes among these (`Query.closestEdges_eq_firstOf_iff`); near a point, an edge or a cell it
always has.
-/

namespace SphereSearch

namespace Search

variable {t : Target} {shapes : List Shape} {indexSettings : Index.Settings}
  {settings : Settings} {threshold : ℕ} {D : EdgeRef → Chord}

/-! ### Answers -/

lemma Result.interior_injective : Function.Injective fun id : ℕ => Result.interior id := by
  intro i j h
  have hid : (i : ℤ) = j := congrArg Result.shapeId h
  exact Int.ofNat_inj.1 hid

lemma Result.interior_lt {i j : ℕ} (h : i < j) : Result.interior i < Result.interior j :=
  Prod.Lex.toLex_lt_toLex.2 (Or.inr ⟨rfl, Prod.Lex.toLex_lt_toLex.2 (Or.inl (Int.ofNat_lt.2 h))⟩)

lemma EdgeRef.result_ne_interior (r : EdgeRef) (id : ℤ) : r.result D ≠ Result.interior id := by
  intro h
  have hedge : (r.edgeId : ℤ) = -1 := congrArg Result.edgeId h
  omega

namespace Request

variable {q : Request}

/-- The shapes among the answers are those around the target. -/
lemma interior_mem_answers {id : ℕ} :
    Result.interior id ∈ q.answers D ↔
      q.settings.includeInteriors = true ∧ id ∈ q.containing q.settings.maxResults := by
  rw [mem_answers, mem_interiorAnswers]
  constructor
  · rintro (⟨hon, other, hmem, heq⟩ | h)
    · rw [← Result.interior_injective heq]
      exact ⟨hon, hmem⟩
    · obtain ⟨r, -, -, heq⟩ := mem_edgeAnswers.1 h
      exact absurd heq (EdgeRef.result_ne_interior r id)
  · rintro ⟨hon, hmem⟩
    exact Or.inl ⟨hon, id, hmem, rfl⟩

/-- Results name shapes. -/
lemma zero_le_shapeId_of_mem_run {r : Result} (h : r ∈ q.run) : 0 ≤ r.shapeId :=
  forall_run (P := fun r => 0 ≤ r.shapeId) (fun id _ => Int.natCast_nonneg id)
    (fun r _ _ _ _ => Int.natCast_nonneg r.shapeId) r h

/-- A shape among the results is one that the resolver has found. -/
lemma mem_containing_of_mem_run {id : ℕ} (h : Result.interior id ∈ q.run) :
    id ∈ q.containing q.settings.maxResults := by
  refine forall_run (P := fun r => ∀ id : ℕ, r = Result.interior id →
    id ∈ q.containing q.settings.maxResults) ?_ ?_ _ h id rfl
  · intro other hmem id heq
    rw [← Result.interior_injective heq]
    exact hmem
  · intro r _ m d _ id heq
    have hedge : (r.edgeId : ℤ) = -1 := congrArg Result.edgeId heq
    omega

end Request

/-! ### The first results -/

/-- The settings for another number of results. -/
def Settings.ofMaxResults (s : Settings) (n : ℕ) (hn : 0 < n) : Settings :=
  { s with maxResults := n, maxResults_pos := hn }

/-- Fewer results have fewer answers to come from. -/
lemma Target.answers_subset {x : Index} {n m : ℕ} (hnm : n ≤ m) (hn : 0 < n) (hm : 0 < m) :
    (t.request x (settings.ofMaxResults n hn) threshold).answers D ⊆
      (t.request x (settings.ofMaxResults m hm) threshold).answers D := by
  intro r hr
  rcases Request.mem_answers.1 hr with hr | hr
  · obtain ⟨hon, id, hid, rfl⟩ := Request.mem_interiorAnswers.1 hr
    refine Request.interior_mem_answers.2 ⟨hon, ?_⟩
    cases t with
    | site s => exact mem_firstIds_mono hnm hid
    | index t => exact mem_firstIds_mono hnm hid
  · exact Request.mem_answers.2 (Or.inr hr)

/-- Near a point, an edge or a cell the resolver finds the least shapes first. -/
lemma Site.mem_containing_of_mem_firstOf {s : Site} {x : Index}
    (hx : ∀ cell ∈ x.cells, cell.clipped.Pairwise fun a b => a.shapeId < b.shapeId) {n id : ℕ}
    (hle : n ≤ unlimited) (hid : Result.interior id ∈ firstOf n (((Target.site s).request x
      (settings.ofMaxResults unlimited (by decide)) threshold).answers D).sort) :
    id ∈ (Target.site s).containing x n := by
  have hsorted := s.pairwise_shapesAround hx
  have htake : ∀ limit, (Target.site s).containing x limit = (s.shapesAround x).take limit :=
    fun limit => firstIds_eq_take hsorted
  have hmem := Request.interior_mem_answers.1 ((Finset.mem_sort _).1 (mem_of_mem_firstOf hid))
  obtain ⟨hon, hall⟩ := hmem
  by_cases hn : n = unlimited
  · rw [hn]
    exact hall
  rw [htake]
  by_contra hnot
  -- The shapes found first are then all below `id`, so as many results come before it.
  have hdrop : id ∈ (s.shapesAround x).drop n := by
    have hmem : id ∈ (s.shapesAround x).take n ++ (s.shapesAround x).drop n := by
      rw [List.take_append_drop]
      exact mem_of_mem_firstIds hall
    exact (List.mem_append.1 hmem).resolve_left hnot
  have hbelow : ∀ other ∈ (s.shapesAround x).take n, other < id := by
    rw [← List.take_append_drop n (s.shapesAround x), List.pairwise_append] at hsorted
    exact fun other hother => hsorted.2.2 other hother id hdrop
  have hsub : ((s.shapesAround x).take n).toFinset.image (fun id : ℕ => Result.interior id) ⊆
      (((Target.site s).request x (settings.ofMaxResults unlimited (by decide))
        threshold).answers D).filter (· < Result.interior id) := by
    intro r hr
    obtain ⟨other, hother, rfl⟩ := Finset.mem_image.1 hr
    rw [List.mem_toFinset] at hother
    refine Finset.mem_filter.2 ⟨Request.interior_mem_answers.2 ⟨hon, ?_⟩,
      Result.interior_lt (hbelow other hother)⟩
    show other ∈ (Target.site s).containing x unlimited
    rw [htake]
    exact List.take_subset_take_left _ hle hother
  have hcard := Finset.card_le_card hsub
  have hlen : n ≤ (s.shapesAround x).length := by
    by_contra hlt
    rw [List.drop_eq_nil_of_le (not_le.1 hlt).le] at hdrop
    exact absurd hdrop List.not_mem_nil
  rw [Finset.card_image_of_injective _ Result.interior_injective,
    List.toFinset_card_of_nodup ((hsorted.imp ne_of_lt).sublist (List.take_sublist _ _)),
    List.length_take, Nat.min_eq_left hlen] at hcard
  rw [firstOf, if_neg hn, Result.mem_take_sort] at hid
  exact absurd hid.2 (not_lt.2 hcard)

variable (herr : settings.maxError = Chord.zero)
  (hD : ∀ r ∈ EdgeRef.all shapes, t.measure.toEdge r.edge = Closer.ofChord (D r))
  (hshows : (t.request (Index.build shapes indexSettings) settings threshold).usesBruteForce =
      false →
    t.measure.cap.isEmpty = false ∧
      ∀ r ∈ EdgeRef.all shapes, ∃ cell ∈ (Index.build shapes indexSettings).cells,
        t.measure.Shows (Index.build shapes indexSettings) D r cell)

include herr hD hshows

/-- The results without a limit are all answers, and no search finds more. -/
lemma Target.search_eq_firstOf_sort (hM : Chord.zero < settings.maxDistance) {n : ℕ}
    (hn : 0 < n) :
    t.search (Index.build shapes indexSettings) (settings.ofMaxResults n hn) threshold =
      firstOf n ((t.request (Index.build shapes indexSettings) (settings.ofMaxResults n hn)
        threshold).answers D).sort :=
  search_eq_firstOf herr hM hD hshows

/-- The search for `n` results finds the first `n` of all results exactly if the resolver has
found the shapes among them. -/
lemma Target.search_eq_firstOf_iff {n : ℕ} (hn : 0 < n) (hle : n ≤ unlimited) :
    let x := Index.build shapes indexSettings
    let all := t.search x (settings.ofMaxResults unlimited (by decide)) threshold
    (t.search x (settings.ofMaxResults n hn) threshold = firstOf n all ↔
      ∀ id : ℕ, Result.interior id ∈ firstOf n all → id ∈ t.containing x n) ∧
    ∀ s, t = .site s →
      ∀ id : ℕ, Result.interior id ∈ firstOf n all → id ∈ t.containing x n := by
  intro x all
  rcases le_or_gt settings.maxDistance Chord.zero with hM | hM
  · have hnone : ∀ m hm, t.search x (settings.ofMaxResults m hm) threshold = [] := fun m hm =>
      Request.run_of_le_zero (q := t.request x (settings.ofMaxResults m hm) threshold) hM
    have hfirst : firstOf n ([] : List Result) = [] := by
      simp only [firstOf]
      split
      · rfl
      · exact List.take_nil
    rw [show all = [] from hnone unlimited (by decide), hnone, hfirst]
    exact ⟨iff_of_true rfl fun id hid => absurd hid List.not_mem_nil,
      fun _ _ id hid => absurd hid List.not_mem_nil⟩
  · have hall : all = ((t.request x (settings.ofMaxResults unlimited (by decide))
        threshold).answers D).sort :=
      (search_eq_firstOf_sort herr hD hshows hM (by decide)).trans (if_pos rfl)
    rw [hall, search_eq_firstOf_sort herr hD hshows hM hn,
      firstOf_sort_eq_iff (answers_subset hle hn (by decide))]
    refine ⟨⟨?_, ?_⟩, ?_⟩
    · intro h id hid
      exact (Request.interior_mem_answers.1 (h _ hid)).2
    · intro h r hr
      have hmem : r ∈ (t.request x (settings.ofMaxResults unlimited (by decide))
          threshold).answers D := (Finset.mem_sort _).1 (mem_of_mem_firstOf hr)
      rcases Request.mem_answers.1 hmem with hinterior | hedge
      · obtain ⟨hon, id, -, rfl⟩ := Request.mem_interiorAnswers.1 hinterior
        exact Request.interior_mem_answers.2 ⟨hon, h id hr⟩
      · exact Request.mem_answers.2 (Or.inr hedge)
    · rintro s rfl id hid
      exact Site.mem_containing_of_mem_firstOf (fun _ => Index.pairwise_clipped) hle hid

omit herr hD hshows

/-! ### Queries -/

lemma Target.none_not_mem_search {x : Index} : Result.none ∉ t.search x settings threshold := by
  intro hmem
  have hle := Request.zero_le_shapeId_of_mem_run (q := t.request x settings threshold) hmem
  exact absurd hle (by decide)

/-- The heads of two lists of results agree exactly if the first list, which has at most one
element, is the first element of the other. -/
lemma headD_eq_iff {l all : List Result} (hlen : l.length ≤ 1) (hl : Result.none ∉ l)
    (hall : Result.none ∉ all) :
    l.headD Result.none = all.headD Result.none ↔ l = firstOf 1 all := by
  rw [firstOf, if_neg (by decide)]
  cases l with
  | nil =>
    cases all with
    | nil => exact iff_of_true rfl rfl
    | cons r rest =>
      refine iff_of_false ?_ (by simp)
      rintro rfl
      exact hall List.mem_cons_self
  | cons r rest =>
    obtain rfl : rest = [] := by simpa using hlen
    cases all with
    | nil =>
      refine iff_of_false ?_ (by simp)
      rintro rfl
      exact hl List.mem_cons_self
    | cons s others =>
      show r = s ↔ [r] = [s]
      rw [List.cons.injEq, and_iff_left rfl]

/-- **The first results.**  With exact distances, a query for `k` results returns the first `k`
of all results exactly if the resolver has found the shapes among them, and the closest edge is
the first of all results exactly if the resolver, asked for one shape, has found it when it is a
shape.  Near a point, an edge or a cell this is always so. -/
theorem Query.closestEdges_eq_firstOf_iff (t : Target) (shapes : List Shape)
    (indexSettings : Index.Settings) (settings : Settings) (threshold k : ℕ)
    (D : EdgeRef → Chord) (hk : 0 < k) (hle : k ≤ unlimited)
    (herr : settings.maxError = Chord.zero)
    (hD : ∀ r ∈ EdgeRef.all shapes, t.measure.toEdge r.edge = Closer.ofChord (D r))
    (hshows : (t.request (Index.build shapes indexSettings) settings threshold).usesBruteForce =
        false →
      t.measure.cap.isEmpty = false ∧
        ∀ r ∈ EdgeRef.all shapes, ∃ cell ∈ (Index.build shapes indexSettings).cells,
          t.measure.Shows (Index.build shapes indexSettings) D r cell) :
    let x := Index.build shapes indexSettings
    let query := fun (n : ℕ) (hn : 0 < n) =>
      (⟨x, { settings with maxResults := n, maxResults_pos := hn }, threshold⟩ : Query)
    let all := (query unlimited (by decide)).closestEdges t
    ((query k hk).closestEdges t = firstOf k all ↔
      ∀ id : ℕ, Result.interior id ∈ firstOf k all → id ∈ t.containing x k) ∧
    ((query k hk).closestEdge t = all.headD Result.none ↔
      ∀ id : ℕ, Result.interior id ∈ firstOf 1 all → id ∈ t.containing x 1) ∧
    ∀ s, t = .site s → (query k hk).closestEdges t = firstOf k all ∧
      (query k hk).closestEdge t = all.headD Result.none := by
  intro x query all
  obtain ⟨hedges, hsite⟩ := Target.search_eq_firstOf_iff herr hD hshows hk hle
  obtain ⟨hedge, hsite'⟩ := Target.search_eq_firstOf_iff herr hD hshows Nat.one_pos (by decide)
  have hone : (t.search x (settings.ofMaxResults 1 Nat.one_pos) threshold).length ≤ 1 := by
    rcases le_or_gt settings.maxDistance Chord.zero with hM | hM
    · have hnone : t.search x (settings.ofMaxResults 1 Nat.one_pos) threshold = [] :=
        Request.run_of_le_zero
          (q := t.request x (settings.ofMaxResults 1 Nat.one_pos) threshold) hM
      rw [hnone]
      exact Nat.zero_le 1
    · rw [Target.search_eq_firstOf_sort herr hD hshows hM Nat.one_pos, firstOf, if_neg (by decide)]
      exact List.length_take_le 1 _
  have hhead : (query k hk).closestEdge t = all.headD Result.none ↔
      t.search x (settings.ofMaxResults 1 Nat.one_pos) threshold = firstOf 1 all :=
    headD_eq_iff hone Target.none_not_mem_search Target.none_not_mem_search
  refine ⟨hedges, hhead.trans hedge, ?_⟩
  intro s hs
  exact ⟨hedges.2 (hsite s hs), hhead.2 (hedge.2 (hsite' s hs))⟩

/-- Near the north pole, the first two of three results. -/
theorem Query.closestEdges_eq_firstOf_north :
    let x := Index.build polarShapes ⟨10, 0, by decide, by decide⟩
    let query := fun (n : ℕ) (hn : 0 < n) => (⟨x, { Settings.default with
      maxResults := n, maxResults_pos := hn }, 0⟩ : Query)
    let t := Target.site (.point Point.north)
    (query 2 (by decide)).closestEdges t =
      firstOf 2 ((query unlimited (by decide)).closestEdges t) := by
  intro x query t
  have hcap : t.measure.cap.isEmpty = false := by decide +kernel
  exact ((closestEdges_eq_firstOf_iff t polarShapes ⟨10, 0, by decide, by decide⟩ .default 0 2
    (fun r => Chord.between Point.north r.edge.start) (by decide) (by decide) rfl
    closerPoint?_polarShapes fun _ => ⟨hcap, shows_polarShapes⟩).2.2 _ rfl).1

/-! ### Shapes that are found in another order -/

lemma Collector.kept_add_of_every {c : Collector} {l : List Result} (h : c.kept = .every l)
    (r : Result) : (c.add r).kept = .every (r :: l) := by
  simp only [add]
  rw [h]

lemma Result.interior_zero_le {r : Result} (hd : Chord.zero ≤ r.distance) (hs : 0 ≤ r.shapeId)
    (he : -1 ≤ r.edgeId) : Result.interior 0 ≤ r := by
  refine Prod.Lex.toLex_le_toLex.2 ?_
  rcases lt_or_eq_of_le hd with hlt | heq
  · exact Or.inl hlt
  · refine Or.inr ⟨heq, Prod.Lex.toLex_le_toLex.2 ?_⟩
    rcases lt_or_eq_of_le hs with hlt | heq
    · exact Or.inl hlt
    · exact Or.inr ⟨heq, he⟩

namespace Request

variable {q : Request}

/-- Without a limit on the number of results, every shape around the target is one. -/
lemma interior_mem_run (hall : q.settings.maxResults = unlimited)
    (herr : q.settings.maxError = Chord.zero) (hM : Chord.zero < q.settings.maxDistance)
    (hon : q.settings.includeInteriors = true) {id : ℕ} (hid : id ∈ q.containing unlimited) :
    ∃ l, q.run = Result.sort l ∧ Result.interior id ∈ l := by
  have hfold : ∀ (ids : List ℕ) (c : Collector),
      (∃ l, c.kept = .every l ∧ (id ∈ ids ∨ Result.interior id ∈ l)) →
      ∃ l, (ids.foldl (fun found (id : ℕ) => found.add (Result.interior id)) c).kept = .every l ∧
        Result.interior id ∈ l := by
    intro ids
    induction ids with
    | nil =>
      rintro c ⟨l, hkept, hmem⟩
      exact ⟨l, hkept, hmem.resolve_left List.not_mem_nil⟩
    | cons n rest ih =>
      rintro c ⟨l, hkept, hmem⟩
      refine ih _ ⟨Result.interior n :: l, Collector.kept_add_of_every hkept _, ?_⟩
      rcases hmem with hmem | hmem
      · rcases List.mem_cons.1 hmem with rfl | hmem
        · exact Or.inr List.mem_cons_self
        · exact Or.inl hmem
      · exact Or.inr (List.mem_cons_of_mem _ hmem)
  have hinteriors : ∃ l, q.interiors.kept = .every l ∧ Result.interior id ∈ l := by
    simp only [interiors]
    rw [if_pos hon, hall]
    exact hfold _ _ ⟨[], rfl, Or.inl hid⟩
  -- Nothing is removed when more results are added.
  have hmeasured : ∀ r, q.index.Lists r → ∀ s : State,
      (∃ l, s.found.kept = .every l ∧ Result.interior id ∈ l) →
        ∃ l, ((q.plan q.interiors.limit).measureEdge s r).found.kept = .every l ∧
          Result.interior id ∈ l := by
    intro r _ s hs
    refine Plan.measureEdge_induction
      (motive := fun c => ∃ l, c.kept = .every l ∧ Result.interior id ∈ l) hs fun d _ => ?_
    obtain ⟨l, hkept, hmem⟩ := hs
    exact ⟨⟨d, r.shapeId, r.edgeId⟩ :: l, Collector.kept_add_of_every hkept _,
      List.mem_cons_of_mem _ hmem⟩
  obtain ⟨l, hkept, hmem⟩ := searched_induction
    (motive := fun c => ∃ l, c.kept = .every l ∧ Result.interior id ∈ l) hmeasured hinteriors
  refine ⟨l, ?_, hmem⟩
  rw [run_of_zero_lt herr hM, Collector.results, hkept]
  rfl

/-- Without a limit on the number of results, shape `0` is the first one if it is around the
target. -/
lemma headD_run (hall : q.settings.maxResults = unlimited)
    (herr : q.settings.maxError = Chord.zero) (hM : Chord.zero < q.settings.maxDistance)
    (hon : q.settings.includeInteriors = true) (hid : 0 ∈ q.containing unlimited)
    (hzero : ∀ (e : Edge) (m d : Chord), q.measure.toEdge e m = some d → Chord.zero ≤ d) :
    q.run.headD Result.none = Result.interior 0 := by
  have hleast : ∀ r ∈ q.run, Result.interior 0 ≤ r :=
    forall_run (fun id _ => Result.interior_zero_le le_rfl (Int.natCast_nonneg id) le_rfl)
      fun r _ m d hd => Result.interior_zero_le (hzero r.edge m d hd)
        (Int.natCast_nonneg r.shapeId) (by dsimp only; omega)
  obtain ⟨l, hrun, hmem⟩ := interior_mem_run hall herr hM hon hid
  have hsorted := Finset.sortedLT_sort l.toFinset
  have hmem' : Result.interior 0 ∈ q.run := by
    rw [hrun, Result.sort_eq, Finset.mem_sort, List.mem_toFinset]
    exact hmem
  rw [← Result.sort_eq, ← hrun] at hsorted
  match hresults : q.run with
  | [] =>
    rw [hresults] at hmem'
    exact absurd hmem' List.not_mem_nil
  | r :: rest =>
    rw [hresults] at hmem' hleast hsorted
    rcases List.mem_cons.1 hmem' with heq | hrest
    · exact heq.symm
    · have hlt := (List.pairwise_cons.1 hsorted.pairwise).1 _ hrest
      exact absurd (hleast r List.mem_cons_self) (not_le.2 hlt)

end Request

/-- Without a limit on their number, shape `0` is the first result if it is around the target. -/
lemma Target.headD_search {x : Index} (hall : settings.maxResults = unlimited)
    (herr : settings.maxError = Chord.zero) (hM : Chord.zero < settings.maxDistance)
    (hon : settings.includeInteriors = true) (hid : 0 ∈ t.containing x unlimited) :
    (t.search x settings threshold).headD Result.none = Result.interior 0 := by
  refine Request.headD_run (q := t.request x settings threshold) hall herr hM hon hid ?_
  rw [(isApproximate_request herr threshold).2]
  exact fun _ _ _ hd => zero_le_of_toEdge hd

/-- The first axis. -/
def xAxis : Point := ⟨1.0, 0.0, 0.0⟩

/-- The second axis. -/
def yAxis : Point := ⟨0.0, 1.0, 0.0⟩

/-- The triangle between the three positive axes. -/
def octant : Loop := #[xAxis, yAxis, Point.north]

/-- A polygon bounded by the triangle, and the whole sphere. -/
def octantShapes (reference : ReferencePoint) : List Shape :=
  [.polygon ⟨[octant], reference⟩, .polygon .full]

/-- Whether the triangle's interior holds the anchor of face `0`. -/
def holdsOctantAnchor (reference : ReferencePoint) : Bool :=
  Clipping.geometric.holdsAnchor (.polygon ⟨[octant], reference⟩) (CellId.ofFace 0)

variable {reference : ReferencePoint}

/-- Two sides of the triangle may meet face `0`. -/
lemma survivors_octantShapes :
    Clipping.geometric.survivors (octantShapes reference) (CellId.ofFace 0) =
      [⟨0, 0, ⟨xAxis, yAxis⟩⟩, ⟨0, 2, ⟨Point.north, xAxis⟩⟩] := by
  have hall : EdgeRef.all (octantShapes reference) = [⟨0, 0, ⟨xAxis, yAxis⟩⟩,
      ⟨0, 1, ⟨yAxis, Point.north⟩⟩, ⟨0, 2, ⟨Point.north, xAxis⟩⟩] := rfl
  have h0 : Clipping.geometric.mayMeet (Cell.ofId (CellId.ofFace 0)) ⟨xAxis, yAxis⟩ = true := by
    decide +kernel
  have h1 : Clipping.geometric.mayMeet (Cell.ofId (CellId.ofFace 0))
      ⟨yAxis, Point.north⟩ = false := by decide +kernel
  have h2 : Clipping.geometric.mayMeet (Cell.ofId (CellId.ofFace 0))
      ⟨Point.north, xAxis⟩ = true := by decide +kernel
  rw [← Clipping.keep_all (by decide), hall]
  simp only [Clipping.keep]
  simp only [List.filter_cons, h0, h1, h2, if_true, Bool.false_eq_true, if_false, List.filter_nil]

/-- No face is divided, since there are only three sides. -/
lemma stopsAt_octantShapes :
    Clipping.geometric.StopsAt .default (octantShapes reference) (CellId.ofFace 0) := by
  refine ⟨⟨_, _, .ofFace (by decide)⟩, ?_, Clipping.crowded_face (by decide), Or.inr ?_⟩
  · rw [CellId.At.level_ofFace (by decide)]
    exact Nat.zero_le _
  · rw [survivors_octantShapes]
    decide

/-- A point on face `0` is inside the whole sphere, and inside the triangle according to the
sides between it and the anchor of the face. -/
lemma shapesAt_octantShapes (reference : ReferencePoint) {p : Point} {n : ℕ}
    (hp : (CellId.ofPoint p).At 0 n)
    (hn : n / 4 ^ CellId.maxLevel = 0) :
    (Index.build (octantShapes reference) .default).shapesAt p =
      (if holdsOctantAnchor reference ^^ (CellId.ofFace 0).anchor.crossesOdd p
        [⟨xAxis, yAxis⟩, ⟨Point.north, xAxis⟩] then [0] else []) ++ [1] := by
  have hleaf : Clipping.geometric.leaf? (octantShapes reference) (CellId.ofFace 0)
      (Clipping.geometric.survivors (octantShapes reference) (CellId.ofFace 0)) =
      some ⟨CellId.ofFace 0, [⟨0, holdsOctantAnchor reference, [0, 2]⟩, ⟨1, true, []⟩]⟩ := by
    rw [survivors_octantShapes]
    rfl
  have hface := CellId.At.ofFace (show 0 < CellId.faceCount by decide)
  refine (Index.shapesAt_eq_holding stopsAt_octantShapes hleaf hp
    ((hface.holds_iff hp (Nat.zero_le _)).2 hn)).trans ?_
  generalize holdsOctantAnchor reference = b
  have hregional : (Index.build (octantShapes reference) .default).regional
      ⟨CellId.ofFace 0, [⟨0, b, [0, 2]⟩, ⟨1, true, []⟩]⟩ = [⟨0, b, [0, 2]⟩, ⟨1, true, []⟩] := rfl
  have hsides : (Index.build (octantShapes reference) .default).clippedEdges ⟨0, b, [0, 2]⟩ =
      [⟨xAxis, yAxis⟩, ⟨Point.north, xAxis⟩] := rfl
  have hnone : (CellId.ofFace 0).anchor.crossesOdd p
      ((Index.build (octantShapes reference) .default).clippedEdges ⟨1, true, []⟩) = false := rfl
  show ((Index.build (octantShapes reference) .default).holding _ p) = _
  simp only [Index.holding]
  rw [hregional, List.filter_cons, List.filter_cons, List.filter_nil, hsides, hnone]
  split <;> rfl

lemma mem_firstOf_of_headD_eq {l : List Result} {r : Result} (h : l.headD Result.none = r)
    (hr : r ≠ Result.none) : r ∈ firstOf 1 l := by
  rw [firstOf, if_neg (by decide)]
  cases l with
  | nil => exact absurd h.symm hr
  | cons s rest =>
    obtain rfl : s = r := h
    exact List.mem_cons_self

/-- If the target is an index of two points, of which the first is inside shape `1` only and the
second inside shape `0` as well, then shape `0` is the first result, but a query for one result
returns shape `1`. -/
lemma Query.closestEdge_ne_headD {x : Index} {p₁ p₂ : Point} (h₁ : x.shapesAt p₁ = [1])
    (h₂ : x.shapesAt p₂ = [0, 1]) :
    let t := Target.index (.exact (Index.build [.points #[p₁, p₂]] .default) false)
    let query := fun (n : ℕ) (hn : 0 < n) => (⟨x, { Settings.default with
      maxResults := n, maxResults_pos := hn, includeInteriors := true }, unlimited⟩ : Query)
    let all := (query unlimited (by decide)).closestEdges t
    (query 1 Nat.one_pos).closestEdges t ≠ firstOf 1 all ∧
      (query 1 Nat.one_pos).closestEdge t ≠ all.headD Result.none := by
  intro t query all
  have hcontaining : ∀ limit, t.containing x limit = firstIds limit [1, 0, 1] := by
    intro limit
    show firstIds limit ([p₁, p₂].flatMap x.shapesAt) = _
    rw [List.flatMap_cons, List.flatMap_cons, h₁, h₂]
    rfl
  have hfirst : Result.interior 0 ∉ (query 1 Nat.one_pos).closestEdges t := by
    intro hmem
    have hid : 0 ∈ t.containing x 1 := Request.mem_containing_of_mem_run
      (q := t.request x { Settings.default with
        maxResults := 1, maxResults_pos := Nat.one_pos, includeInteriors := true } unlimited) hmem
    rw [hcontaining] at hid
    exact absurd hid (by decide)
  have hid : 0 ∈ t.containing x unlimited := by
    rw [hcontaining]
    decide
  have hM : Chord.zero < Settings.default.maxDistance := by decide
  have hhead : all.headD Result.none = Result.interior 0 :=
    Target.headD_search rfl rfl hM rfl hid
  have hall : Result.interior 0 ∈ firstOf 1 all := mem_firstOf_of_headD_eq hhead (by decide)
  constructor
  · intro heq
    rw [heq] at hfirst
    exact hfirst hall
  · intro heq
    exact hfirst (mem_of_mem_firstOf (mem_firstOf_of_headD_eq (heq.trans hhead) (by decide)))

/-- A point inside the triangle. -/
def innerPoint : Point := ⟨0.8, 0.48, 0.36⟩

/-- A point outside the triangle, on the same face. -/
def outerPoint : Point := ⟨0.8, -0.48, 0.36⟩

/-- The triangle and the whole sphere, with two points as the target of which one is inside the
triangle: if it comes second, then the first of all results is the triangle, but a query for one
result returns the sphere. -/
theorem Query.exists_closestEdge_ne_headD :
    ∃ (p : Polygon) (t : Target), Polygon.ofLoops [octant] = .ok p ∧
      let x := Index.build [.polygon p, .polygon .full] .default
      let query := fun (n : ℕ) (hn : 0 < n) => (⟨x, { Settings.default with
        maxResults := n, maxResults_pos := hn, includeInteriors := true }, unlimited⟩ : Query)
      let all := (query unlimited (by decide)).closestEdges t
      (query 1 Nat.one_pos).closestEdges t ≠ firstOf 1 all ∧
        (query 1 Nat.one_pos).closestEdge t ≠ all.headD Result.none := by
  obtain ⟨point, hpoint⟩ : ∃ point, Polygon.insidePoint? [octant] = some point :=
    Option.isSome_iff_exists.1 (by decide +kernel)
  have hpolygon : Polygon.ofLoops [octant] = .ok ⟨[octant], ⟨point, true⟩⟩ := by
    have hvalid : [octant].zipIdx.findSome? (fun p => Polygon.loopFault? p.1 p.2) =
        none := by decide +kernel
    simp only [Polygon.ofLoops]
    rw [hvalid, hpoint]
    rfl
  have hinner : (CellId.ofPoint innerPoint).At 0 506522499266611079 := by
    have hraw : (CellId.ofPoint innerPoint).raw = 1013044998533222159 := by decide +kernel
    exact ⟨by rw [hraw]; rfl, by decide, by decide⟩
  have houter : (CellId.ofPoint outerPoint).At 0 167427939088126674 := by
    have hraw : (CellId.ofPoint outerPoint).raw = 334855878176253349 := by decide +kernel
    exact ⟨by rw [hraw]; rfl, by decide, by decide⟩
  have hcrosses : (CellId.ofFace 0).anchor.crossesOdd innerPoint
      [⟨xAxis, yAxis⟩, ⟨Point.north, xAxis⟩] = true := by decide +kernel
  have hstays : (CellId.ofFace 0).anchor.crossesOdd outerPoint
      [⟨xAxis, yAxis⟩, ⟨Point.north, xAxis⟩] = false := by decide +kernel
  have hshapes := shapesAt_octantShapes ⟨point, true⟩ hinner (by decide)
  have hshapes' := shapesAt_octantShapes ⟨point, true⟩ houter (by decide)
  rw [hcrosses] at hshapes
  rw [hstays] at hshapes'
  -- Exactly one of the points is inside, whatever the reference point says about the anchor.
  cases hb : holdsOctantAnchor ⟨point, true⟩ with
  | true =>
    rw [hb] at hshapes hshapes'
    exact ⟨_, _, hpolygon, closestEdge_ne_headD hshapes hshapes'⟩
  | false =>
    rw [hb] at hshapes hshapes'
    exact ⟨_, _, hpolygon, closestEdge_ne_headD hshapes' hshapes⟩

end Search

end SphereSearch
