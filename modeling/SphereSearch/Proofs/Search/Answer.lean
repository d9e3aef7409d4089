import Mathlib.Data.Finset.Prod
import SphereSearch.Proofs.Search.BruteForce
import SphereSearch.Proofs.Search.Run
import SphereSearch.Proofs.Sphere.ChordDifference

/-!
# The form of an answer

Whatever the settings are, a search answers with different edges of the index, or shapes with an
interior, in ascending order, within the limit and not more than are wanted
(`Search.Target.wellFormed_search`).  All that the target has to grant is that it never reports a
distance which is not below the limit.

No edge is answered twice for one of three reasons.  By brute force each edge is measured once
(`Search.Gathered.foldl_offer`).  A search by cells meets edges again and again; either it
remembers which ones it has met (`Search.Plan.Proper.keeps_met`), or the target reports the same
distance each time, so that the same result is offered again (`Search.Plan.Proper.keeps_fixed`).
-/

namespace SphereSearch

/-- The edge with the given numbers. -/
def EdgeRef.HasPlace (r : EdgeRef) (a : Search.Result) : Prop :=
  a.shapeId = r.shapeId ∧ a.edgeId = r.edgeId

lemma Index.shape?_natCast (x : Index) (i : ℕ) : x.shape? (i : ℤ) = x.shapes[i]? := by
  simp only [shape?]
  rw [if_neg (by omega), Int.toNat_natCast]

namespace Search

/-- Two results are about the same edge, or about the interior of the same shape. -/
def Result.SamePlace (a b : Result) : Prop := a.shapeId = b.shapeId ∧ a.edgeId = b.edgeId

/-- A result is about an edge of a shape of the index, or about a shape with an interior. -/
def Result.Names (x : Index) (a : Result) : Prop :=
  ∃ s, x.shape? a.shapeId = some s ∧
    (a.edgeId = -1 ∧ s.hasInterior = true ∨ 0 ≤ a.edgeId ∧ a.edgeId < s.edgeCount)

/-- An edge of an index is named by its results. -/
lemma Result.names_edge {c : Clipping} {shapes : List Shape} {settings : Index.Settings}
    {r : EdgeRef} (hr : r ∈ EdgeRef.all shapes) (d : Chord) :
    Result.Names (Index.buildWith c shapes settings) ⟨d, r.shapeId, r.edgeId⟩ := by
  obtain ⟨s, hs, he⟩ := EdgeRef.mem_all.1 hr
  refine ⟨s, ?_, Or.inr ⟨Int.natCast_nonneg _, ?_⟩⟩
  · rw [Index.shape?_natCast]
    exact List.getElem?_toArray.trans hs
  · rw [Nat.cast_lt, ← s.isSome_edge?, he]
    rfl

/-! ### Results with different places -/

/-- A collector has been offered results for different places in an index. -/
structure Gathered (x : Index) (settings : Settings) (c : Collector) (S : Finset Result) :
    Prop where
  serves : c.Serves settings.maxResults settings.maxError settings.maxDistance S
  names : ∀ a ∈ S, a.Names x
  distinct : ∀ a ∈ S, ∀ b ∈ S, a.SamePlace b → a = b

lemma Gathered.add {x : Index} {settings : Settings} {c : Collector} {S : Finset Result}
    (h : Gathered x settings c S) {a : Result} (ha : a.distance < settings.maxDistance)
    (hnames : a.Names x) (hnew : ∀ b ∈ S, b.SamePlace a → b = a) :
    Gathered x settings (c.add a) (insert a S) where
  serves := h.serves.add ha
  names := by
    intro b hb
    rcases Finset.mem_insert.1 hb with rfl | hb
    · exact hnames
    · exact h.names b hb
  distinct := by
    intro b hb b' hb' hplace
    rcases Finset.mem_insert.1 hb with rfl | hold
    · rcases Finset.mem_insert.1 hb' with rfl | hold'
      · rfl
      · exact (hnew b' hold' ⟨hplace.1.symm, hplace.2.symm⟩).symm
    · rcases Finset.mem_insert.1 hb' with rfl | hold'
      · exact hnew b hold hplace
      · exact h.distinct b hold b' hold' hplace

/-- What a search has to rely on: the allowance for error lowers limits, the index lists edges of
its shapes, each under its own place, and the target reports only distances below the limit. -/
structure Plan.Proper (p : Plan) (settings : Settings) : Prop where
  sub_le : ∀ d : Chord, d - settings.maxError ≤ d
  wellFormed : p.index.WellFormed
  names : ∀ r ∈ p.index.edges, ∀ d, Result.Names p.index ⟨d, r.shapeId, r.edgeId⟩
  eq_of_place : ∀ r ∈ p.index.edges, ∀ r' ∈ p.index.edges, r.shapeId = r'.shapeId →
    r.edgeId = r'.edgeId → r = r'
  lt : ∀ r ∈ p.index.edges, ∀ m d, p.measure.toEdge r.edge m = some d → d < m

namespace Plan.Proper

variable {p : Plan} {settings : Settings} (hp : p.Proper settings) {s : State} {r : EdgeRef}
  {S : Finset Result}

include hp

/-- Measuring an edge adds at most one result for its place, if there is none yet or the same is
reported again. -/
lemma measureEdge (hr : r ∈ p.index.edges) (h : Gathered p.index settings s.found S)
    (hagain : ∀ a ∈ S, r.HasPlace a → ∀ d, p.measure.toEdge r.edge s.found.limit = some d →
      a.distance = d) :
    ∃ S', Gathered p.index settings (p.measureEdge s r).found S' ∧
      ∀ a ∈ S', a ∈ S ∨
        r.HasPlace a ∧ p.measure.toEdge r.edge s.found.limit = some a.distance := by
  simp only [Plan.measureEdge]
  split
  · rename_i d hd
    refine ⟨insert ⟨d, r.shapeId, r.edgeId⟩ S, h.add ?_ (hp.names r hr d) ?_, ?_⟩
    · exact (hp.lt r hr _ d hd).trans_le (h.serves.limit_le fun _ => hp.sub_le)
    · intro a ha hplace
      obtain ⟨distance, shapeId, edgeId⟩ := a
      obtain ⟨rfl, rfl⟩ := hplace
      rw [Result.mk.injEq]
      exact ⟨hagain _ ha ⟨rfl, rfl⟩ d hd, rfl, rfl⟩
    · intro a ha
      rcases Finset.mem_insert.1 ha with rfl | ha
      · exact Or.inr ⟨⟨rfl, rfl⟩, hd⟩
      · exact Or.inl ha
  · exact ⟨S, h, fun a ha => Or.inl ha⟩

/-- **Each edge once.**  Edges that are offered one after the other, all at different places,
give different results. -/
lemma foldl_offer (honce : p.once = false) {rs : List EdgeRef}
    (hrs : ∀ r ∈ rs, r ∈ p.index.edges)
    (hplaces : rs.Pairwise fun r r' => ¬ (r.shapeId = r'.shapeId ∧ r.edgeId = r'.edgeId))
    (h : Gathered p.index settings s.found S) (hnew : ∀ r ∈ rs, ∀ a ∈ S, ¬ r.HasPlace a) :
    ∃ S', Gathered p.index settings (rs.foldl p.offer s).found S' := by
  induction rs generalizing s S with
  | nil => exact ⟨S, h⟩
  | cons r rest ih =>
    obtain ⟨hfirst, hrest⟩ := List.pairwise_cons.1 hplaces
    obtain ⟨S', h', hadded⟩ := hp.measureEdge (hrs r List.mem_cons_self) h
      fun a ha hplace => absurd hplace (hnew r List.mem_cons_self a ha)
    rw [List.foldl_cons, offer_eq_measureEdge honce]
    refine ih (fun e he => hrs e (List.mem_cons_of_mem _ he)) hrest h' ?_
    intro e he a ha hplace
    rcases hadded a ha with ha | ⟨hplace', -⟩
    · exact hnew e (List.mem_cons_of_mem _ he) a ha hplace
    · exact hfirst e he ⟨by exact_mod_cast hplace'.1.symm.trans hplace.1,
        by exact_mod_cast hplace'.2.symm.trans hplace.2⟩

/-- **Edges that were met.**  A search that measures edges only once remembers each edge for
which there is a result. -/
lemma keeps_met (honce : p.once = true) :
    p.Keeps fun s => ∃ S, Gathered p.index settings s.found S ∧
      ∀ a ∈ S, ∀ r ∈ p.index.edges, r.HasPlace a → (r.shapeId, r.edgeId) ∈ s.met where
  requeue _ _ h := h
  offer := by
    rintro s cell r hr ⟨S, h, hmet⟩
    have hlisted := hp.wellFormed.mem_edges cell r hr
    simp only [Plan.offer]
    rw [if_pos honce]
    split
    · exact ⟨S, h, hmet⟩
    · rename_i hunmet
      rw [List.contains_iff_mem] at hunmet
      obtain ⟨S', h', hadded⟩ := hp.measureEdge
        (s := { s with met := (r.shapeId, r.edgeId) :: s.met }) hlisted h
        fun a ha hplace => absurd (hmet a ha r hlisted hplace) hunmet
      refine ⟨S', h', ?_⟩
      rw [met_measureEdge]
      intro a ha e he hplace
      rcases hadded a ha with ha | ⟨hplace', -⟩
      · exact List.mem_cons_of_mem _ (hmet a ha e he hplace)
      · have hshape : e.shapeId = r.shapeId := by exact_mod_cast hplace.1.symm.trans hplace'.1
        have hedge : e.edgeId = r.edgeId := by exact_mod_cast hplace.2.symm.trans hplace'.2
        rw [hshape, hedge]
        exact List.mem_cons_self

/-- **Fixed distances.**  If the target always reports the same distance for an edge, then a
search that measures it again adds nothing. -/
lemma keeps_fixed (honce : p.once = false)
    (hfixed : ∀ r ∈ p.index.edges, ∃ D, ∀ m d, p.measure.toEdge r.edge m = some d → d = D) :
    p.Keeps fun s => ∃ S, Gathered p.index settings s.found S ∧
      ∀ a ∈ S, ∀ r ∈ p.index.edges, r.HasPlace a →
        ∃ m, p.measure.toEdge r.edge m = some a.distance where
  requeue _ _ h := h
  offer := by
    rintro s cell r hr ⟨S, h, hreported⟩
    have hlisted := hp.wellFormed.mem_edges cell r hr
    obtain ⟨S', h', hadded⟩ := hp.measureEdge hlisted h (by
      intro a ha hplace d hd
      obtain ⟨m, hm⟩ := hreported a ha r hlisted hplace
      obtain ⟨D, hD⟩ := hfixed r hlisted
      rw [hD m _ hm, hD _ d hd])
    rw [offer_eq_measureEdge honce]
    refine ⟨S', h', ?_⟩
    intro a ha e he hplace
    rcases hadded a ha with ha | ⟨hplace', hd⟩
    · exact hreported a ha e he hplace
    · rw [hp.eq_of_place e he r hlisted (by exact_mod_cast hplace.1.symm.trans hplace'.1)
        (by exact_mod_cast hplace.2.symm.trans hplace'.2)]
      exact ⟨_, hd⟩

end Plan.Proper

/-! ### Whole searches -/

namespace Request

variable {q : Request}

/-- The shapes around the target are different places. -/
lemma gathered_interiors (hM : Chord.zero < q.settings.maxDistance)
    (hinterior : ∀ id ∈ q.containing q.settings.maxResults, q.index.HasInterior id) :
    Gathered q.index q.settings q.interiors q.interiorAnswers where
  serves := serves_interiors hM
  names := by
    intro a ha
    obtain ⟨-, id, hid, rfl⟩ := mem_interiorAnswers.1 ha
    obtain ⟨s, hs, hs'⟩ := hinterior id hid
    exact ⟨s, (Index.shape?_natCast _ id).trans hs, Or.inl ⟨rfl, hs'⟩⟩
  distinct := by
    intro a ha b hb hplace
    obtain ⟨-, i, -, rfl⟩ := mem_interiorAnswers.1 ha
    obtain ⟨-, j, -, rfl⟩ := mem_interiorAnswers.1 hb
    rw [show (i : ℤ) = j from hplace.1]

/-- No edge has the place of an interior. -/
lemma not_hasPlace_of_mem_interiorAnswers {a : Result} (ha : a ∈ q.interiorAnswers)
    (r : EdgeRef) : ¬ r.HasPlace a := by
  obtain ⟨-, id, -, rfl⟩ := mem_interiorAnswers.1 ha
  rintro ⟨-, hedge⟩
  have hneg : (-1 : ℤ) = r.edgeId := hedge
  omega

/-- **Different places.**  Whichever way a search goes, its collector is offered results for
different places only. -/
lemma exists_gathered (hM : Chord.zero < q.settings.maxDistance)
    (hinterior : ∀ id ∈ q.containing q.settings.maxResults, q.index.HasInterior id)
    (hp : (q.plan q.interiors.limit).Proper q.settings)
    (hplaces : q.index.edges.Pairwise fun r r' =>
      ¬ (r.shapeId = r'.shapeId ∧ r.edgeId = r'.edgeId))
    (hfixed : q.usesBruteForce = false → (q.plan q.interiors.limit).once = false →
      ∀ r ∈ q.index.edges, ∃ D, ∀ m d, q.measure.toEdge r.edge m = some d → d = D) :
    ∃ c S, q.run = c.results ∧ Gathered q.index q.settings c S := by
  have hstart := gathered_interiors hM hinterior
  have hnone : ∀ a ∈ q.interiorAnswers, ∀ r : EdgeRef, ¬ r.HasPlace a :=
    fun a ha r => not_hasPlace_of_mem_interiorAnswers ha r
  rw [run_eq hM]
  split
  · exact ⟨_, _, rfl, hstart⟩
  · cases hbrute : q.usesBruteForce with
    | true =>
      have honce : (q.plan q.interiors.limit).once = false := by
        show (!q.usesBruteForce && _ && _) = false
        rw [hbrute]
        rfl
      obtain ⟨S, hS⟩ := hp.foldl_offer (s := ⟨q.interiors, [], .empty⟩) honce (fun _ hr => hr)
        hplaces hstart fun r _ a ha => hnone a ha r
      exact ⟨_, S, rfl, hS⟩
    | false =>
      cases honce : (q.plan q.interiors.limit).once with
      | true =>
        obtain ⟨S, hS, -⟩ := (hp.keeps_met honce).bestFirst q.interiors
          ⟨_, hstart, fun a ha r _ hplace => absurd hplace (hnone a ha r)⟩
        exact ⟨_, S, rfl, hS⟩
      | false =>
        obtain ⟨S, hS, -⟩ := (hp.keeps_fixed honce (hfixed hbrute honce)).bestFirst
          q.interiors
          ⟨_, hstart, fun a ha r _ hplace => absurd hplace (hnone a ha r)⟩
        exact ⟨_, S, rfl, hS⟩

end Request

/-- There are fewer places in an index than the number that stands for no limit. -/
lemma Gathered.card_le {c : Clipping} {shapes : List Shape} {indexSettings : Index.Settings}
    {settings : Settings} {found : Collector} {S : Finset Result}
    (h : Gathered (Index.buildWith c shapes indexSettings) settings found S)
    (hshapes : shapes.length < 2 ^ 31) (hedges : ∀ s ∈ shapes, s.edgeCount < 2 ^ 31) :
    S.card ≤ unlimited := by
  have hnames : ∀ a ∈ S, ∃ i < shapes.length, a.shapeId = (i : ℕ) ∧ -1 ≤ a.edgeId ∧
      a.edgeId < 2 ^ 31 := by
    intro a ha
    obtain ⟨s, hs, hedge⟩ := h.names a ha
    simp only [Index.shape?] at hs
    split at hs
    · exact absurd hs (by simp)
    · have hget : shapes[a.shapeId.toNat]? = some s := List.getElem?_toArray.symm.trans hs
      have hcount := hedges s (List.mem_of_getElem? hget)
      refine ⟨a.shapeId.toNat, (List.getElem?_eq_some_iff.1 hget).1, by omega, ?_, ?_⟩
      · omega
      · omega
  -- The place of a result, counting the interior of a shape as its first edge.
  have hmaps : ∀ a ∈ S, (a.shapeId.toNat, (a.edgeId + 1).toNat) ∈
      Finset.range shapes.length ×ˢ Finset.range (2 ^ 31 + 1) := by
    intro a ha
    obtain ⟨i, hi, hshape, hle, hlt⟩ := hnames a ha
    rw [Finset.mem_product, Finset.mem_range, Finset.mem_range]
    dsimp only
    omega
  have hinj : Set.InjOn (fun a : Result => (a.shapeId.toNat, (a.edgeId + 1).toNat)) S := by
    intro a ha b hb hab
    obtain ⟨i, -, hshape, hle, -⟩ := hnames a ha
    obtain ⟨j, -, hshape', hle', -⟩ := hnames b hb
    obtain ⟨h₁, h₂⟩ := Prod.mk.inj hab
    exact h.distinct a ha b hb ⟨by omega, by omega⟩
  have hcard := Finset.card_le_card_of_injOn _ hmaps hinj
  rw [Finset.card_product, Finset.card_range, Finset.card_range] at hcard
  have hmul : shapes.length * (2 ^ 31 + 1) ≤ 2 ^ 31 * (2 ^ 31 + 1) :=
    Nat.mul_le_mul_right _ hshapes.le
  have hunlimited : unlimited = 2 ^ 64 - 1 := rfl
  omega

/-- **The form of an answer.**  If subtracting the allowance for error never makes a distance
greater, the target reports only distances below the limit it is given, and, where a search by
cells does not suppress duplicates, one distance for each edge, then the answers are strictly
ascending and not more than are wanted, all of them are closer than the limit and name an edge of
the index or a shape with an interior, and no two of them are about the same place. -/
theorem Target.wellFormed_search (t : Target) (shapes : List Shape)
    (indexSettings : Index.Settings) (settings : Settings) (threshold : ℕ)
    (hshapes : shapes.length < 2 ^ 31) (hedges : ∀ s ∈ shapes, s.edgeCount < 2 ^ 31)
    (hsub : ∀ d : Chord, d - settings.maxError ≤ d)
    (hlt : ∀ r ∈ EdgeRef.all shapes, ∀ m d,
      (t.request (Index.build shapes indexSettings) settings threshold).measure.toEdge r.edge m =
        some d → d < m)
    (hfixed :
      let q := t.request (Index.build shapes indexSettings) settings threshold
      q.usesBruteForce = false → (q.plan q.interiors.limit).once = false →
        ∀ r ∈ EdgeRef.all shapes, ∃ D, ∀ m d, q.measure.toEdge r.edge m = some d → d = D) :
    let x := Index.build shapes indexSettings
    let results := t.search x settings threshold
    results.SortedLT ∧ results.length ≤ settings.maxResults ∧
      (∀ a ∈ results, a.distance < settings.maxDistance ∧ a.Names x) ∧
      results.Pairwise fun a b => ¬ a.SamePlace b := by
  intro x results
  let q := t.request x settings threshold
  by_cases hM : Chord.zero < settings.maxDistance
  · have hp : (q.plan q.interiors.limit).Proper q.settings :=
      ⟨hsub, Index.wellFormed_buildWith _ shapes indexSettings,
        fun r hr d => Result.names_edge hr d,
        fun r hr r' hr' hshape hedge => EdgeRef.eq_of_mem_all hr hr' hshape hedge, hlt⟩
    have hplaces : x.edges.Pairwise fun r r' =>
        ¬ (r.shapeId = r'.shapeId ∧ r.edgeId = r'.edgeId) :=
      (EdgeRef.pairwise_all shapes).imp fun hlt heq => by omega
    obtain ⟨c, S, hrun, hS⟩ := Request.exists_gathered (q := q) hM
      (fun id hid => hasInterior_of_mem_containing hid) hp hplaces hfixed
    have hresults : results = firstOf settings.maxResults S.sort :=
      (show results = c.results from hrun).trans hS.serves.results_eq
    have hcard := hS.card_le hshapes hedges
    rw [firstOf_eq_take (by rw [Finset.length_sort]; exact hcard)] at hresults
    have hmem : ∀ a ∈ results, a ∈ S := by
      intro a ha
      rw [hresults] at ha
      exact (Finset.mem_sort _).1 (List.mem_of_mem_take ha)
    have hsorted : results.SortedLT := by
      rw [hresults]
      exact (S.sortedLT_sort.pairwise.sublist (List.take_sublist _ _)).sortedLT
    refine ⟨hsorted, ?_, fun a ha => ⟨hS.serves.represents.below a (hmem a ha),
      hS.names a (hmem a ha)⟩, ?_⟩
    · rw [hresults, List.length_take]
      exact Nat.min_le_left _ _
    · refine hsorted.pairwise.imp_of_mem ?_
      intro a b ha hb hab hplace
      exact hab.ne (hS.distinct a (hmem a ha) b (hmem b hb) hplace)
  · have hnone : results = [] := Request.run_of_le_zero (q := q) (not_lt.1 hM)
    rw [hnone]
    exact ⟨List.Pairwise.nil.sortedLT, Nat.zero_le _, fun a ha => absurd ha List.not_mem_nil,
      .nil⟩

/-- Two nearest points, found by cells. -/
theorem Target.wellFormed_search_north :
    let x := Index.build polarShapes .default
    let t := Target.site (.point Point.north)
    let settings := { Settings.default with maxResults := 2, maxResults_pos := by decide }
    let results := t.search x settings 0
    (∀ d : Chord, d - settings.maxError ≤ d) ∧ results.SortedLT ∧ results.length ≤ 2 ∧
      (∀ a ∈ results, a.distance < Chord.infinity ∧ a.Names x) ∧
      results.Pairwise fun a b => ¬ a.SamePlace b := by
  intro x t settings results
  have hsub : ∀ d : Chord, d - settings.maxError ≤ d := fun d => (Chord.sub_zero d).le
  have hcloser : ∀ r ∈ EdgeRef.all polarShapes,
      (t.request (Index.build polarShapes .default) settings 0).measure.toEdge r.edge =
        Closer.ofChord (Chord.between Point.north r.edge.start) := by
    rw [(isApproximate_request rfl 0).2]
    exact closerPoint?_polarShapes
  refine ⟨hsub, wellFormed_search t polarShapes .default settings 0 (by decide) (by decide) hsub
    ?_ ?_⟩
  · intro r hr m d hd
    rw [hcloser r hr] at hd
    obtain ⟨hlt, rfl⟩ := Closer.eq_some_of_ofChord hd
    exact hlt
  · intro q _ _ r hr
    refine ⟨Chord.between Point.north r.edge.start, fun m d hd => ?_⟩
    simp only [q] at hd
    rw [hcloser r hr] at hd
    exact (Closer.eq_some_of_ofChord hd).2

end Search

end SphereSearch
