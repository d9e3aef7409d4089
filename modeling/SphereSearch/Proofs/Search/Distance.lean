import Mathlib.Order.Bounds.Basic
import SphereSearch.Proofs.Search.Prefix

/-!
# The distance of a query

The distance that a query measures is that of the least of all possible answers, infinite if there
is none (`Query.isLeast_distance`).
-/

namespace SphereSearch.Search

/-- The least of several results is the only one that a search for one result returns. -/
lemma firstOf_one_cases (S : Finset Result) :
    S = ∅ ∧ firstOf 1 S.sort = [] ∨ ∃ r, IsLeast (S : Set Result) r ∧ firstOf 1 S.sort = [r] := by
  rw [firstOf, if_neg (by decide)]
  have hmem : ∀ r, r ∈ S.sort ↔ r ∈ S := fun r => Finset.mem_sort _
  have hsorted := S.sortedLT_sort
  cases hsort : S.sort with
  | nil =>
    refine Or.inl ⟨Finset.eq_empty_iff_forall_notMem.2 fun r hr => ?_, rfl⟩
    rw [← hmem, hsort] at hr
    exact absurd hr List.not_mem_nil
  | cons r rest =>
    rw [hsort] at hsorted hmem
    refine Or.inr ⟨r, ⟨(hmem r).1 List.mem_cons_self, fun s hs => ?_⟩, rfl⟩
    rcases List.mem_cons.1 ((hmem s).2 hs) with rfl | hs
    · exact le_refl s
    · exact ((List.pairwise_cons.1 hsorted.pairwise).1 s hs).le

/-- The distance of the least result, infinite if there is none. -/
lemma isLeast_headD_firstOf_one (S : Finset Result) :
    IsLeast (insert Chord.infinity (Result.distance '' (S : Set Result)))
      ((firstOf 1 S.sort).headD Result.none).distance := by
  rcases firstOf_one_cases S with ⟨rfl, hnil⟩ | ⟨r, ⟨hr, hleast⟩, hone⟩
  · rw [hnil]
    refine ⟨Or.inl rfl, ?_⟩
    rintro d (rfl | ⟨s, hs, -⟩)
    · exact le_refl _
    · exact absurd hs (Finset.notMem_empty s)
  · rw [hone]
    refine ⟨Or.inr ⟨r, hr, rfl⟩, ?_⟩
    rintro d (rfl | ⟨s, hs, rfl⟩)
    · exact Chord.le_infinity _
    · exact Result.distance_le (hleast hs)

/-- **The distance of a query** without a limit is that of the least answer. -/
theorem Query.isLeast_distance {t : Target} {shapes : List Shape} {D : EdgeRef → Chord}
    (indexSettings : Index.Settings) (settings : Settings) (threshold : ℕ)
    (herr : settings.maxError = Chord.zero) (hM : settings.maxDistance = Chord.infinity)
    (hD : ∀ r ∈ EdgeRef.all shapes, t.measure.toEdge r.edge = Closer.ofChord (D r))
    (hshows : (t.request (Index.build shapes indexSettings) settings threshold).usesBruteForce =
        false →
      t.measure.cap.isEmpty = false ∧
        ∀ r ∈ EdgeRef.all shapes, ∃ cell ∈ (Index.build shapes indexSettings).cells,
          t.measure.Shows (Index.build shapes indexSettings) D r cell) :
    let x := Index.build shapes indexSettings
    IsLeast (insert Chord.infinity {d | (settings.includeInteriors = true ∧
        t.containing x 1 ≠ [] ∧ Chord.zero = d) ∨ ∃ r ∈ x.edges, D r = d})
      ((⟨x, settings, threshold⟩ : Query).distance t) := by
  intro x
  have hpos : Chord.zero < settings.maxDistance := by
    rw [hM]
    decide
  have hsearch := Target.search_eq_firstOf_sort herr hD hshows hpos Nat.one_pos
  show IsLeast _ ((t.search x (settings.ofMaxResults 1 Nat.one_pos) threshold).headD
    Result.none).distance
  rw [hsearch]
  convert isLeast_headD_firstOf_one _ using 1
  ext d
  constructor
  · rintro (rfl | ⟨hon, hcont, rfl⟩ | ⟨r, hr, rfl⟩)
    · exact Or.inl rfl
    · obtain ⟨id, hid⟩ := List.exists_mem_of_ne_nil _ hcont
      exact Or.inr ⟨Result.interior id, Request.interior_mem_answers.2 ⟨hon, hid⟩, rfl⟩
    · rcases lt_or_eq_of_le (Chord.le_infinity (D r)) with hlt | heq
      · exact Or.inr ⟨r.result D, Request.mem_answers_of_lt r hr (hM ▸ hlt), rfl⟩
      · exact Or.inl heq
  · rintro (rfl | ⟨a, ha, rfl⟩)
    · exact Or.inl rfl
    · rcases Request.mem_answers.1 ha with ha | ha
      · obtain ⟨hon, id, hid, rfl⟩ := Request.mem_interiorAnswers.1 ha
        exact Or.inr (Or.inl ⟨hon, List.ne_nil_of_mem hid, rfl⟩)
      · obtain ⟨r, hr, -, rfl⟩ := Request.mem_edgeAnswers.1 ha
        exact Or.inr (Or.inr ⟨r, hr, rfl⟩)

end SphereSearch.Search
