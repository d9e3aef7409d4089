import Mathlib.Data.List.Basic
import SphereSearch.Index.Decomposition
import SphereSearch.Proofs.Shape.Edges

/-!
# Candidates and single edges

A cell carries its edges shape by shape, drops the shapes that have none left, and takes them up
again side by side with all shapes.  None of this can be seen in the result: candidates stand for
the list of their edges (`Candidate.flat`), of which a cell keeps those that may meet it
(`Clipping.flat_narrow`), and the entry of a shape has the edges in this list that belong to the
shape (`Clipping.entries_zipIdx`).  So what a cell records can be told from the list alone
(`Clipping.record?_eq_leaf?`).
-/

namespace SphereSearch

namespace Candidate

variable {candidates : List Candidate} {p q : EdgeRef → Bool} {shapes : List Shape}

/-- All edges of the candidates. -/
def flat (candidates : List Candidate) : List EdgeRef := candidates.flatMap (·.edges)

lemma flat_cons (d : Candidate) (candidates : List Candidate) :
    flat (d :: candidates) = d.edges ++ flat candidates := rfl

/-- The number of edges of candidates is the length of their list. -/
lemma edgeCount_eq (candidates : List Candidate) :
    edgeCount candidates = (flat candidates).length := by
  induction candidates with
  | nil => rfl
  | cons d rest ih =>
    rw [flat_cons, List.length_append, ← ih]
    rfl

/-- Leaving out what has no edges loses no edge. -/
lemma flat_filterMap {α : Type} {f : α → Option Candidate} {g : α → List EdgeRef}
    (h : ∀ a, (f a).elim [] Candidate.edges = g a) (l : List α) :
    flat (l.filterMap f) = l.flatMap g := by
  induction l with
  | nil => rfl
  | cons a rest ih =>
    have ha := h a
    rw [List.flatMap_cons, ← ih, ← ha]
    cases hf : f a with
    | none => rw [List.filterMap_cons_none hf, Option.elim_none, List.nil_append]
    | some d => rw [List.filterMap_cons_some hf, flat_cons, Option.elim_some]

/-- All candidates together list all edges. -/
lemma flat_all (shapes : List Shape) : flat (all shapes) = EdgeRef.all shapes := by
  refine flat_filterMap (fun p => ?_) shapes.zipIdx
  obtain ⟨s, shapeId⟩ := p
  simp only [ofShape?]
  split
  · rfl
  · rename_i hnone
    have hnil : s.edges = [] := by
      simp only [Shape.edges]
      rw [Nat.eq_zero_of_not_pos hnone]
      rfl
    rw [hnil]
    rfl

/-- The edges with a property, without the shapes that have none. -/
def restrict (p : EdgeRef → Bool) (candidates : List Candidate) : List Candidate :=
  candidates.filterMap (restrict? p)

lemma flat_restrict (p : EdgeRef → Bool) (candidates : List Candidate) :
    flat (restrict p candidates) = (flat candidates).filter p := by
  simp only [restrict, flat]
  rw [List.filter_flatMap]
  refine flat_filterMap (fun d => ?_) candidates
  simp only [restrict?]
  split
  · rename_i hempty
    exact (List.isEmpty_iff.1 hempty).symm
  · rfl

/-- Restricting twice restricts to both properties. -/
lemma restrict_restrict (p q : EdgeRef → Bool) (candidates : List Candidate) :
    restrict q (restrict p candidates) = restrict (fun r => q r && p r) candidates := by
  simp only [restrict]
  rw [List.filterMap_filterMap]
  refine List.filterMap_congr fun d _ => ?_
  simp only [restrict?]
  rw [← List.filter_filter]
  by_cases hempty : (d.edges.filter p).isEmpty = true
  · rw [if_pos hempty, List.isEmpty_iff.1 hempty]
    rfl
  · rw [if_neg hempty, Option.bind_some]
    rfl

lemma restrict_congr (h : ∀ r ∈ flat candidates, p r = q r) :
    restrict p candidates = restrict q candidates := by
  simp only [restrict]
  refine List.filterMap_congr fun d hd => ?_
  simp only [restrict?]
  rw [List.filter_congr fun r hr => h r (List.mem_flatMap.2 ⟨d, hd, hr⟩)]

/-! ### In the order of the shapes -/

/-- Candidates are listed by ascending number of the shape, with edges of this shape. -/
structure Ordered (candidates : List Candidate) : Prop where
  ascending : candidates.Pairwise fun d e => d.shapeId < e.shapeId
  shapeId_eq : ∀ d ∈ candidates, ∀ r ∈ d.edges, r.shapeId = d.shapeId

lemma ordered_all (shapes : List Shape) : Ordered (all shapes) := by
  have hof : ∀ (p : Shape × ℕ) (d : Candidate), ofShape? p.1 p.2 = some d →
      d.shapeId = p.2 ∧ ∀ r ∈ d.edges, r.shapeId = p.2 := by
    intro p d hd
    simp only [ofShape?] at hd
    split at hd
    · obtain rfl := Option.some.inj hd
      refine ⟨rfl, fun r hr => ?_⟩
      obtain ⟨q, -, rfl⟩ := List.mem_map.1 hr
      rfl
    · exact absurd hd (by simp)
  refine ⟨?_, ?_⟩
  · refine (pairwise_zipIdx shapes).filterMap _ fun p q hpq d hd e he => ?_
    rw [(hof p d hd).1, (hof q e he).1]
    exact hpq
  · intro d hd r hr
    obtain ⟨p, -, hp⟩ := List.mem_filterMap.1 hd
    rw [(hof p d hp).2 r hr, (hof p d hp).1]

lemma eq_of_restrict? {d e : Candidate} (h : restrict? p d = some e) :
    e = ⟨d.shapeId, d.edges.filter p⟩ := by
  simp only [restrict?] at h
  split at h
  · exact absurd h (by simp)
  · exact (Option.some.inj h).symm

lemma Ordered.restrict (h : Ordered candidates) (p : EdgeRef → Bool) :
    Ordered (restrict p candidates) := by
  refine ⟨?_, ?_⟩
  · refine h.ascending.filterMap _ fun d e hde d' hd e' he => ?_
    rw [eq_of_restrict? hd, eq_of_restrict? he]
    exact hde
  · intro e he r hr
    obtain ⟨d, hd, hsome⟩ := List.mem_filterMap.1 he
    rw [eq_of_restrict? hsome] at hr ⊢
    exact h.shapeId_eq d hd r (List.mem_of_mem_filter hr)

/-- The edges of the first candidate are all those of its shape. -/
lemma Ordered.filter_head {d : Candidate} (h : Ordered (d :: candidates)) :
    (flat (d :: candidates)).filter (·.shapeId = d.shapeId) = d.edges := by
  obtain ⟨hlt, -⟩ := List.pairwise_cons.1 h.ascending
  have hhead : d.edges.filter (·.shapeId = d.shapeId) = d.edges :=
    List.filter_eq_self.2 fun r hr =>
      decide_eq_true (h.shapeId_eq d List.mem_cons_self r hr)
  have htail : (flat candidates).filter (·.shapeId = d.shapeId) = [] := by
    refine List.filter_eq_nil_iff.2 fun r hr => ?_
    obtain ⟨e, he, hr⟩ := List.mem_flatMap.1 hr
    have hid := h.shapeId_eq e (List.mem_cons_of_mem _ he) r hr
    have hless := hlt e he
    rw [decide_eq_true_iff]
    omega
  rw [flat_cons, List.filter_append, hhead, htail, List.append_nil]

/-- The first candidate has no edges of other shapes. -/
lemma Ordered.filter_tail {d : Candidate} (h : Ordered (d :: candidates)) {i : ℕ}
    (hi : d.shapeId ≠ i) :
    (flat (d :: candidates)).filter (·.shapeId = i) = (flat candidates).filter (·.shapeId = i) := by
  have hhead : d.edges.filter (·.shapeId = i) = [] := by
    refine List.filter_eq_nil_iff.2 fun r hr => ?_
    rw [decide_eq_true_iff, h.shapeId_eq d List.mem_cons_self r hr]
    exact hi
  rw [flat_cons, List.filter_append, hhead, List.nil_append]

lemma Ordered.tail {d : Candidate} (h : Ordered (d :: candidates)) : Ordered candidates :=
  ⟨(List.pairwise_cons.1 h.ascending).2, fun e he => h.shapeId_eq e (List.mem_cons_of_mem _ he)⟩

/-- No edges are listed of a shape before the first candidate. -/
lemma Ordered.filter_eq_nil (h : Ordered candidates) {i : ℕ}
    (hi : ∀ d ∈ candidates, d.shapeId ≠ i) :
    (flat candidates).filter (·.shapeId = i) = [] := by
  refine List.filter_eq_nil_iff.2 fun r hr => ?_
  obtain ⟨d, hd, hr⟩ := List.mem_flatMap.1 hr
  rw [decide_eq_true_iff, h.shapeId_eq d hd r hr]
  exact hi d hd

end Candidate

namespace Clipping

variable {c : Clipping} {id : CellId} {candidates : List Candidate}

/-- The edges of a list that a cell keeps. -/
def keep (c : Clipping) (id : CellId) (candidates : List EdgeRef) : List EdgeRef :=
  let cell := Cell.ofId id
  candidates.filter fun r => c.mayMeet cell r.edge

/-- What a cell records of one shape, told from the list of all edges that it keeps. -/
def clip? (c : Clipping) (id : CellId) (kept : List EdgeRef) (s : Shape) (shapeId : Nat) :
    Option ClippedShape :=
  let edges := (kept.filter (·.shapeId = shapeId)).map (·.edgeId)
  let inside := c.holdsAnchor s id
  if edges.isEmpty && !inside then none else some ⟨shapeId, inside, edges⟩

/-- The index cell for a cell that is not split, told from the list of all edges that it
keeps. -/
def leaf? (c : Clipping) (shapes : List Shape) (id : CellId) (kept : List EdgeRef) :
    Option IndexCell :=
  let clipped := shapes.zipIdx.filterMap fun (s, shapeId) => c.clip? id kept s shapeId
  if clipped.isEmpty then none else some ⟨id, clipped⟩

lemma id_of_mem_leaf? {shapes : List Shape} {kept : List EdgeRef} {cell : IndexCell}
    (h : cell ∈ c.leaf? shapes id kept) : cell.id = id := by
  simp only [leaf?] at h
  split at h
  · exact absurd h (by simp)
  · rw [← Option.some.inj h]

lemma flat_narrow (c : Clipping) (id : CellId) (candidates : List Candidate) :
    Candidate.flat (c.narrow id candidates) = c.keep id (Candidate.flat candidates) :=
  Candidate.flat_restrict _ candidates

lemma clip?_eq_clipTo? (kept : List EdgeRef) (s : Shape) (shapeId : ℕ) :
    c.clip? id kept s shapeId =
      c.clipTo? id s shapeId ((kept.filter (·.shapeId = shapeId)).map (·.edgeId)) := rfl

/-- The first shape gets the edges that the list has of it, and for the others the list may change
where it is about shapes before them. -/
lemma filterMap_clip?_cons {s : Shape} {shapes : List Shape} {n : ℕ} {edges : List ℕ}
    {kept rest : List EdgeRef} (hedges : (kept.filter (·.shapeId = n)).map (·.edgeId) = edges)
    (hrest : ∀ i, n < i → rest.filter (·.shapeId = i) = kept.filter (·.shapeId = i)) :
    (c.clipTo? id s n edges).toList ++
        ((shapes.zipIdx (n + 1)).filterMap fun p => c.clip? id rest p.1 p.2) =
      ((s, n) :: shapes.zipIdx (n + 1)).filterMap fun p => c.clip? id kept p.1 p.2 := by
  have htail : ((shapes.zipIdx (n + 1)).filterMap fun p => c.clip? id rest p.1 p.2) =
      (shapes.zipIdx (n + 1)).filterMap fun p => c.clip? id kept p.1 p.2 := by
    refine List.filterMap_congr fun p hp => ?_
    have hlt := (List.mem_zipIdx hp).1
    rw [clip?_eq_clipTo?, clip?_eq_clipTo?, hrest p.2 hlt]
  rw [htail, List.filterMap_cons, clip?_eq_clipTo?, hedges]
  cases c.clipTo? id s n edges with
  | none => rfl
  | some t => rfl

/-- **Side by side.**  Going through shapes and candidates side by side, each shape gets its edges,
as long as no candidate comes before the first shape. -/
lemma entries_zipIdx (shapes : List Shape) (n : ℕ) (hordered : Candidate.Ordered candidates)
    (hfirst : ∀ d ∈ candidates, n ≤ d.shapeId) :
    c.entries id (shapes.zipIdx n) candidates =
      (shapes.zipIdx n).filterMap fun p =>
        c.clip? id (Candidate.flat candidates) p.1 p.2 := by
  induction shapes generalizing n candidates with
  | nil => rfl
  | cons s shapes ih =>
    rw [List.zipIdx_cons]
    cases candidates with
    | nil =>
      rw [entries, ih (n + 1) hordered (by simp)]
      exact filterMap_clip?_cons rfl fun _ _ => rfl
    | cons d candidates =>
      obtain ⟨hlt, -⟩ := List.pairwise_cons.1 hordered.ascending
      have hd := hfirst d List.mem_cons_self
      rw [entries]
      by_cases heq : d.shapeId = n
      · subst heq
        rw [if_pos rfl, ih (d.shapeId + 1) hordered.tail hlt]
        exact filterMap_clip?_cons (congrArg _ hordered.filter_head)
          fun i hi => (hordered.filter_tail (Nat.ne_of_lt hi)).symm
      · have hafter : ∀ e ∈ d :: candidates, n + 1 ≤ e.shapeId := by
          intro e he
          rcases List.mem_cons.1 he with rfl | he
          · omega
          · have hless := hlt e he
            omega
        rw [if_neg heq, ih (n + 1) hordered hafter]
        refine filterMap_clip?_cons ?_ fun _ _ => rfl
        rw [hordered.filter_eq_nil fun e he => Nat.ne_of_gt (hafter e he)]
        rfl

/-- What a cell records is told from the list of all edges that it keeps. -/
lemma record?_eq_leaf? (shapes : List Shape) (hordered : Candidate.Ordered candidates) :
    c.record? shapes id candidates = c.leaf? shapes id (Candidate.flat candidates) := by
  simp only [record?, leaf?]
  rw [entries_zipIdx shapes 0 hordered fun d _ => Nat.zero_le _]

end Clipping

end SphereSearch
