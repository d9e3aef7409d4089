import SphereSearch.Proofs.Index.Candidates
import SphereSearch.Proofs.Index.Cells

/-!
# Which edges an index lists

An index cell is a cell of the grid at which division stops (`Clipping.StopsAt`), and it lists
the edges that may meet it and every cell of the grid around it (`Clipping.survivors`).  So an
edge is listed somewhere exactly if it survives down to such a cell
(`Index.exists_mem_edgesOf_iff`).  That is the case if no cell on the way loses the edge, that
is, if one of its quarters may meet the edge whenever the cell itself may
(`Index.exists_mem_edgesOf_of_no_gap`).

Nothing in the geometry guarantees this.  A point that passes for one of unit length can lie
outside the caps around all six faces, and then the index does not list it
(`Index.exists_not_mem_edgesOf_corner`).
-/

namespace SphereSearch

namespace Clipping

/-- The edges that may meet a cell and every cell of the grid around it. -/
def survivors (c : Clipping) (shapes : List Shape) (id : CellId) : List EdgeRef :=
  (EdgeRef.all shapes).filter fun r =>
    ∀ level ≤ id.level, c.mayMeet (Cell.ofId (id.parentAt level)) r.edge = true

/-- Division stops at a cell: too many edges are left in every cell around it, but not in the
cell itself, or it is as small as cells may be. -/
structure StopsAt (c : Clipping) (settings : Index.Settings) (shapes : List Shape) (id : CellId) :
    Prop where
  exists_at : ∃ h n, id.At h n
  level_le : id.level ≤ settings.maxLevel
  crowded : ∀ level < id.level, settings.maxEdges < (c.survivors shapes (id.parentAt level)).length
  stops : id.level = settings.maxLevel ∨ (c.survivors shapes id).length ≤ settings.maxEdges

variable {c : Clipping} {settings : Index.Settings} {shapes : List Shape} {id leaf : CellId}
  {h n k : ℕ}

lemma mem_survivors {r : EdgeRef} :
    r ∈ c.survivors shapes id ↔ r ∈ EdgeRef.all shapes ∧
      ∀ level ≤ id.level, c.mayMeet (Cell.ofId (id.parentAt level)) r.edge = true := by
  simp only [survivors]
  rw [List.mem_filter, decide_eq_true_iff]

/-! ### What is kept on the way -/

/-- An edge reaches a cell if it may meet the cell and every cell of the grid around it. -/
def reaches (c : Clipping) (id : CellId) (e : Edge) : Bool :=
  decide (∀ level ≤ id.level, c.mayMeet (Cell.ofId (id.parentAt level)) e = true)

/-- The candidates of a cell, told without the way to it. -/
def candidatesAt (c : Clipping) (shapes : List Shape) (id : CellId) : List Candidate :=
  Candidate.restrict (fun r => c.reaches id r.edge) (Candidate.all shapes)

lemma flat_candidatesAt (c : Clipping) (shapes : List Shape) (id : CellId) :
    Candidate.flat (c.candidatesAt shapes id) = c.survivors shapes id := by
  simp only [candidatesAt]
  rw [Candidate.flat_restrict, Candidate.flat_all]
  rfl

/-- What a cell records is told from the edges that reach it. -/
lemma record?_candidatesAt (c : Clipping) (shapes : List Shape) (id : CellId) :
    c.record? shapes id (c.candidatesAt shapes id) = c.leaf? shapes id (c.survivors shapes id) := by
  have hordered : Candidate.Ordered (c.candidatesAt shapes id) :=
    (Candidate.ordered_all shapes).restrict _
  rw [record?_eq_leaf? shapes hordered, flat_candidatesAt]

/-- A face is reached if it may be met. -/
lemma reaches_face {face : ℕ} (hface : face < CellId.faceCount) (e : Edge) :
    c.reaches (CellId.ofFace face) e = c.mayMeet (Cell.ofId (CellId.ofFace face)) e := by
  have hself := (CellId.At.ofFace hface).parentAt_level
  rw [CellId.At.level_ofFace hface] at hself
  rw [Bool.eq_iff_iff, reaches, decide_eq_true_iff, CellId.At.level_ofFace hface]
  constructor
  · intro hr
    have hzero := hr 0 le_rfl
    rw [hself] at hzero
    exact hzero
  · intro hr level hl
    rw [Nat.le_zero.1 hl, hself]
    exact hr

/-- A quarter is reached if it may be met and the cell is reached. -/
lemma reaches_child (ha : id.At (h + 1) n) (hk : k < 4) (e : Edge) :
    c.reaches (id.child k) e = (c.mayMeet (Cell.ofId (id.child k)) e && c.reaches id e) := by
  have hself := (ha.child hk).parentAt_level
  have hlevel := ha.level_child hk
  rw [Bool.eq_iff_iff, Bool.and_eq_true, reaches, reaches, decide_eq_true_iff, decide_eq_true_iff]
  constructor
  · intro hr
    refine ⟨?_, ?_⟩
    · have hmeets := hr (id.child k).level le_rfl
      rw [hself] at hmeets
      exact hmeets
    · intro level hl
      rw [← ha.parentAt_child hk hl]
      exact hr level (by omega)
  · rintro ⟨hmeets, hr⟩ level hl
    rcases Nat.lt_or_eq_of_le hl with hlt | rfl
    · rw [ha.parentAt_child hk (by omega)]
      exact hr level (by omega)
    · rw [hself]
      exact hmeets

lemma narrow_all {face : ℕ} (hface : face < CellId.faceCount) :
    c.narrow (CellId.ofFace face) (Candidate.all shapes) =
      c.candidatesAt shapes (CellId.ofFace face) :=
  Candidate.restrict_congr fun r _ => (reaches_face hface r.edge).symm

lemma narrow_candidatesAt (ha : id.At (h + 1) n) (hk : k < 4) :
    c.narrow (id.child k) (c.candidatesAt shapes id) = c.candidatesAt shapes (id.child k) :=
  (Candidate.restrict_restrict _ _ _).trans
    (Candidate.restrict_congr fun r _ => (reaches_child ha hk r.edge).symm)

lemma keep_all {face : ℕ} (hface : face < CellId.faceCount) :
    c.keep (CellId.ofFace face) (EdgeRef.all shapes) =
      c.survivors shapes (CellId.ofFace face) := by
  rw [← flat_candidatesAt, ← narrow_all hface, flat_narrow, Candidate.flat_all]

lemma keep_survivors (ha : id.At (h + 1) n) (hk : k < 4) :
    c.keep (id.child k) (c.survivors shapes id) = c.survivors shapes (id.child k) := by
  rw [← flat_candidatesAt, ← flat_candidatesAt, ← narrow_candidatesAt ha hk, flat_narrow]

/-- Around a quarter of a crowded cell everything is crowded, if everything around the cell
is. -/
lemma crowded_child {maxEdges : ℕ} (ha : id.At (h + 1) n) (hk : k < 4)
    (hcrowded : ∀ level < id.level,
      maxEdges < (c.survivors shapes (id.parentAt level)).length)
    (hmany : maxEdges < (c.survivors shapes id).length) :
    ∀ level < (id.child k).level,
      maxEdges < (c.survivors shapes ((id.child k).parentAt level)).length := by
  intro level hl
  rw [ha.level_child hk] at hl
  rw [ha.parentAt_child hk (Nat.le_of_lt_succ hl)]
  rcases Nat.lt_succ_iff_lt_or_eq.1 hl with hlt | rfl
  · exact hcrowded level hlt
  · rw [ha.parentAt_level]
    exact hmany

/-- Around a face there is nothing. -/
lemma crowded_face {maxEdges face : ℕ} (hface : face < CellId.faceCount) :
    ∀ level < (CellId.ofFace face).level,
      maxEdges < (c.survivors shapes ((CellId.ofFace face).parentAt level)).length := by
  intro level hl
  rw [CellId.At.level_ofFace hface] at hl
  exact absurd hl (Nat.not_lt_zero level)

/-! ### Where division stops -/

/-- Inside a cell at which division stops there is no other one. -/
lemma StopsAt.eq_of_holds (hid : c.StopsAt settings shapes id)
    (hleaf : c.StopsAt settings shapes leaf) (hold : id.Holds leaf) : leaf = id := by
  obtain ⟨h, n, ha⟩ := hid.exists_at
  obtain ⟨h', n', hb⟩ := hleaf.exists_at
  obtain ⟨level, hl, hparent⟩ := ha.exists_eq_parentAt hb hold
  have hheight := ha.height_le_of_holds hb hold
  have hlevel := ha.level_eq
  have hlevel' := hb.level_eq
  rcases Nat.lt_or_eq_of_le hheight with hlt | rfl
  · -- The cell lies around the other one, so it is crowded.
    have hle := ha.height_le
    have hless : level < leaf.level := by
      have hself := (hb.parentAt hl).height_eq
      rw [← hparent, ha.height_eq] at hself
      omega
    have hcrowded := hleaf.crowded level hless
    rw [← hparent] at hcrowded
    have hmax := hleaf.level_le
    rcases hid.stops with hstop | hstop
    · omega
    · omega
  · exact ha.eq_of_holds hb hold

/-- Division stops only once around a leaf. -/
lemma StopsAt.eq_of_holds_leaf {other : CellId} (hid : c.StopsAt settings shapes id)
    (hother : c.StopsAt settings shapes other) (hleaf : leaf.At 0 k) (hold : id.Holds leaf)
    (hold' : other.Holds leaf) : id = other := by
  obtain ⟨h, n, ha⟩ := hid.exists_at
  obtain ⟨h', n', hb⟩ := hother.exists_at
  obtain ⟨hlow, hhigh⟩ := hleaf.overlap hold hold'
  rcases ha.holds_or_holds hb hlow hhigh with hin | hin
  · exact (hid.eq_of_holds hother hin).symm
  · exact hother.eq_of_holds hid hin

/-- Inside a cell whose surroundings are crowded, division stops around every leaf. -/
lemma exists_stopsAt_of_holds {levels : ℕ} (ha : id.At h n)
    (hlevels : id.level + levels = settings.maxLevel)
    (hcrowded : ∀ level < id.level,
      settings.maxEdges < (c.survivors shapes (id.parentAt level)).length)
    (hleaf : leaf.At 0 k) (hold : id.Holds leaf) :
    ∃ stop, c.StopsAt settings shapes stop ∧ stop.Holds leaf := by
  induction levels generalizing id h n with
  | zero => exact ⟨id, ⟨⟨h, n, ha⟩, by omega, hcrowded, Or.inl (by omega)⟩, hold⟩
  | succ levels ih =>
    by_cases hfew : (c.survivors shapes id).length ≤ settings.maxEdges
    · exact ⟨id, ⟨⟨h, n, ha⟩, by omega, hcrowded, Or.inr hfew⟩, hold⟩
    · have hlevel := ha.level_eq
      have hmax := settings.maxLevel_le
      obtain ⟨h', rfl⟩ : ∃ h', h = h' + 1 := ⟨h - 1, by omega⟩
      have hne : leaf ≠ id := by
        rintro rfl
        have hheight := hleaf.height_eq
        rw [ha.height_eq] at hheight
        omega
      obtain ⟨-, quarter, hquarter, hin⟩ := ha.exists_child hleaf hold hne
      have hnext := ha.level_child hquarter
      exact ih (ha.child hquarter) (by omega)
        (crowded_child ha hquarter hcrowded (not_le.1 hfew)) hin

/-- Division stops around every leaf. -/
theorem exists_stopsAt (c : Clipping) (settings : Index.Settings) (shapes : List Shape)
    (hleaf : leaf.At 0 k) : ∃ id, c.StopsAt settings shapes id ∧ id.Holds leaf := by
  have hface : k / 4 ^ CellId.maxLevel < CellId.faceCount := by
    rw [Nat.div_lt_iff_lt_mul (Nat.pow_pos (by decide))]
    exact hleaf.number_lt
  have hlevels : (CellId.ofFace (k / 4 ^ CellId.maxLevel)).level + settings.maxLevel =
      settings.maxLevel := by
    rw [CellId.At.level_ofFace hface, Nat.zero_add]
  exact exists_stopsAt_of_holds (.ofFace hface) hlevels (crowded_face hface) hleaf
    (((CellId.At.ofFace hface).holds_iff hleaf (Nat.zero_le _)).2 rfl)

/-- Division that stops at a cell stops nowhere else inside. -/
lemma StopsAt.mem_singleton_iff (hid : c.StopsAt settings shapes id)
    {p : CellId × List Candidate} :
    p ∈ [(id, c.candidatesAt shapes id)] ↔
      c.StopsAt settings shapes p.1 ∧ id.Holds p.1 ∧ p.2 = c.candidatesAt shapes p.1 := by
  rw [List.mem_singleton]
  constructor
  · rintro rfl
    exact ⟨hid, .refl id, rfl⟩
  · rintro ⟨hleaf, hold, hkept⟩
    rw [hid.eq_of_holds hleaf hold] at hkept
    exact Prod.ext (hid.eq_of_holds hleaf hold) hkept

/-- **Division finds where it stops.**  Dividing a cell whose surroundings are crowded leads to
the cells inside it at which division stops, with the edges that reach them. -/
theorem mem_leavesIn_iff {levels : ℕ} (ha : id.At h n)
    (hlevels : id.level + levels = settings.maxLevel) {candidates : List Candidate}
    (hnarrow : c.narrow id candidates = c.candidatesAt shapes id)
    (hcrowded : ∀ level < id.level,
      settings.maxEdges < (c.survivors shapes (id.parentAt level)).length)
    {p : CellId × List Candidate} :
    p ∈ c.leavesIn settings.maxEdges levels id candidates ↔
      c.StopsAt settings shapes p.1 ∧ id.Holds p.1 ∧ p.2 = c.candidatesAt shapes p.1 := by
  induction levels generalizing id h n candidates with
  | zero =>
    simp only [leavesIn]
    rw [hnarrow]
    exact StopsAt.mem_singleton_iff ⟨⟨h, n, ha⟩, by omega, hcrowded, Or.inl (by omega)⟩
  | succ levels ih =>
    simp only [leavesIn]
    rw [hnarrow, Candidate.edgeCount_eq, flat_candidatesAt]
    split
    · rename_i hmany
      have hlevel := ha.level_eq
      have hmax := settings.maxLevel_le
      obtain ⟨h', rfl⟩ : ∃ h', h = h' + 1 := ⟨h - 1, by omega⟩
      have hquarter : ∀ k < 4, (p ∈ c.leavesIn settings.maxEdges levels (id.child k)
          (c.candidatesAt shapes id) ↔ c.StopsAt settings shapes p.1 ∧
            (id.child k).Holds p.1 ∧ p.2 = c.candidatesAt shapes p.1) := by
        intro k hk
        have hnext := ha.level_child hk
        exact ih (ha.child hk) (by omega) (narrow_candidatesAt ha hk)
          (crowded_child ha hk hcrowded hmany)
      rw [List.mem_flatMap]
      constructor
      · rintro ⟨id', hid', hp⟩
        obtain ⟨k, hk, rfl⟩ := List.mem_map.1 hid'
        obtain ⟨hleaf, hold, hkept⟩ := (hquarter k (List.mem_range.1 hk)).1 hp
        exact ⟨hleaf, (ha.holds_child (List.mem_range.1 hk)).trans hold, hkept⟩
      · rintro ⟨hleaf, hold, hkept⟩
        obtain ⟨H, N, hat⟩ := hleaf.exists_at
        have hne : p.1 ≠ id := by
          rintro rfl
          rcases hleaf.stops with hstop | hstop
          · omega
          · omega
        obtain ⟨-, k, hk, hchild⟩ := ha.exists_child hat hold hne
        exact ⟨id.child k, List.mem_map_of_mem (List.mem_range.2 hk),
          (hquarter k hk).2 ⟨hleaf, hchild, hkept⟩⟩
    · rename_i hfew
      exact StopsAt.mem_singleton_iff ⟨⟨h, n, ha⟩, by omega, hcrowded, Or.inr (by omega)⟩

/-- All cells at which division stops are found, with the edges that reach them. -/
theorem mem_leaves_iff {p : CellId × List Candidate} :
    p ∈ c.leaves settings shapes ↔
      c.StopsAt settings shapes p.1 ∧ p.2 = c.candidatesAt shapes p.1 := by
  have hface : ∀ face < CellId.faceCount, (p ∈ c.leavesIn settings.maxEdges settings.maxLevel
      (CellId.ofFace face) (Candidate.all shapes) ↔ c.StopsAt settings shapes p.1 ∧
        (CellId.ofFace face).Holds p.1 ∧ p.2 = c.candidatesAt shapes p.1) := by
    intro face hf
    have hlevel := CellId.At.level_ofFace hf
    exact mem_leavesIn_iff (.ofFace hf) (by omega) (narrow_all hf) (crowded_face hf)
  simp only [leaves]
  rw [List.mem_flatMap]
  constructor
  · rintro ⟨face, hf, hp⟩
    obtain ⟨hleaf, -, hkept⟩ := (hface face (List.mem_range.1 hf)).1 hp
    exact ⟨hleaf, hkept⟩
  · rintro ⟨hleaf, hkept⟩
    obtain ⟨h, n, ha⟩ := hleaf.exists_at
    have hf : n / 4 ^ (CellId.maxLevel - h) < CellId.faceCount := by
      rw [Nat.div_lt_iff_lt_mul (Nat.pow_pos (by decide))]
      exact ha.number_lt
    exact ⟨_, List.mem_range.2 hf, (hface _ hf).2 ⟨hleaf,
      ((CellId.At.ofFace hf).holds_iff ha ha.height_le).2 rfl, hkept⟩⟩

/-- The index cells are what is recorded of the cells at which division stops. -/
theorem mem_cells_iff {cell : IndexCell} :
    cell ∈ c.cells settings shapes ↔ ∃ leaf, c.StopsAt settings shapes leaf ∧
      c.leaf? shapes leaf (c.survivors shapes leaf) = some cell := by
  simp only [cells]
  rw [List.mem_filterMap]
  constructor
  · rintro ⟨⟨leaf, kept⟩, hleaf, hcell⟩
    obtain ⟨hstops, hkept⟩ := mem_leaves_iff.1 hleaf
    dsimp only at hcell hstops hkept
    rw [hkept, record?_candidatesAt] at hcell
    exact ⟨leaf, hstops, hcell⟩
  · rintro ⟨leaf, hstops, hcell⟩
    exact ⟨(leaf, c.candidatesAt shapes leaf), mem_leaves_iff.2 ⟨hstops, rfl⟩,
      (record?_candidatesAt c shapes leaf).trans hcell⟩

/-! ### What is listed -/

/-- What is recorded of a cell, in the order of the shapes. -/
lemma clipped_of_leaf? {kept : List EdgeRef} {cell : IndexCell}
    (hcell : c.leaf? shapes id kept = some cell) :
    cell.clipped = shapes.zipIdx.filterMap fun (s, shapeId) => c.clip? id kept s shapeId := by
  simp only [leaf?] at hcell
  split at hcell
  · exact absurd hcell (by simp)
  · rw [← Option.some.inj hcell]

lemma shapeId_of_clip? {kept : List EdgeRef} {shape : Shape} {shapeId : ℕ} {s : ClippedShape}
    (hclip : c.clip? id kept shape shapeId = some s) : s.shapeId = shapeId := by
  simp only [clip?] at hclip
  split at hclip
  · exact absurd hclip (by simp)
  · rw [← Option.some.inj hclip]

/-- What is recorded of a shape names its edges that are kept. -/
lemma exists_clip? (c : Clipping) (id : CellId) {kept : List EdgeRef} {r : EdgeRef}
    (hr : r ∈ kept) (shape : Shape) :
    ∃ s, c.clip? id kept shape r.shapeId = some s ∧ s.shapeId = r.shapeId ∧
      r.edgeId ∈ s.edges := by
  have hmem : r.edgeId ∈ (kept.filter (·.shapeId = r.shapeId)).map (·.edgeId) :=
    List.mem_map_of_mem (List.mem_filter.2 ⟨hr, decide_eq_true rfl⟩)
  have hempty : ((kept.filter (·.shapeId = r.shapeId)).map (·.edgeId)).isEmpty = false := by
    rw [List.isEmpty_eq_false_iff]
    exact List.ne_nil_of_mem hmem
  refine ⟨⟨r.shapeId, c.holdsAnchor shape id, _⟩, ?_, rfl, hmem⟩
  simp only [clip?]
  rw [hempty, Bool.false_and, if_neg Bool.false_ne_true]

/-- What is recorded of a cell names the edges that are kept there. -/
lemma exists_mem_clipped_iff {kept : List EdgeRef} (hkept : ∀ r ∈ kept, r ∈ EdgeRef.all shapes)
    {cell : IndexCell} (hcell : c.leaf? shapes id kept = some cell) {i e : ℕ} :
    (∃ s ∈ cell.clipped, s.shapeId = i ∧ e ∈ s.edges) ↔
      ∃ r ∈ kept, r.shapeId = i ∧ r.edgeId = e := by
  rw [clipped_of_leaf? hcell]
  constructor
  · rintro ⟨s, hs, rfl, he⟩
    obtain ⟨⟨shape, shapeId⟩, -, hclip⟩ := List.mem_filterMap.1 hs
    simp only [clip?] at hclip
    split at hclip
    · exact absurd hclip (by simp)
    · rw [← Option.some.inj hclip] at he ⊢
      obtain ⟨r, hr, rfl⟩ := List.mem_map.1 he
      obtain ⟨hr, hid⟩ := List.mem_filter.1 hr
      exact ⟨r, hr, of_decide_eq_true hid, rfl⟩
  · rintro ⟨r, hr, rfl, rfl⟩
    obtain ⟨shape, hshape, -⟩ := EdgeRef.mem_all.1 (hkept r hr)
    obtain ⟨s, hclip, hs⟩ := exists_clip? c id hr shape
    exact ⟨s, List.mem_filterMap.2
      ⟨(shape, r.shapeId), List.mk_mem_zipIdx_iff_getElem?.2 hshape, hclip⟩, hs⟩

/-- A cell of which something is recorded for a shape becomes an index cell. -/
lemma exists_leaf?_of_clip? {kept : List EdgeRef} {shape : Shape} {i : ℕ} {s : ClippedShape}
    (hshape : shapes[i]? = some shape) (hclip : c.clip? id kept shape i = some s) :
    ∃ cell, c.leaf? shapes id kept = some cell := by
  have hmem : s ∈ shapes.zipIdx.filterMap fun (s, shapeId) => c.clip? id kept s shapeId :=
    List.mem_filterMap.2 ⟨(shape, i), List.mk_mem_zipIdx_iff_getElem?.2 hshape, hclip⟩
  refine ⟨⟨id, shapes.zipIdx.filterMap fun (s, shapeId) => c.clip? id kept s shapeId⟩, ?_⟩
  simp only [leaf?]
  rw [List.isEmpty_eq_false_iff.2 (List.ne_nil_of_mem hmem), if_neg Bool.false_ne_true]

/-- Something is recorded of every cell at which edges are kept. -/
lemma exists_leaf? (c : Clipping) (id : CellId) {kept : List EdgeRef} {r : EdgeRef}
    (hr : r ∈ kept) (hall : r ∈ EdgeRef.all shapes) :
    ∃ cell, c.leaf? shapes id kept = some cell := by
  obtain ⟨shape, hshape, -⟩ := EdgeRef.mem_all.1 hall
  obtain ⟨s, hclip, -⟩ := exists_clip? c id hr shape
  exact exists_leaf?_of_clip? hshape hclip

end Clipping

namespace Index

variable {shapes : List Shape} {settings : Settings} {r : EdgeRef}

/-- An index cell lists the edges that survive down to it. -/
lemma mem_edgesOf_iff {c : Clipping} {id : CellId} {cell : IndexCell}
    (hcell : c.leaf? shapes id (c.survivors shapes id) = some cell) :
    r ∈ (buildWith c shapes settings).edgesOf cell ↔ r ∈ c.survivors shapes id := by
  have hkept : ∀ r ∈ c.survivors shapes id, r ∈ EdgeRef.all shapes :=
    fun r hr => (Clipping.mem_survivors.1 hr).1
  rw [mem_edgesOf, edge?_buildWith, Clipping.exists_mem_clipped_iff hkept hcell]
  constructor
  · rintro ⟨⟨other, hother, hshape, hedge⟩, hr⟩
    rw [← EdgeRef.eq_of_mem_all (hkept other hother) hr hshape hedge]
    exact hother
  · exact fun hr => ⟨⟨r, hr, rfl, rfl⟩, hkept r hr⟩

/-- The cells of an index are what is recorded of the cells at which division stops. -/
lemma mem_cells_buildWith {c : Clipping} {cell : IndexCell} :
    cell ∈ (buildWith c shapes settings).cells ↔ ∃ id, c.StopsAt settings shapes id ∧
      c.leaf? shapes id (c.survivors shapes id) = some cell := by
  rw [← Array.mem_toList_iff]
  exact Clipping.mem_cells_iff

/-- An index cell records shapes by ascending number. -/
lemma pairwise_clipped {c : Clipping} {cell : IndexCell}
    (hcell : cell ∈ (buildWith c shapes settings).cells) :
    cell.clipped.Pairwise fun a b => a.shapeId < b.shapeId := by
  obtain ⟨id, -, hleaf⟩ := mem_cells_buildWith.1 hcell
  rw [Clipping.clipped_of_leaf? hleaf]
  refine (pairwise_zipIdx shapes).filterMap _ ?_
  intro p q hpq a ha b hb
  rw [Clipping.shapeId_of_clip? ha, Clipping.shapeId_of_clip? hb]
  exact hpq

/-- What survives down to a cell at which division stops is listed. -/
lemma exists_mem_edgesOf_of_stopsAt {c : Clipping} {id : CellId}
    (hstops : c.StopsAt settings shapes id) (hr : r ∈ c.survivors shapes id) :
    ∃ cell ∈ (buildWith c shapes settings).cells,
      r ∈ (buildWith c shapes settings).edgesOf cell := by
  obtain ⟨cell, hleaf⟩ := Clipping.exists_leaf? c id hr (Clipping.mem_survivors.1 hr).1
  exact ⟨cell, mem_cells_buildWith.2 ⟨id, hstops, hleaf⟩, (mem_edgesOf_iff hleaf).2 hr⟩

/-- **Which edges are listed.**  An edge is listed by some index cell exactly if there is a cell
at which division stops, and the edge may meet this cell and every cell of the grid around
it. -/
theorem exists_mem_edgesOf_iff (shapes : List Shape) (settings : Settings) (r : EdgeRef) :
    (∃ cell ∈ (build shapes settings).cells, r ∈ (build shapes settings).edgesOf cell) ↔
      ∃ id, Clipping.geometric.StopsAt settings shapes id ∧
        r ∈ Clipping.geometric.survivors shapes id := by
  constructor
  · rintro ⟨cell, hcell, hr⟩
    obtain ⟨id, hstops, hleaf⟩ := mem_cells_buildWith.1 hcell
    exact ⟨id, hstops, (mem_edgesOf_iff hleaf).1 hr⟩
  · rintro ⟨id, hstops, hr⟩
    exact exists_mem_edgesOf_of_stopsAt hstops hr

/-- **No gap, no loss.**  An edge that may meet a face is listed, if every cell of the grid that
it may meet has a quarter that it may meet. -/
theorem exists_mem_edgesOf_of_no_gap (shapes : List Shape) (settings : Settings) (r : EdgeRef)
    (hr : r ∈ EdgeRef.all shapes)
    (hface : ∃ face < CellId.faceCount, (Cell.ofId (CellId.ofFace face)).mayMeet r.edge)
    (hgap : ∀ id h n, id.At (h + 1) n → (Cell.ofId id).mayMeet r.edge →
      ∃ k < 4, (Cell.ofId (id.child k)).mayMeet r.edge) :
    ∃ cell ∈ (build shapes settings).cells, r ∈ (build shapes settings).edgesOf cell := by
  -- From a cell that the edge survives down to, one finds a cell at which division stops; the
  -- induction is on the number of levels left.
  have hdown : ∀ (levels : ℕ) (id : CellId) (h n : ℕ), id.At h n →
      id.level + levels = settings.maxLevel →
      (∀ level < id.level, settings.maxEdges <
        (Clipping.geometric.survivors shapes (id.parentAt level)).length) →
      r ∈ Clipping.geometric.survivors shapes id →
      ∃ id, Clipping.geometric.StopsAt settings shapes id ∧
        r ∈ Clipping.geometric.survivors shapes id := by
    intro levels
    induction levels with
    | zero =>
      intro id h n ha hlevels hcrowded hsurvives
      exact ⟨id, ⟨⟨h, n, ha⟩, by omega, hcrowded, Or.inl (by omega)⟩, hsurvives⟩
    | succ levels ih =>
      intro id h n ha hlevels hcrowded hsurvives
      by_cases hmany :
          settings.maxEdges < (Clipping.geometric.survivors shapes id).length
      · have hlevel := ha.level_eq
        have hmax := settings.maxLevel_le
        obtain ⟨h', rfl⟩ : ∃ h', h = h' + 1 := ⟨h - 1, by omega⟩
        have hmeets := (Clipping.mem_survivors.1 hsurvives).2 id.level le_rfl
        rw [ha.parentAt_level] at hmeets
        obtain ⟨k, hk, hchild⟩ := hgap id h' n ha hmeets
        have hnext := ha.level_child hk
        refine ih (id.child k) h' _ (ha.child hk) (by omega)
          (Clipping.crowded_child ha hk hcrowded hmany) ?_
        rw [← Clipping.keep_survivors ha hk]
        exact List.mem_filter.2 ⟨hsurvives, hchild⟩
      · exact ⟨id, ⟨⟨h, n, ha⟩, by omega, hcrowded, Or.inr (by omega)⟩, hsurvives⟩
  obtain ⟨face, hf, hmeets⟩ := hface
  have hlevel := CellId.At.level_ofFace hf
  have hsurvives : r ∈ Clipping.geometric.survivors shapes (CellId.ofFace face) := by
    rw [← Clipping.keep_all hf]
    exact List.mem_filter.2 ⟨hr, hmeets⟩
  obtain ⟨id, hstops, hmem⟩ := hdown settings.maxLevel (CellId.ofFace face) _ _ (.ofFace hf)
    (by omega) (Clipping.crowded_face hf) hsurvives
  exact exists_mem_edgesOf_of_stopsAt hstops hmem

/-- A direction between three faces, given to about fourteen digits. -/
def corner : Point := ⟨0.57735026918983, 0.57735026918983, 0.57735026918983⟩

/-- The point passes for one of unit length, but no index cell lists it. -/
theorem exists_not_mem_edgesOf_corner :
    Shape.ofPoints #[corner] = .ok (.points #[corner]) ∧
      ∃ r ∈ EdgeRef.all [.points #[corner]],
        ∀ cell ∈ (build [.points #[corner]] .default).cells,
          r ∉ (build [.points #[corner]] .default).edgesOf cell := by
  have hcells : (build [.points #[corner]] .default).cells = #[] := by decide +kernel
  have hunit : unitLengthFault? #[corner] = none := by decide +kernel
  refine ⟨?_, ⟨0, 0, .degenerate corner⟩, EdgeRef.mem_all.2 ⟨_, rfl, rfl⟩, ?_⟩
  · simp only [Shape.ofPoints]
    rw [hunit]
  · intro cell hcell
    rw [hcells] at hcell
    exact absurd hcell (Array.not_mem_empty cell)

end Index

end SphereSearch
