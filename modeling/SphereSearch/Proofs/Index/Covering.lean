import Mathlib.Data.List.Nodup
import SphereSearch.Proofs.Grid.Ancestor
import SphereSearch.Proofs.Index.Division

/-!
# The covering of an index

The covering has one region for each face with index cells (`Region.Around`): the index cell, if
there is only one, and otherwise the least common ancestor of the first and the last.  Since index
cells are ascending and without a common leaf, this ancestor holds what lies between the two, and
is no index cell itself.  So the covering leads to all index cells (`Index.exists_mem_covering`),
its regions are apart (`Index.pairwise_covering`), and none of them could be smaller
(`Index.exact_covering`).
-/

namespace SphereSearch

/-- A cell of the grid holds all index cells of a face, of which there are several, and lies in
every other one that holds the two at the ends. -/
structure CellId.Spans (x : Index) (face : ℕ) (id : CellId) : Prop where
  exists_at : ∃ h n, id.At h n
  holds : ∀ (k : ℕ) (c : IndexCell), x.cells[k]? = some c → c.id.face = face → id.Holds c.id
  exists_ends : ∃ (i j : ℕ) (a b : IndexCell),
    (x.cells[i]? = some a ∧ a.id.face = face) ∧ (x.cells[j]? = some b ∧ b.id.face = face) ∧ i < j ∧
    ∀ d : CellId, (∃ h n, d.At h n) → d.Holds a.id → d.Holds b.id → d.Holds id

/-- A region around all index cells of a face: it is the only one, or the least cell of the grid
that holds them all. -/
inductive Region.Around (x : Index) (face : ℕ) : Region → Prop where
  /-- There is one index cell. -/
  | single (i : ℕ) (a : IndexCell) (hi : x.cells[i]? = some a) (hface : a.id.face = face)
      (honly : ∀ (j : ℕ) (b : IndexCell), x.cells[j]? = some b → b.id.face = face → j = i) :
      Around x face ⟨a.id, some i⟩
  /-- There are several. -/
  | several (id : CellId) (hspans : id.Spans x face) : Around x face ⟨id, none⟩

namespace CellId.Spans

variable {x : Index} {face : ℕ} {id : CellId}

/-- What holds several index cells is none of them. -/
lemma ne_id (ht : Tiled x.cells.toList) (h : id.Spans x face) {cell : IndexCell} {k : ℕ}
    (hcell : x.cells[k]? = some cell) : cell.id ≠ id := by
  rintro rfl
  obtain ⟨i, j, a, b, ⟨hi, hface⟩, ⟨hj, hface'⟩, hij, -⟩ := h.exists_ends
  exact hij.ne
    (ht.position_eq_of_holds hi hj hcell (h.holds i a hi hface) (h.holds j b hj hface'))

/-- No quarter holds both ends. -/
lemma not_child_holds (h : id.Spans x face) {H N k : ℕ} (hat : id.At (H + 1) N) (hk : k < 4) :
    ∃ cell ∈ x.cells, cell.id.face = face ∧ ¬ (id.child k).Holds cell.id := by
  obtain ⟨i, j, a, b, ⟨hi, hface⟩, ⟨hj, hface'⟩, -, hleast⟩ := h.exists_ends
  have hchild := hat.child hk
  by_cases hina : (id.child k).Holds a.id
  · refine ⟨b, Array.mem_of_getElem? hj, hface', fun hinb => ?_⟩
    have hheight := hchild.height_le_of_holds hat (hleast _ ⟨_, _, hchild⟩ hina hinb)
    omega
  · exact ⟨a, Array.mem_of_getElem? hi, hface, hina⟩

end CellId.Spans

namespace Region.Around

variable {x : Index} {face i : ℕ} {r : Region}

/-- The region around the index cells of a face leads to each of them. -/
lemma leadsTo (ht : Tiled x.cells.toList) (h : r.Around x face) {cell : IndexCell}
    (hcell : x.cells[i]? = some cell) (hface : cell.id.face = face) : r.LeadsTo x i := by
  cases h with
  | single j a hj _ honly =>
    obtain rfl := honly i cell hcell hface
    exact .here a hj
  | several id hspans =>
    exact .above cell hcell id hspans.exists_at (hspans.holds i cell hcell hface)
      (hspans.ne_id ht hcell)

lemma exists_leadsTo (ht : Tiled x.cells.toList) (h : r.Around x face) :
    ∃ i, r.LeadsTo x i ∧ ∃ cell : IndexCell, x.cells[i]? = some cell ∧ cell.id.face = face := by
  have hsome : ∃ (i : ℕ) (cell : IndexCell), x.cells[i]? = some cell ∧ cell.id.face = face := by
    cases h with
    | single i a hi hface => exact ⟨i, a, hi, hface⟩
    | several id hspans =>
      obtain ⟨i, -, a, -, ⟨hi, hface⟩, -⟩ := hspans.exists_ends
      exact ⟨i, a, hi, hface⟩
  obtain ⟨i, cell, hi, hface⟩ := hsome
  exact ⟨i, h.leadsTo ht hi hface, cell, hi, hface⟩

lemma exists_at (ht : Tiled x.cells.toList) (h : r.Around x face) : ∃ h n, r.id.At h n := by
  obtain ⟨i, hleads, -⟩ := h.exists_leadsTo ht
  exact hleads.exists_at ht

/-- It lies on this face. -/
lemma face_eq (ht : Tiled x.cells.toList) (h : r.Around x face) : r.id.face = face := by
  obtain ⟨i, hleads, cell, hcell, hface⟩ := h.exists_leadsTo ht
  obtain ⟨H, N, hat⟩ := hleads.exists_at ht
  obtain ⟨H', N', hcat⟩ := ht.exists_at_of_getElem? hcell
  exact (hat.face_eq_of_holds hcat (hleads.holds hcell)).trans hface

end Region.Around

namespace Index

variable {x : Index} {r : Region} {face i : ℕ}

/-! ### Around the index cells of a face -/

/-- In a list whose positions rise, the last position is the greatest. -/
lemma snd_le_getLast {group : List (IndexCell × ℕ)} (hne : group ≠ [])
    (hsorted : group.Pairwise fun p q => p.2 < q.2) {p : IndexCell × ℕ} (hmem : p ∈ group) :
    p.2 ≤ (group.getLast hne).2 := by
  rw [← List.dropLast_concat_getLast hne] at hmem hsorted
  rcases List.mem_append.1 hmem with hmem | hmem
  · exact ((List.pairwise_append.1 hsorted).2.2 _ hmem _ (List.mem_singleton_self _)).le
  · rw [List.mem_singleton.1 hmem]

/-- A cell of the grid that holds two index cells holds those between them. -/
lemma holds_between (ht : Tiled x.cells.toList) {c : CellId} {first cell last : IndexCell}
    {i j k : ℕ} (hfirst : x.cells[i]? = some first) (hcell : x.cells[j]? = some cell)
    (hlast : x.cells[k]? = some last) (hij : i ≤ j) (hjk : j ≤ k) (hcf : c.Holds first.id)
    (hcl : c.Holds last.id) : c.Holds cell.id := by
  obtain ⟨h, n, hat⟩ := ht.exists_at_of_getElem? hcell
  have hlow := hat.low_lt
  have hhigh := hat.lt_high
  constructor
  · rcases Nat.lt_or_eq_of_le hij with hlt | rfl
    · obtain ⟨hf, nf, hfat⟩ := ht.exists_at_of_getElem? hfirst
      have hle := ht.high_le_low hfirst hcell hlt
      have h1 := hfat.low_lt
      have h2 := hfat.lt_high
      have h3 := hcf.1
      omega
    · rw [hfirst] at hcell
      rw [← Option.some.inj hcell]
      exact hcf.1
  · rcases Nat.lt_or_eq_of_le hjk with hlt | rfl
    · obtain ⟨hl, nl, hlat⟩ := ht.exists_at_of_getElem? hlast
      have hle := ht.high_le_low hcell hlast hlt
      have h1 := hlat.low_lt
      have h2 := hlat.lt_high
      have h3 := hcl.2
      omega
    · rw [hlast] at hcell
      rw [← Option.some.inj hcell]
      exact hcl.2

/-- The index cells of a face stand in the index at their positions. -/
lemma mem_filter_face {p : IndexCell × ℕ} :
    p ∈ x.cells.toList.zipIdx.filter (fun p => p.1.id.face = face) ↔
      x.cells[p.2]? = some p.1 ∧ p.1.id.face = face := by
  rw [List.mem_filter, List.mem_zipIdx_iff_getElem?, Array.getElem?_toList, decide_eq_true_iff]

/-- Around index cells of a face there is a region. -/
lemma exists_around? (ht : Tiled x.cells.toList) {group : List (IndexCell × ℕ)}
    (hgroup : ∀ p : IndexCell × ℕ,
      p ∈ group ↔ x.cells[p.2]? = some p.1 ∧ p.1.id.face = face)
    (hsorted : group.Pairwise fun p q => p.2 < q.2) (hne : group ≠ []) :
    ∃ r, Region.around? group = some r ∧ r.Around x face := by
  match group, hgroup, hsorted with
  | [], _, _ => exact absurd rfl hne
  | [p], hgroup, _ =>
    obtain ⟨hp, hface⟩ := (hgroup p).1 (List.mem_singleton_self p)
    refine ⟨_, rfl, .single p.2 p.1 hp hface fun j b hj hb => ?_⟩
    exact congrArg Prod.snd (List.mem_singleton.1 ((hgroup (b, j)).2 ⟨hj, hb⟩))
  | first :: q :: rest, hgroup, hsorted =>
    have hne : q :: rest ≠ [] := by simp
    obtain ⟨last, hlast⟩ : ∃ p, (q :: rest).getLast hne = p := ⟨_, rfl⟩
    have hlastmem : last ∈ q :: rest := hlast ▸ List.getLast_mem hne
    obtain ⟨hfirst, hrest⟩ := List.pairwise_cons.1 hsorted
    have hlt : first.2 < last.2 := hfirst last hlastmem
    obtain ⟨hfcell, hfface⟩ := (hgroup first).1 List.mem_cons_self
    obtain ⟨hlcell, hlface⟩ := (hgroup last).1 (List.mem_cons_of_mem _ hlastmem)
    obtain ⟨hf, nf, hfat⟩ := ht.exists_at_of_getElem? hfcell
    obtain ⟨hl, nl, hlat⟩ := ht.exists_at_of_getElem? hlcell
    obtain ⟨c, hc, hcat, ⟨hcf, hcl⟩, hleast⟩ :=
      CellId.exists_commonAncestor? hfat hlat (hfface.trans hlface.symm)
    refine ⟨⟨c, none⟩, ?_, .several c ⟨hcat, ?_, first.2, last.2, first.1, last.1,
      ⟨hfcell, hfface⟩, ⟨hlcell, hlface⟩, hlt, hleast⟩⟩
    · show (first.1.id.commonAncestor? ((q :: rest).getLast hne).1.id).map
        (fun id => (⟨id, none⟩ : Region)) = some ⟨c, none⟩
      rw [hlast, hc]
      rfl
    · -- Positions rise from the first to the last.
      intro k cell hk hface
      have hbetween : first.2 ≤ k ∧ k ≤ last.2 := by
        rcases List.mem_cons.1 ((hgroup (cell, k)).2 ⟨hk, hface⟩) with heq | hmem
        · rw [← heq] at hlt ⊢
          exact ⟨le_rfl, hlt.le⟩
        · exact ⟨(hfirst _ hmem).le, hlast ▸ snd_le_getLast hne hrest hmem⟩
      exact holds_between ht hfcell hk hlcell hbetween.1 hbetween.2 hcf hcl

/-- The region of a face in the covering. -/
lemma around_of_around? (ht : Tiled x.cells.toList)
    (hr : Region.around? (x.cells.toList.zipIdx.filter fun p => p.1.id.face = face) = some r) :
    r.Around x face := by
  have hne : x.cells.toList.zipIdx.filter (fun p => p.1.id.face = face) ≠ [] := by
    intro hnil
    rw [hnil] at hr
    exact absurd hr (by simp [Region.around?])
  obtain ⟨s, hs, haround⟩ := exists_around? ht (fun _ => mem_filter_face)
    ((pairwise_zipIdx _).filter _) hne
  rwa [Option.some.inj (hr.symm.trans hs)]

/-! ### All faces together -/

/-- Each region of the covering is the one around the index cells of its face. -/
theorem around_of_mem_covering (hx : x.WellFormed) (hr : r ∈ x.covering) :
    r.Around x r.id.face := by
  rw [hx.covering_eq] at hr
  obtain ⟨face, -, hr⟩ := List.mem_filterMap.1 hr
  have haround := around_of_around? hx.tiled hr
  rwa [haround.face_eq hx.tiled]

/-- Each region of the covering leads to an index cell. -/
theorem leadsTo_of_mem_covering (hx : x.WellFormed) (hr : r ∈ x.covering) :
    ∃ i, r.LeadsTo x i := by
  obtain ⟨i, hleads, -⟩ := (around_of_mem_covering hx hr).exists_leadsTo hx.tiled
  exact ⟨i, hleads⟩

/-- **The start.**  The covering of an index leads to all its cells. -/
theorem exists_mem_covering (hx : x.WellFormed) {cell : IndexCell}
    (hcell : x.cells[i]? = some cell) : ∃ r ∈ x.covering, r.LeadsTo x i := by
  have ht := hx.tiled
  obtain ⟨h, n, hat⟩ := ht.exists_at_of_getElem? hcell
  have hmem := (mem_filter_face (p := (cell, i))).2 ⟨hcell, rfl⟩
  obtain ⟨r, hr, haround⟩ := exists_around? ht (fun _ => mem_filter_face)
    ((pairwise_zipIdx _).filter _) (List.ne_nil_of_mem hmem)
  refine ⟨r, ?_, haround.leadsTo ht hcell rfl⟩
  rw [hx.covering_eq]
  exact List.mem_filterMap.2 ⟨cell.id.face, List.mem_range.2 hat.face_lt, hr⟩

/-- The faces of the covering rise. -/
lemma pairwise_face_covering (hx : x.WellFormed) :
    x.covering.Pairwise fun r s => r.id.face < s.id.face := by
  rw [hx.covering_eq]
  simp only [Region.covering]
  rw [List.pairwise_filterMap]
  refine List.pairwise_lt_range.imp ?_
  intro face face' hlt r hr s hs
  rw [(around_of_around? hx.tiled hr).face_eq hx.tiled,
    (around_of_around? hx.tiled hs).face_eq hx.tiled]
  exact hlt

/-- **The covering** consists of regions that are apart. -/
theorem pairwise_covering (hx : x.WellFormed) :
    x.covering.Pairwise fun r s => r.id.Apart s.id := by
  refine (pairwise_face_covering hx).imp_of_mem ?_
  intro r s hr hs hlt
  obtain ⟨h, n, hat⟩ := (around_of_mem_covering hx hr).exists_at hx.tiled
  obtain ⟨h', n', hat'⟩ := (around_of_mem_covering hx hs).exists_at hx.tiled
  exact hat.apart_of_face_ne hat' hlt.ne

end Index

/-! ### No region could be smaller -/

/-- A region that is what its index cells call for: one of them with its position, if it is alone
on its face, and otherwise the least cell of the grid around them. -/
structure Region.Exact (x : Index) (r : Region) : Prop where
  isValid : r.id.isValid = true
  /-- It has the position of the index cell that it is, if it is one. -/
  position_iff : ∀ i, r.position? = some i ↔
    ∃ cell : IndexCell, x.cells[i]? = some cell ∧ cell.id = r.id
  /-- With a position, it is the only index cell on its face. -/
  alone : ∀ i, r.position? = some i →
    ∀ (j : ℕ) (cell : IndexCell), x.cells[j]? = some cell → cell.id.face = r.id.face → j = i
  /-- Without one, it strictly contains two index cells. -/
  contains_two : r.position? = none →
    ∃ a ∈ x.cells, ∃ b ∈ x.cells, a.id ≠ b.id ∧
      (r.id.contains a.id = true ∧ a.id ≠ r.id) ∧ r.id.contains b.id = true ∧ b.id ≠ r.id
  /-- Then none of its quarters contains all index cells of the face. -/
  least : r.position? = none → ∀ k < 4,
    ∃ cell ∈ x.cells, cell.id.face = r.id.face ∧ (r.id.child k).contains cell.id = false

/-- An index cell that is alone on its face is a region as it should be. -/
lemma Region.exact_single {x : Index} {i : ℕ} {a : IndexCell} (ht : Tiled x.cells.toList)
    (hi : x.cells[i]? = some a)
    (honly : ∀ (j : ℕ) (b : IndexCell), x.cells[j]? = some b → b.id.face = a.id.face → j = i) :
    (⟨a.id, some i⟩ : Region).Exact x := by
  obtain ⟨h, n, hat⟩ := ht.exists_at_of_getElem? hi
  refine ⟨hat.isValid, fun j => ⟨fun hj => ?_, ?_⟩, ?_, fun hnone => ?_, fun hnone => ?_⟩
  · rw [← Option.some.inj hj]
    exact ⟨a, hi, rfl⟩
  · rintro ⟨cell, hcell, hid⟩
    exact congrArg some (honly j cell hcell (congrArg CellId.face hid)).symm
  · intro _ hj j cell hcell hface
    rw [← Option.some.inj hj]
    exact honly j cell hcell hface
  · exact absurd hnone (by simp)
  · exact absurd hnone (by simp)

/-- So is the least cell of the grid around several index cells. -/
lemma Region.exact_of_spans {x : Index} {face : ℕ} {id : CellId} (ht : Tiled x.cells.toList)
    (hspans : id.Spans x face) : (⟨id, none⟩ : Region).Exact x := by
  have haround : Region.Around x face ⟨id, none⟩ := .several id hspans
  have hface := haround.face_eq ht
  obtain ⟨H, N, hat⟩ := hspans.exists_at
  obtain ⟨i, j, a, b, ⟨hi, hfacea⟩, ⟨hj, hfaceb⟩, hij, -⟩ := hspans.exists_ends
  have hin : ∀ {k : ℕ} {c : IndexCell}, x.cells[k]? = some c → c.id.face = face →
      id.contains c.id = true ∧ c.id ≠ id := by
    intro k c hk hcface
    obtain ⟨h, n, hcat⟩ := ht.exists_at_of_getElem? hk
    exact ⟨(hat.contains_iff_holds hcat).2 (hspans.holds k c hk hcface), hspans.ne_id ht hk⟩
  refine ⟨hat.isValid, fun j => ⟨fun hj => ?_, ?_⟩, fun j hj => ?_, fun _ => ?_, fun _ k hk => ?_⟩
  · exact absurd hj (by simp)
  · rintro ⟨cell, hcell, hid⟩
    exact absurd hid (hspans.ne_id ht hcell)
  · exact absurd hj (by simp)
  · refine ⟨a, Array.mem_of_getElem? hi, b, Array.mem_of_getElem? hj, fun heq => ?_,
      hin hi hfacea, hin hj hfaceb⟩
    exact hij.ne (ht.position_eq_of_holds hi hj hi (.refl _) (heq ▸ .refl _))
  · obtain ⟨h, n, haat⟩ := ht.exists_at_of_getElem? hi
    obtain ⟨hpos, -⟩ := hat.exists_child haat (hspans.holds i a hi hfacea) (hspans.ne_id ht hi)
    obtain ⟨H', rfl⟩ : ∃ H', H = H' + 1 := ⟨H - 1, by omega⟩
    obtain ⟨cell, hcell, hcface, hout⟩ := hspans.not_child_holds hat hk
    obtain ⟨h', n', hcat⟩ := ht.exists_at cell (Array.mem_toList_iff.2 hcell)
    refine ⟨cell, hcell, hcface.trans hface.symm, ?_⟩
    rwa [← Bool.not_eq_true, (hat.child hk).contains_iff_holds hcat]

/-- The region around the index cells of a face is exact. -/
lemma Region.Around.exact {x : Index} {r : Region} {face : ℕ} (ht : Tiled x.cells.toList)
    (h : r.Around x face) : r.Exact x := by
  cases h with
  | single i a hi hface honly =>
    exact exact_single ht hi fun j b hj hb => honly j b hj (hb.trans hface)
  | several id hspans => exact exact_of_spans ht hspans

namespace Index

/-- **The covering is exact.**  Its regions are ascending and disjoint, on different faces, and
each index cell is contained in one of them; each region is an index cell that is alone on its
face, or the least cell around those of its face. -/
theorem exact_covering (clipping : Clipping) (shapes : List Shape) (settings : Settings) :
    let x := buildWith clipping shapes settings
    (x.covering.Pairwise fun r s =>
      r.id < s.id ∧ r.id.intersects s.id = false ∧ r.id.face ≠ s.id.face) ∧
    (∀ cell ∈ x.cells, ∃! r, r ∈ x.covering ∧ r.id.contains cell.id = true) ∧
    ∀ r ∈ x.covering, r.Exact x := by
  intro x
  have hx : x.WellFormed := wellFormed_buildWith clipping shapes settings
  have hfaces := pairwise_face_covering hx
  refine ⟨hfaces.imp_of_mem ?_, ?_, fun r hr => (around_of_mem_covering hx hr).exact hx.tiled⟩
  · intro r s hr hs hlt
    obtain ⟨h, n, hat⟩ := (around_of_mem_covering hx hr).exists_at hx.tiled
    obtain ⟨h', n', hat'⟩ := (around_of_mem_covering hx hs).exists_at hx.tiled
    refine ⟨?_, ?_, hlt.ne⟩
    · rw [CellId.face_eq_div, CellId.face_eq_div] at hlt
      rw [CellId.lt_iff_toNat]
      exact lt_of_not_ge fun hge => absurd hlt (not_lt.2 (Nat.div_le_div_right hge))
    · rw [← Bool.not_eq_true, hat.intersects_iff hat']
      rintro (hold | hold)
      · exact hlt.ne (hat.face_eq_of_holds hat' hold)
      · exact hlt.ne' (hat'.face_eq_of_holds hat hold)
  · intro cell hcell
    obtain ⟨i, hi⟩ := Array.mem_iff_getElem?.1 hcell
    obtain ⟨hc, nc, hcat⟩ := hx.tiled.exists_at_of_getElem? hi
    have hface : ∀ r ∈ x.covering, r.id.contains cell.id = true → r.id.face = cell.id.face := by
      intro r hr hin
      obtain ⟨h, n, hat⟩ := (around_of_mem_covering hx hr).exists_at hx.tiled
      exact hat.face_eq_of_holds hcat ((hat.contains_iff_holds hcat).1 hin)
    obtain ⟨r, hr, hleads⟩ := exists_mem_covering hx hi
    obtain ⟨h, n, hat⟩ := hleads.exists_at hx.tiled
    have hin := (hat.contains_iff_holds hcat).2 (hleads.holds hi)
    refine ⟨r, ⟨hr, hin⟩, fun s ⟨hs, hins⟩ => ?_⟩
    -- No two regions lie on one face.
    have hnodup : (x.covering.map fun r => r.id.face).Nodup := (List.pairwise_map.2 hfaces).nodup
    exact List.inj_on_of_nodup_map hnodup hs hr ((hface s hs hins).trans (hface r hr hin).symm)

end Index

end SphereSearch
