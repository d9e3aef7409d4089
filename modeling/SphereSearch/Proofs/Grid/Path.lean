import SphereSearch.Proofs.Grid.Apart

/-!
# Ways through the tree

Every cell is at the end of one way down from a face, of at most thirty steps, and the valid words
are those of the cells (`CellId.exists_way_iff`).  The way can be read off the word digit by digit,
which is how cells are shown to a reader, and cells of one level are in the order of their ways
(`CellId.Way.cell_lt_iff`).

A step takes the cell with the number `n` to one with the number `4 * n + k`, so the number of a cell
has the face and the digits of its way in base four.
-/

namespace SphereSearch

namespace CellId

/-- A way through the tree: a face and the steps down from it, each into one of four quarters. -/
@[ext]
structure Way where
  /-- The face. -/
  face : ℕ
  /-- The numbers of the quarters. -/
  path : List ℕ
  face_lt : face < faceCount
  length_le : path.length ≤ maxLevel
  digit_lt : ∀ k ∈ path, k < 4

/-- The cell at the end of a way. -/
def Way.cell (w : Way) : CellId := w.path.foldl child (ofFace w.face)

/-- The number of the cell that a path leads to from the one with the number `n`. -/
def numberBelow (n : ℕ) (path : List ℕ) : ℕ := path.foldl (fun n k => 4 * n + k) n

variable {id a b : CellId} {h n m k : ℕ}

/-! ### Down a path -/

namespace At

/-- The digits of the path of a cell are those of its number, without the face. -/
lemma path_eq (ha : id.At h n) :
    id.path = (List.range (maxLevel - h)).map fun l => n / 4 ^ (maxLevel - (l + 1) - h) % 4 := by
  rw [CellId.path, ha.level_eq]
  refine List.map_congr_left fun l hl => ?_
  have hle := ha.height_le
  have hlevel : l + 1 ≤ id.level := by
    rw [ha.level_eq]
    exact List.mem_range.1 hl
  have hplace : ((2 * (maxLevel - (l + 1)) + 1).toUInt64).toNat = 2 * (maxLevel - (l + 1)) + 1 := by
    rw [Nat.toUInt64, UInt64.toNat_ofNat', maxLevel]
    omega
  have hsmall : 2 * (maxLevel - (l + 1)) + 1 < 64 := by
    rw [maxLevel]
    omega
  rw [UInt64.toNat_and, UInt64.toNat_shiftRight, hplace, Nat.mod_eq_of_lt hsmall,
    Nat.shiftRight_eq_div_pow, ha.div_eq hlevel]
  exact Nat.and_two_pow_sub_one_eq_mod _ 2

/-- A step into a quarter is the last digit of the path. -/
lemma path_child (ha : id.At (h + 1) n) (hk : k < 4) : (id.child k).path = id.path ++ [k] := by
  have hle : h + 1 ≤ maxLevel := ha.height_le
  have hlevels : maxLevel - h = maxLevel - (h + 1) + 1 := by omega
  rw [(ha.child hk).path_eq, ha.path_eq, hlevels, List.range_succ, List.map_append]
  congr 1
  · refine List.map_congr_left fun l hl => ?_
    have hl := List.mem_range.1 hl
    obtain ⟨d, hd⟩ : ∃ d, maxLevel - (l + 1) - h = d + 1 := ⟨maxLevel - (l + 1) - (h + 1), by omega⟩
    rw [hd, show maxLevel - (l + 1) - (h + 1) = d by omega, Nat.pow_succ', ← Nat.div_div_eq_div_mul,
      show (4 * n + k) / 4 = n by omega]
  · rw [List.map_singleton, show maxLevel - (maxLevel - (h + 1) + 1) - h = 0 by omega, Nat.pow_zero,
      Nat.div_one, show (4 * n + k) % 4 = k by omega]

lemma face_child (ha : id.At (h + 1) n) (hk : k < 4) : (id.child k).face = id.face :=
  (ha.face_eq_of_holds (ha.child hk) (ha.holds_child hk)).symm

lemma path_ofFace {face : ℕ} (hf : face < faceCount) : (CellId.ofFace face).path = [] := by
  rw [(ofFace hf).path_eq, Nat.sub_self, List.range_zero, List.map_nil]

lemma face_ofFace {face : ℕ} (hf : face < faceCount) : (CellId.ofFace face).face = face := by
  rw [(ofFace hf).face_eq, Nat.sub_self, Nat.pow_zero, Nat.div_one]

/-- The steps of a path, one after the other. -/
lemma foldl_child {path : List ℕ} (ha : id.At h n) (hlen : path.length ≤ h)
    (hdigit : ∀ k ∈ path, k < 4) :
    (path.foldl CellId.child id).At (h - path.length) (numberBelow n path) ∧
      (path.foldl CellId.child id).path = id.path ++ path ∧
      (path.foldl CellId.child id).face = id.face := by
  induction path generalizing id h n with
  | nil => exact ⟨ha, (List.append_nil _).symm, rfl⟩
  | cons k path ih =>
    rw [List.length_cons] at hlen
    obtain ⟨h, rfl⟩ : ∃ h', h = h' + 1 := ⟨h - 1, by omega⟩
    have hk : k < 4 := hdigit k List.mem_cons_self
    obtain ⟨hat, hpath, hface⟩ := ih (ha.child hk) (by omega)
      fun l hl => hdigit l (List.mem_cons_of_mem _ hl)
    rw [List.foldl_cons, List.length_cons, Nat.add_sub_add_right]
    refine ⟨hat, ?_, hface.trans (ha.face_child hk)⟩
    rw [hpath, ha.path_child hk, List.append_assoc, List.singleton_append]

/-- Cells of one size are in the order of their numbers. -/
lemma lt_iff (ha : a.At h n) (hb : b.At h m) : a < b ↔ n < m := by
  rw [lt_iff_toNat, ha.toNat_eq, hb.toNat_eq, Nat.mul_lt_mul_left (Nat.pow_pos (by decide))]
  omega

end At

/-- Numbers with equally many digits are in the order of what the digits start from and then of the
digits. -/
lemma numberBelow_lt_iff {p q : List ℕ} (hlen : p.length = q.length) (hp : ∀ k ∈ p, k < 4)
    (hq : ∀ k ∈ q, k < 4) : numberBelow n p < numberBelow m q ↔ n < m ∨ n = m ∧ p < q := by
  induction p generalizing n m q with
  | nil =>
    obtain rfl := List.eq_nil_of_length_eq_zero hlen.symm
    simp [numberBelow]
  | cons k p ih =>
    cases q with
    | nil => exact absurd hlen (by simp)
    | cons l q =>
      have hk : k < 4 := hp k List.mem_cons_self
      have hl : l < 4 := hq l List.mem_cons_self
      have hrest := ih (n := 4 * n + k) (m := 4 * m + l) (Nat.succ.inj hlen)
        (fun i hi => hp i (List.mem_cons_of_mem _ hi)) fun i hi => hq i (List.mem_cons_of_mem _ hi)
      show numberBelow (4 * n + k) p < numberBelow (4 * m + l) q ↔ _
      rw [hrest, List.cons_lt_cons_iff]
      by_cases hpq : p < q
      · simp only [hpq, and_true]
        omega
      · simp only [hpq, and_false, or_false]
        omega

/-! ### Ways and cells -/

namespace Way

lemma at_cell (w : Way) :
    w.cell.At (maxLevel - w.path.length) (numberBelow w.face w.path) :=
  ((At.ofFace w.face_lt).foldl_child w.length_le w.digit_lt).1

/-- The path of the cell at the end of a way is the way. -/
lemma path_cell (w : Way) : w.cell.path = w.path := by
  have hpath := ((At.ofFace w.face_lt).foldl_child w.length_le w.digit_lt).2.1
  rwa [At.path_ofFace w.face_lt, List.nil_append] at hpath

lemma face_cell (w : Way) : w.cell.face = w.face :=
  ((At.ofFace w.face_lt).foldl_child w.length_le w.digit_lt).2.2.trans (At.face_ofFace w.face_lt)

lemma level_cell (w : Way) : w.cell.level = w.path.length := by
  rw [w.at_cell.level_eq, Nat.sub_sub_self w.length_le]

/-- Different ways lead to different cells. -/
lemma cell_injective {w w' : Way} (heq : w.cell = w'.cell) : w = w' := by
  refine Way.ext ?_ ?_
  · rw [← w.face_cell, heq, w'.face_cell]
  · rw [← w.path_cell, heq, w'.path_cell]

/-- The way of a quarter. -/
def step (w : Way) (k : ℕ) (hlen : w.path.length < maxLevel) (hk : k < 4) : Way where
  face := w.face
  path := w.path ++ [k]
  face_lt := w.face_lt
  length_le := by
    rw [List.length_append, List.length_singleton]
    exact hlen
  digit_lt l hl := (List.mem_append.1 hl).elim (w.digit_lt l) fun hl => List.mem_singleton.1 hl ▸ hk

lemma cell_step (w : Way) (hlen : w.path.length < maxLevel) (hk : k < 4) :
    (w.step k hlen hk).cell = w.cell.child k := by
  show (w.path ++ [k]).foldl child (ofFace w.face) = _
  rw [List.foldl_append]
  rfl

/-- **In the order of the tree.**  Cells of one level are in the order of their faces and then of
their paths. -/
theorem cell_lt_iff {w w' : Way} (hlevel : w.cell.level = w'.cell.level) :
    w.cell < w'.cell ↔ w.face < w'.face ∨ w.face = w'.face ∧ w.path < w'.path := by
  rw [w.level_cell, w'.level_cell] at hlevel
  have hat := w.at_cell
  rw [hlevel] at hat
  rw [hat.lt_iff w'.at_cell, numberBelow_lt_iff hlevel w.digit_lt w'.digit_lt]

end Way

/-- Every cell of the grid is at the end of a way. -/
lemma At.exists_way {d : ℕ} (ha : id.At h n) (hd : h + d = maxLevel) : ∃ w : Way, w.cell = id := by
  induction d generalizing id h n with
  | zero =>
    obtain rfl : h = maxLevel := hd
    have hn := ha.number_lt
    rw [Nat.sub_self, Nat.pow_zero, Nat.mul_one] at hn
    exact ⟨⟨n, [], hn, Nat.zero_le _, fun k hk => absurd hk List.not_mem_nil⟩, (At.ofFace hn).eq ha⟩
  | succ d ih =>
    have hlevel : maxLevel - (h + 1) ≤ id.level := by
      rw [ha.level_eq]
      omega
    have hparent := ha.parentAt hlevel
    rw [show maxLevel - (maxLevel - (h + 1)) = h + 1 by omega, Nat.add_sub_cancel_left,
      Nat.pow_one] at hparent
    obtain ⟨w, hw⟩ := ih hparent (by omega)
    have hk : n % 4 < 4 := Nat.mod_lt _ (by decide)
    have hlen : w.path.length < maxLevel := by
      rw [← w.level_cell, hw, hparent.level_eq]
      omega
    refine ⟨w.step (n % 4) hlen hk, ?_⟩
    have hchild := hparent.child hk
    rw [Nat.div_add_mod] at hchild
    rw [w.cell_step hlen hk, hw, hchild.eq ha]

/-- The valid words are those of the cells at the ends of ways. -/
lemma exists_way_iff : id.isValid = true ↔ ∃ w : Way, w.cell = id := by
  constructor
  · intro hvalid
    obtain ⟨h, n, ha⟩ := isValid_iff_exists_at.1 hvalid
    exact ha.exists_way (Nat.add_sub_cancel' ha.height_le)
  · rintro ⟨w, rfl⟩
    exact w.at_cell.isValid

/-! ### Ways as texts -/

/-- A digit is one character. -/
lemma toList_toString {n : ℕ} (hn : n < 10) : (toString n).toList = [n.digitChar] := by
  rw [Nat.toString_eq_repr, Nat.toList_repr, Nat.toDigits_of_lt_base hn]

lemma toList_join_toString {path : List ℕ} (hdigit : ∀ k ∈ path, k < 10) :
    (String.join (path.map toString)).toList = path.map Nat.digitChar := by
  rw [String.toList_join]
  induction path with
  | nil => rfl
  | cons k path ih =>
    rw [List.map_cons, List.flatMap_cons, toList_toString (hdigit k List.mem_cons_self),
      ih fun l hl => hdigit l (List.mem_cons_of_mem _ hl), List.map_cons, List.singleton_append]

/-- A digit is read back from its character. -/
lemma toNat_digitChar_sub {n : ℕ} (hn : n < 10) : n.digitChar.toNat - 48 = n := by
  rw [Nat.toNat_digitChar_of_lt_ten hn, Nat.add_sub_cancel_left]

lemma map_toNat_digitChar {path : List ℕ} (hdigit : ∀ k ∈ path, k < 10) :
    (path.map Nat.digitChar).map (fun c => c.toNat - 48) = path := by
  rw [List.map_map]
  exact (List.map_congr_left fun k hk => toNat_digitChar_sub (hdigit k hk)).trans (List.map_id path)

namespace Way

/-- The way for a reader: the face, then the digits of the path. -/
def text (w : Way) : String :=
  "CellId(" ++ toString w.face ++ "/" ++ String.join (w.path.map toString) ++ ")"

lemma text_cell (w : Way) : w.cell.text = w.text := by
  rw [CellId.text, w.face_cell, w.path_cell, Way.text]

lemma face_lt_ten (w : Way) : w.face < 10 := w.face_lt.trans (by decide)

lemma digit_lt_ten (w : Way) : ∀ k ∈ w.path, k < 10 :=
  fun k hk => (w.digit_lt k hk).trans (by decide)

lemma toList_text (w : Way) : w.text.toList =
    "CellId(".toList ++ w.face.digitChar :: '/' :: (w.path.map Nat.digitChar ++ [')']) := by
  simp only [text, String.toList_append, toList_toString w.face_lt_ten,
    toList_join_toString w.digit_lt_ten, List.append_assoc, List.singleton_append]
  rfl

/-- Different ways have different texts. -/
lemma text_injective {w w' : Way} (heq : w.text = w'.text) : w = w' := by
  have hlist := congrArg String.toList heq
  rw [w.toList_text, w'.toList_text, List.append_cancel_left_eq, List.cons.injEq, List.cons.injEq,
    List.append_cancel_right_eq] at hlist
  obtain ⟨hface, -, hpath⟩ := hlist
  refine Way.ext ?_ ?_
  · rw [← toNat_digitChar_sub w.face_lt_ten, hface, toNat_digitChar_sub w'.face_lt_ten]
  · rw [← map_toNat_digitChar w.digit_lt_ten, hpath, map_toNat_digitChar w'.digit_lt_ten]

end Way

/-- **Words and ways.**  The valid words are those of the cells at the ends of ways, each of one way
only, which is as long as the level of the cell and is what is shown to a reader.  So the text of a
valid word tells the word, and words of one level are in the order of their faces and paths. -/
theorem valid_iff_way :
    (∀ r : UInt64, (CellId.mk r).isValid = true ↔ ∃ w : Way, w.cell = ⟨r⟩) ∧
      (∀ w w' : Way, w.cell = w'.cell → w = w') ∧
      (∀ w : Way, w.cell.level = w.path.length ∧ w.cell.text =
        "CellId(" ++ toString w.face ++ "/" ++ String.join (w.path.map toString) ++ ")") ∧
      (∀ a b : CellId, a.isValid = true → b.isValid = true → a.text = b.text → a = b) ∧
      ∀ w w' : Way, w.cell.level = w'.cell.level →
        (w.cell < w'.cell ↔ w.face < w'.face ∨ w.face = w'.face ∧ w.path < w'.path) := by
  refine ⟨fun r => exists_way_iff, fun w w' => Way.cell_injective,
    fun w => ⟨w.level_cell, w.text_cell⟩, fun a b ha hb heq => ?_, fun w w' => Way.cell_lt_iff⟩
  obtain ⟨w, rfl⟩ := exists_way_iff.1 ha
  obtain ⟨w', rfl⟩ := exists_way_iff.1 hb
  rw [w.text_cell, w'.text_cell] at heq
  rw [Way.text_injective heq]

/-- Two cells of the second level on the fourth face. -/
theorem valid_iff_way_fourthFace :
    let a := ((ofFace 3).child 2).child 1
    let b := ((ofFace 3).child 1).child 3
    (a.isValid = true ∧ b.isValid = true ∧ a.level = b.level) ∧ b < a ∧ a.text = "CellId(3/21)" ∧
      (a.text = b.text → a = b) := by
  have ha : (((ofFace 3).child 2).child 1).isValid = true := by decide
  have hb : (((ofFace 3).child 1).child 3).isValid = true := by decide
  let w : Way := ⟨3, [2, 1], by decide, by decide, by decide⟩
  let w' : Way := ⟨3, [1, 3], by decide, by decide, by decide⟩
  obtain ⟨-, -, htext, hinjective, horder⟩ := valid_iff_way
  have hlevel : w.cell.level = w'.cell.level := by rw [(htext w).1, (htext w').1]; rfl
  refine ⟨⟨ha, hb, hlevel⟩, ?_, ?_, hinjective _ _ ha hb⟩
  · exact (horder w' w hlevel.symm).2 (Or.inr ⟨rfl, by decide⟩)
  · exact (htext w).2.trans (by decide)

end CellId

end SphereSearch
