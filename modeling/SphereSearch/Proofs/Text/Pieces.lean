import Mathlib.Data.List.DropRight
import SphereSearch.Text.Blank

/-!
# Trimming and separators

A trimmed text stays as it is when it is trimmed again (`trim_trim`), the pieces of a text between
separators are those of `List.splitOn` (`pieces_eq_splitOn`), and a text is cut at the first of its
separators (`cut?_eq_some_iff`).
-/

namespace SphereSearch.Text

/-! ### Trimming -/

/-- A text is trimmed at its start and then at its end. -/
lemma trim_eq (cs : List Char) : trim cs = (cs.dropWhile isBlank).rdropWhile isBlank := rfl

/-- Trimming the end of a text uncovers no blank at its start. -/
lemma dropWhile_trim (cs : List Char) : (trim cs).dropWhile isBlank = trim cs := by
  have hinit : trim cs <+: cs.dropWhile isBlank := List.rdropWhile_prefix isBlank _
  rw [List.dropWhile_eq_self_iff]
  intro hpos
  rw [hinit.getElem hpos]
  exact List.dropWhile_get_zero_not _ _ (hpos.trans_le hinit.length_le)

@[simp] lemma trim_trim (cs : List Char) : trim (trim cs) = trim cs := by
  rw [trim_eq (trim cs), dropWhile_trim, trim_eq]
  exact List.rdropWhile_idempotent isBlank _

/-! ### Separators -/

/-- The pieces of a text are what lies between its separators. -/
lemma pieces_eq_splitOn (sep : Char) (cs : List Char) : pieces sep cs = cs.splitOn sep := by
  induction cs with
  | nil => rfl
  | cons c rest ih =>
    rw [List.splitOn_cons_eq_if_modifyHead, ← ih, pieces]
    by_cases h : c = sep
    · rw [if_pos h, if_pos (beq_iff_eq.2 h)]
    · rw [if_neg h, if_neg (mt beq_iff_eq.1 h)]
      cases hrest : pieces sep rest with
      | nil => exact absurd (ih.symm.trans hrest) (List.splitOn_ne_nil sep rest)
      | cons piece more => rfl

/-- A text is cut at its first separator. -/
lemma cut?_eq_some_iff {sep : Char} {cs front back : List Char} :
    cut? sep cs = some (front, back) ↔ cs = front ++ sep :: back ∧ sep ∉ front := by
  induction cs generalizing front with
  | nil => simp [cut?]
  | cons c rest ih =>
    rw [cut?]
    by_cases h : c = sep
    · subst h
      rw [if_pos rfl]
      cases front with
      | nil => simp
      | cons d front =>
        -- A separator in front would have been cut at.
        refine iff_of_false (by simp) ?_
        rintro ⟨heq, hfront⟩
        cases heq
        exact hfront List.mem_cons_self
    · rw [if_neg h, Option.map_eq_some_iff]
      constructor
      · rintro ⟨⟨_, _⟩, hcut, heq⟩
        cases heq
        obtain ⟨rfl, hfront⟩ := ih.1 hcut
        exact ⟨rfl, List.not_mem_cons_of_ne_of_not_mem (Ne.symm h) hfront⟩
      · rintro ⟨heq, hfront⟩
        cases front with
        | nil => exact absurd (List.cons.inj heq).1 h
        | cons d front =>
          cases heq
          have hrest := ih.2 ⟨rfl, fun hmem => hfront (List.mem_cons_of_mem _ hmem)⟩
          exact ⟨(front, back), hrest, rfl⟩

end SphereSearch.Text
