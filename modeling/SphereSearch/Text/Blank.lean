/-!
# White space and separators

The characters with Unicode's property White_Space, the text without the ones at its ends,
and the pieces of a text between separators.  Texts are lists of characters here.
-/

namespace SphereSearch.Text

/-- Whether a character has Unicode's property White_Space. -/
def isBlank (c : Char) : Bool :=
  let n := c.toNat
  (0x9 ≤ n && n ≤ 0xD) || n == 0x20 || n == 0x85 || n == 0xA0 || n == 0x1680 ||
    (0x2000 ≤ n && n ≤ 0x200A) || n == 0x2028 || n == 0x2029 || n == 0x202F || n == 0x205F ||
    n == 0x3000

/-- The text without the blanks in front of it and after it. -/
def trim (cs : List Char) : List Char :=
  ((cs.dropWhile isBlank).reverse.dropWhile isBlank).reverse

/-- The pieces of a text between the separators: one more than there are separators, with
an empty piece where two separators meet or one stands at an end. -/
def pieces (sep : Char) : List Char → List (List Char)
  | [] => [[]]
  | c :: rest =>
    if c = sep then [] :: pieces sep rest
    else match pieces sep rest with
      | piece :: more => (c :: piece) :: more
      | [] => [[c]]

/-- Cuts a text at its first separator: what is before it and what is after it. -/
def cut? (sep : Char) : List Char → Option (List Char × List Char)
  | [] => none
  | c :: rest =>
    if c = sep then some ([], rest)
    else (cut? sep rest).map fun (front, back) => (c :: front, back)

/-- There is one piece more than there are separators. -/
theorem length_pieces (sep : Char) (cs : List Char) :
    (pieces sep cs).length = cs.count sep + 1 := by
  induction cs with
  | nil => rfl
  | cons c rest ih =>
    by_cases h : c = sep
    · simp [pieces, h, ih]
    · simp only [pieces, h, if_false, List.count_cons, beq_iff_eq, Nat.add_zero]
      split
      · simp_all
      · simp_all

end SphereSearch.Text
