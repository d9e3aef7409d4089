import SphereSearch.Number.Binary64

/-!
# Reading decimal numbers

The grammar is an optional sign, then either one of the words `inf`, `infinity` and `nan` in
any letter case, or digits with an optional point (a digit on at least one side) and an
optional exponent.  Every character has to be used; blanks, underscores and digits outside
ASCII are refused.  The value is the double nearest to the decimal, an infinity when it is
too large and a zero when it is too small.
-/

namespace SphereSearch.Decimal

/-- The number that a list of ASCII digits spells. -/
def natOfDigits (digits : List Char) : Nat :=
  digits.foldl (fun n c => 10 * n + (c.toNat - '0'.toNat)) 0

/-- The leading digits of a text, and what follows them. -/
def spanDigits (cs : List Char) : List Char × List Char :=
  (cs.takeWhile Char.isDigit, cs.dropWhile Char.isDigit)

/-- A leading sign, and what follows it; the sign is `true` for a minus. -/
def spanSign : List Char → Bool × List Char
  | '-' :: rest => (true, rest)
  | '+' :: rest => (false, rest)
  | cs => (false, cs)

/-- The exponent that ends a number: nothing, or `e` with at least one digit. -/
def readExponent? : List Char → Option Int
  | [] => some 0
  | c :: rest =>
    let (negative, digits) := spanSign rest
    if c.toLower = 'e' && !digits.isEmpty && digits.all Char.isDigit then
      some (if negative then -(natOfDigits digits : Int) else natOfDigits digits)
    else none

/-- The double nearest to `digits · 10 ^ exponent`.  A decimal beyond the range of doubles
is settled by its order of magnitude alone, whatever the size of its exponent. -/
def nearest (digits : Nat) (exponent : Int) : Float :=
  let magnitude := exponent + (Nat.toDigits 10 digits).length
  if digits = 0 || magnitude < -330 then 0.0
  else if magnitude > 310 then Binary64.infinity
  else if 0 ≤ exponent then Float.ofScientific digits false exponent.toNat
  else Float.ofScientific digits true (-exponent).toNat

/-- The value of a decimal without a sign. -/
def readDecimal? (cs : List Char) : Option Float :=
  let (whole, rest) := spanDigits cs
  let (fraction, rest) := match rest with
    | '.' :: more => spanDigits more
    | _ => ([], rest)
  if whole.isEmpty && fraction.isEmpty then none
  else (readExponent? rest).map fun exponent =>
    nearest (natOfDigits (whole ++ fraction)) (exponent - fraction.length)

/-- The value of one of the words for a number that is not finite. -/
def readWord? (cs : List Char) : Option Float :=
  let word := String.ofList (cs.map Char.toLower)
  if word = "inf" || word = "infinity" then some Binary64.infinity
  else if word = "nan" then some (0.0 / 0.0)
  else none

/-- The double that a text spells, or `none` if the text is not a number. -/
def read? (text : List Char) : Option Float :=
  let (negative, rest) := spanSign text
  let magnitude? := (readDecimal? rest).orElse fun _ => readWord? rest
  magnitude?.map fun x => if negative then -x else x

end SphereSearch.Decimal
