import SphereSearch.Number.Shortest

/-!
# Doubles written without an exponent

A number is written with the fewest digits that read back, always positionally: `1e300` has
301 digits, `5e-324` has 323 zeros after its point, and a whole number has no point at all.
Zero keeps its sign.
-/

namespace SphereSearch.Decimal

/-- Places the decimal point: zeros are added on the side where digits are missing. -/
def Scaled.positional (s : Scaled) : String :=
  let digits := Nat.toDigits 10 s.digits
  let places := (-s.exponent).toNat
  if 0 ≤ s.exponent then
    String.ofList (digits ++ List.replicate s.exponent.toNat '0')
  else if places < digits.length then
    String.ofList (digits.take (digits.length - places) ++
      '.' :: digits.drop (digits.length - places))
  else
    String.ofList ('0' :: '.' :: (List.replicate (places - digits.length) '0' ++ digits))

/-- The text of a double. -/
def text (x : Float) : String :=
  let sign := if x.toBits < 0x8000000000000000 then "" else "-"
  if x.isNaN then "NaN"
  else if x.isInf then sign ++ "inf"
  else if x == 0.0 then sign ++ "0"
  else sign ++ (Dyadic.ofBits x.toBits).shortest.positional

end SphereSearch.Decimal
