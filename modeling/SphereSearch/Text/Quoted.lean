import SphereSearch.Text.Property

/-!
# Quoted text

A text is shown between double quotes.  A quote and a backslash get a backslash, four
controls have an escape of one letter, and every other character that cannot be seen on its
own is written as its code point, `\u{301}`.  Single quotes stay as they are.
-/

namespace SphereSearch.Text

/-- The escape of a character by its code point, in lower-case hexadecimal without padding. -/
def codePointEscape (c : Char) : List Char :=
  "\\u\x7b".toList ++ Nat.toDigits 16 c.toNat ++ ['\x7d']

/-- The written form of one character between quotes. -/
def escape (c : Char) : List Char :=
  if c = '"' then ['\\', '"']
  else if c = '\\' then ['\\', '\\']
  else if c = '\t' then ['\\', 't']
  else if c = '\r' then ['\\', 'r']
  else if c = '\n' then ['\\', 'n']
  else if c.toNat = 0 then ['\\', '0']
  else if isCombining c || !isPrintable c then codePointEscape c
  else [c]

/-- The text between quotes. -/
def quoted (cs : List Char) : String :=
  String.ofList ('"' :: (cs.flatMap escape ++ ['"']))

end SphereSearch.Text
