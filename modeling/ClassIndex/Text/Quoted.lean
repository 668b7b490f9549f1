import ClassIndex.Text.Unprintable

/-!
# Quoted texts

`Text.quote` writes a text between double quotes on one line. The quote, the backslash and four
controls have short escapes, every other unprintable character is written by its code point, and
all else stands as it is.
-/

namespace ClassIndex.Text

/-- The escape of a character by its code point, in lower case hexadecimal without padding. -/
def codePointEscape (c : Char) : List Char :=
  ['\\', 'u', '\x7b'] ++ Nat.toDigits 16 c.toNat ++ ['\x7d']

/-- The characters that stand for `c` between quotes. -/
def escape (c : Char) : List Char :=
  match c with
  | '"' => ['\\', '"']
  | '\\' => ['\\', '\\']
  | '\n' => ['\\', 'n']
  | '\r' => ['\\', 'r']
  | '\t' => ['\\', 't']
  | '\x00' => ['\\', '0']
  | c => if isUnprintable c then codePointEscape c else [c]

/-- A text in double quotes. -/
def quote (text : String) : String :=
  String.ofList (['"'] ++ text.toList.flatMap escape ++ ['"'])

end ClassIndex.Text
