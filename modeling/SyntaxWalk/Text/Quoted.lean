import SyntaxWalk.Text.Unprintable

/-!
# Quoted text

A text is shown between double quotes. Quotes, backslashes and the common controls have short
escapes, every other character that would not be visible is written by its code point in
hexadecimal, and all else stands for itself. The single quote is not escaped.
-/

namespace SyntaxWalk.Text.Quoted

/-- Whether a character without a short escape is written as itself. -/
def isPlain (c : Char) : Bool :=
  if c.toNat < 0x80 then 0x20 ≤ c.toNat && c.toNat != 0x7f else !isUnprintable c

/-- The escape of a code point: `\u`, then the number in braces, lower case and unpadded. -/
def codePoint (c : Char) : List Char :=
  ['\\', 'u', '\x7b'] ++ Nat.toDigits 16 c.toNat ++ ['\x7d']

def encodeChar (c : Char) : List Char :=
  if c = '\x00' then ['\\', '0']
  else if c = '\t' then ['\\', 't']
  else if c = '\r' then ['\\', 'r']
  else if c = '\n' then ['\\', 'n']
  else if c = '"' then ['\\', '"']
  else if c = '\\' then ['\\', '\\']
  else if isPlain c then [c]
  else codePoint c

def encode (cs : List Char) : List Char :=
  cs.flatMap encodeChar

/-- The text between double quotes. -/
def quote (s : String) : String :=
  String.ofList ('"' :: encode s.toList ++ ['"'])

end SyntaxWalk.Text.Quoted
