import SyntaxWalk.Json.Fault

/-!
# Texts in JSON

`encode` writes a text between its quotes: quotes, backslashes and control characters are escaped,
the common controls by a letter and the others by four hexadecimal digits; every other character
stands for itself. `decode` reads the characters after an opening quote, with every escape of the
format, and goes through the text once, its mode saying what may come next. `skip` passes over a
text without decoding it and so accepts any pair of surrogates.
-/

namespace SyntaxWalk.Json.Text

def shortEscapes : List (Char × Char) :=
  [('"', '"'), ('\\', '\\'), ('\x08', 'b'), ('\x0c', 'f'), ('\n', 'n'), ('\r', 'r'), ('\t', 't')]

def encodeChar (c : Char) : List Char :=
  match shortEscapes.lookup c with
  | some letter => ['\\', letter]
  | none =>
    if c.toNat < 0x20 then
      ['\\', 'u', '0', '0', Nat.digitChar (c.toNat / 16), Nat.digitChar (c.toNat % 16)]
    else [c]

def encode (cs : List Char) : List Char :=
  cs.flatMap encodeChar

def quote (s : String) : String :=
  String.ofList ('"' :: encode s.toList ++ ['"'])

/-- The character that a one-letter escape stands for. -/
def unescape? : Char → Option Char
  | '"' => some '"'
  | '\\' => some '\\'
  | '/' => some '/'
  | 'b' => some '\x08'
  | 'f' => some '\x0c'
  | 'n' => some '\n'
  | 'r' => some '\r'
  | 't' => some '\t'
  | _ => none

def hexDigit? (c : Char) : Option Nat :=
  if '0' ≤ c ∧ c ≤ '9' then some (c.toNat - 48)
  else if 'a' ≤ c ∧ c ≤ 'f' then some (c.toNat - 87)
  else if 'A' ≤ c ∧ c ≤ 'F' then some (c.toNat - 55)
  else none

/-- Whether the text, in UTF-8, is too short to hold the four digits of an escape. -/
def lacksFour (cs : List Char) : Bool :=
  ((cs.take 4).map Char.utf8Size).foldl (· + ·) 0 < 4

/-- What may come next inside a text. In `hex need acc lead` there are `need` more digits to add to
`acc`; `lead` is the first half of a surrogate pair that waits for its second. -/
inductive Mode where
  | plain
  | escape
  | hex (need acc : Nat) (lead : Option Nat)
  | secondBackslash (lead : Nat)
  | secondLetter (lead : Nat)

/-- What the number of a finished escape means after `lead`: a character, or the first half of a
pair, which asks for more. -/
def finishEscape (n : Nat) : Option Nat → Except Fault (Char ⊕ Nat)
  | none =>
    if 0xdc00 ≤ n ∧ n ≤ 0xdfff then .error .loneSurrogate
    else if 0xd800 ≤ n ∧ n ≤ 0xdbff then .ok (.inr n)
    else .ok (.inl (Char.ofNat n))
  | some lead =>
    if 0xdc00 ≤ n ∧ n ≤ 0xdfff then
      .ok (.inl (Char.ofNat (0x10000 + (lead - 0xd800) * 0x400 + (n - 0xdc00))))
    else .error .loneSurrogate

def push (c : Char) (r : Scan (List Char)) : Scan (List Char) :=
  r.map fun p => (c :: p.1, p.2)

/-- The characters up to the closing quote. -/
def decode : Mode → List Char → Scan (List Char)
  | _, [] => .error .endOfText
  | .plain, c :: cs =>
    if c = '"' then .ok ([], cs)
    else if c = '\\' then decode .escape cs
    else if c.toNat < 0x20 then .error .controlCharacter
    else push c (decode .plain cs)
  | .escape, c :: cs =>
    match unescape? c with
    | some d => push d (decode .plain cs)
    | none =>
      if c = 'u' then
        if lacksFour cs then .error .endOfText else decode (.hex 4 0 none) cs
      else .error .badEscape
  | .hex need acc lead, c :: cs =>
    match hexDigit? c with
    | none => .error .badEscape
    | some d =>
      if need ≤ 1 then
        match finishEscape (acc * 16 + d) lead with
        | .error f => .error f
        | .ok (.inl x) => push x (decode .plain cs)
        | .ok (.inr first) => decode (.secondBackslash first) cs
      else decode (.hex (need - 1) (acc * 16 + d) lead) cs
  | .secondBackslash lead, c :: cs =>
    if c = '\\' then decode (.secondLetter lead) cs else .error .badEscape
  | .secondLetter lead, c :: cs =>
    if c = 'u' then
      if lacksFour cs then .error .endOfText else decode (.hex 4 0 (some lead)) cs
    else .error .badEscape

/-- The text after an opening quote. -/
def read (cs : List Char) : Scan String :=
  (decode .plain cs).map fun p => (String.ofList p.1, p.2)

inductive SkipMode where
  | plain
  | escape
  | hex (need : Nat)

/-- What follows the closing quote; escapes are checked for their form alone. -/
def skip : SkipMode → List Char → Except Fault (List Char)
  | _, [] => .error .endOfText
  | .plain, c :: cs =>
    if c = '"' then .ok cs
    else if c = '\\' then skip .escape cs
    else if c.toNat < 0x20 then .error .controlCharacter
    else skip .plain cs
  | .escape, c :: cs =>
    if (unescape? c).isSome then skip .plain cs
    else if c = 'u' then
      if lacksFour cs then .error .endOfText else skip (.hex 4) cs
    else .error .badEscape
  | .hex need, c :: cs =>
    if (hexDigit? c).isSome then
      if need ≤ 1 then skip .plain cs else skip (.hex (need - 1)) cs
    else .error .badEscape

end SyntaxWalk.Json.Text
