import SyntaxWalk.Json.Text
import SyntaxWalk.Json.Number

/-!
# JSON documents

The tree of a JSON text with its written form, without blanks, and its reader. Arrays and objects
may be nested to a limit, which makes `read` recursive in the depth that is left; inside one array
or object the characters left bound the number of elements.
-/

namespace SyntaxWalk

inductive Json where
  | null
  | bool (b : Bool)
  | number (n : Json.Number)
  | text (s : String)
  | array (elements : List Json)
  | object (fields : List (String × Json))

namespace Json

def integer (i : Int) : Json := .number (.integer i)

mutual

/-- The document on one line. -/
def render : Json → String
  | .null => "null"
  | .bool b => if b then "true" else "false"
  | .number n => n.render
  | .text s => Text.quote s
  | .array xs => "[" ++ renderElements xs ++ "]"
  | .object fs => "\x7b" ++ renderFields fs ++ "\x7d"

def renderElements : List Json → String
  | [] => ""
  | [x] => render x
  | x :: y :: xs => render x ++ "," ++ renderElements (y :: xs)

def renderFields : List (String × Json) → String
  | [] => ""
  | [(k, x)] => Text.quote k ++ ":" ++ render x
  | (k, x) :: f :: fs => Text.quote k ++ ":" ++ render x ++ "," ++ renderFields (f :: fs)

end

/-- How deep arrays and objects may be nested, plus one. -/
def depthLimit : Nat := 128

/-- The rest of an array after its bracket. At most `n` elements are read. -/
def readElements {α : Type} (item : List Char → Scan α) :
    (n : Nat) → (first : Bool) → List Char → Scan (List α)
  | 0, _, _ => .error .endOfText
  | n + 1, first, cs =>
    let continued (front : List Char) : Scan (List α) :=
      match item front with
      | .error f => .error f
      | .ok (x, rest) => (readElements item n false rest).map fun p => (x :: p.1, p.2)
    match skipBlank cs with
    | [] => .error .endOfText
    | ']' :: rest => .ok ([], rest)
    | c :: rest =>
      if first then continued (c :: rest)
      else if c = ',' then
        match skipBlank rest with
        | [] => .error .endOfText
        | ']' :: _ => .error .trailingComma
        | front => continued front
      else .error .expectedCommaOrEnd

/-- What follows the colon after a key. -/
def afterColon (cs : List Char) : Except Fault (List Char) :=
  match skipBlank cs with
  | [] => .error .endOfText
  | ':' :: rest => .ok rest
  | _ => .error .expectedColon

/-- The key of the next member, or `none` at the closing brace. -/
def readKey? (first : Bool) (cs : List Char) : Scan (Option String) :=
  let key (front : List Char) : Scan (Option String) :=
    match front with
    | [] => .error .endOfText
    | '"' :: rest => (Text.read rest).map fun p => (some p.1, p.2)
    | '\x7d' :: _ => .error .trailingComma
    | _ => .error .expectedKey
  match skipBlank cs with
  | [] => .error .endOfText
  | '\x7d' :: rest => .ok (none, rest)
  | c :: rest =>
    if first then key (c :: rest)
    else if c = ',' then key (skipBlank rest)
    else .error .expectedCommaOrEnd

/-- The rest of an object after its brace. At most `n` members are read. -/
def readMembers {α : Type} (item : List Char → Scan α) :
    (n : Nat) → (first : Bool) → List Char → Scan (List (String × α))
  | 0, _, _ => .error .endOfText
  | n + 1, first, cs =>
    match readKey? first cs with
    | .error f => .error f
    | .ok (none, rest) => .ok ([], rest)
    | .ok (some key, rest) =>
      match afterColon rest with
      | .error f => .error f
      | .ok rest =>
        match item rest with
        | .error f => .error f
        | .ok (x, rest) => (readMembers item n false rest).map fun p => ((key, x) :: p.1, p.2)

/-- The document at the front of a text, with fewer than `depth` arrays and objects nested. -/
def read : (depth : Nat) → List Char → Scan Json
  | 0, _ => .error .tooDeep
  | depth + 1, cs =>
    match skipBlank cs with
    | [] => .error .endOfText
    | 'n' :: rest => (word ['u', 'l', 'l'] rest).map fun r => (.null, r)
    | 't' :: rest => (word ['r', 'u', 'e'] rest).map fun r => (.bool true, r)
    | 'f' :: rest => (word ['a', 'l', 's', 'e'] rest).map fun r => (.bool false, r)
    | '"' :: rest => (Text.read rest).map fun p => (.text p.1, p.2)
    | '-' :: rest => (Number.read true rest).map fun p => (.number p.1, p.2)
    | '[' :: rest =>
      if depth = 0 then .error .tooDeep
      else (readElements (read depth) (rest.length + 1) true rest).map fun p => (.array p.1, p.2)
    | '\x7b' :: rest =>
      if depth = 0 then .error .tooDeep
      else (readMembers (read depth) (rest.length + 1) true rest).map fun p => (.object p.1, p.2)
    | c :: rest =>
      if Number.isDigit c then (Number.read false (c :: rest)).map fun p => (.number p.1, p.2)
      else .error .expectedValue

end Json

end SyntaxWalk
