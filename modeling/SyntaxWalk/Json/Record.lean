import SyntaxWalk.Json.Document

/-!
# Records read from JSON

A record is read field by field, from an object whose members stand in any order or from an array
that has the fields in their order. A member of another name is passed over, a second member of one
name is refused as soon as its key is read, and what is missing at the end is up to `finish`.
-/

namespace SyntaxWalk.Json

/-- The fault of a value that is not of the kind that was asked for: its own, if it has one. -/
def mismatch (cs : List Char) : Fault :=
  let after {α : Type} (r : Except Fault α) : Fault :=
    match r with
    | .error f => f
    | .ok _ => .wrongType
  match cs with
  | 'n' :: rest => after (word ['u', 'l', 'l'] rest)
  | 't' :: rest => after (word ['r', 'u', 'e'] rest)
  | 'f' :: rest => after (word ['a', 'l', 's', 'e'] rest)
  | '"' :: rest => after (Text.read rest)
  | '-' :: rest => after (Number.read true rest)
  | '[' :: _ | '\x7b' :: _ => .wrongType
  | c :: _ => if Number.isDigit c then after (Number.read false cs) else .expectedValue
  | [] => .expectedValue

def readBool (cs : List Char) : Scan Bool :=
  match skipBlank cs with
  | [] => .error .endOfText
  | 't' :: rest => (word ['r', 'u', 'e'] rest).map fun r => (true, r)
  | 'f' :: rest => (word ['a', 'l', 's', 'e'] rest).map fun r => (false, r)
  | cs => .error (mismatch cs)

/-- An unsigned integer of 32 bits. -/
def readUInt32 (cs : List Char) : Scan UInt32 :=
  let checked (r : Scan Number) : Scan UInt32 :=
    match r with
    | .error f => .error f
    | .ok (.integer i, rest) =>
      if 0 ≤ i ∧ i < 0x100000000 then .ok (i.toNat.toUInt32, rest) else .error .outOfRange
    | .ok (.float _, _) => .error .wrongType
  match skipBlank cs with
  | [] => .error .endOfText
  | '-' :: rest => checked (Number.read true rest)
  | c :: rest =>
    if Number.isDigit c then checked (Number.read false (c :: rest))
    else .error (mismatch (c :: rest))

/-- A text, or `null` for none. -/
def readText? (cs : List Char) : Scan (Option String) :=
  match skipBlank cs with
  | [] => .error .endOfText
  | 'n' :: rest => (word ['u', 'l', 'l'] rest).map fun r => (none, r)
  | '"' :: rest => (Text.read rest).map fun p => (some p.1, p.2)
  | cs => .error (mismatch cs)

inductive Bracket where
  | array
  | object
  deriving DecidableEq

/-- Passes over a value that is neither an array nor an object. -/
def skipScalar : List Char → Except Fault (List Char)
  | 'n' :: rest => word ['u', 'l', 'l'] rest
  | 't' :: rest => word ['r', 'u', 'e'] rest
  | 'f' :: rest => word ['a', 'l', 's', 'e'] rest
  | '"' :: rest => Text.skip .plain rest
  | '-' :: rest => Number.skip rest
  | c :: rest => if Number.isDigit c then Number.skip (c :: rest) else .error .expectedValue
  | [] => .error .endOfText

/-- Passes over the key of a member and its colon; an array has neither. -/
def skipKey (b : Bracket) (cs : List Char) : Except Fault (List Char) :=
  match b with
  | .array => .ok cs
  | .object =>
    match skipBlank cs with
    | [] => .error .endOfText
    | '"' :: rest => (Text.skip .plain rest).bind afterColon
    | _ => .error .expectedKey

/-- Where a value is passed over: before a value, or inside the innermost bracket after one
(`continued`) or after its opening. -/
inductive Place where
  | value
  | inside (continued : Bool)

/-- Passes over what is left of a value inside the brackets `stack`, innermost first, in at most `n`
steps; values may be nested to any depth. -/
def skipFrom : (n : Nat) → Place → List Bracket → List Char → Except Fault (List Char)
  | 0, _, _, _ => .error .endOfText
  | n + 1, .value, stack, cs =>
    match skipBlank cs with
    | [] => .error .endOfText
    | '[' :: rest => skipFrom n (.inside false) (.array :: stack) rest
    | '\x7b' :: rest => skipFrom n (.inside false) (.object :: stack) rest
    | cs =>
      match skipScalar cs, stack with
      | .error f, _ => .error f
      | .ok rest, [] => .ok rest
      | .ok rest, _ => skipFrom n (.inside true) stack rest
  | _ + 1, .inside _, [], cs => .ok cs
  | n + 1, .inside continued, b :: stack, cs =>
    let closed (rest : List Char) : Except Fault (List Char) :=
      if stack.isEmpty then .ok rest else skipFrom n (.inside true) stack rest
    let next (front : List Char) : Except Fault (List Char) :=
      (skipKey b front).bind fun rest => skipFrom n .value (b :: stack) rest
    match skipBlank cs, b, continued with
    | [], _, _ => .error .endOfText
    | ']' :: rest, .array, _ => closed rest
    | '\x7d' :: rest, .object, _ => closed rest
    | ',' :: rest, _, true => next rest
    | _, _, true => .error .expectedCommaOrEnd
    | front, _, false => next front

/-- The text after the value at its front. -/
def skipValue (cs : List Char) : Except Fault (List Char) :=
  skipFrom (2 * cs.length + 2) .value [] cs

/-- A named part of a record that is being read into a draft `δ`. -/
structure Field (δ : Type) where
  name : String
  isSet : δ → Bool
  read : δ → List Char → Scan δ

/-- How a record `α` is read. With `mayLack` an array may end before it has all fields. -/
structure Record (δ α : Type) where
  fields : List (Field δ)
  draft : δ
  mayLack : Bool
  finish : δ → Except Fault α

namespace Record

variable {δ α : Type}

/-- The fields at the front of an array, up to its bracket. -/
def readInOrder (r : Record δ α) : List (Field δ) → (first : Bool) → δ → List Char → Scan δ
  | [], _, d, cs => .ok (d, cs)
  | f :: fs, first, d, cs =>
    let continued (front : List Char) : Scan δ :=
      match f.read d front with
      | .error e => .error e
      | .ok (d, rest) => readInOrder r fs false d rest
    match skipBlank cs with
    | [] => .error .endOfText
    | ']' :: rest => if r.mayLack then .ok (d, ']' :: rest) else .error .missingElement
    | c :: rest =>
      if first then continued (c :: rest)
      else if c = ',' then
        match skipBlank rest with
        | [] => .error .endOfText
        | ']' :: _ => .error .trailingComma
        | front => continued front
      else .error .expectedCommaOrEnd

def closeArray (cs : List Char) : Except Fault (List Char) :=
  match skipBlank cs with
  | [] => .error .endOfText
  | ']' :: rest => .ok rest
  | _ => .error .trailingText

/-- The members of an object, at most `n` of them, up to its brace. -/
def readMembers (r : Record δ α) : (n : Nat) → (first : Bool) → δ → List Char → Scan δ
  | 0, _, _, _ => .error .endOfText
  | n + 1, first, d, cs =>
    match readKey? first cs with
    | .error f => .error f
    | .ok (none, rest) => .ok (d, rest)
    | .ok (some key, rest) =>
      match r.fields.find? (·.name == key) with
      | none =>
        match (afterColon rest).bind skipValue with
        | .error f => .error f
        | .ok rest => readMembers r n false d rest
      | some field =>
        if field.isSet d then .error (.duplicateField key)
        else
          match afterColon rest with
          | .error f => .error f
          | .ok rest =>
            match field.read d rest with
            | .error f => .error f
            | .ok (d, rest) => readMembers r n false d rest

/-- The record at the front of a text. -/
def read (r : Record δ α) (cs : List Char) : Scan α :=
  match skipBlank cs with
  | [] => .error .endOfText
  | '[' :: rest =>
    match readInOrder r r.fields true r.draft rest with
    | .error f => .error f
    | .ok (d, rest) =>
      match r.finish d with
      | .error f => .error f
      | .ok a => (closeArray rest).map fun rest => (a, rest)
  | '\x7b' :: rest =>
    match readMembers r (rest.length + 1) true r.draft rest with
    | .error f => .error f
    | .ok (d, rest) => (r.finish d).map fun a => (a, rest)
  | cs => .error (mismatch cs)

/-- The record that a whole text stands for. -/
def ofText (r : Record δ α) (s : String) : Except Fault α :=
  match r.read s.toList with
  | .error f => .error f
  | .ok (a, rest) => (atEnd rest).map fun _ => a

end Record

end SyntaxWalk.Json
