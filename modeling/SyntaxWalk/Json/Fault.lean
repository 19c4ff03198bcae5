/-!
# What can be wrong with a JSON text

A fault names the first thing that a reader met and could not accept. `Fault.category` sorts the
faults into three: the text is not JSON, it ends too early, or it is JSON of the wrong shape.
-/

namespace SyntaxWalk.Json

inductive Category where
  | grammar
  | shape
  | ending
  deriving DecidableEq

inductive Fault where
  | endOfText
  | expectedValue
  | badLiteral
  | badNumber
  | numberTooLarge
  | badEscape
  | loneSurrogate
  | controlCharacter
  | expectedColon
  | expectedCommaOrEnd
  | expectedKey
  | trailingComma
  | trailingText
  | tooDeep
  | wrongType
  | outOfRange
  | missingElement
  | missingField (name : String)
  | duplicateField (name : String)
  deriving DecidableEq

def Fault.category : Fault → Category
  | .endOfText => .ending
  | .wrongType | .outOfRange | .missingElement | .missingField _ | .duplicateField _ => .shape
  | _ => .grammar

/-- What a reader found at the front of a text, with the rest of the text. -/
abbrev Scan (α : Type) := Except Fault (α × List Char)

def isBlank (c : Char) : Bool :=
  c == ' ' || c == '\n' || c == '\t' || c == '\r'

def skipBlank (cs : List Char) : List Char :=
  cs.dropWhile isBlank

/-- The text after a fixed word. -/
def word : List Char → List Char → Except Fault (List Char)
  | [], cs => .ok cs
  | _ :: _, [] => .error .endOfText
  | w :: ws, c :: cs => if c = w then word ws cs else .error .badLiteral

/-- Nothing but blanks may follow a finished value. -/
def atEnd (cs : List Char) : Except Fault Unit :=
  if (skipBlank cs).isEmpty then .ok () else .error .trailingText

end SyntaxWalk.Json
