import SyntaxWalk.Entity.Scope

/-!
# Entities

Files, types, functions, scripts and fields, and kinds that a front end adds. An entity may have a
body and declares further entities in its scope table; it is identified by its number.
-/

namespace SyntaxWalk

inductive EntityKind where
  | file
  | type
  | function
  | script
  | field
  | custom (name : String)
  deriving DecidableEq

namespace EntityKind

def name : EntityKind → String
  | .file => "file"
  | .type => "type"
  | .function => "function"
  | .script => "script"
  | .field => "field"
  | .custom name => name

/-- Whether the body of the kind is code. -/
def isCode : EntityKind → Bool
  | .function | .script => true
  | _ => false

end EntityKind

structure EntityId where
  val : Nat
  deriving DecidableEq

instance : Ord EntityId where
  compare a b := compare a.val b.val

instance : Std.LawfulEqOrd EntityId where
  compare_self := Std.ReflOrd.compare_self (α := Nat)
  eq_of_compare {a b} h := by
    obtain ⟨a⟩ := a
    obtain ⟨b⟩ := b
    exact congrArg _ (Std.LawfulEqOrd.eq_of_compare h)

def EntityId.display (i : EntityId) : String :=
  s!"e{i.val}"

structure Entity where
  id : EntityId
  kind : EntityKind
  name : String
  body : Option Node := none
  scopes : ScopeTable Entity := {}

namespace Entity

/-- Sameness of entities. -/
instance : BEq Entity where
  beq a b := a.id == b.id

def new (kind : EntityKind) (name : String) : StateM Supply Entity := do
  return { id := ⟨← Supply.take⟩, kind, name }

def withBody (e : Entity) (n : Node) : Entity :=
  { e with body := some n }

/-- Declares an entity under a key. -/
def addScoped (e : Entity) (key : ScopeKey) (child : Entity) : Entity :=
  { e with scopes := e.scopes.add key child }

def scopedUnder (e : Entity) (key : ScopeKey) : List Entity :=
  e.scopes.under key

def allScoped (e : Entity) : List Entity :=
  e.scopes.all

end Entity

end SyntaxWalk
