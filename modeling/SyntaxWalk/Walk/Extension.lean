import SyntaxWalk.Options
import SyntaxWalk.Visitor.Basic
import SyntaxWalk.Walk.Error

/-!
# Extensions

Kinds outside the catalogue are the business of handlers, which are registered under the name of a
kind; a later registration takes the place of an earlier one. A handler is a procedure: it may ask
the walk to go on with a node, an entity or an assignment target, call a hook, begin a whole walk
anew, and look at and set the memory of the visitor. It learns how each of its requests ended, and
fails or gives an answer; a handler that answers `proceed` has declined.
-/

namespace SyntaxWalk

/-- What a handler may ask of the walk. Only assignment targets and hooks have an answer of their
own, all other requests are answered by `proceed`. -/
inductive Request (C : Type) where
  | node (n : Node) (context : C)
  | entity (e : Entity) (context : C)
  /-- An entity nested in `parent`, which is recorded as its parent. -/
  | nested (parent e : Entity) (context : C)
  | target (a : Assignment) (context : C)
  | hook (call : HookCall C)

/-- The names under which handlers are registered, each list in ascending order. -/
structure ExtensionNames where
  entities : List String
  nodes : List String
  targets : List String
  deriving DecidableEq

namespace ExtensionNames

def isEmpty (names : ExtensionNames) : Bool :=
  names.entities.isEmpty && names.nodes.isEmpty && names.targets.isEmpty

def renderList (names : List String) : String :=
  "[" ++ ", ".intercalate (names.map Text.Quoted.quote) ++ "]"

def render (names : ExtensionNames) : String :=
  "Extensions \x7b entities: " ++ renderList names.entities ++ ", nodes: " ++
    renderList names.nodes ++ ", assign_targets: " ++ renderList names.targets ++ " \x7d"

end ExtensionNames

/-- What a handler sees of the walk at the moment it looks. -/
structure View (σ : Type) where
  memory : σ
  parents : ParentTable
  options : Options
  extensions : ExtensionNames

inductive Procedure (σ C α : Type) where
  | done (a : α)
  | fail (e : Walk.Error)
  | request (r : Request C) (next : Except Walk.Error Answer → Procedure σ C α)
  /-- A whole walk, whose parent table takes the place of the one there was. -/
  | walk (root : Entity) (context : C) (next : Except Walk.Error ParentTable → Procedure σ C α)
  | look (next : View σ → Procedure σ C α)
  | store (memory : σ) (next : Procedure σ C α)

namespace Procedure

variable {σ C α β : Type}

def bind : Procedure σ C α → (α → Procedure σ C β) → Procedure σ C β
  | .done a, f => f a
  | .fail e, _ => .fail e
  | .request r next, f => .request r fun outcome => (next outcome).bind f
  | .walk root context next, f => .walk root context fun outcome => (next outcome).bind f
  | .look next, f => .look fun view => (next view).bind f
  | .store memory next, f => .store memory (next.bind f)

instance : Monad (Procedure σ C) where
  pure := .done
  bind := bind

/-- Makes a request and fails if it fails. -/
def ask (r : Request C) : Procedure σ C Answer :=
  .request r fun outcome =>
    match outcome with
    | .ok a => .done a
    | .error e => .fail e

/-- Makes requests in order, up to the first that fails. -/
def askEach : List (Request C) → Procedure σ C Unit
  | [] => pure ()
  | r :: rs => do
    let _ ← ask r
    askEach rs

def view : Procedure σ C (View σ) :=
  .look .done

/-- Changes the memory and gives a value read off it. -/
def modifyGet (f : StateM σ α) : Procedure σ C α :=
  .look fun v =>
    let (a, memory) := f v.memory
    .store memory (.done a)

end Procedure

abbrev EntityHandler (σ C : Type) := Entity → C → Procedure σ C Answer

abbrev NodeHandler (σ C : Type) := Node → C → Procedure σ C Answer

abbrev TargetHandler (σ C : Type) := Assignment → C → Procedure σ C Answer

structure Extensions (σ C : Type) where
  entities : Table String (EntityHandler σ C) := {}
  nodes : Table String (NodeHandler σ C) := {}
  targets : Table String (TargetHandler σ C) := {}

namespace Extensions

variable {σ C : Type}

def withEntity (x : Extensions σ C) (kind : String) (h : EntityHandler σ C) : Extensions σ C :=
  { x with entities := x.entities.insert kind h }

def withNode (x : Extensions σ C) (kind : String) (h : NodeHandler σ C) : Extensions σ C :=
  { x with nodes := x.nodes.insert kind h }

def withTarget (x : Extensions σ C) (kind : String) (h : TargetHandler σ C) : Extensions σ C :=
  { x with targets := x.targets.insert kind h }

/-- A copy of the tables, with the same handlers under the same names. -/
def copy (x : Extensions σ C) : Extensions σ C :=
  { entities := x.entities, nodes := x.nodes, targets := x.targets }

def names (x : Extensions σ C) : ExtensionNames :=
  ⟨x.entities.keys, x.nodes.keys, x.targets.keys⟩

end Extensions

end SyntaxWalk
