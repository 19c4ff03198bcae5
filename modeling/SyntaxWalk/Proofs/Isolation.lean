import SyntaxWalk.Proofs.Indifference
import SyntaxWalk.Proofs.Operation
import SyntaxWalk.Proofs.Recorded

/-!
# Walks of a recorder that do not see what was before

A walker keeps its parent table and its recorder from one operation to the next, and the supply of
serials goes on. None of this is seen by a later walk from a fresh context: it starts with an empty
table, it adds to the events and never reads them, and the serials of its contexts are those that a
new walker would have, all moved by the distance between the two supplies (`walk_isolated`).
-/

namespace SyntaxWalk

namespace Recorder

/-- What a recorder sees of a part is the same as what it sees of it. -/
theorem sees_same : Sees Likeness.same Eq where
  refl _ := rfl
  name h := congrArg Entity.name h
  describe h := h.elim (congrArg Node.describe) (congrArg Node.describe)
  target h := congrArg Node.id h

/-- Serials that are as far from each other as `a` from `b`. -/
def Apart (a b : Nat) (k k' : Nat) : Prop :=
  k + b = k' + a

/-- Events that differ in their serials alone, which are as far from each other as `a` from `b`. -/
abbrev Event.Shifted (a b : Nat) : Event → Event → Prop :=
  Event.Beside Eq (Apart a b)

theorem Apart.succ {a b : Nat} (k k' : Nat) (h : Apart a b k k') : Apart a b (k + 1) (k' + 1) := by
  unfold Apart at *
  omega

theorem apart_self (a b : Nat) : Apart a b a b :=
  Nat.add_comm a b

/-- The state with another supply of serials. -/
def withSerials (s : WalkState Memory) (serials : Supply) : WalkState Memory :=
  { s with memory := { s.memory with serials } }

/-- An operation, with the depth it is given and the supply that it finds: contexts are made between
the operations as well. -/
structure Turn where
  serials : Supply
  depth : Nat
  operation : Operation ScopeContext

/-- The state after some operations, whether they succeeded or not. -/
def after (w : Walker Memory ScopeContext) : WalkState Memory → List Turn → WalkState Memory
  | s, [] => s
  | s, turn :: turns =>
    after w (Walk.final (turn.operation.run w turn.depth) (withSerials s turn.serials)) turns

/-- A walk from a fresh context. -/
def walkAfresh (w : Walker Memory ScopeContext) (depth : Nat) (root top : Entity) :
    Walk Memory ParentTable := fun s =>
  let (context, memory) := (Supplied.draw (ScopeContext.new top)).run s.memory
  w.walk depth root context { s with memory }

/-- A walk ends in the same way from two states, and with the same parents. What it adds to the
events is the same, too, but for serials that are shifted. -/
structure Repeats (a b : Nat) (x : Walk Memory ParentTable) (s t : WalkState Memory) : Prop where
  outcome : Walk.outcome (x s) = Walk.outcome (x t)
  events : ∃ added added',
    (x.final s).memory.events.toList = s.memory.events.toList ++ added ∧
    (x.final t).memory.events.toList = t.memory.events.toList ++ added' ∧
    List.Forall₂ (Event.Shifted a b) added added'

theorem walkAfresh_repeats (config : Config) (o : Options) (depth : Nat) (root top : Entity)
    (s t : WalkState Memory) :
    Repeats s.memory.serials.next t.memory.serials.next
      (walkAfresh (walker config o) depth root top) s t := by
  let a := s.memory.serials.next
  let b := t.memory.serials.next
  have contexts : ScopeContext.Beside Likeness.same (Apart a b) ⟨top, a⟩ ⟨top, b⟩ :=
    ⟨rfl, apart_self a b⟩
  have memories : Memory.Beside Eq (Apart a b) s.memory.events.toList t.memory.events.toList
      (withSerials s ⟨a + 1⟩).memory (withSerials t ⟨b + 1⟩).memory :=
    ⟨Apart.succ a b (apart_self a b), [], [], (List.append_nil _).symm, (List.append_nil _).symm,
      .nil⟩
  have results : Likeness.same.Results _ Likeness.same.Tables
      ((walker config o).walk depth root ⟨top, a⟩ (withSerials s ⟨a + 1⟩))
      ((walker config o).walk depth root ⟨top, b⟩ (withSerials t ⟨b + 1⟩)) :=
    walk_beside sees_same Apart.succ o depth (rfl : Likeness.same.entities root root) contexts
      memories
  exact ⟨results.outcome_eq, results.final.memory.events⟩

/-- Whatever operations a walker has carried out, and however they ended, its next walk from a fresh
context is the walk of a new walker: it ends with the same result and leaves the same parents, and
the events that it adds are the same but for their serials, which are as far from each other as the
supplies that the two walks find. -/
theorem walk_isolated (config : Config) (o : Options) (start : WalkState Memory)
    (turns : List Turn) (depth : Nat) (root top : Entity) (a b : Supply) :
    let w := walker config o
    let x := walkAfresh w depth root top
    let used := withSerials (after w start turns) a
    let new : WalkState Memory := { memory := { serials := b } }
    Repeats a.next b.next x used new ∧
      (root.size ≤ depth → ∀ s, x used ≠ .error .outOfDepth s) := by
  intro w x used new
  refine ⟨walkAfresh_repeats config o depth root top used new, fun hd s => ?_⟩
  exact Walker.walk_ne_outOfDepth (lexical config) rfl hd _ _ s

/-- A visit that failed has left a parent behind for an entity with the number of one that is walked
later. -/
theorem walk_isolated_hoistingFile :
    let w := walker {} {}
    let x := walkAfresh w 8 hoistingFile hoistingFile
    let parent : Entity := { id := ⟨9⟩, kind := .type, name := "parent" }
    let foreign : Entity := { id := ⟨3⟩, kind := .custom "macro", name := "foreign" }
    let turn : Turn := ⟨{}, 8, .visitNested parent [foreign] ⟨parent, 1⟩⟩
    let used := withSerials (after w { memory := {} } [turn]) ⟨5⟩
    used.parents.pairs = [(3, 9)] ∧
      Repeats 5 1 x used { memory := {} } ∧ ∀ s, x used ≠ .error .outOfDepth s := by
  intro w x parent foreign turn used
  obtain ⟨repeats, ends⟩ :=
    walk_isolated {} {} { memory := {} } [turn] 8 hoistingFile hoistingFile ⟨5⟩ {}
  exact ⟨by decide, repeats, ends (by decide)⟩

end Recorder

end SyntaxWalk
