import Mathlib.Data.List.Forall2
import SyntaxWalk.Proofs.Log

/-!
# Logs as brackets

Entering an entity or a node opens a bracket, unless the visitor handles it, and post-processing
closes it. A log that keeps to the protocol of hooks falls into items: entries by themselves, what
is between two brackets, and what a handler has asked for. What may stand directly between the
brackets of a node is said by `Walker.Inside`, and that the brackets of such a log are balanced by
`Item.WellFormed.balanced`.
-/

namespace SyntaxWalk

variable {σ C : Type}

inductive Bracket where
  | opened (subject : Entity ⊕ Node)
  | closed (subject : Entity ⊕ Node)

inductive Balanced : List Bracket → Prop where
  | nil : Balanced []
  | pair {subject word} (h : Balanced word) :
      Balanced (.opened subject :: (word ++ [.closed subject]))
  | append {word word'} (h : Balanced word) (h' : Balanced word') : Balanced (word ++ word')

namespace HookCall

/-- What is entered with a hook, if it is that kind of hook. -/
def opens? : HookCall C → Option (Entity ⊕ Node)
  | .entity .enter e _ _ _ => some (.inl e)
  | .node .enter n _ => some (.inr n)
  | _ => none

/-- What is post-processed with a hook. -/
def closes? : HookCall C → Option (Entity ⊕ Node)
  | .entity .postProcess e _ _ _ => some (.inl e)
  | .node .postProcess n _ => some (.inr n)
  | _ => none

end HookCall

def Entry.bracket? : Entry C → Option Bracket
  | .called call .proceed => (call.opens?.map .opened).or (call.closes?.map .closed)
  | .called call .handled => call.closes?.map .closed
  | _ => none

theorem Entry.bracket?_opens {call : HookCall C} {subject : Entity ⊕ Node}
    (h : call.opens? = some subject) :
    (Entry.called call .proceed).bracket? = some (.opened subject) := by
  simp [bracket?, h]

theorem Entry.bracket?_closes {call : HookCall C} {subject : Entity ⊕ Node} {answer : Answer}
    (h : call.closes? = some subject) :
    (Entry.called call answer).bracket? = some (.closed subject) := by
  have opens : call.opens? = none := by
    unfold HookCall.closes? at h
    split at h <;> first | rfl | cases h
  cases answer <;> simp [bracket?, h, opens]

/-- The brackets of a log, in order. -/
def brackets (log : List (Entry C)) : List Bracket :=
  log.filterMap Entry.bracket?

/-- A part of a log: an entry by itself, or two entries with what is between them. -/
inductive Item (C : Type) where
  | single (x : Entry C)
  | pair (first : Entry C) (inside : List (Item C)) (last : Entry C)

namespace Item

mutual

/-- The entries of an item, as they stand in the log. -/
def entries : Item C → List (Entry C)
  | single x => [x]
  | pair first inside last => first :: (entriesEach inside ++ [last])

def entriesEach : List (Item C) → List (Entry C)
  | [] => []
  | item :: items => item.entries ++ entriesEach items

end

/-- All that a visit of an entity or of a node leaves in a log, be it only the hook with which the
visitor has handled it. -/
inductive IsVisit (subject : Entity ⊕ Node) : Item C → Prop where
  | handled {call} (h : call.opens? = some subject) : IsVisit subject (.single (.called call .handled))
  | through {call inside last} (h : call.opens? = some subject) :
      IsVisit subject (.pair (.called call .proceed) inside last)

/-- What the dispatch of a target of the assignment `n` leaves. -/
inductive OfTarget (n : Node) : Item C → Prop where
  | visit {m item} (h : IsVisit (.inr m) item) : OfTarget n item
  | hook {hook a context answer} (h : a.assign = n) :
      OfTarget n (.single (.called (.target hook a context) answer))
  | handler {inside} : OfTarget n (.pair .began inside .ended)

/-- What a request of a handler leaves. -/
inductive Requested : Item C → Prop where
  | visit {subject item} (h : IsVisit subject item) : Requested item
  | target {n item} (h : OfTarget n item) : Requested item

/-- What there may be between the `visit` and the `leave` hook of a node. -/
inductive Below (n : Node) : Item C → Prop where
  | derived {d outer inner} : Below n (.single (.derived d outer inner))
  | between {point context answer} :
      Below n (.single (.called (.node (.between point) n context) answer))
  | target {item} (h : OfTarget n item) : Below n item

/-- What there may be between entering and post-processing an entity. -/
inductive OfEntity (e : Entity) : Item C → Prop where
  | derived {d outer inner} : OfEntity e (.single (.derived d outer inner))
  | hook {hook context inner parents answer} (h : hook = .visit ∨ hook = .leave) :
      OfEntity e (.single (.called (.entity hook e context inner parents) answer))
  | visit {subject item} (h : IsVisit subject item) : OfEntity e item
  | handler {inside} : OfEntity e (.pair .began inside .ended)

/-- The hook of a target that the visitor has handled. -/
def TakesOver (item : Item C) : Prop :=
  ∃ a context, item = .single (.called (.target .visit a context) .handled)

end Item

namespace Walker

/-- The visits of the entities that are scoped to a node, after the answer to its `visit` hook. -/
def Hoists (w : Walker σ C) (n : Node) (context : C) (answer : Answer) (items : List (Item C)) :
    Prop :=
  if answer = .proceed ∨ w.options.rescanNodeScopes then
    List.Forall₂ (fun e item => item.IsVisit (.inl e))
      ((w.visitor.top context).scopedUnder (.node n.id)) items
  else items = []

/-- What stands directly between the brackets of a node. For a built-in kind this begins with the
`visit` hook; the `leave` hook comes if that hook is answered with `proceed`, unless the visitor takes
over with a hook of the target of an assignment. -/
inductive Inside (w : Walker σ C) (n : Node) (context : C) : List (Item C) → Prop where
  | custom {kind requested hoisted} (hk : n.kind = .custom kind)
      (hh : w.Hoists n context .proceed hoisted) :
      Inside w n context (.pair .began requested .ended :: hoisted)
  | handled {hoisted} (hk : ∀ kind, n.kind ≠ .custom kind)
      (hh : w.Hoists n context .handled hoisted) :
      Inside w n context (.single (.called (.node .visit n context) .handled) :: hoisted)
  | left {below answer hoisted} (hk : ∀ kind, n.kind ≠ .custom kind)
      (hb : ∀ item ∈ below, item.Below n) (ht : ∀ item ∈ below, ¬ item.TakesOver)
      (hh : w.Hoists n context .proceed hoisted) :
      Inside w n context (.single (.called (.node .visit n context) .proceed) ::
        (below ++ .single (.called (.node .leave n context) answer) :: hoisted))
  | takenOver {below hoisted} (hk : n.kind.isAssignment = true)
      (hb : ∀ item ∈ below, item.Below n) (ht : ∃ item ∈ below, item.TakesOver)
      (hh : w.Hoists n context .proceed hoisted) :
      Inside w n context
        (.single (.called (.node .visit n context) .proceed) :: (below ++ hoisted))

end Walker

/-- An item that keeps to the protocol, with all items inside it. -/
inductive Item.WellFormed (w : Walker σ C) : Item C → Prop where
  | single {x} (h : x.bracket? = none) (hx : x ≠ .began ∧ x ≠ .ended) : WellFormed w (.single x)
  | entity {e context parents parents' answer inside} (hi : ∀ item ∈ inside, WellFormed w item)
      (he : ∀ item ∈ inside, item.OfEntity e) :
      WellFormed w (.pair (.called (.entity .enter e context none parents) .proceed) inside
        (.called (.entity .postProcess e context none parents') answer))
  | node {n context answer inside} (hi : ∀ item ∈ inside, WellFormed w item)
      (hn : w.Inside n context inside) :
      WellFormed w (.pair (.called (.node .enter n context) .proceed) inside
        (.called (.node .postProcess n context) answer))
  | handler {inside} (hi : ∀ item ∈ inside, WellFormed w item)
      (hr : ∀ item ∈ inside, item.Requested) : WellFormed w (.pair .began inside .ended)

namespace Item

theorem entriesEach_append (items items' : List (Item C)) :
    entriesEach (items ++ items') = entriesEach items ++ entriesEach items' := by
  induction items with
  | nil => simp [entriesEach]
  | cons item items ih => simp [entriesEach, ih]

theorem brackets_append (log log' : List (Entry C)) :
    brackets (log ++ log') = brackets log ++ brackets log' :=
  List.filterMap_append

theorem balanced_entriesEach {items : List (Item C)}
    (h : ∀ item ∈ items, Balanced (brackets item.entries)) :
    Balanced (brackets (entriesEach items)) := by
  induction items with
  | nil =>
    rw [entriesEach]
    exact .nil
  | cons item items ih =>
    obtain ⟨first, rest⟩ := List.forall_mem_cons.1 h
    rw [entriesEach, brackets_append]
    exact first.append (ih rest)

theorem balanced_pair {first last : Entry C} {inside : List (Item C)} {subject : Entity ⊕ Node}
    (hf : first.bracket? = some (.opened subject)) (hl : last.bracket? = some (.closed subject))
    (h : Balanced (brackets (entriesEach inside))) :
    Balanced (brackets (pair first inside last).entries) := by
  have word : brackets (pair first inside last).entries =
      .opened subject :: (brackets (entriesEach inside) ++ [.closed subject]) := by
    simp [entries, brackets, hf, hl]
  rw [word]
  exact .pair h

theorem WellFormed.balanced {w : Walker σ C} {item : Item C} (h : item.WellFormed w) :
    Balanced (brackets item.entries) := by
  induction h with
  | @single x h _ =>
    have word : brackets (Item.single x).entries = [] := by simp [entries, brackets, h]
    rw [word]
    exact .nil
  | entity _ _ ih | node _ _ ih =>
    exact balanced_pair (Entry.bracket?_opens rfl) (Entry.bracket?_closes rfl)
      (balanced_entriesEach ih)
  | @handler inside _ _ ih =>
    have began : (.began : Entry C).bracket? = none := rfl
    have ended : (.ended : Entry C).bracket? = none := rfl
    have word : brackets (pair .began inside .ended).entries = brackets (entriesEach inside) := by
      simp [entries, brackets, began, ended]
    rw [word]
    exact balanced_entriesEach ih

end Item

end SyntaxWalk
