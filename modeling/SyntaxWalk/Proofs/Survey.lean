import SyntaxWalk.Entity.Preorder
import SyntaxWalk.Proofs.Failure
import SyntaxWalk.Proofs.Places

/-!
# Surveys of trees

A survey goes through an entity tree in the order of a walk and notes something down at the
entities, nodes and assignment targets it comes to; it may pass by entities and nodes. It is
computed from the tree alone. If the visitor of a walk answers as the survey does
(`Walker.Follows`), then at every step of the walk what has been noted so far, followed by what the
tasks on the agenda have yet to bring, is the survey of the root (`Walker.Follows.outlook_reaches`).
-/

namespace SyntaxWalk

/-- What is noted down on the way through a tree, and where the way does not go on. -/
structure Survey (β : Type) where
  /-- Noted of an entity that the way comes to. -/
  met : Entity → List β := fun _ => []
  /-- Noted of an entity that the way goes into, before anything in it. -/
  entity : Entity → List β := fun _ => []
  /-- Noted of a node, before anything below it. -/
  node : Node → List β := fun _ => []
  /-- Noted of a target of the assignment that is given with it, before its operands. -/
  target : Node → (assign : Node) → List β := fun _ _ => []
  enters : Entity → Bool := fun _ => true
  opens : Node → Bool := fun _ => true
  /-- Whether the way goes on to what is scoped to a node that is not opened. -/
  rescans : Bool := true

namespace Survey

variable {β : Type} (v : Survey β)

mutual

/-- What is noted below and including a node, when the node is visited itself and when it is the
target of an assignment. What is noted of the entities scoped to a node is given. -/
def ofNode (hoisted : NodeId → List β) : Node → List β × (Node → List β)
  | ⟨id, kind, children, value, position⟩ =>
    let n : Node := ⟨id, kind, children, value, position⟩
    let below := ofNodes hoisted children
    let visited (i : Nat) : List β := (below[i]?.map (·.1)).getD []
    let target (o : Option (List β × (Node → List β))) (assign : Node) : List β :=
      (o.map (·.2 assign)).getD []
    (v.node n ++
        (if v.opens n then
          (kind.traversedChildren children.length).flatMap visited ++
            if kind.isAssignment then target below.head? n else []
        else []) ++
        if v.opens n || v.rescans then hoisted id else [],
      fun assign => v.target n assign ++
        match kind with
        | .arrayRef => visited 0 ++ (below.drop 2).flatMap (·.1)
        | .objectRef => visited 0
        | .blockExpr => target below.getLast? assign
        | _ => [])

def ofNodes (hoisted : NodeId → List β) : List Node → List (List β × (Node → List β))
  | [] => []
  | n :: ns => ofNode hoisted n :: ofNodes hoisted ns

end

mutual

/-- What is noted of an entity and all that is reached from it. -/
def ofEntity : Entity → List β
  | ⟨id, kind, name, body, ⟨rows⟩⟩ =>
    let e : Entity := ⟨id, kind, name, body, ⟨rows⟩⟩
    let below : ScopeTable (List β) := ⟨ofRows rows⟩
    v.met e ++
      if v.enters e then
        v.entity e ++
          match kind with
          | .file | .type => below.all.flatten
          | .function | .script =>
            (body.toList.flatMap fun n =>
                (v.ofNode (fun id => (below.under (.node id)).flatten) n).1) ++
              (below.under .global).flatten
          | .field | .custom _ => []
      else []

def ofRows : List (ScopeKey × List Entity) → List (ScopeKey × List (List β))
  | [] => []
  | (key, es) :: rows => (key, ofEntities es) :: ofRows rows

def ofEntities : List Entity → List (List β)
  | [] => []
  | e :: es => ofEntity e :: ofEntities es

end

/-! ## Surveys, unfolded once -/

/-- What is noted of the entities that an entity scopes to a node. -/
def scopedAt (top : Entity) (id : NodeId) : List β :=
  (top.scopedUnder (.node id)).flatMap v.ofEntity

/-- What is noted for a visit of a node of the body of an entity. -/
def visit (top : Entity) (n : Node) : List β :=
  (v.ofNode (v.scopedAt top) n).1

/-- What is noted for a node of the body of an entity as the target of an assignment. -/
def assign (top : Entity) (t assign : Node) : List β :=
  (v.ofNode (v.scopedAt top) t).2 assign

def child (top : Entity) (n : Node) (i : Nat) : List β :=
  ((n.child? i).map (v.visit top)).getD []

def childTarget (top : Entity) (n : Node) (i : Nat) : List β :=
  ((n.child? i).map (v.assign top · n)).getD []

/-- What is noted in the steps of a plan. -/
def plan (top : Entity) (n : Node) (steps : List Step) : List β :=
  steps.flatMap (Step.gather (v.child top n) (v.childTarget top n))

/-- What is noted of what an entity holds, if `top` is on top of the context for it. -/
def contents (top e : Entity) : List β :=
  if e.kind.isCode then
    e.body.toList.flatMap (v.visit top) ++ (e.scopedUnder .global).flatMap v.ofEntity
  else e.allScoped.flatMap v.ofEntity

/-- What is noted of an entity that the way goes into. -/
def inside (e : Entity) : List β :=
  v.entity e ++
    match e.derivation? with
    | some _ => v.contents e e
    | none => []

variable {v}

theorem ofNodes_eq (hoisted : NodeId → List β) (ns : List Node) :
    v.ofNodes hoisted ns = ns.map (v.ofNode hoisted) := by
  induction ns with
  | nil => rfl
  | cons n ns ih => rw [ofNodes, ih, List.map_cons]

theorem visit_eq (top : Entity) (n : Node) :
    v.visit top n = v.node n ++
      (if v.opens n then
        (n.kind.traversedChildren n.childCount).flatMap (v.child top n) ++
          if n.kind.isAssignment then v.childTarget top n 0 else []
      else []) ++
      if v.opens n || v.rescans then v.scopedAt top n.id else [] := by
  obtain ⟨id, kind, children, value, position⟩ := n
  simp only [visit, ofNode, ofNodes_eq, List.getElem?_map, Option.map_map, List.head?_eq_getElem?]
  rfl

theorem child_eq (top : Entity) (n : Node) (i : Nat) :
    v.child top n i = (n.child? i).toList.flatMap (v.visit top) := by
  unfold child
  cases n.child? i with
  | none => rfl
  | some m => exact (List.flatMap_singleton ..).symm

theorem assign_eq (top : Entity) (t a : Node) :
    v.assign top t a = v.target t a ++
      match t.kind with
      | .blockExpr => (t.lastChild?.map (v.assign top · a)).getD []
      | _ => t.operands.flatMap (v.visit top) := by
  obtain ⟨id, kind, children, value, position⟩ := t
  simp only [assign, ofNode, ofNodes_eq, List.getElem?_map, Option.map_map, List.getLast?_map,
    ← List.map_drop, List.flatMap_map]
  cases kind with
  | arrayRef | objectRef =>
    simp only [Node.operands, List.flatMap_append, ← child_eq]
    rfl
  | _ => rfl

theorem ofEntity_eq (e : Entity) :
    v.ofEntity e = v.met e ++ if v.enters e then v.inside e else [] := by
  have each (es : List Entity) : v.ofEntities es = es.map v.ofEntity := by
    induction es with
    | nil => rfl
    | cons x xs ih => rw [ofEntities, ih, List.map_cons]
  have table (rows : List (ScopeKey × List Entity)) :
      (⟨v.ofRows rows⟩ : ScopeTable (List β)) = ScopeTable.map v.ofEntity ⟨rows⟩ := by
    induction rows with
    | nil => rfl
    | cons row rows ih =>
      have below : v.ofRows rows = _ := congrArg ScopeTable.rows ih
      rw [ofRows, each, below]
      rfl
  obtain ⟨id, kind, name, body, ⟨rows⟩⟩ := e
  cases kind <;>
    simp only [ofEntity, table, ScopeTable.all_map, ScopeTable.under_map, ← List.flatMap_def,
      inside, Entity.derivation?] <;> rfl

/-- The plan of a node notes what lies below it. -/
theorem visit_plan (top : Entity) {n : Node} {steps : List Step}
    (ha : n.kind.arity.all (·.accepts n.childCount)) (hp : n.kind.plan? n.childCount = some steps) :
    v.visit top n = v.node n ++ (if v.opens n then v.plan top n steps else []) ++
      if v.opens n || v.rescans then v.scopedAt top n.id else [] := by
  rw [visit_eq, plan, NodeKind.plan_gather ha hp]

end Survey

/-- A target of a shape that a walk gets past. -/
inductive Node.TakenApart (t : Node) : Prop where
  | var (hk : t.kind = .var)
  | reference (hk : t.kind = .arrayRef ∨ t.kind = .objectRef) (h : t.isWellFormed = true)
  | block {last} (hk : t.kind = .blockExpr) (h : t.lastChild? = some last)

namespace Survey

variable {σ C : Type} (v : Survey β)

/-- Nothing is noted of what a walk gets past, but for the entities it meets. -/
structure Quiet : Prop where
  entity {e} (h : ∀ kind, e.kind ≠ .custom kind) : v.entity e = []
  node {n} (hk : ∀ kind, n.kind ≠ .custom kind) (h : n.isWellFormed = true) : v.node n = []
  target {t} (h : t.TakenApart) (assign : Node) : v.target t assign = []

/-- The answer of a visitor that goes the way of the survey. -/
def answer : HookCall C → Answer
  | .entity .enter e _ _ _ => if v.enters e then .proceed else .handled
  | .node .visit n _ | .node .generalVisit n _ => if v.opens n then .proceed else .handled
  | _ => .proceed

/-- What is noted when a hook is called. -/
def told : HookCall C → List β
  | .entity .enter e _ _ _ => v.met e
  | _ => []

def noted : Entry C → List β
  | .called call _ => v.told call
  | _ => []

/-- What is still to be noted for a task. -/
def ahead (top : C → Entity) : Task C → List β
  | .entity e _ | .nested _ e _ => v.ofEntity e
  | .openEntity e _ => v.inside e
  | .holdEntity e _ inner =>
    match inner with
    | none => []
    | some inner => v.contents (top inner) e
  | .node n context | .openNode n context => v.visit (top context) n
  | .plan n context steps => v.plan (top context) n steps
  | .child n i context => v.child (top context) n i
  | .target a context _ | .lastTarget a context _ => v.assign (top context) a.target a.assign
  | .leaveEntity .. | .finishEntity .. | .finishNode .. | .leaveTarget .. => []

/-- What has been noted, and then what the tasks on the agenda are yet to bring. -/
def outlook (top : C → Entity) (p : List (Task C) × WalkState (Logged σ C)) : List β :=
  p.2.memory.log.flatMap v.noted ++ p.1.flatMap (v.ahead top)

/-- An act tells a first part of a list and leaves the rest to the tasks that it puts on the
agenda. -/
def Brings (top : C → Entity) (xs : List β) : Act C → Prop
  | .fail _ => True
  | .replace tasks | .adopt _ _ tasks => tasks.flatMap (v.ahead top) = xs
  | .derive d context tasks =>
    ∀ inner, top inner = d.top (top context) → (tasks inner).flatMap (v.ahead top) = xs
  | .call hook tasks skip =>
    v.told hook ++ (tasks (v.answer hook)).flatMap (v.ahead top) = xs ∧
      (v.answer hook = .handled → skip = 0)

variable {v} {top : C → Entity}

theorem ahead_nested (parent : Entity) (context : C) (es : List Entity) :
    (es.map (Task.nested parent · context)).flatMap (v.ahead top) = es.flatMap v.ofEntity :=
  List.flatMap_map ..

theorem ahead_nodes (context : C) (ns : List Node) :
    (ns.map (Task.node · context)).flatMap (v.ahead top) = ns.flatMap (v.visit (top context)) :=
  List.flatMap_map ..

theorem ahead_contents (e : Entity) (inner : C) :
    (Walker.contents e (some inner)).flatMap (v.ahead top) = v.contents (top inner) e := by
  simp only [Walker.contents, contents]
  split
  · rw [List.flatMap_append, ahead_nodes, ahead_nested]
  · exact ahead_nested ..

end Survey

namespace Walker

variable {σ C : Type} {w : Walker σ C} {v : Survey β}

/-- The visitor of a walk goes the way of a survey. -/
structure Follows (w : Walker σ C) (v : Survey β) : Prop where
  lexical : w.visitor.Lexical
  answer (call m) : (w.visitor.answer call m).1 = v.answer call
  rescans {n} (h : v.opens n = false) : w.options.rescanNodeScopes = v.rescans
  checks : w.options.checkArity = true
  quiet : v.Quiet

namespace Follows

variable (hw : w.Follows v)

include hw

theorem logged : w.logged.Follows v :=
  ⟨hw.lexical.logged, fun call m => hw.answer call m.memory, hw.rescans, hw.checks, hw.quiet⟩

theorem afterVisit_ahead {n : Node} {context : C} {steps : List Step}
    (h : n.refused? w.options = none) (hp : n.kind.plan? n.childCount = some steps) :
    (w.afterVisit n context steps (if v.opens n then .proceed else .handled)).flatMap
        (v.ahead w.visitor.top) =
      v.visit (w.visitor.top context) n := by
  have ha := Node.accepts_of_refused? hw.checks h
  have builtIn (kind : String) : n.kind ≠ .custom kind := by
    intro hk
    rw [hk] at hp
    cases hp
  have hoisted : (w.hoisted n context).flatMap (v.ahead w.visitor.top) =
      v.scopedAt (w.visitor.top context) n.id := Survey.ahead_nested ..
  rw [Survey.visit_plan _ ha hp, hw.quiet.node builtIn ha, List.nil_append]
  cases ho : v.opens n with
  | true =>
    simp only [if_true, Bool.true_or, afterVisit, List.flatMap_cons, hoisted]
    rfl
  | false =>
    simp only [Bool.false_eq_true, if_false, Bool.false_or, afterVisit, hw.rescans ho,
      List.nil_append]
    split
    · exact hoisted
    · rfl

omit hw in
theorem targetCall_brings {a : Assignment} {context : C} {skip : Nat} {inside : List (Task C)}
    {xs : List β} (h : inside.flatMap (v.ahead w.visitor.top) = xs) :
    v.Brings w.visitor.top xs (targetCall a context skip inside) := by
  refine ⟨?_, fun h : Answer.proceed = .handled => absurd h (by decide)⟩
  change (inside ++ [Task.leaveTarget a context]).flatMap _ = xs
  rw [List.flatMap_append, h]
  exact List.append_nil xs

/-- Every act brings what is ahead of its task. -/
theorem brings {parents : ParentTable} {task : Task C} {act : Act C}
    (h : w.Move parents task act) (hs : task.Supplied) :
    v.Brings w.visitor.top (v.ahead w.visitor.top task) act := by
  cases h with
  | fail => trivial
  | @entity e context =>
    refine ⟨?_, fun _ => rfl⟩
    rw [Survey.told, Survey.answer, Survey.ahead, Survey.ofEntity_eq]
    cases v.enters e with
    | true => simp [onProceed, Survey.ahead]
    | false => rfl
  | nested => exact List.flatMap_singleton ..
  | @openEntity e context d h =>
    intro inner hi
    have builtIn (kind : String) : e.kind ≠ .custom kind := by
      intro hk
      simp [Entity.derivation?, hk] at h
    have top : w.visitor.top inner = e := hi.trans (Entity.derivation?_top h _)
    rw [List.flatMap_singleton, Survey.ahead, Survey.ahead, Survey.inside, hw.quiet.entity builtIn]
    simp only [h, top, List.nil_append]
  | @openField e context h =>
    have builtIn (kind : String) : e.kind ≠ .custom kind := by simp [h]
    rw [Survey.Brings, List.flatMap_singleton, Survey.ahead, Survey.ahead, Survey.inside,
      hw.quiet.entity builtIn]
    simp only [Entity.derivation?, h, List.nil_append]
  | @holdEntity e context inner =>
    refine ⟨?_, fun _ => rfl⟩
    change (contents e inner ++ [Task.leaveEntity e context inner]).flatMap _ = _
    rw [List.flatMap_append]
    cases inner with
    | none => rfl
    | some inner =>
      rw [Survey.ahead_contents]
      exact List.append_nil _
  | leaveEntity | finishEntity | planDone | finishNode => exact ⟨rfl, fun _ => rfl⟩
  | node =>
    refine ⟨?_, fun _ => rfl⟩
    simp [Survey.told, Survey.answer, onProceed, Survey.ahead]
  | openNode h hp => exact ⟨hw.afterVisit_ahead h hp, fun _ => rfl⟩
  | planVisit =>
    simp [Survey.Brings, Survey.ahead, Survey.plan, Step.gather, Step.visited]
  | planLocal =>
    intro inner hi
    simp [Survey.ahead, Survey.plan, Step.gather, Step.visited, hi, Derivation.top]
  | planProtected hi hj =>
    intro inner ht
    simp [Survey.ahead, Survey.plan, Step.gather, Step.visited, Survey.child, ht, hi,
      Derivation.top]
  | planBetween =>
    refine ⟨?_, fun _ => rfl⟩
    simp [Survey.told, Survey.ahead, Survey.plan, Step.gather, Step.visited]
  | planAssign hi hj =>
    simp [Survey.Brings, Survey.ahead, Survey.plan, Step.gather, Step.visited, Survey.child,
      Survey.childTarget, hi, hj]
  | child h => simp [Survey.Brings, Survey.ahead, Survey.child, h]
  | @arrayTarget a context skip hk hr =>
    have shape : a.target.TakenApart :=
      .reference (.inl hk) (Node.accepts_of_refused? hw.checks hr)
    apply targetCall_brings
    rw [List.flatMap_cons, Survey.ahead_nodes, Survey.ahead, Survey.child_eq, Survey.ahead,
      Survey.assign_eq, hw.quiet.target shape, Node.operands, hk, ← List.flatMap_append]
    rfl
  | @objectTarget a context skip hk hr =>
    have shape : a.target.TakenApart :=
      .reference (.inr hk) (Node.accepts_of_refused? hw.checks hr)
    apply targetCall_brings
    rw [List.flatMap_singleton, Survey.ahead, Survey.child_eq, Survey.ahead, Survey.assign_eq,
      hw.quiet.target shape, Node.operands, hk]
    rfl
  | blockTarget =>
    apply targetCall_brings
    exact List.flatMap_singleton ..
  | @varTarget a context skip hk =>
    apply targetCall_brings
    rw [Survey.ahead, Survey.assign_eq, hw.quiet.target (.var hk), Node.operands, hk]
    rfl
  | @lastTarget a context skip last h =>
    have hk : a.target.kind = .blockExpr := hs
    rw [Survey.Brings, List.flatMap_singleton, Survey.ahead, Survey.ahead,
      Survey.assign_eq _ a.target, hw.quiet.target (.block hk h), hk, h]
    rfl
  | leaveTarget => exact ⟨rfl, fun _ => rfl⟩

theorem act_brings (parents : ParentTable) {task : Task C} (hs : task.Supplied) :
    v.Brings w.visitor.top (v.ahead w.visitor.top task) (w.logged.act parents task) :=
  hw.logged.brings (w.logged.act_move parents task) hs

/-! ## Whole walks -/

theorem outlook_advances {p q : List (Task C) × WalkState (Logged σ C)}
    (h : w.logged.Advances p q) (hs : ∀ task ∈ p.1, task.Supplied) :
    v.outlook w.visitor.top q = v.outlook w.visitor.top p := by
  cases h with
  | @replace task rest s tasks h | @adopt task rest s child parent tasks h =>
    have brings := hw.act_brings s.parents (hs _ List.mem_cons_self)
    rw [h] at brings
    rw [Survey.outlook, List.flatMap_append, brings]
    rfl
  | @derive task rest s d context tasks h =>
    have brings := hw.act_brings s.parents (hs _ List.mem_cons_self)
    rw [h] at brings
    have brings := brings _ (hw.lexical d context s.memory.memory)
    simp only [Survey.outlook, Walker.logged, Visitor.logged, List.flatMap_append,
      List.flatMap_cons, List.flatMap_nil, Survey.noted, List.append_nil, brings]
  | @call task rest s hook tasks skip h =>
    have brings := hw.act_brings s.parents (hs _ List.mem_cons_self)
    rw [h] at brings
    obtain ⟨brings, unskipped⟩ := brings
    have whole : rest.drop (if v.answer hook = .handled then skip else 0) = rest := by
      split
      · rw [unskipped ‹_›, List.drop_zero]
      · rfl
    simp only [Survey.outlook, Walker.logged, Visitor.logged, hw.answer, whole, List.flatMap_append,
      List.flatMap_cons, List.flatMap_nil, Survey.noted, List.append_nil, List.append_assoc,
      ← brings]

theorem outlook_reaches {root : Entity} {start : C} {memory : σ}
    {p : List (Task C) × WalkState (Logged σ C)}
    (h : w.logged.Reaches (Walker.start root start { memory }) p) :
    v.outlook w.visitor.top p = v.ofEntity root := by
  induction h with
  | refl => simp [Survey.outlook, Walker.start, Survey.ahead]
  | tail hr hs ih =>
    exact (hw.outlook_advances hs (supplied hw.logged.checks hr)).trans ih

section Walk

variable (hx : w.extensions = {}) {depth : Nat} {root : Entity} {context : C} {s t : WalkState σ}

include hx

/-- What a walk has noted is a first part of the survey. -/
theorem walkLog_prefix (depth : Nat) (root : Entity) (context : C) (s : WalkState σ) :
    (w.walkLog depth root context s).flatMap v.noted <+: v.ofEntity root := by
  obtain ⟨p, reached, hlog, -⟩ := w.walk_reaches hx depth root context s
  rw [← hlog, ← hw.outlook_reaches reached]
  exact List.prefix_append _ _

/-- A walk that succeeds has noted the whole survey. -/
theorem walk_ok {table : ParentTable} (h : w.walk depth root context s = .ok table t) :
    (w.walkLog depth root context s).flatMap v.noted = v.ofEntity root := by
  obtain ⟨u, reached, hlog, -⟩ := w.walk_ok_reaches hx h
  rw [← hlog, ← hw.outlook_reaches reached]
  exact (List.append_nil _).symm

/-- A walk that fails does so at a task, and what it has not noted begins with what is ahead of this
task. -/
theorem walk_failed {e : Walk.Error} (h : w.walk depth root context s = .error (.failed e) t) :
    ∃ task rest, task.Fails w.options e ∧ task.Supplied ∧
      v.ofEntity root = (w.walkLog depth root context s).flatMap v.noted ++
        (v.ahead w.visitor.top task ++ rest) := by
  obtain ⟨u, hu, -, hlog⟩ := (w.walk_logged depth root context).of_error h
  obtain ⟨left, reached, task, rest, rfl, fails⟩ := Walker.walk_error (logged_extensions hx) hu
  have hs := supplied hw.logged.checks reached task List.mem_cons_self
  refine ⟨task, rest.flatMap (v.ahead w.visitor.top), act_fails fails, hs, ?_⟩
  rw [walkLog, hlog, ← hw.outlook_reaches reached]
  rfl

end Walk

end Follows

end Walker

end SyntaxWalk
