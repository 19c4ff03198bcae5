import SyntaxWalk.Entity.Preorder
import SyntaxWalk.Proofs.Depth
import SyntaxWalk.Proofs.Plan
import SyntaxWalk.Walk.Whole

/-!
# The order in which entities are entered

What a collector holds, followed by what the tasks on the agenda have yet to bring, is the preorder
of the root at every step of a walk. A walk that succeeds has therefore collected the preorder, and
one that fails has collected a prefix of it (`Collector.walk_preorder`).
-/

namespace SyntaxWalk

/-! ## The orders, unfolded once -/

namespace Node

/-- The nodes finished below and including the child `i`, if there is one. -/
def childOrder (n : Node) (i : Nat) : List NodeId :=
  ((n.child? i).map finishOrder).getD []

/-- The same for the child as the target of an assignment. -/
def childTargetOrder (n : Node) (i : Nat) : List NodeId :=
  ((n.child? i).map targetOrder).getD []

theorem ordersEach_eq (ns : List Node) : ordersEach ns = ns.map orders := by
  induction ns with
  | nil => rfl
  | cons n ns ih => rw [ordersEach, ih, List.map_cons]

theorem finishOrder_eq (n : Node) :
    n.finishOrder = (n.kind.traversedChildren n.childCount).flatMap n.childOrder ++
      (if n.kind.isAssignment then n.childTargetOrder 0 else []) ++ [n.id] := by
  obtain ⟨id, kind, children, value, position⟩ := n
  simp only [finishOrder, orders, ordersEach_eq, List.getElem?_map, Option.map_map,
    List.head?_eq_getElem?]
  rfl

theorem targetOrder_eq (n : Node) :
    n.targetOrder =
      match n.kind with
      | .arrayRef => n.childOrder 0 ++ (n.children.drop 2).flatMap finishOrder
      | .objectRef => n.childOrder 0
      | .blockExpr => (n.lastChild?.map targetOrder).getD []
      | _ => [] := by
  obtain ⟨id, kind, children, value, position⟩ := n
  simp only [targetOrder, orders, ordersEach_eq, List.getElem?_map, Option.map_map,
    List.getLast?_map, ← List.map_drop, List.flatMap_map]
  rfl

end Node

namespace Entity

theorem preorder_eq (e : Entity) :
    e.preorder = e :: match e.kind with
      | .file | .type => e.allScoped.flatMap preorder
      | .function | .script =>
        (e.body.toList.flatMap Node.finishOrder).flatMap
            (fun id => (e.scopedUnder (.node id)).flatMap preorder) ++
          (e.scopedUnder .global).flatMap preorder
      | .field | .custom _ => [] := by
  have each (es : List Entity) : preorderEach es = es.map preorder := by
    induction es with
    | nil => rfl
    | cons x xs ih => rw [preorderEach, ih, List.map_cons]
  have table (rows : List (ScopeKey × List Entity)) :
      (⟨preorderRows rows⟩ : ScopeTable (List Entity)) = ScopeTable.map preorder ⟨rows⟩ := by
    induction rows with
    | nil => rfl
    | cons row rows ih =>
      have below : preorderRows rows = _ := congrArg ScopeTable.rows ih
      rw [preorderRows, each, below]
      rfl
  obtain ⟨id, kind, name, body, ⟨rows⟩⟩ := e
  cases kind <;>
    simp only [preorder, table, ScopeTable.all_map, ScopeTable.under_map, List.flatMap_def,
      allScoped, scopedUnder]

end Entity

namespace Node

/-- The nodes finished in one step of a plan. -/
def stepOrder (n : Node) (step : Step) : List NodeId :=
  step.visited.flatMap n.childOrder ++
    match step with
    | .assign target _ => n.childTargetOrder target
    | _ => []

/-- The plan of a node finishes what the order of the node puts before the node itself. -/
theorem plan_order {n : Node} {steps : List Step}
    (ha : n.kind.arity.all (·.accepts n.childCount)) (hp : n.kind.plan? n.childCount = some steps) :
    steps.flatMap n.stepOrder ++ [n.id] = n.finishOrder := by
  rw [finishOrder_eq, ← NodeKind.plan_gather ha hp]
  rfl

end Node

namespace Collector

/-! ## What the tasks bring -/

/-- All that is reached from what an entity scopes to the given nodes. -/
def brought (e : Entity) (ids : List NodeId) : List Entity :=
  ids.flatMap fun id => (e.scopedUnder (.node id)).flatMap Entity.preorder

theorem brought_append (e : Entity) (ids ids' : List NodeId) :
    brought e (ids ++ ids') = brought e ids ++ brought e ids' :=
  List.flatMap_append

/-- The entities that are still entered for a task, in order. -/
def expected : Task ScopeContext → List Entity
  | .entity e _ | .nested _ e _ => e.preorder
  | .openEntity e _ => e.preorder.tail
  | .holdEntity e _ inner =>
    match inner with
    | none => []
    | some inner =>
      if e.kind.isCode then
        brought inner.top (e.body.toList.flatMap Node.finishOrder) ++
          (e.scopedUnder .global).flatMap Entity.preorder
      else e.allScoped.flatMap Entity.preorder
  | .node n context | .openNode n context => brought context.top n.finishOrder
  | .plan n context steps => brought context.top (steps.flatMap n.stepOrder)
  | .child n i context => brought context.top (n.childOrder i)
  | .target a context _ => brought context.top a.target.targetOrder
  | .lastTarget a context _ =>
    brought context.top ((a.target.lastChild?.map Node.targetOrder).getD [])
  | .leaveEntity .. | .finishEntity .. | .finishNode .. | .leaveTarget .. => []

theorem expected_nested (parent : Entity) (context : ScopeContext) (es : List Entity) :
    (es.map (Task.nested parent · context)).flatMap expected = es.flatMap Entity.preorder :=
  List.flatMap_map ..

theorem expected_nodes (context : ScopeContext) (ns : List Node) :
    (ns.map (Task.node · context)).flatMap expected =
      brought context.top (ns.flatMap Node.finishOrder) := by
  rw [List.flatMap_map, brought, List.flatMap_assoc]
  rfl

/-- The entity that a call lets the collector put down. -/
def entered : HookCall ScopeContext → List Entity
  | .entity .enter e _ _ _ => [e]
  | _ => []

theorem answer_proceed (c : HookCall ScopeContext) (m : Memory) :
    (answer c m).1 = .proceed ∧ entities (answer c m).2 = entities m ++ entered c := by
  have kept : entities m = entities m ++ [] := (List.append_nil _).symm
  cases c with
  | entity hook e context inner parents =>
    cases hook with
    | enter =>
      refine ⟨rfl, ?_⟩
      change List.map _ (m.collected.push _).toList = _
      rw [Array.toList_push, List.map_append]
      rfl
    | _ => exact ⟨rfl, kept⟩
  | node => exact ⟨rfl, kept⟩
  | target => exact ⟨rfl, kept⟩

theorem derive_entities (d : Derivation) (context : ScopeContext) (m : Memory) :
    entities (derive d context m).2 = entities m := by
  cases d <;> rfl

/-! ## Acts bring what is expected of their tasks -/

/-- The walker of a collector. -/
abbrev walker : Walker Memory ScopeContext := { visitor := visitor }

/-- Whatever the memory, an act collects a first part of some entities and leaves the others to the
tasks that it puts on the agenda. -/
def Brings (es : List Entity) : Act ScopeContext → Prop
  | .fail _ => True
  | .replace tasks | .adopt _ _ tasks => tasks.flatMap expected = es
  | .derive d context tasks => ∀ m, (tasks (derive d context m).1).flatMap expected = es
  | .call hook tasks _ => entered hook ++ (tasks .proceed).flatMap expected = es

theorem targetCall_brings {a : Assignment} {context : ScopeContext} {skip : Nat}
    {inside : List (Task ScopeContext)} (h : inside.flatMap expected = es) :
    Brings es (Walker.targetCall a context skip inside) := by
  simpa [Walker.targetCall, Brings, Walker.onProceed, expected, entered] using h

theorem hoisted_expected (n : Node) (context : ScopeContext) :
    (walker.hoisted n context).flatMap expected = brought context.top [n.id] := by
  rw [Walker.hoisted, expected_nested, brought, List.flatMap_singleton]
  rfl

theorem opened_expected {e : Entity} {d : Derivation} (h : e.derivation? = some d)
    (context inner : ScopeContext) (hi : inner.top = d.top context.top) :
    expected (.holdEntity e context (some inner)) = expected (.openEntity e context) := by
  simp only [expected, Entity.preorder_eq, List.tail_cons]
  cases hk : e.kind <;> simp only [Entity.derivation?, hk] at h <;> cases h <;>
    simp only [EntityKind.isCode, hi, Derivation.top, brought] <;> rfl

/-- Every act brings what is expected of its task. -/
theorem move_brings {parents : ParentTable} {task : Task ScopeContext} {act : Act ScopeContext}
    (h : walker.Move parents task act) : Brings (expected task) act := by
  cases h with
  | fail => trivial
  | @entity e =>
    simp only [Brings, Walker.onProceed, entered, expected, List.flatMap_cons, List.flatMap_nil]
    rw [e.preorder_eq, List.tail_cons, List.append_nil, List.append_nil]
    rfl
  | nested => exact List.flatMap_singleton ..
  | @openEntity e context d h =>
    intro m
    exact (List.flatMap_singleton ..).trans (opened_expected h context _ (lexical d context m))
  | @openField e context h =>
    rw [Brings, List.flatMap_singleton, expected, expected, e.preorder_eq, h, List.tail_cons]
  | @holdEntity e context inner =>
    rw [Brings, Walker.onProceed, List.flatMap_append, List.flatMap_singleton]
    cases inner with
    | none => rfl
    | some inner =>
      simp only [Walker.contents, expected]
      split
      · rw [List.flatMap_append, expected_nodes, expected_nested]
        simp [entered]
      · rw [expected_nested]
        simp [entered]
  | leaveEntity => rfl
  | finishEntity => rfl
  | node => simp [Brings, Walker.onProceed, entered, expected]
  | @openNode n context steps h hp =>
    have ha := Node.accepts_of_refused? rfl h
    rw [Brings, Walker.afterVisit, List.flatMap_cons, hoisted_expected, expected, expected,
      ← brought_append, Node.plan_order ha hp]
    rfl
  | planDone => rfl
  | planVisit => simp [Brings, expected, Node.stepOrder, Step.visited, brought_append]
  | planLocal => 
    intro m
    simp [expected, Node.stepOrder, Step.visited, brought_append]
    rfl
  | planProtected hi hj => 
    intro m
    simp [expected, Node.stepOrder, Step.visited, Node.childOrder, brought_append, hi]
    rfl
  | planBetween => simp [Brings, expected, entered, Node.stepOrder, Step.visited]
  | planAssign hi hj => 
    simp [Brings, expected, Node.stepOrder, Step.visited, Node.childOrder, Node.childTargetOrder,
      brought_append, hi, hj]
  | child h => simp [Brings, expected, Node.childOrder, h]
  | finishNode => rfl
  | arrayTarget h => 
    apply targetCall_brings
    rw [List.flatMap_cons, expected_nodes, expected, expected, Node.targetOrder_eq, h, brought_append]
  | objectTarget h =>
    apply targetCall_brings
    rw [List.flatMap_singleton, expected, expected, Node.targetOrder_eq, h]
  | blockTarget h =>
    apply targetCall_brings
    rw [List.flatMap_singleton, expected, expected, Node.targetOrder_eq, h]
  | varTarget h =>
    apply targetCall_brings
    rw [expected, Node.targetOrder_eq, h]
    rfl
  | lastTarget h => simp [Brings, expected, h]
  | leaveTarget => rfl

theorem act_brings (parents : ParentTable) (task : Task ScopeContext) :
    Brings (expected task) (walker.act parents task) :=
  move_brings (walker.act_move parents task)

/-- What is collected, and then what the agenda is yet to bring. -/
def outlook (p : List (Task ScopeContext) × WalkState Memory) : List Entity :=
  entities p.2.memory ++ p.1.flatMap expected

theorem outlook_advances {p q : List (Task ScopeContext) × WalkState Memory}
    (h : walker.Advances p q) : outlook q = outlook p := by
  cases h with
  | @replace task rest s tasks h | @adopt task rest s child parent tasks h =>
    have brings := act_brings s.parents task
    rw [h, Brings] at brings
    simp only [outlook, List.flatMap_append, List.flatMap_cons, brings]
  | @derive task rest s d context tasks h =>
    have brings := act_brings s.parents task
    rw [h, Brings] at brings
    simp only [outlook, List.flatMap_append, List.flatMap_cons, visitor, derive_entities, brings]
  | @call task rest s hook tasks skip h =>
    have brings := act_brings s.parents task
    rw [h, Brings] at brings
    obtain ⟨proceeds, collects⟩ := answer_proceed hook s.memory
    simp only [outlook, visitor, proceeds, collects, reduceCtorEq, if_false, List.drop_zero,
      List.flatMap_append, List.flatMap_cons, ← brings, List.append_assoc]

theorem outlook_reaches {root : Entity} {context : ScopeContext} {supply : Supply}
    {q : List (Task ScopeContext) × WalkState Memory}
    (h : walker.Reaches (Walker.start root context { serials := supply }) q) :
    outlook q = root.preorder :=
  Walker.Reaches.keeps (fun {_ _} h hp => (outlook_advances h).trans hp) h <| by
    simp [outlook, Walker.start, entities, expected]

/-- A walk of a tree by a collector enters the entities of the tree in their preorder, from its
beginning to where the walk fails or to its end. The size of the tree is depth enough. -/
theorem walk_preorder (depth : Nat) (root : Entity) (context : ScopeContext) (supply : Supply) :
    match visitor.walk depth root context { serials := supply } with
    | .ok _ s => entities s.memory = root.preorder
    | .error (.failed _) s => entities s.memory <+: root.preorder
    | .error .outOfDepth _ => depth < root.size := by
  unfold Visitor.walk
  split
  · rename_i table s h
    have reached := outlook_reaches (Walker.walk_ok rfl h).2
    exact (List.append_nil _).symm.trans reached
  · rename_i e s h
    obtain ⟨left, hr, -⟩ := Walker.walk_error rfl h
    exact ⟨_, outlook_reaches hr⟩
  · rename_i s h
    by_contra hd
    exact Walker.walk_ne_outOfDepth lexical rfl (Nat.le_of_not_lt hd) _ _ _ h

end Collector

end SyntaxWalk
