import Mathlib.Logic.Relation
import SyntaxWalk.Walk.Basic

/-!
# Walks as agendas

A walk without extensions can be carried out from a list of tasks. The first task of it is worked
off by at most one question to the visitor and leaves further tasks in its place, so that no
recursion is left. `visitEntity_carries` says that a walk goes through agendas in this way, whatever
its depth, from the task of its root to the empty agenda or to a task that fails. What every step
from one agenda to the next keeps therefore holds of whole walks.
-/

namespace SyntaxWalk

/-- What a walk has yet to do. -/
inductive Task (C : Type) where
  | entity (e : Entity) (context : C)
  /-- An entity that is to be recorded as nested in `parent` first. -/
  | nested (parent e : Entity) (context : C)
  /-- All that lies between entering and post-processing an entity. -/
  | openEntity (e : Entity) (context : C)
  | holdEntity (e : Entity) (context : C) (inner : Option C)
  | leaveEntity (e : Entity) (context : C) (inner : Option C)
  | finishEntity (e : Entity) (context : C)
  | node (n : Node) (context : C)
  /-- All that lies between entering and post-processing a node. -/
  | openNode (n : Node) (context : C)
  /-- The rest of a plan and the `leave` hook after it. -/
  | plan (n : Node) (context : C) (steps : List Step)
  | child (n : Node) (i : Nat) (context : C)
  | finishNode (n : Node) (context : C)
  /-- A target that, once handled, takes the `skip` tasks after it off the agenda. -/
  | target (a : Assignment) (context : C) (skip : Nat)
  | lastTarget (a : Assignment) (context : C) (skip : Nat)
  | leaveTarget (a : Assignment) (context : C)

/-- How a task is worked off. -/
inductive Act (C : Type) where
  | fail (e : Walk.Error)
  | replace (tasks : List (Task C))
  | adopt (child parent : Entity) (tasks : List (Task C))
  | derive (d : Derivation) (context : C) (tasks : C → List (Task C))
  /-- If the call is handled, the `skip` tasks after this one are left out as well. -/
  | call (hook : HookCall C) (tasks : Answer → List (Task C)) (skip : Nat)

namespace Walk

variable {σ α β : Type} {x : Walk σ α} {f : α → Walk σ β} {s u : WalkState σ}

theorem bind_eq_ok {b : β} :
    (x >>= f) s = .ok b u ↔ ∃ a t, x s = .ok a t ∧ f a t = .ok b u := by
  simp only [Bind.bind, EStateM.bind]
  cases x s with
  | ok a t =>
    constructor
    · exact fun h => ⟨a, t, rfl, h⟩
    · rintro ⟨_, _, ⟨⟩, h⟩
      exact h
  | error stop t =>
    constructor
    · rintro ⟨⟩
    · rintro ⟨_, _, ⟨⟩, _⟩

theorem bind_eq_error {stop : Stop} :
    (x >>= f) s = .error stop u ↔
      x s = .error stop u ∨ ∃ a t, x s = .ok a t ∧ f a t = .error stop u := by
  simp only [Bind.bind, EStateM.bind]
  cases x s with
  | ok a t =>
    constructor
    · exact fun h => .inr ⟨a, t, rfl, h⟩
    · rintro (⟨⟨⟩⟩ | ⟨_, _, ⟨⟩, h⟩)
      exact h
  | error e t =>
    constructor
    · rintro ⟨⟩
      exact .inl rfl
    · rintro (⟨⟨⟩⟩ | ⟨_, _, ⟨⟩, _⟩)
      rfl

end Walk

/-- The error that a node without its child `i` ends a walk with. -/
def Walk.Error.missing (n : Node) (i : Nat) : Walk.Error :=
  match n.kind.arity with
  | some expected =>
    .malformed n (if expected.accepts n.childCount then .atLeast (i + 1) else expected)
  | none => .malformed n (.atLeast (i + 1))

theorem Walk.requireChild_eq {σ : Type} (n : Node) (i : Nat) :
    (requireChild n i : Walk σ Node) =
      match n.child? i with
      | some c => pure c
      | none => fail (.missing n i) := by
  unfold requireChild Walk.Error.missing
  cases n.child? i with
  | some c => rfl
  | none => cases n.kind.arity <;> rfl

/-- The arity that stands against a visit of a node. -/
def Node.refused? (n : Node) (o : Options) : Option Arity :=
  match n.kind.arity with
  | some expected => if o.checkArity && !expected.accepts n.childCount then some expected else none
  | none => none

theorem Node.refused?_eq_some {n : Node} {o : Options} {expected : Arity} :
    n.refused? o = some expected ↔
      o.checkArity = true ∧ n.kind.arity = some expected ∧
        expected.accepts n.childCount = false := by
  unfold refused?
  cases n.kind.arity with
  | none => simp
  | some allowed =>
    simp only [Option.ite_none_right_eq_some, Bool.and_eq_true, Bool.not_eq_true',
      Option.some.injEq]
    constructor
    · rintro ⟨⟨ho, hr⟩, rfl⟩
      exact ⟨ho, rfl, hr⟩
    · rintro ⟨ho, rfl, hr⟩
      exact ⟨⟨ho, hr⟩, rfl⟩

theorem Node.accepts_of_refused? {n : Node} {o : Options} (ho : o.checkArity = true)
    (h : n.refused? o = none) : n.kind.arity.all (·.accepts n.childCount) := by
  unfold refused? at h
  cases ha : n.kind.arity with
  | none => rfl
  | some expected => simpa [ha, ho] using h

/-- The context that is asked for what an entity holds, if its kind has one. -/
def Entity.derivation? (e : Entity) : Option Derivation :=
  match e.kind with
  | .file => some (.file e)
  | .type => some (.type e)
  | .function | .script => some (.code e)
  | .field | .custom _ => none

namespace Walker

variable {σ C : Type}

theorem checkArity_eq (w : Walker σ C) (n : Node) :
    w.checkArity n =
      match n.refused? w.options with
      | some expected => Walk.fail (.malformed n expected)
      | none => pure () := by
  unfold checkArity Node.refused?
  cases n.kind.arity with
  | none => rfl
  | some expected =>
    cases h : w.options.checkArity && !expected.accepts n.childCount <;> simp [h]

/-- What an entity holds, below the context derived for it. -/
def contents (e : Entity) : Option C → List (Task C)
  | none => []
  | some inner =>
    if e.kind.isCode then
      e.body.toList.map (Task.node · inner) ++
        (e.scopedUnder .global).map (Task.nested e · inner)
    else e.allScoped.map (Task.nested e · inner)

/-- The entities that the entity on top scopes to a node. -/
def hoisted (w : Walker σ C) (n : Node) (context : C) : List (Task C) :=
  ((w.visitor.top context).scopedUnder (.node n.id)).map
    (Task.nested (w.visitor.top context) · context)

def onProceed (tasks : List (Task C)) : Answer → List (Task C)
  | .proceed => tasks
  | .handled => []

theorem forall_onProceed {P : Task C → Prop} {tasks : List (Task C)} (h : ∀ task ∈ tasks, P task)
    (answer : Answer) : ∀ task ∈ onProceed tasks answer, P task := by
  cases answer with
  | proceed => exact h
  | handled => exact nofun

/-- What follows the `visit` hook of a node. -/
def afterVisit (w : Walker σ C) (n : Node) (context : C) (steps : List Step) :
    Answer → List (Task C)
  | .proceed => .plan n context steps :: w.hoisted n context
  | .handled => if w.options.rescanNodeScopes then w.hoisted n context else []

theorem forall_contents {P : Task C → Prop} {e : Entity} (hn : ∀ b context, P (.node b context))
    (hs : ∀ x context, P (.nested e x context)) (inner : Option C) :
    ∀ task ∈ contents e inner, P task := by
  have nested (es : List Entity) (context : C) :
      ∀ task ∈ es.map (Task.nested e · context), P task :=
    List.forall_mem_map.2 fun x _ => hs x context
  cases inner with
  | none => exact List.forall_mem_nil _
  | some inner =>
    rw [contents]
    split
    · exact List.forall_mem_append.2 ⟨List.forall_mem_map.2 fun b _ => hn b inner, nested _ _⟩
    · exact nested _ _

theorem forall_afterVisit {w : Walker σ C} {P : Task C → Prop} {n : Node} {context : C}
    {steps : List Step} (hp : P (.plan n context steps))
    (hh : ∀ task ∈ w.hoisted n context, P task) (answer : Answer) :
    ∀ task ∈ w.afterVisit n context steps answer, P task := by
  cases answer with
  | proceed => exact List.forall_mem_cons.2 ⟨hp, hh⟩
  | handled =>
    rw [afterVisit]
    split
    · exact hh
    · exact List.forall_mem_nil _

/-- The first step of a plan, and the plan that is left after it. -/
def planAct (n : Node) (context : C) : List Step → Act C
  | [] => .call (.node .leave n context) (fun _ => []) 0
  | .visit i :: steps => .replace [.child n i context, .plan n context steps]
  | .visitLocal i :: steps =>
    .derive (.localScope n) context fun inner => [.child n i inner, .plan n context steps]
  | .visitProtected i j :: steps =>
    match n.child? i, n.child? j with
    | some body, some cleanup =>
      .derive (.unwind cleanup) context fun inner => [.node body inner, .plan n context steps]
    | none, _ => .fail (.missing n i)
    | some _, none => .fail (.missing n j)
  | .between point :: steps =>
    .call (.node (.between point) n context) (fun _ => [.plan n context steps]) 0
  | .assign i j :: steps =>
    match n.child? i, n.child? j with
    | some target, some rhs =>
      .replace [.node rhs context, .target ⟨target, rhs, n⟩ context 1, .plan n context steps]
    | none, _ => .fail (.missing n i)
    | some _, none => .fail (.missing n j)

def builtInAct (w : Walker σ C) (n : Node) (context : C) : Act C :=
  match n.kind.plan? n.childCount with
  | none => .fail (.malformed n (n.kind.arity.getD .any))
  | some steps => .call (.node .visit n context) (w.afterVisit n context steps) 0

def openAct (w : Walker σ C) (n : Node) (context : C) : Act C :=
  match n.refused? w.options with
  | some expected => .fail (.malformed n expected)
  | none =>
    match n.kind with
    | .custom _ => .fail (.ofNode n)
    | _ => w.builtInAct n context

/-- The `visit` hook of a target and, unless it is handled, the tasks inside and the `leave`
hook. -/
def targetCall (a : Assignment) (context : C) (skip : Nat) (inside : List (Task C)) : Act C :=
  .call (.target .visit a context) (onProceed (inside ++ [.leaveTarget a context])) skip

def targetAct (w : Walker σ C) (a : Assignment) (context : C) (skip : Nat) : Act C :=
  match a.target.kind with
  | .arrayRef =>
    match a.target.refused? w.options with
    | some expected => .fail (.malformed a.target expected)
    | none =>
      targetCall a context skip
        (.child a.target 0 context :: (a.target.children.drop 2).map (Task.node · context))
  | .objectRef =>
    match a.target.refused? w.options with
    | some expected => .fail (.malformed a.target expected)
    | none => targetCall a context skip [.child a.target 0 context]
  | .blockExpr => targetCall a context skip [.lastTarget a context (skip + 1)]
  | .var => targetCall a context skip []
  | _ => .fail (.unsupported a.target a.assign)

def entityAct (e : Entity) (context : C) : Act C :=
  match e.kind with
  | .file => .derive (.file e) context fun inner => [.holdEntity e context (some inner)]
  | .type => .derive (.type e) context fun inner => [.holdEntity e context (some inner)]
  | .function | .script =>
    .derive (.code e) context fun inner => [.holdEntity e context (some inner)]
  | .field => .replace [.holdEntity e context none]
  | .custom _ => .fail (.ofEntity e)

/-- How a task is worked off while the parents are those given. -/
def act (w : Walker σ C) (parents : ParentTable) : Task C → Act C
  | .entity e context =>
    .call (.entity .enter e context none parents)
      (onProceed [.openEntity e context, .finishEntity e context]) 0
  | .nested parent e context => .adopt e parent [.entity e context]
  | .openEntity e context => entityAct e context
  | .holdEntity e context inner =>
    .call (.entity .visit e context inner parents)
      (onProceed (contents e inner ++ [.leaveEntity e context inner])) 0
  | .leaveEntity e context inner =>
    .call (.entity .leave e context inner parents) (fun _ => []) 0
  | .finishEntity e context =>
    .call (.entity .postProcess e context none parents) (fun _ => []) 0
  | .node n context =>
    .call (.node .enter n context)
      (onProceed [.openNode n context, .finishNode n context]) 0
  | .openNode n context => w.openAct n context
  | .plan n context steps => planAct n context steps
  | .child n i context =>
    match n.child? i with
    | some m => .replace [.node m context]
    | none => .fail (.missing n i)
  | .finishNode n context => .call (.node .postProcess n context) (fun _ => []) 0
  | .target a context skip => w.targetAct a context skip
  | .lastTarget a context skip =>
    match a.target.lastChild? with
    | some last => .replace [.target { a with target := last } context skip]
    | none => .fail (.malformed a.target (.atLeast 1))
  | .leaveTarget a context => .call (.target .leave a context) (fun _ => []) 0

/-- All ways in which a task is worked off, with what is known in each. -/
inductive Move (w : Walker σ C) (parents : ParentTable) : Task C → Act C → Prop where
  | fail {task e} : Move w parents task (.fail e)
  | entity {e context} :
      Move w parents (.entity e context)
        (.call (.entity .enter e context none parents)
          (onProceed [.openEntity e context, .finishEntity e context]) 0)
  | nested {parent e context} :
      Move w parents (.nested parent e context) (.adopt e parent [.entity e context])
  | openEntity {e context d} (h : e.derivation? = some d) :
      Move w parents (.openEntity e context)
        (.derive d context fun inner => [.holdEntity e context (some inner)])
  | openField {e context} (h : e.kind = .field) :
      Move w parents (.openEntity e context) (.replace [.holdEntity e context none])
  | holdEntity {e context inner} :
      Move w parents (.holdEntity e context inner)
        (.call (.entity .visit e context inner parents)
          (onProceed (contents e inner ++ [.leaveEntity e context inner])) 0)
  | leaveEntity {e context inner} :
      Move w parents (.leaveEntity e context inner)
        (.call (.entity .leave e context inner parents) (fun _ => []) 0)
  | finishEntity {e context} :
      Move w parents (.finishEntity e context)
        (.call (.entity .postProcess e context none parents) (fun _ => []) 0)
  | node {n context} :
      Move w parents (.node n context)
        (.call (.node .enter n context)
          (onProceed [.openNode n context, .finishNode n context]) 0)
  | openNode {n context steps} (h : n.refused? w.options = none)
      (hp : n.kind.plan? n.childCount = some steps) :
      Move w parents (.openNode n context)
        (.call (.node .visit n context) (w.afterVisit n context steps) 0)
  | planDone {n context} :
      Move w parents (.plan n context []) (.call (.node .leave n context) (fun _ => []) 0)
  | planVisit {n context i steps} :
      Move w parents (.plan n context (.visit i :: steps))
        (.replace [.child n i context, .plan n context steps])
  | planLocal {n context i steps} :
      Move w parents (.plan n context (.visitLocal i :: steps))
        (.derive (.localScope n) context fun inner => [.child n i inner, .plan n context steps])
  | planProtected {n context i j steps body cleanup} (hi : n.child? i = some body)
      (hj : n.child? j = some cleanup) :
      Move w parents (.plan n context (.visitProtected i j :: steps))
        (.derive (.unwind cleanup) context
          fun inner => [.node body inner, .plan n context steps])
  | planBetween {n context point steps} :
      Move w parents (.plan n context (.between point :: steps))
        (.call (.node (.between point) n context) (fun _ => [.plan n context steps]) 0)
  | planAssign {n context i j steps target rhs} (hi : n.child? i = some target)
      (hj : n.child? j = some rhs) :
      Move w parents (.plan n context (.assign i j :: steps))
        (.replace
          [.node rhs context, .target ⟨target, rhs, n⟩ context 1, .plan n context steps])
  | child {n m i context} (h : n.child? i = some m) :
      Move w parents (.child n i context) (.replace [.node m context])
  | finishNode {n context} :
      Move w parents (.finishNode n context)
        (.call (.node .postProcess n context) (fun _ => []) 0)
  | arrayTarget {a context skip} (h : a.target.kind = .arrayRef)
      (hr : a.target.refused? w.options = none) :
      Move w parents (.target a context skip)
        (targetCall a context skip
          (.child a.target 0 context :: (a.target.children.drop 2).map (Task.node · context)))
  | objectTarget {a context skip} (h : a.target.kind = .objectRef)
      (hr : a.target.refused? w.options = none) :
      Move w parents (.target a context skip)
        (targetCall a context skip [.child a.target 0 context])
  | blockTarget {a context skip} (h : a.target.kind = .blockExpr) :
      Move w parents (.target a context skip)
        (targetCall a context skip [.lastTarget a context (skip + 1)])
  | varTarget {a context skip} (h : a.target.kind = .var) :
      Move w parents (.target a context skip) (targetCall a context skip [])
  | lastTarget {a context skip last} (h : a.target.lastChild? = some last) :
      Move w parents (.lastTarget a context skip)
        (.replace [.target { a with target := last } context skip])
  | leaveTarget {a context} :
      Move w parents (.leaveTarget a context)
        (.call (.target .leave a context) (fun _ => []) 0)

theorem planAct_move (w : Walker σ C) (parents : ParentTable) (n : Node) (context : C)
    (steps : List Step) : w.Move parents (.plan n context steps) (planAct n context steps) := by
  cases steps with
  | nil => exact .planDone
  | cons step steps =>
    cases step with
    | visit i => exact .planVisit
    | visitLocal i => exact .planLocal
    | visitProtected i j =>
      simp only [planAct]
      cases hi : n.child? i with
      | none => exact .fail
      | some body =>
        cases hj : n.child? j with
        | none => exact .fail
        | some cleanup => exact .planProtected hi hj
    | between point => exact .planBetween
    | assign i j =>
      simp only [planAct]
      cases hi : n.child? i with
      | none => exact .fail
      | some target =>
        cases hj : n.child? j with
        | none => exact .fail
        | some rhs => exact .planAssign hi hj

theorem openAct_move (w : Walker σ C) (parents : ParentTable) (n : Node) (context : C) :
    w.Move parents (.openNode n context) (w.openAct n context) := by
  unfold openAct
  split
  · exact .fail
  · rename_i h
    split
    · exact .fail
    · unfold builtInAct
      split
      · exact .fail
      · exact .openNode h ‹_›

theorem targetAct_move (w : Walker σ C) (parents : ParentTable) (a : Assignment) (context : C)
    (skip : Nat) : w.Move parents (.target a context skip) (w.targetAct a context skip) := by
  unfold targetAct
  split
  · split
    · exact .fail
    · exact .arrayTarget ‹_› ‹_›
  · split
    · exact .fail
    · exact .objectTarget ‹_› ‹_›
  · exact .blockTarget ‹_›
  · exact .varTarget ‹_›
  · exact .fail

theorem act_move (w : Walker σ C) (parents : ParentTable) (task : Task C) :
    w.Move parents task (w.act parents task) := by
  cases task with
  | entity => exact .entity
  | nested => exact .nested
  | openEntity e context =>
    cases hk : e.kind <;> simp only [act, entityAct, hk]
    · exact .openEntity (by simp only [Entity.derivation?, hk])
    · exact .openEntity (by simp only [Entity.derivation?, hk])
    · exact .openEntity (by simp only [Entity.derivation?, hk])
    · exact .openEntity (by simp only [Entity.derivation?, hk])
    · exact .openField hk
    · exact .fail
  | holdEntity => exact .holdEntity
  | leaveEntity => exact .leaveEntity
  | finishEntity => exact .finishEntity
  | node => exact .node
  | openNode n context => exact openAct_move w parents n context
  | plan n context steps => exact planAct_move w parents n context steps
  | child n i context =>
    simp only [act]
    cases h : n.child? i with
    | none => exact .fail
    | some m => exact .child h
  | finishNode => exact .finishNode
  | target a context skip => exact targetAct_move w parents a context skip
  | lastTarget a context skip =>
    simp only [act]
    cases h : a.target.lastChild? with
    | none => exact .fail
    | some last => exact .lastTarget h
  | leaveTarget => exact .leaveTarget

/-- One step of an agenda, with the state of the walk before and after it. -/
inductive Advances (w : Walker σ C) :
    List (Task C) × WalkState σ → List (Task C) × WalkState σ → Prop where
  | replace {task rest s tasks} (h : w.act s.parents task = .replace tasks) :
      Advances w (task :: rest, s) (tasks ++ rest, s)
  | adopt {task rest s child parent tasks}
      (h : w.act s.parents task = .adopt child parent tasks) :
      Advances w (task :: rest, s)
        (tasks ++ rest, { s with parents := ParentTable.setParent s.parents child parent })
  | derive {task rest s d context tasks}
      (h : w.act s.parents task = .derive d context tasks) :
      Advances w (task :: rest, s)
        (tasks (w.visitor.derive d context s.memory).1 ++ rest,
          { s with memory := (w.visitor.derive d context s.memory).2 })
  | call {task rest s hook tasks skip} (h : w.act s.parents task = .call hook tasks skip) :
      Advances w (task :: rest, s)
        (tasks (w.visitor.answer hook s.memory).1 ++
            rest.drop (if (w.visitor.answer hook s.memory).1 = .handled then skip else 0),
          { s with memory := (w.visitor.answer hook s.memory).2 })

/-- Any number of steps. -/
abbrev Reaches (w : Walker σ C) :
    List (Task C) × WalkState σ → List (Task C) × WalkState σ → Prop :=
  Relation.ReflTransGen w.Advances

/-- Where a walk that failed has left its agenda. -/
def StopsAt (w : Walker σ C) (agenda : List (Task C)) (s : WalkState σ) : Stop → Prop
  | .failed e => ∃ task rest, agenda = task :: rest ∧ w.act s.parents task = .fail e
  | .outOfDepth => True

/-- A piece of a walk takes one agenda to another, which may depend on its value; when it stops, it
does so on the way. -/
structure Carries (w : Walker σ C) {α : Type} (x : Walk σ α) (agenda : List (Task C))
    (next : α → List (Task C)) : Prop where
  ok {s a t} : x s = .ok a t → w.Reaches (agenda, s) (next a, t)
  error {s stop t} :
    x s = .error stop t → ∃ left, w.Reaches (agenda, s) (left, t) ∧ w.StopsAt left t stop

variable {w : Walker σ C} {α β : Type} {agenda rest : List (Task C)} {task : Task C}

namespace Carries

theorem pure {a : α} {next : α → List (Task C)} (h : agenda = next a) :
    w.Carries (pure a) agenda next := by
  constructor
  · rintro s b t ⟨⟩
    exact h ▸ .refl
  · rintro s stop t ⟨⟩

theorem bind {x : Walk σ α} {f : α → Walk σ β} {mid : α → List (Task C)}
    {next : β → List (Task C)} (hx : w.Carries x agenda mid)
    (hf : ∀ a, w.Carries (f a) (mid a) next) : w.Carries (x >>= f) agenda next := by
  constructor
  · intro s b u h
    obtain ⟨a, t, hs, ht⟩ := Walk.bind_eq_ok.1 h
    exact (hx.ok hs).trans ((hf a).ok ht)
  · intro s stop u h
    rcases Walk.bind_eq_error.1 h with hs | ⟨a, t, hs, ht⟩
    · exact hx.error hs
    · obtain ⟨left, hr, hstop⟩ := (hf a).error ht
      exact ⟨left, (hx.ok hs).trans hr, hstop⟩

/-- What the walk does not notice may be done to the agenda first. -/
theorem after {x : Walk σ α} {mid : List (Task C)} {next : α → List (Task C)}
    (h : ∀ s, w.Reaches (agenda, s) (mid, s)) (hx : w.Carries x mid next) :
    w.Carries x agenda next := by
  constructor
  · intro s a t hs
    exact (h s).trans (hx.ok hs)
  · intro s stop t hs
    obtain ⟨left, hr, hstop⟩ := hx.error hs
    exact ⟨left, (h s).trans hr, hstop⟩

/-- A piece that never stops and does a single step. -/
theorem single {x : Walk σ α} {next : α → List (Task C)} (f : WalkState σ → α × WalkState σ)
    (hx : ∀ s, x s = .ok (f s).1 (f s).2)
    (h : ∀ s, w.Advances (task :: rest, s) (next (f s).1, (f s).2)) :
    w.Carries x (task :: rest) next := by
  constructor
  · intro s a t hs
    rw [hx s] at hs
    cases hs
    exact .single (h s)
  · intro s stop t hs
    rw [hx s] at hs
    cases hs

theorem replace {x : Walk σ α} {tasks : List (Task C)} {next : α → List (Task C)}
    (h : ∀ parents, w.act parents task = .replace tasks)
    (hx : w.Carries x (tasks ++ rest) next) : w.Carries x (task :: rest) next :=
  after (fun s => .single (.replace (h s.parents))) hx

theorem fail {e : Walk.Error} {next : α → List (Task C)}
    (h : ∀ parents, w.act parents task = .fail e) :
    w.Carries (Walk.fail e) (task :: rest) next := by
  constructor
  · rintro s a t ⟨⟩
  · rintro s stop t ⟨⟩
    exact ⟨_, .refl, task, rest, rfl, h s.parents⟩

theorem setParent {child parent : Entity} {tasks : List (Task C)}
    (h : ∀ parents, w.act parents task = .adopt child parent tasks) :
    w.Carries (Walk.setParent child parent) (task :: rest) fun _ => tasks ++ rest :=
  .single (fun s => ((), { s with parents := ParentTable.setParent s.parents child parent }))
    (fun _ => rfl) fun s => .adopt (h s.parents)

theorem derive {d : Derivation} {context : C} {tasks : C → List (Task C)}
    (h : ∀ parents, w.act parents task = .derive d context tasks) :
    w.Carries (w.derive d context) (task :: rest) fun inner => tasks inner ++ rest :=
  .single (fun s => ((w.visitor.derive d context s.memory).1,
      { s with memory := (w.visitor.derive d context s.memory).2 }))
    (fun _ => rfl) fun s => .derive (h s.parents)

theorem callTarget {hook : TargetHook} {a : Assignment} {context : C}
    {tasks : Answer → List (Task C)} {skip : Nat}
    (h : ∀ parents, w.act parents task = .call (.target hook a context) tasks skip) :
    w.Carries (w.callTarget hook a context) (task :: rest)
      fun answer => tasks answer ++ rest.drop (if answer = .handled then skip else 0) :=
  .single (fun s => ((w.visitor.answer (.target hook a context) s.memory).1,
      { s with memory := (w.visitor.answer (.target hook a context) s.memory).2 }))
    (fun _ => rfl) fun s => .call (h s.parents)

theorem callNode {hook : NodeHook} {n : Node} {context : C} {tasks : Answer → List (Task C)}
    (h : ∀ parents, w.act parents task = .call (.node hook n context) tasks 0) :
    w.Carries (w.callNode hook n context) (task :: rest) fun answer => tasks answer ++ rest :=
  .single (fun s => ((w.visitor.answer (.node hook n context) s.memory).1,
      { s with memory := (w.visitor.answer (.node hook n context) s.memory).2 }))
    (fun _ => rfl) fun s => by simpa using @Advances.call σ C w task rest s _ _ _ (h s.parents)

theorem callEntity {hook : EntityHook} {e : Entity} {context : C} {inner : Option C}
    {tasks : Answer → List (Task C)}
    (h : ∀ parents,
      w.act parents task = .call (.entity hook e context inner parents) tasks 0) :
    w.Carries (w.callEntity hook e context inner) (task :: rest)
      fun answer => tasks answer ++ rest :=
  .single
    (fun s => ((w.visitor.answer (.entity hook e context inner s.parents) s.memory).1,
      { s with memory := (w.visitor.answer (.entity hook e context inner s.parents) s.memory).2 }))
    (fun _ => rfl) fun s => by simpa using @Advances.call σ C w task rest s _ _ _ (h s.parents)

/-- A child that is required goes on, if it is there. -/
theorem requireChild {n : Node} {i : Nat} {f : Node → Walk σ α} {next : α → List (Task C)}
    (hf : ∀ m, n.child? i = some m → w.Carries (f m) (task :: rest) next)
    (h : n.child? i = none → ∀ parents, w.act parents task = .fail (.missing n i)) :
    w.Carries (Walk.requireChild n i >>= f) (task :: rest) next := by
  rw [Walk.requireChild_eq]
  cases hc : n.child? i with
  | some m => exact hf m hc
  | none => exact .fail (h hc)

theorem checkArity {n : Node} {f : Unit → Walk σ α} {next : α → List (Task C)}
    (hf : n.refused? w.options = none → w.Carries (f ()) (task :: rest) next)
    (h : ∀ expected, n.refused? w.options = some expected →
      ∀ parents, w.act parents task = .fail (.malformed n expected)) :
    w.Carries (w.checkArity n >>= f) (task :: rest) next := by
  rw [checkArity_eq]
  cases hc : n.refused? w.options with
  | none => exact hf hc
  | some expected => exact .fail (h expected hc)

end Carries

/-- The operations of a layer do what the tasks of their kinds say. -/
structure CarriedBy (w : Walker σ C) (d : Descent σ C) : Prop where
  entity : ∀ e context rest,
    w.Carries (d.entity e context) (.entity e context :: rest) fun _ => rest
  node : ∀ n context rest, w.Carries (d.node n context) (.node n context :: rest) fun _ => rest
  target : ∀ a context skip rest,
    w.Carries (d.target a context) (.target a context skip :: rest)
      fun answer => rest.drop (if answer = .handled then skip else 0)

section Layer

variable {d : Descent σ C} (hd : w.CarriedBy d)

include hd

theorem visitScoped_carries (parent : Entity) (context : C) (es : List Entity) :
    w.Carries (Walk.visitScoped d parent context es)
      (es.map (Task.nested parent · context) ++ rest) fun _ => rest := by
  induction es with
  | nil => exact .pure rfl
  | cons e es ih =>
    exact .bind (.setParent fun _ => rfl) fun _ => .bind (hd.entity e context _) fun _ => ih

theorem visitEach_carries (context : C) (ns : List Node) :
    w.Carries (Walk.visitEach d context ns) (ns.map (Task.node · context) ++ rest)
      fun _ => rest := by
  induction ns with
  | nil => exact .pure rfl
  | cons n ns ih => exact .bind (hd.node n context _) fun _ => ih

theorem child_carries {n : Node} {i : Nat} {context : C} {f : Unit → Walk σ α}
    {next : α → List (Task C)} (hf : w.Carries (f ()) rest next) :
    w.Carries (Walk.requireChild n i >>= fun m => d.node m context >>= f)
      (.child n i context :: rest) next :=
  .requireChild
    (fun m h => .replace (fun _ => by simp only [act, h]; rfl)
      (.bind (hd.node m context rest) fun _ => hf))
    (fun h _ => by simp only [act, h])

/-! ## Nodes -/

theorem runStep_carries (n : Node) (context : C) (step : Step) (steps : List Step) :
    w.Carries (w.runStep d n context step) (.plan n context (step :: steps) :: rest)
      fun answer => (.plan n context steps :: rest).drop (if answer = .handled then 1 else 0) := by
  cases step with
  | visit i => exact .replace (fun _ => rfl) (child_carries hd (.pure rfl))
  | visitLocal i => exact .bind (.derive fun _ => rfl) fun inner => child_carries hd (.pure rfl)
  | visitProtected i j =>
    refine .requireChild (fun body hi => .requireChild (fun cleanup hj => ?_) fun hj _ => ?_)
      fun hi _ => ?_
    · exact .bind (.derive fun _ => by simp only [act, planAct, hi, hj]; rfl) fun inner =>
        .bind (hd.node body inner _) fun _ => .pure rfl
    · simp only [act, planAct, hi, hj]
    · simp only [act, planAct, hi]
  | between point => exact .bind (.callNode fun _ => rfl) fun _ => .pure rfl
  | assign i j =>
    refine .requireChild (fun target hi => .requireChild (fun rhs hj => ?_) fun hj _ => ?_)
      fun hi _ => ?_
    · exact .replace (fun _ => by simp only [act, planAct, hi, hj]; rfl)
        (.bind (hd.node rhs context _) fun _ => hd.target ⟨target, rhs, n⟩ context 1 _)
    · simp only [act, planAct, hi, hj]
    · simp only [act, planAct, hi]

theorem runPlan_carries (n : Node) (context : C) (steps : List Step) :
    w.Carries (w.runPlan d n context steps) (.plan n context steps :: rest)
      fun answer => (.plan n context [] :: rest).drop (if answer = .handled then 1 else 0) := by
  induction steps with
  | nil => exact .pure rfl
  | cons step steps ih =>
    refine .bind (runStep_carries hd n context step steps) fun answer => ?_
    cases answer with
    | proceed => exact ih
    | handled => exact .pure rfl

theorem runBuiltIn_carries (n : Node) (context : C)
    (h : ∀ parents, w.act parents (.openNode n context) = w.builtInAct n context) :
    w.Carries (w.runBuiltIn d n context) (.openNode n context :: rest) fun answer =>
      (if answer = .proceed ∨ w.options.rescanNodeScopes then w.hoisted n context else []) ++
        rest := by
  unfold runBuiltIn
  unfold builtInAct at h
  cases hp : n.kind.plan? n.childCount with
  | none =>
    simp only [hp] at h
    exact .fail h
  | some steps =>
    simp only [hp] at h
    refine .bind (.callNode h) fun answer => ?_
    cases answer with
    | handled => exact .pure (by simp [afterVisit])
    | proceed =>
      refine .bind (runPlan_carries hd n context steps) fun answer => ?_
      cases answer with
      | handled => exact .pure (by simp)
      | proceed => exact .bind (.callNode fun _ => rfl) fun _ => .pure (by simp)

theorem runNode_carries (hw : w.extensions = {}) (n : Node) (context : C)
    (h : n.refused? w.options = none) :
    w.Carries (w.runNode d n context) (.openNode n context :: rest) fun answer =>
      (if answer = .proceed ∨ w.options.rescanNodeScopes then w.hoisted n context else []) ++
        rest := by
  unfold runNode
  split
  · rename_i kind hk
    simp only [runCustomNode, hw]
    exact .fail fun _ => by simp only [act, openAct, h, hk]
  · rename_i hk
    refine runBuiltIn_carries hd n context fun _ => ?_
    simp only [act, openAct, h]

theorem visitScopedUnder_carries (n : Node) (answer : Answer) (context : C) :
    w.Carries (w.visitScopedUnder d n answer context)
      ((if answer = .proceed ∨ w.options.rescanNodeScopes then w.hoisted n context else []) ++
        rest) fun _ => rest := by
  unfold visitScopedUnder
  split
  · exact visitScoped_carries hd _ _ _
  · exact .pure rfl

theorem visitNodeIn_carries (hw : w.extensions = {}) (n : Node) (context : C) :
    w.Carries (w.visitNodeIn d n context) (.node n context :: rest) fun _ => rest := by
  refine .bind (.callNode fun _ => rfl) fun answer => ?_
  cases answer with
  | handled => exact .pure rfl
  | proceed =>
    refine .checkArity (fun h => ?_) fun expected h _ => ?_
    · exact .bind (runNode_carries hd hw n context h) fun answer =>
        .bind (visitScopedUnder_carries hd n answer context) fun _ =>
          .bind (.callNode fun _ => rfl) fun _ => .pure rfl
    · simp only [act, openAct, h]

/-! ## Assignment targets -/

omit hd in
theorem runTarget_carries (a : Assignment) (context : C) (skip : Nat) {inside : Walk σ Answer}
    {tasks : List (Task C)}
    (h : ∀ parents,
      w.act parents (.target a context skip) = targetCall a context skip tasks)
    (hi : w.Carries inside (tasks ++ .leaveTarget a context :: rest) fun answer =>
      (.leaveTarget a context :: rest).drop (if answer = .handled then skip + 1 else 0)) :
    w.Carries (w.runTarget a context inside) (.target a context skip :: rest)
      fun answer => rest.drop (if answer = .handled then skip else 0) := by
  refine .bind (.callTarget h) fun answer => ?_
  cases answer with
  | handled => exact .pure rfl
  | proceed =>
    simp only [onProceed, List.append_assoc, List.cons_append, List.nil_append]
    refine .bind hi fun answer => ?_
    cases answer with
    | handled => exact .pure rfl
    | proceed => exact .bind (.callTarget fun _ => rfl) fun _ => .pure (by simp)

theorem dispatchIn_carries (hw : w.extensions = {}) (a : Assignment) (context : C) (skip : Nat) :
    w.Carries (w.dispatchIn d a context) (.target a context skip :: rest)
      fun answer => rest.drop (if answer = .handled then skip else 0) := by
  unfold dispatchIn
  split
  · rename_i hk
    refine .checkArity (fun h => ?_) fun expected h _ => by simp only [act, targetAct, hk, h]
    refine runTarget_carries a context skip
      (fun _ => by simp only [act, targetAct, hk, h]; rfl) ?_
    exact child_carries hd (.bind (visitEach_carries hd context _) fun _ => .pure rfl)
  · rename_i hk
    refine .checkArity (fun h => ?_) fun expected h _ => by simp only [act, targetAct, hk, h]
    refine runTarget_carries a context skip
      (fun _ => by simp only [act, targetAct, hk, h]; rfl) ?_
    exact child_carries hd (.pure rfl)
  · rename_i hk
    refine runTarget_carries a context skip (fun _ => by simp only [act, targetAct, hk]; rfl) ?_
    split
    · rename_i last hl
      exact .replace (fun _ => by simp only [act, hl]; rfl) (hd.target _ context (skip + 1) _)
    · rename_i hl
      exact .fail fun _ => by simp only [act, hl]
  · rename_i hk
    refine runTarget_carries a context skip
      (fun _ => by simp only [act, targetAct, hk]; rfl) ?_
    exact .pure rfl
  · rename_i h₁ h₂ h₃ h₄
    simp only [runCustomTarget, hw]
    refine .fail fun _ => ?_
    simp only [act, targetAct]

/-! ## Entities -/

theorem runContainer_carries (e : Entity) (context : C) (derivation : Derivation)
    (hk : e.kind.isCode = false)
    (h : entityAct e context =
      .derive derivation context fun inner => [.holdEntity e context (some inner)]) :
    w.Carries (w.runContainer d e context derivation) (.openEntity e context :: rest)
      fun _ => rest := by
  refine .bind (.derive fun _ => h) fun inner => .bind (.callEntity fun _ => rfl) fun answer => ?_
  cases answer with
  | handled => exact .pure rfl
  | proceed =>
    simp only [onProceed, contents, hk, List.append_assoc]
    exact .bind (visitScoped_carries hd e inner _) fun _ =>
      .bind (.callEntity fun _ => rfl) fun _ => .pure rfl

theorem runCode_carries (e : Entity) (context : C) (hk : e.kind.isCode = true)
    (h : entityAct e context =
      .derive (.code e) context fun inner => [.holdEntity e context (some inner)]) :
    w.Carries (w.runCode d e context) (.openEntity e context :: rest) fun _ => rest := by
  refine .bind (.derive fun _ => h) fun inner => .bind (.callEntity fun _ => rfl) fun answer => ?_
  cases answer with
  | handled => exact .pure rfl
  | proceed =>
    simp only [onProceed, contents, hk, if_true, List.append_assoc]
    exact .bind (visitEach_carries hd inner _) fun _ => .bind (visitScoped_carries hd e inner _)
      fun _ => .bind (.callEntity fun _ => rfl) fun _ => .pure rfl

omit hd in
theorem runField_carries (e : Entity) (context : C)
    (h : entityAct e context = .replace [.holdEntity e context none]) :
    w.Carries (w.runField e context) (.openEntity e context :: rest) fun _ => rest := by
  refine .replace (fun _ => h) (.bind (.callEntity fun _ => rfl) fun answer => ?_)
  cases answer with
  | handled => exact .pure rfl
  | proceed => exact .bind (.callEntity fun _ => rfl) fun _ => .pure rfl

theorem runEntity_carries (hw : w.extensions = {}) (e : Entity) (context : C) :
    w.Carries (w.runEntity d e context) (.openEntity e context :: rest) fun _ => rest := by
  unfold runEntity
  split
  · rename_i hk
    exact runContainer_carries hd e context _ (by simp [hk, EntityKind.isCode])
      (by simp only [entityAct, hk])
  · rename_i hk
    exact runContainer_carries hd e context _ (by simp [hk, EntityKind.isCode])
      (by simp only [entityAct, hk])
  · rename_i hk
    exact runCode_carries hd e context (by simp [hk, EntityKind.isCode])
      (by simp only [entityAct, hk])
  · rename_i hk
    exact runCode_carries hd e context (by simp [hk, EntityKind.isCode])
      (by simp only [entityAct, hk])
  · rename_i hk
    exact runField_carries e context (by simp only [entityAct, hk])
  · rename_i hk
    simp only [runCustomEntity, hw]
    exact .fail fun _ => by simp only [act, entityAct, hk]

theorem visitEntityIn_carries (hw : w.extensions = {}) (e : Entity) (context : C) :
    w.Carries (w.visitEntityIn d e context) (.entity e context :: rest) fun _ => rest := by
  refine .bind (.callEntity fun _ => rfl) fun answer => ?_
  cases answer with
  | handled => exact .pure rfl
  | proceed =>
    exact .bind (runEntity_carries hd hw e context) fun _ =>
      .bind (.callEntity fun _ => rfl) fun _ => .pure rfl

end Layer

/-- A walk of any depth works its tasks off one by one. -/
theorem descent_carries (hw : w.extensions = {}) (depth : Nat) :
    w.CarriedBy (w.descent depth) := by
  induction depth with
  | zero =>
    have out {α : Type} {agenda : List (Task C)} {next : α → List (Task C)} :
        w.Carries (throw .outOfDepth) agenda next := by
      constructor
      · rintro s a t ⟨⟩
      · rintro s stop t ⟨⟩
        exact ⟨agenda, .refl, trivial⟩
    exact ⟨fun _ _ _ => out, fun _ _ _ => out, fun _ _ _ _ => out⟩
  | succ depth ih =>
    exact ⟨fun e context _ => visitEntityIn_carries ih hw e context,
      fun n context _ => visitNodeIn_carries ih hw n context,
      fun a context skip _ => dispatchIn_carries ih hw a context skip⟩

theorem visitEntity_carries (hw : w.extensions = {}) (depth : Nat) (e : Entity) (context : C) :
    w.Carries (w.visitEntity depth e context) [.entity e context] fun _ => [] :=
  (descent_carries hw depth).entity e context []

/-- What every step keeps holds of all that is reached. -/
theorem Reaches.keeps {I : List (Task C) × WalkState σ → Prop}
    (h : ∀ {p q}, w.Advances p q → I p → I q) {p q : List (Task C) × WalkState σ}
    (hr : w.Reaches p q) (hp : I p) : I q := by
  induction hr with
  | refl => exact hp
  | tail _ hs ih => exact h hs ih

/-- The agenda and the state that a whole walk starts with. -/
def start (root : Entity) (context : C) (memory : σ) : List (Task C) × WalkState σ :=
  ([.entity root context], { memory })

theorem walk_ok (hw : w.extensions = {}) {depth : Nat} {root : Entity} {context : C}
    {s t : WalkState σ} {table : ParentTable} (h : w.walk depth root context s = .ok table t) :
    t.parents = {} ∧
      w.Reaches (start root context s.memory) ([], { t with parents := table }) := by
  obtain ⟨_, _, ⟨⟩, h⟩ := Walk.bind_eq_ok.1 h
  obtain ⟨_, u, hu, ⟨⟩⟩ := Walk.bind_eq_ok.1 h
  exact ⟨rfl, (visitEntity_carries hw depth root context).ok hu⟩

theorem walk_error (hw : w.extensions = {}) {depth : Nat} {root : Entity} {context : C}
    {s t : WalkState σ} {stop : Stop} (h : w.walk depth root context s = .error stop t) :
    ∃ left, w.Reaches (start root context s.memory) (left, t) ∧ w.StopsAt left t stop := by
  rcases Walk.bind_eq_error.1 h with ⟨⟨⟩⟩ | ⟨_, _, ⟨⟩, h⟩
  rcases Walk.bind_eq_error.1 h with h | ⟨_, _, _, ⟨⟩⟩
  exact (visitEntity_carries hw depth root context).error h

end Walker

end SyntaxWalk
