import SyntaxWalk.Proofs.Brackets
import SyntaxWalk.Proofs.Plan

/-!
# The protocol of hooks

Whatever a visitor answers, the hooks of a walk that succeeds come in a fixed order. This holds with
handlers too, as long as they leave the hooks to the walk and pass on its errors
(`Extensions.Orderly`). Each piece of a walk is described by the items it adds to the log
(`Walker.Emits`); `Walker.descent_emits` puts the pieces together, for a recursion of any depth.
-/

namespace SyntaxWalk

variable {σ C α β : Type}

/-- A handler that calls no hook by itself and fails as soon as one of its requests fails. -/
def Procedure.Orderly : Procedure σ C α → Prop
  | .done _ | .fail _ => True
  | .request r next =>
    (∀ call, r ≠ .hook call) ∧ (∀ e, next (.error e) = .fail e) ∧ ∀ a, (next (.ok a)).Orderly
  | .walk _ _ next => (∀ e, next (.error e) = .fail e) ∧ ∀ table, (next (.ok table)).Orderly
  | .look next => ∀ view, (next view).Orderly
  | .store _ next => next.Orderly

structure Extensions.Orderly (x : Extensions σ C) : Prop where
  entities : ∀ name h, x.entities.get? name = some h → ∀ e context, (h e context).Orderly
  nodes : ∀ name h, x.nodes.get? name = some h → ∀ n context, (h n context).Orderly
  targets : ∀ name h, x.targets.get? name = some h → ∀ a context, (h a context).Orderly

namespace Procedure

theorem Orderly.bind {p : Procedure σ C α} {f : α → Procedure σ C β} (hp : p.Orderly)
    (hf : ∀ a, (f a).Orderly) : (p >>= f).Orderly := by
  induction p with
  | done a => exact hf a
  | fail e => trivial
  | request r next ih =>
    obtain ⟨hr, he, ha⟩ := hp
    exact ⟨hr, fun e => congrArg (·.bind f) (he e), fun a => ih _ (ha a)⟩
  | walk root context next ih =>
    obtain ⟨he, ha⟩ := hp
    exact ⟨fun e => congrArg (·.bind f) (he e), fun table => ih _ (ha table)⟩
  | look next ih => exact fun view => ih view (hp view)
  | store memory next ih => exact ih hp

theorem orderly_askEach {rs : List (Request C)} (h : ∀ r ∈ rs, ∀ call, r ≠ .hook call) :
    (askEach rs : Procedure σ C Unit).Orderly := by
  induction rs with
  | nil => trivial
  | cons r rs ih =>
    obtain ⟨hr, hrs⟩ := List.forall_mem_cons.1 h
    refine Orderly.bind ?_ fun _ => ih hrs
    exact ⟨hr, fun _ => rfl, fun _ => trivial⟩

end Procedure

theorem Extensions.orderly_empty : ({} : Extensions σ C).Orderly :=
  ⟨nofun, nofun, nofun⟩

theorem Extensions.Orderly.withNode {x : Extensions σ C} {kind : String} {h : NodeHandler σ C}
    (hx : x.Orderly) (hh : ∀ n context, (h n context).Orderly) : (x.withNode kind h).Orderly := by
  refine ⟨hx.entities, fun name handler hn => ?_, hx.targets⟩
  rw [Extensions.withNode, Table.get?_insert] at hn
  split at hn
  · cases hn
    exact hh
  · exact hx.nodes name handler hn

namespace Item

theorem IsVisit.not_takesOver {subject : Entity ⊕ Node} {item : Item C} (h : item.IsVisit subject) :
    ¬ item.TakesOver := by
  rintro ⟨a, context, rfl⟩
  cases h with
  | handled h => cases h

theorem OfEntity.visits {e : Entity} {subject : α → Entity ⊕ Node} {as : List α}
    {items : List (Item C)} (h : List.Forall₂ (fun a item => item.IsVisit (subject a)) as items) :
    ∀ item ∈ items, item.OfEntity e := by
  induction h with
  | nil => exact nofun
  | cons visit _ ih => exact List.forall_mem_cons.2 ⟨.visit visit, ih⟩

/-- Items of one sort, with the hook of a target that is handled among them if and only if the answer
says so. -/
structure Taken (sort : Item C → Prop) (answer : Answer) (items : List (Item C)) : Prop where
  sort : ∀ item ∈ items, sort item
  handled : answer = .handled ↔ ∃ item ∈ items, item.TakesOver

namespace Taken

variable {sort sort' : Item C → Prop} {answer : Answer} {items items' : List (Item C)}

theorem proceed (hs : ∀ item ∈ items, sort item) (ht : ∀ item ∈ items, ¬ item.TakesOver) :
    Taken sort .proceed items :=
  ⟨hs, nofun, fun ⟨item, hi, h⟩ => (ht item hi h).elim⟩

theorem append (h : Taken sort .proceed items) (h' : Taken sort answer items') :
    Taken sort answer (items ++ items') := by
  refine ⟨List.forall_mem_append.2 ⟨h.sort, h'.sort⟩, ?_⟩
  have none : ¬ ∃ item ∈ items, item.TakesOver := fun h' => nomatch h.handled.2 h'
  rw [h'.handled]
  simp only [List.mem_append, or_and_right, exists_or, none, false_or]

theorem imp (h : Taken sort answer items) (hs : ∀ item, sort item → sort' item) :
    Taken sort' answer items :=
  ⟨fun item hi => hs item (h.sort item hi), h.handled⟩

theorem visit {n m : Node} {item : Item C} (h : item.IsVisit (.inr m)) :
    Taken (OfTarget n) .proceed [item] :=
  .proceed (List.forall_mem_singleton.2 (.visit h)) (List.forall_mem_singleton.2 h.not_takesOver)

theorem handler {n : Node} {requested : List (Item C)} :
    Taken (OfTarget n) .proceed [.pair .began requested .ended] :=
  .proceed (List.forall_mem_singleton.2 .handler) (List.forall_mem_singleton.2 nofun)

theorem visits {n : Node} {ns : List Node} {items : List (Item C)}
    (h : List.Forall₂ (fun m item => item.IsVisit (.inr m)) ns items) :
    Taken (OfTarget n) .proceed items := by
  induction h with
  | nil => exact .proceed nofun nofun
  | cons hm _ ih => exact (visit hm).append ih

end Taken

end Item

/-- What a piece of a walk adds to the log when it succeeds. -/
structure Walk.Adds (x : Walk (Logged σ C) α) (P : α → List (Entry C) → Prop) : Prop where
  ok {s a t} (h : x s = .ok a t) : ∃ added, t.memory.log = s.memory.log ++ added ∧ P a added

namespace Walk.Adds

variable {x : Walk (Logged σ C) α} {f : α → Walk (Logged σ C) β} {P P' : α → List (Entry C) → Prop}
  {Q : β → List (Entry C) → Prop}

theorem pure {a : α} (h : P a []) : (pure a : Walk (Logged σ C) α).Adds P := by
  constructor
  rintro s _ t ⟨⟩
  exact ⟨[], (List.append_nil _).symm, h⟩

theorem fail {e : Walk.Error} : (Walk.fail e : Walk (Logged σ C) α).Adds P := by
  constructor
  rintro s a t ⟨⟩

theorem bind (hx : x.Adds P)
    (hf : ∀ a added, P a added → (f a).Adds fun b added' => Q b (added ++ added')) :
    (x >>= f).Adds Q := by
  constructor
  intro s b u h
  obtain ⟨a, t, ha, hb⟩ := Walk.bind_eq_ok.1 h
  obtain ⟨added, hlog, hP⟩ := hx.ok ha
  obtain ⟨added', hlog', hQ⟩ := (hf a added hP).ok hb
  refine ⟨added ++ added', ?_, hQ⟩
  rw [hlog', hlog, List.append_assoc]

theorem imp (hx : x.Adds P) (h : ∀ a added, P a added → P' a added) : x.Adds P' := by
  constructor
  intro s a t hs
  obtain ⟨added, hlog, hP⟩ := hx.ok hs
  exact ⟨added, hlog, h a added hP⟩

end Walk.Adds

namespace Walker

/-- What a piece of a walk adds are items that keep to the protocol and are as said. -/
def Emits (w : Walker σ C) (x : Walk (Logged σ C) α) (P : α → List (Item C) → Prop) : Prop :=
  x.Adds fun a added => ∃ items, added = Item.entriesEach items ∧
    (∀ item ∈ items, item.WellFormed w) ∧ P a items

variable {w : Walker σ C}

namespace Emits

variable {x : Walk (Logged σ C) α} {f : α → Walk (Logged σ C) β} {P P' : α → List (Item C) → Prop}
  {Q : β → List (Item C) → Prop}

theorem pure {a : α} (h : P a []) : w.Emits (pure a) P :=
  Walk.Adds.pure ⟨[], rfl, nofun, h⟩

theorem fail {e : Walk.Error} : w.Emits (Walk.fail e) P :=
  Walk.Adds.fail

theorem imp (hx : w.Emits x P) (h : ∀ a items, P a items → P' a items) : w.Emits x P' :=
  Walk.Adds.imp hx fun a _ ⟨items, hi, wf, hP⟩ => ⟨items, hi, wf, h a items hP⟩

theorem bind (hx : w.Emits x P)
    (hf : ∀ a items, P a items → w.Emits (f a) fun b items' => Q b (items ++ items')) :
    w.Emits (x >>= f) Q := by
  refine Walk.Adds.bind hx ?_
  rintro a _ ⟨items, rfl, wf, hP⟩
  refine Walk.Adds.imp (hf a items hP) ?_
  rintro b _ ⟨items', rfl, wf', hQ⟩
  refine ⟨items ++ items', ?_, List.forall_mem_append.2 ⟨wf, wf'⟩, hQ⟩
  rw [Item.entriesEach_append]

/-- Pieces whose items are all of one sort. -/
theorem each {sort : Item C → Prop} (hx : w.Emits x fun _ items => ∀ item ∈ items, sort item)
    (hf : ∀ a, w.Emits (f a) fun _ items => ∀ item ∈ items, sort item) :
    w.Emits (x >>= f) fun _ items => ∀ item ∈ items, sort item :=
  hx.bind fun a _ h => (hf a).imp fun _ _ h' => List.forall_mem_append.2 ⟨h, h'⟩

/-- An entry that stands by itself. -/
theorem single {entry : α → Entry C} (hx : x.Adds fun a added => added = [entry a])
    (hb : ∀ a, (entry a).bracket? = none ∧ entry a ≠ .began ∧ entry a ≠ .ended) :
    w.Emits x fun a items => ∃ item, items = [item] ∧ item = .single (entry a) :=
  hx.imp fun a _ h =>
    ⟨[.single (entry a)], h, List.forall_mem_singleton.2 (.single (hb a).1 (hb a).2), _, rfl, rfl⟩

theorem silent (h : ∀ {s a t}, x s = .ok a t → t.memory.log = s.memory.log) :
    w.Emits x fun _ items => items = [] := by
  constructor
  intro s a t hs
  exact ⟨[], (h hs).trans (List.append_nil _).symm, [], rfl, nofun, rfl⟩

/-- After a piece that adds nothing. -/
theorem silently (hx : w.Emits x fun _ items => items = []) (hf : ∀ a, w.Emits (f a) Q) :
    w.Emits (x >>= f) Q := by
  refine hx.bind ?_
  rintro a _ rfl
  exact hf a

/-- After a piece that adds one item. -/
theorem cons {R : α → Item C → Prop}
    (hx : w.Emits x fun a items => ∃ item, items = [item] ∧ R a item)
    (hf : ∀ a item, R a item → w.Emits (f a) fun b items => Q b (item :: items)) :
    w.Emits (x >>= f) Q := by
  refine hx.bind ?_
  rintro a _ ⟨item, rfl, h⟩
  exact hf a item h

/-- A piece that is attempted, and nothing succeeds after it has failed. -/
theorem attempt {f : Except Walk.Error α → Walk (Logged σ C) β} (hx : w.Emits x P)
    (he : ∀ e s b t, f (.error e) s ≠ .ok b t)
    (hf : ∀ a items, P a items → w.Emits (f (.ok a)) fun b items' => Q b (items ++ items')) :
    w.Emits (Walk.attempt x >>= f) Q := by
  constructor
  intro s b u h
  refine (hx.bind hf).ok (Walk.bind_eq_ok.2 ?_)
  obtain ⟨outcome, t, ho, hb⟩ := Walk.bind_eq_ok.1 h
  unfold Walk.attempt at ho
  split at ho
  · rename_i a t' hs
    cases ho
    exact ⟨a, t, hs, hb⟩
  · cases ho
    exact (he _ _ _ _ hb).elim
  · cases ho

theorem setParent {child parent : Entity} :
    w.Emits (Walk.setParent child parent) fun _ items => items = [] :=
  .silent (by rintro s a t ⟨⟩; rfl)

theorem requireChild {n : Node} {i : Nat} :
    w.Emits (Walk.requireChild n i) fun _ items => items = [] := by
  rw [Walk.requireChild_eq]
  cases n.child? i with
  | some m => exact .pure rfl
  | none => exact .fail

end Emits

theorem call_adds (call : HookCall C) :
    (w.logged.call call).Adds fun answer added => added = [.called call answer] := by
  constructor
  rintro s answer t ⟨⟩
  exact ⟨_, rfl, rfl⟩

theorem callEntity_adds (hook : EntityHook) (e : Entity) (context : C) (inner : Option C) :
    (w.logged.callEntity hook e context inner).Adds fun answer added =>
      ∃ parents, added = [.called (.entity hook e context inner parents) answer] := by
  constructor
  rintro s answer t ⟨⟩
  exact ⟨_, rfl, s.parents, rfl⟩

theorem checkArity_emits (n : Node) :
    w.Emits (w.logged.checkArity n) fun _ items => items = [] := by
  rw [checkArity_eq]
  split
  · exact .fail
  · exact .pure rfl

theorem derive_emits (d : Derivation) (context : C) :
    w.Emits (w.logged.derive d context) fun inner items =>
      ∃ item, items = [item] ∧ item = .single (.derived d context inner) := by
  refine .single ⟨?_⟩ fun _ => ⟨rfl, nofun, nofun⟩
  rintro s inner t ⟨⟩
  exact ⟨_, rfl, rfl⟩

theorem bracket?_called {call : HookCall C} (h : call.opens? = none) (h' : call.closes? = none)
    (answer : Answer) : (Entry.called call answer).bracket? = none := by
  cases answer <;> simp [Entry.bracket?, h, h']

theorem call_emits {call : HookCall C} (h : call.opens? = none) (h' : call.closes? = none) :
    w.Emits (w.logged.call call) fun answer items =>
      ∃ item, items = [item] ∧ item = .single (.called call answer) :=
  .single (call_adds call) fun answer => ⟨bracket?_called h h' answer, nofun, nofun⟩

/-- The operations of a layer add what visits and dispatches are to add. -/
structure EmitsBy (w : Walker σ C) (d : Descent (Logged σ C) C) : Prop where
  entity : ∀ e context,
    w.Emits (d.entity e context) fun _ items => ∃ item, items = [item] ∧ item.IsVisit (.inl e)
  node : ∀ n context,
    w.Emits (d.node n context) fun _ items => ∃ item, items = [item] ∧ item.IsVisit (.inr n)
  target : ∀ a context, w.Emits (d.target a context) (Item.Taken (Item.OfTarget a.assign))

section Layer

variable {d : Descent (Logged σ C) C} (hd : w.EmitsBy d)

include hd

theorem visitScoped_emits (parent : Entity) (context : C) (es : List Entity) :
    w.Emits (Walk.visitScoped d parent context es) fun _ items =>
      List.Forall₂ (fun e item => item.IsVisit (.inl e)) es items := by
  induction es with
  | nil => exact .pure .nil
  | cons e es ih =>
    exact .silently .setParent fun _ => .cons (hd.entity e context) fun _ item visit =>
      ih.imp fun _ items visits => .cons visit visits

theorem visitEach_emits (context : C) (ns : List Node) :
    w.Emits (Walk.visitEach d context ns) fun _ items =>
      List.Forall₂ (fun n item => item.IsVisit (.inr n)) ns items := by
  induction ns with
  | nil => exact .pure .nil
  | cons n ns ih =>
    exact .cons (hd.node n context) fun _ item visit =>
      ih.imp fun _ items visits => .cons visit visits

/-! ## Handlers -/

theorem runRequest_emits (r : Request C) (hr : ∀ call, r ≠ .hook call) :
    w.Emits (w.logged.runRequest d r) fun _ items => ∀ item ∈ items, item.Requested := by
  cases r with
  | node n context =>
    exact .cons (hd.node n context) fun _ item visit =>
      .pure (List.forall_mem_singleton.2 (.visit visit))
  | entity e context =>
    exact .cons (hd.entity e context) fun _ item visit =>
      .pure (List.forall_mem_singleton.2 (.visit visit))
  | nested parent e context =>
    exact .silently .setParent fun _ => .cons (hd.entity e context) fun _ item visit =>
      .pure (List.forall_mem_singleton.2 (.visit visit))
  | target a context =>
    exact (hd.target a context).imp fun _ items taken item hi => .target (taken.sort item hi)
  | hook call => exact (hr call rfl).elim

theorem whole_emits (root : Entity) (context : C) :
    w.Emits (Walk.whole d root context) fun _ items => ∀ item ∈ items, item.Requested := by
  refine .silently (.silent (by rintro s a t ⟨⟩; rfl)) fun _ => ?_
  refine .cons (hd.entity root context) fun _ item visit => ?_
  refine (Emits.silent (by rintro s a t ⟨⟩; rfl)).imp ?_
  rintro _ _ rfl
  exact List.forall_mem_singleton.2 (.visit visit)

theorem runProcedure_emits (p : Procedure σ C α) (hp : p.Orderly) :
    w.Emits (w.logged.runProcedure d p.lift) fun _ items => ∀ item ∈ items, item.Requested := by
  induction p with
  | done a => exact .pure nofun
  | fail e => exact .fail
  | request r next ih =>
    obtain ⟨hr, he, ha⟩ := hp
    refine .attempt (runRequest_emits hd r hr) (fun e s b t => ?_) fun a items requested => ?_
    · change w.logged.runProcedure d (next (.error e)).lift s ≠ _
      rw [he e]
      exact nofun
    · exact (ih (.ok a) (ha a)).imp fun _ items' requested' =>
        List.forall_mem_append.2 ⟨requested, requested'⟩
  | walk root context next ih =>
    obtain ⟨he, ha⟩ := hp
    refine .attempt (whole_emits hd root context) (fun e s b t => ?_) fun table items requested => ?_
    · change w.logged.runProcedure d (next (.error e)).lift s ≠ _
      rw [he e]
      exact nofun
    · exact (ih (.ok table) (ha table)).imp fun _ items' requested' =>
        List.forall_mem_append.2 ⟨requested, requested'⟩
  | look next ih => exact ⟨fun h => (ih _ (hp _)).ok h⟩
  | store memory next ih =>
    constructor
    intro s a t h
    exact (ih hp).ok (s := { s with memory := { s.memory with memory } }) h

omit hd in
theorem mark_adds (x : Entry C) :
    (w.logged.runProcedure d (.mark x)).Adds fun _ added => added = [x] := by
  constructor
  rintro s _ t ⟨⟩
  exact ⟨_, rfl, rfl⟩

/-- A handler adds what it requests, between two marks. -/
theorem handler_emits (p : Procedure σ C α) (hp : p.Orderly) :
    w.Emits (w.logged.runProcedure d p.logged) fun _ items =>
      ∃ requested, items = [.pair .began requested .ended] := by
  rw [Procedure.logged, runProcedure_bind]
  refine Walk.Adds.bind (mark_adds .began) ?_
  rintro _ _ rfl
  rw [runProcedure_bind]
  refine Walk.Adds.bind (runProcedure_emits hd p hp) ?_
  rintro a _ ⟨inside, rfl, wf, requested⟩
  rw [runProcedure_bind]
  refine Walk.Adds.bind (mark_adds .ended) ?_
  rintro _ _ rfl
  refine Walk.Adds.pure ⟨[.pair .began inside .ended], ?_,
    List.forall_mem_singleton.2 (.handler wf requested), inside, rfl⟩
  simp [Item.entriesEach, Item.entries]

/-! ## Nodes -/

theorem runStep_emits (n : Node) (context : C) (step : Step) (hs : step.Fits n.kind) :
    w.Emits (w.logged.runStep d n context step) fun answer items =>
      Item.Taken (Item.Below n) answer items ∧ (answer = .handled → n.kind.isAssignment = true) := by
  have one {item : Item C} {m : Node} (h : item.IsVisit (.inr m)) :
      Item.Taken (Item.Below n) .proceed [item] := (Item.Taken.visit h).imp fun _ => .target
  have derived {e : Derivation} {inner : C} :
      Item.Taken (Item.Below n) .proceed [.single (.derived e context inner)] :=
    .proceed (List.forall_mem_singleton.2 .derived) (List.forall_mem_singleton.2 nofun)
  cases step with
  | visit i =>
    refine .silently .requireChild fun m => .cons (hd.node m context) fun _ item visit => ?_
    exact .pure ⟨one visit, nofun⟩
  | visitLocal i =>
    refine .cons (derive_emits _ context) ?_
    rintro inner _ rfl
    refine .silently .requireChild fun m => .cons (hd.node m inner) fun _ item visit => ?_
    exact .pure ⟨derived.append (one visit), nofun⟩
  | visitProtected i j =>
    refine .silently .requireChild fun body => .silently .requireChild fun cleanup =>
      .cons (derive_emits _ context) ?_
    rintro inner _ rfl
    refine .cons (hd.node body inner) fun _ item visit => ?_
    exact .pure ⟨derived.append (one visit), nofun⟩
  | between point =>
    refine .cons (call_emits rfl rfl) ?_
    rintro answer _ rfl
    refine .pure ⟨.proceed (List.forall_mem_singleton.2 .between) ?_, nofun⟩
    exact List.forall_mem_singleton.2 nofun
  | assign i j =>
    refine .silently .requireChild fun target => .silently .requireChild fun rhs =>
      .cons (hd.node rhs context) fun _ item visit => ?_
    refine (hd.target ⟨target, rhs, n⟩ context).imp fun answer items taken => ?_
    exact ⟨(one visit).append (taken.imp fun item h => .target h), fun _ => hs⟩

theorem runPlan_emits (n : Node) (context : C) (steps : List Step)
    (hs : ∀ step ∈ steps, step.Fits n.kind) :
    w.Emits (w.logged.runPlan d n context steps) fun answer items =>
      Item.Taken (Item.Below n) answer items ∧ (answer = .handled → n.kind.isAssignment = true) := by
  induction steps with
  | nil => exact .pure ⟨.proceed nofun nofun, nofun⟩
  | cons step steps ih =>
    obtain ⟨hstep, hs⟩ := List.forall_mem_cons.1 hs
    refine .bind (runStep_emits hd n context step hstep) fun answer items ⟨taken, assigns⟩ => ?_
    cases answer with
    | handled => exact .pure ⟨(List.append_nil items).symm ▸ taken, assigns⟩
    | proceed => exact (ih hs).imp fun answer items' h => ⟨taken.append h.1, h.2⟩

theorem runBuiltIn_emits (n : Node) (context : C) (hk : ∀ kind, n.kind ≠ .custom kind) :
    w.Emits (w.logged.runBuiltIn d n context) fun answer items =>
      ∀ hoisted, w.Hoists n context answer hoisted → w.Inside n context (items ++ hoisted) := by
  unfold runBuiltIn
  split
  · exact .fail
  · rename_i steps hp
    refine .cons (call_emits rfl rfl) ?_
    rintro answer _ rfl
    cases answer with
    | handled => exact .pure fun hoisted hh => .handled hk hh
    | proceed =>
      refine .bind (runPlan_emits hd n context steps (NodeKind.plan_fits hp)) ?_
      rintro answer below ⟨taken, assigns⟩
      cases answer with
      | handled =>
        refine .pure fun hoisted hh => ?_
        have inside := Inside.takenOver (assigns rfl) taken.sort (taken.handled.1 rfl) hh
        simpa using inside
      | proceed =>
        refine .cons (call_emits rfl rfl) ?_
        rintro answer _ rfl
        refine .pure fun hoisted hh => ?_
        have stays : ∀ item ∈ below, ¬ item.TakesOver := fun item hi h =>
          nomatch taken.handled.2 ⟨item, hi, h⟩
        have inside := @Inside.left σ C w n context below answer hoisted hk taken.sort stays hh
        simpa using inside

theorem runNode_emits (hx : w.extensions.Orderly) (n : Node) (context : C) :
    w.Emits (w.logged.runNode d n context) fun answer items =>
      ∀ hoisted, w.Hoists n context answer hoisted → w.Inside n context (items ++ hoisted) := by
  unfold runNode
  split
  · rename_i kind hk
    unfold runCustomNode
    simp only [logged, Extensions.logged, Table.get?_map]
    cases h : w.extensions.nodes.get? kind with
    | none => exact .fail
    | some handler =>
      refine .bind (handler_emits hd _ (hx.nodes kind handler h n context)) ?_
      rintro answer _ ⟨requested, rfl⟩
      cases answer with
      | proceed => exact .fail
      | handled => exact .pure fun hoisted hh => .custom hk hh
  · rename_i hk
    exact runBuiltIn_emits hd n context hk

theorem visitScopedUnder_emits (n : Node) (answer : Answer) (context : C) :
    w.Emits (w.logged.visitScopedUnder d n answer context) fun _ items =>
      w.Hoists n context answer items := by
  unfold visitScopedUnder Hoists
  change w.Emits (if answer = .proceed ∨ w.options.rescanNodeScopes then _ else _) _
  split
  · exact visitScoped_emits hd _ context _
  · exact .pure rfl

theorem visitNodeIn_emits (hx : w.extensions.Orderly) (n : Node) (context : C) :
    w.Emits (w.logged.visitNodeIn d n context) fun _ items =>
      ∃ item, items = [item] ∧ item.IsVisit (.inr n) := by
  refine Walk.Adds.bind (call_adds _) ?_
  rintro answer _ rfl
  cases answer with
  | handled =>
    exact Walk.Adds.pure ⟨[.single (.called (.node .enter n context) .handled)], rfl,
      List.forall_mem_singleton.2 (.single rfl ⟨nofun, nofun⟩), _, rfl, .handled rfl⟩
  | proceed =>
    refine Walk.Adds.bind (checkArity_emits n) ?_
    rintro _ _ ⟨_, rfl, -, rfl⟩
    refine Walk.Adds.bind (runNode_emits hd hx n context) ?_
    rintro answer _ ⟨items, rfl, wf, inside⟩
    refine Walk.Adds.bind (visitScopedUnder_emits hd n answer context) ?_
    rintro _ _ ⟨hoisted, rfl, wf', hoists⟩
    refine Walk.Adds.bind (call_adds _) ?_
    rintro last _ rfl
    refine Walk.Adds.pure ⟨[.pair (.called (.node .enter n context) .proceed) (items ++ hoisted)
      (.called (.node .postProcess n context) last)], ?_, ?_, _, rfl, .through rfl⟩
    · simp [Item.entriesEach, Item.entries, Item.entriesEach_append]
    · have parts := List.forall_mem_append.2 ⟨wf, wf'⟩
      exact List.forall_mem_singleton.2 (.node parts (inside hoisted hoists))

/-! ## Assignment targets -/

omit hd in
theorem runTarget_emits (a : Assignment) (context : C) {inside : Walk (Logged σ C) Answer}
    (hi : w.Emits inside (Item.Taken (Item.OfTarget a.assign))) :
    w.Emits (w.logged.runTarget a context inside) (Item.Taken (Item.OfTarget a.assign)) := by
  refine .cons (call_emits rfl rfl) ?_
  rintro answer _ rfl
  cases answer with
  | handled =>
    refine .pure ⟨List.forall_mem_singleton.2 (.hook rfl), fun _ => ⟨_, ?_, a, context, rfl⟩,
      fun _ => rfl⟩
    exact List.mem_singleton_self _
  | proceed =>
    have visited : Item.Taken (Item.OfTarget a.assign) .proceed
        [(.single (.called (.target .visit a context) .proceed) : Item C)] :=
      .proceed (List.forall_mem_singleton.2 (.hook rfl)) (List.forall_mem_singleton.2 nofun)
    refine .bind hi fun answer items taken => ?_
    cases answer with
    | handled => exact .pure ((List.append_nil items).symm ▸ visited.append taken)
    | proceed =>
      refine .cons (call_emits rfl rfl) ?_
      rintro answer _ rfl
      have left : Item.Taken (Item.OfTarget a.assign) .proceed
          [(.single (.called (.target .leave a context) answer) : Item C)] :=
        .proceed (List.forall_mem_singleton.2 (.hook rfl)) (List.forall_mem_singleton.2 nofun)
      exact .pure (visited.append (taken.append left))

theorem dispatchIn_emits (hx : w.extensions.Orderly) (a : Assignment) (context : C) :
    w.Emits (w.logged.dispatchIn d a context) (Item.Taken (Item.OfTarget a.assign)) := by
  unfold dispatchIn
  split
  · refine .silently (checkArity_emits _) fun _ => runTarget_emits a context ?_
    refine .silently .requireChild fun m => .cons (hd.node m context) fun _ item visit => ?_
    refine .bind (visitEach_emits hd context _) fun _ items h => .pure ?_
    exact (List.append_nil items).symm ▸ Item.Taken.visits (.cons visit h)
  · refine .silently (checkArity_emits _) fun _ => runTarget_emits a context ?_
    exact .silently .requireChild fun m => .cons (hd.node m context) fun _ item visit =>
      .pure (.visit visit)
  · refine runTarget_emits a context ?_
    split
    · exact hd.target _ context
    · exact .fail
  · exact runTarget_emits a context (.pure (.visits .nil))
  · unfold runCustomTarget
    simp only [logged, Extensions.logged, Table.get?_map]
    cases h : w.extensions.targets.get? a.target.kind.name with
    | none => exact .fail
    | some handler =>
      refine .bind (handler_emits hd _ (hx.targets _ handler h a context)) ?_
      rintro answer _ ⟨requested, rfl⟩
      cases answer with
      | proceed => exact .fail
      | handled =>
        exact .pure .handler

/-! ## Entities -/

omit hd in
theorem callEntity_emits {hook : EntityHook} (h : hook = .visit ∨ hook = .leave) (e : Entity)
    (context : C) (inner : Option C) :
    w.Emits (w.logged.callEntity hook e context inner) fun _ items =>
      ∀ item ∈ items, item.OfEntity e := by
  refine (callEntity_adds hook e context inner).imp ?_
  rintro answer _ ⟨parents, rfl⟩
  refine ⟨[.single _], rfl, List.forall_mem_singleton.2 (.single ?_ ⟨nofun, nofun⟩),
    List.forall_mem_singleton.2 (.hook h)⟩
  rcases h with rfl | rfl <;> exact bracket?_called rfl rfl answer

omit hd in
theorem deriveFor_emits (d : Derivation) (e : Entity) (context : C) :
    w.Emits (w.logged.derive d context) fun _ items => ∀ item ∈ items, item.OfEntity e := by
  refine (derive_emits d context).imp ?_
  rintro inner _ ⟨_, rfl, rfl⟩
  exact List.forall_mem_singleton.2 .derived

theorem runContainer_emits (e : Entity) (context : C) (derivation : Derivation) :
    w.Emits (w.logged.runContainer d e context derivation) fun _ items =>
      ∀ item ∈ items, item.OfEntity e := by
  refine .each (deriveFor_emits _ e _) fun inner =>
    .each (callEntity_emits (.inl rfl) _ _ _) fun answer => ?_
  cases answer with
  | handled => exact .pure nofun
  | proceed =>
    exact .each (.imp (visitScoped_emits hd e inner _) fun _ _ => .visits) fun _ =>
      .each (callEntity_emits (.inr rfl) _ _ _) fun _ => .pure nofun

theorem runCode_emits (e : Entity) (context : C) :
    w.Emits (w.logged.runCode d e context) fun _ items => ∀ item ∈ items, item.OfEntity e := by
  refine .each (deriveFor_emits _ e _) fun inner =>
    .each (callEntity_emits (.inl rfl) _ _ _) fun answer => ?_
  cases answer with
  | handled => exact .pure nofun
  | proceed =>
    exact .each (.imp (visitEach_emits hd inner _) fun _ _ => .visits) fun _ =>
      .each (.imp (visitScoped_emits hd e inner _) fun _ _ => .visits) fun _ =>
        .each (callEntity_emits (.inr rfl) _ _ _) fun _ => .pure nofun

omit hd in
theorem runField_emits (e : Entity) (context : C) :
    w.Emits (w.logged.runField e context) fun _ items => ∀ item ∈ items, item.OfEntity e := by
  refine .each (callEntity_emits (.inl rfl) _ _ _) fun answer => ?_
  cases answer with
  | handled => exact .pure nofun
  | proceed =>
    exact .each (callEntity_emits (.inr rfl) _ _ _) fun _ => .pure nofun

theorem runEntity_emits (hx : w.extensions.Orderly) (e : Entity) (context : C) :
    w.Emits (w.logged.runEntity d e context) fun _ items => ∀ item ∈ items, item.OfEntity e := by
  unfold runEntity
  split
  · exact runContainer_emits hd e context _
  · exact runContainer_emits hd e context _
  · exact runCode_emits hd e context
  · exact runCode_emits hd e context
  · exact runField_emits e context
  · rename_i kind _
    unfold runCustomEntity
    simp only [logged, Extensions.logged, Table.get?_map]
    cases h : w.extensions.entities.get? kind with
    | none => exact .fail
    | some handler =>
      refine .bind (handler_emits hd _ (hx.entities kind handler h e context)) ?_
      rintro answer _ ⟨requested, rfl⟩
      cases answer with
      | proceed => exact .fail
      | handled => exact .pure (List.forall_mem_singleton.2 .handler)

theorem visitEntityIn_emits (hx : w.extensions.Orderly) (e : Entity) (context : C) :
    w.Emits (w.logged.visitEntityIn d e context) fun _ items =>
      ∃ item, items = [item] ∧ item.IsVisit (.inl e) := by
  refine Walk.Adds.bind (callEntity_adds _ _ _ _) ?_
  rintro answer _ ⟨parents, rfl⟩
  cases answer with
  | handled =>
    exact Walk.Adds.pure ⟨[.single (.called (.entity .enter e context none parents) .handled)], rfl,
      List.forall_mem_singleton.2 (.single rfl ⟨nofun, nofun⟩), _, rfl, .handled rfl⟩
  | proceed =>
    refine Walk.Adds.bind (runEntity_emits hd hx e context) ?_
    rintro _ _ ⟨items, rfl, wf, ofEntity⟩
    refine Walk.Adds.bind (callEntity_adds _ _ _ _) ?_
    rintro last _ ⟨parents', rfl⟩
    refine Walk.Adds.pure ⟨[.pair (.called (.entity .enter e context none parents) .proceed) items
      (.called (.entity .postProcess e context none parents') last)], ?_, ?_, _, rfl, .through rfl⟩
    · simp [Item.entriesEach, Item.entries]
    · exact List.forall_mem_singleton.2 (.entity wf ofEntity)

end Layer

/-! ## Whole walks -/

theorem descent_emits (hx : w.extensions.Orderly) (depth : Nat) :
    w.EmitsBy (w.logged.descent depth) := by
  induction depth with
  | zero =>
    have out {α : Type} {P : α → List (Item C) → Prop} : w.Emits (throw .outOfDepth) P := by
      constructor
      rintro s a t ⟨⟩
    exact ⟨fun _ _ => out, fun _ _ => out, fun _ _ => out⟩
  | succ depth ih =>
    exact ⟨visitEntityIn_emits ih hx, visitNodeIn_emits ih hx, dispatchIn_emits ih hx⟩

/-- A log of visits that keeps to the protocol. -/
structure KeepsProtocol (w : Walker σ C) (subject : Entity ⊕ Node) (log : List (Entry C)) :
    Prop where
  balanced : Balanced (brackets log)
  item : ∃ item : Item C, log = item.entries ∧ item.IsVisit subject ∧ item.WellFormed w

theorem Emits.keepsProtocol {x : Walk (Logged σ C) α} {y : Walk σ α} {subject : Entity ⊕ Node}
    (h : w.Emits x fun _ items => ∃ item, items = [item] ∧ item.IsVisit subject)
    (hf : Forgets x y) {s t : WalkState σ} {a : α} (hy : y s = .ok a t) :
    w.KeepsProtocol subject (x.log s) := by
  obtain ⟨u, hu, -, hlog⟩ := hf.of_ok hy
  obtain ⟨_, hadded, _, rfl, wf, item, rfl, visit⟩ := h.ok hu
  have log : x.log s = item.entries := by
    simp [hlog, hadded, WalkState.withLog, Item.entriesEach]
  have wf : item.WellFormed w := wf item (List.mem_singleton_self item)
  exact ⟨log ▸ wf.balanced, item, log, visit, wf⟩

/-- Visits of nodes and entities, and whole walks: when one succeeds, its hooks keep to the
protocol. -/
theorem protocol_kept (w : Walker σ C) (hx : w.extensions.Orderly) (depth : Nat) (context : C)
    (s : WalkState σ) :
    (∀ n t, w.visit depth n context s = .ok () t →
        w.KeepsProtocol (.inr n) (Walk.log (w.logged.visit depth n context) s)) ∧
      (∀ e t, w.visitEntity depth e context s = .ok () t →
        w.KeepsProtocol (.inl e) (Walk.log (w.logged.visitEntity depth e context) s)) ∧
      ∀ root table t, w.walk depth root context s = .ok table t →
        w.KeepsProtocol (.inl root) (w.walkLog depth root context s) := by
  have emits := descent_emits hx depth
  have forgets := descent_forgets w depth
  refine ⟨fun n t h => ?_, fun e t h => ?_, fun root table t h => ?_⟩
  · exact (emits.node n context).keepsProtocol (forgets.node n context) h
  · exact (emits.entity e context).keepsProtocol (forgets.entity e context) h
  · refine Emits.keepsProtocol ?_ (walk_logged w depth root context) h
    refine .silently (.silent (by rintro s a t ⟨⟩; rfl)) fun _ =>
      .cons (emits.entity root context) fun _ item visit => ?_
    refine .imp (.silent (by rintro s a t ⟨⟩; rfl)) ?_
    rintro _ _ rfl
    exact ⟨item, rfl, visit⟩

/-- A walker for a kind of a front end, whose handler visits the children. -/
def blockWalker : Walker Unit Entity where
  visitor := { top := id, derive := fun _ e => pure e, answer := fun _ => pure .proceed }
  extensions := Extensions.withNode {} "block" fun n context => do
    Procedure.askEach (n.children.map (Request.node · context))
    return .handled

theorem blockWalker_orderly : blockWalker.extensions.Orderly := by
  refine Extensions.orderly_empty.withNode fun n context => ?_
  refine Procedure.Orderly.bind (Procedure.orderly_askEach ?_) fun _ => trivial
  exact List.forall_mem_map.2 fun m _ => nofun

/-- A block with an empty statement. -/
def emptyBlock : Node :=
  { id := ⟨2⟩, kind := .custom "block", children := [{ id := ⟨1⟩, kind := .empty, children := [] }] }

def emptyFile : Entity :=
  { id := ⟨1⟩, kind := .file, name := "file" }

theorem protocol_kept_emptyBlock :
    blockWalker.extensions.Orderly ∧
      blockWalker.visit 2 emptyBlock emptyFile { memory := () } = .ok () { memory := () } ∧
      blockWalker.KeepsProtocol (.inr emptyBlock)
        (Walk.log (blockWalker.logged.visit 2 emptyBlock emptyFile) { memory := () }) := by
  have run : blockWalker.visit 2 emptyBlock emptyFile { memory := () } = .ok () { memory := () } :=
    rfl
  have kept := protocol_kept blockWalker blockWalker_orderly 2 emptyFile { memory := () }
  exact ⟨blockWalker_orderly, run, kept.1 emptyBlock _ run⟩

end Walker

end SyntaxWalk
