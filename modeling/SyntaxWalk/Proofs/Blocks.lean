import SyntaxWalk.Proofs.BlockTrees
import SyntaxWalk.Proofs.Contexts

/-!
# Kinds of a front end as blocks

The handler of a node may do no more than have all children visited and answer that the node has
been handled. A node of such a kind is walked as a block is. So the walk of a tree by a recorder is
beside the walk of the tree in which all these nodes are made blocks: the parents are the same but
for the blocks, and so are the events but for those of the nodes themselves
(`Recorder.walk_of_blocked`).
-/

namespace SyntaxWalk

/-! ## Visits of all children -/

section Children

variable {σ C : Type}

/-- The handler that has all children visited. -/
def visitAllChildren : NodeHandler σ C := fun n context => do
  Procedure.askEach (n.children.map (Request.node · context))
  return .handled

namespace Walker

variable {w : Walker σ C} {d : Descent σ C} {n : Node} {c : C}

/-- To ask is to make the request. -/
theorem runProcedure_ask (r : Request C) :
    w.runProcedure d (Procedure.ask r) = w.runRequest d r := by
  funext s
  simp only [Procedure.ask, runProcedure, Bind.bind, EStateM.bind, Walk.attempt]
  cases w.runRequest d r s with
  | ok a t => rfl
  | error stop t => cases stop <;> rfl

theorem runProcedure_askEach (ns : List Node) :
    w.runProcedure d (Procedure.askEach (ns.map (Request.node · c))) = Walk.visitEach d c ns := by
  induction ns with
  | nil => rfl
  | cons n ns ih =>
    rw [List.map_cons, Procedure.askEach, runProcedure_bind, runProcedure_ask, ih]
    simp only [runRequest, bind_assoc, pure_bind, Walk.visitEach]

theorem runCustomNode_visitAllChildren {kind : String}
    (h : w.extensions.nodes.get? kind = some visitAllChildren) :
    w.runCustomNode d n kind c = (Walk.visitEach d c n.children >>= fun _ => pure .proceed) := by
  rw [runCustomNode, h]
  simp only [visitAllChildren, runProcedure_bind, runProcedure_askEach, bind_assoc]
  rfl

theorem runPlan_visits {indices : List Nat} {ns : List Node}
    (h : indices.map n.child? = ns.map some) :
    w.runPlan d n c (NodeKind.visits indices) =
      (Walk.visitEach d c ns >>= fun _ => pure .proceed) := by
  induction indices generalizing ns with
  | nil =>
    obtain rfl := List.map_eq_nil_iff.1 h.symm
    rfl
  | cons i indices ih =>
    cases ns with
    | nil => cases h
    | cons m ms =>
      obtain ⟨hi, rest⟩ := List.cons.inj h
      have step : w.runStep d n c (.visit i) = (d.node m c >>= fun _ => pure .proceed) := by
        rw [runStep, Walk.requireChild_eq, hi, pure_bind]
      change w.runPlan d n c (.visit i :: NodeKind.visits indices) = _
      rw [runPlan, step, ih rest]
      simp only [bind_assoc, pure_bind, Walk.visitEach]

/-- The plan of a block visits all children. -/
theorem runPlan_block :
    w.runPlan d n c (NodeKind.visits (List.range n.childCount)) =
      (Walk.visitEach d c n.children >>= fun _ => pure .proceed) := by
  refine runPlan_visits (List.ext_getElem ?_ fun i hi hi' => ?_)
  · simp [Node.childCount]
  · rw [List.length_map] at hi'
    simp [Node.child?, hi']

/-- Between its two hooks a block visits all children. -/
theorem runNode_block (hk : n.kind = .blockStmt) :
    w.runNode d n c = w.callNode .visit n c >>= fun answer =>
      match answer with
      | .handled => pure .handled
      | .proceed => do
        Walk.visitEach d c n.children
        let _ ← w.callNode .leave n c
        return .proceed := by
  have plan : n.kind.plan? n.childCount = some (NodeKind.visits (List.range n.childCount)) := by
    rw [hk]
    rfl
  rw [runNode_builtIn (by rw [Node.IsBuiltIn, hk]; nofun), runBuiltIn, plan]
  refine bind_congr fun answer => ?_
  cases answer with
  | handled => rfl
  | proceed =>
    dsimp only
    rw [runPlan_block]
    exact bind_assoc _ _ _

end Walker

end Children

/-! ## Two walks -/

/-- Two walks have ended alike. -/
inductive Walk.EndAlike {σ σ' α α' : Type} (states : WalkState σ → WalkState σ' → Prop)
    (values : α → α' → Prop) :
    EStateM.Result Stop (WalkState σ) α → EStateM.Result Stop (WalkState σ') α' → Prop where
  | ok {a a' s s'} (ha : values a a') (hs : states s s') :
      EndAlike states values (.ok a s) (.ok a' s')
  | failed {e e' s s'} (he : e.Alike e') (hs : states s s') :
      EndAlike states values (.error (.failed e) s) (.error (.failed e') s')
  | outOfDepth {s s'} (hs : states s s') :
      EndAlike states values (.error .outOfDepth s) (.error .outOfDepth s')

namespace Walk.EndAlike

variable {σ σ' α α' : Type} {states states' : WalkState σ → WalkState σ' → Prop}
  {values : α → α' → Prop}

theorem imp {r : EStateM.Result Stop (WalkState σ) α} {r' : EStateM.Result Stop (WalkState σ') α'}
    (h : EndAlike states values r r') (hs : ∀ s s', states s s' → states' s s') :
    EndAlike states' values r r' := by
  cases h with
  | ok ha h => exact .ok ha (hs _ _ h)
  | failed he h => exact .failed he (hs _ _ h)
  | outOfDepth h => exact .outOfDepth (hs _ _ h)

variable {x : Walk σ α} {y : Walk σ' α'} {s : WalkState σ} {s' : WalkState σ'}
  (h : EndAlike states values (x s) (y s'))

include h

theorem final : states (x.final s) (y.final s') := by
  unfold Walk.final
  cases hx : x s <;> cases hy : y s' <;> rw [hx, hy] at h <;> cases h <;> assumption

theorem ne_outOfDepth (hy : ∀ t, y s' ≠ .error .outOfDepth t) (t : WalkState σ) :
    x s ≠ .error .outOfDepth t := by
  intro hx
  rw [hx] at h
  generalize hr : y s' = r' at h
  cases h
  exact hy _ hr

end Walk.EndAlike

/-- A whole walk begins without parents, and those that the visit of the root leaves are given
away. -/
theorem Walk.whole_run {σ C : Type} (d : Descent σ C) (root : Entity) (context : C)
    (s : WalkState σ) :
    Walk.whole d root context s =
      match d.entity root context { s with parents := {} } with
      | .ok _ t => .ok t.parents { t with parents := {} }
      | .error stop t => .error stop t := by
  have visited : Walk.whole d root context s =
      (d.entity root context >>= fun _ => modifyGet fun s => (s.parents, { s with parents := {} }))
        { s with parents := {} } := rfl
  rw [visited]
  simp only [Bind.bind, EStateM.bind]
  cases d.entity root context { s with parents := {} } <;> rfl

theorem Table.map_insert {κ α β : Type} [Ord κ] (f : α → β) (t : Table κ α) (k : κ) (a : α) :
    (t.insert k a).map f = (t.map f).insert k (f a) := by
  obtain ⟨entries⟩ := t
  refine congrArg Table.mk ?_
  change (insertEntry k a entries).map _ = insertEntry k (f a) (entries.map _)
  induction entries with
  | nil => rfl
  | cons x rest ih =>
    rw [List.map_cons, insertEntry, insertEntry]
    cases compare k x.1 with
    | lt | eq => rfl
    | gt => exact congrArg _ ih

namespace Recorder

/-- The events that are not of nodes of kinds of a front end, these being among `nodes`. -/
def visible (nodes : List Node) (events : List Event) : List Event :=
  events.filter fun event => event.node.all fun id =>
    nodes.all fun n => !(n.kind.isCustom && n.id == id)

theorem visible_append (nodes : List Node) (events events' : List Event) :
    visible nodes (events ++ events') = visible nodes events ++ visible nodes events' :=
  List.filter_append ..

/-- The same events, but that the cleanup code for which a context was derived is shown as a block
if it is of a kind of a front end. -/
inductive Event.SameButCleanup (nodes : List Node) : Event → Event → Prop where
  | same {event} : SameButCleanup nodes event event
  | cleanup {n kind k} (hn : n ∈ nodes) (hk : n.kind = .custom kind) :
      SameButCleanup nodes
        { hook := (Derivation.unwind n).hookName, subject := n.describe, context := k }
        { hook := (Derivation.unwind n).hookName, subject := n.blocked.describe, context := k }

/-- Events that are the same where they are visible, but for how cleanup code is shown. -/
abbrev SameVisibly (nodes : List Node) (events events' : List Event) : Prop :=
  List.Forall₂ (Event.SameButCleanup nodes) (visible nodes events) (visible nodes events')

theorem SameVisibly.refl (nodes : List Node) (events : List Event) :
    SameVisibly nodes events events :=
  List.forall₂_same.2 fun _ _ => .same

/-- A walk and its counterpart with blocks have come equally far, each from events of its own. -/
structure Abreast (nodes : List Node) (earlier earlier' : List Event)
    (s s' : WalkState Memory) : Prop where
  serials : s.memory.serials = s'.memory.serials
  parents : s'.parents = s.parents.map Entity.blocked
  events : ∃ added added', s.memory.events.toList = earlier ++ added ∧
    s'.memory.events.toList = earlier' ++ added' ∧ SameVisibly nodes added added'

section Pieces

variable {α β : Type} {nodes : List Node} {earlier earlier' : List Event}

theorem Abreast.append {s s' t t' : WalkState Memory} {events events' : List Event}
    (h : Abreast nodes earlier earlier' s s') (hs : t.memory.serials = t'.memory.serials)
    (hp : t'.parents = t.parents.map Entity.blocked)
    (ht : t.memory.events.toList = s.memory.events.toList ++ events)
    (ht' : t'.memory.events.toList = s'.memory.events.toList ++ events')
    (he : SameVisibly nodes events events') : Abreast nodes earlier earlier' t t' := by
  obtain ⟨added, added', hadded, hadded', same⟩ := h.events
  refine ⟨hs, hp, added ++ events, added' ++ events', ?_, ?_, ?_⟩
  · rw [ht, hadded, List.append_assoc]
  · rw [ht', hadded', List.append_assoc]
  · rw [SameVisibly, visible_append, visible_append]
    exact List.rel_append same he

/-- Two pieces of walks that have come equally far end alike. -/
structure Together (nodes : List Node) (earlier earlier' : List Event) (x y : Walk Memory α) :
    Prop where
  run {s s'} (h : Abreast nodes earlier earlier' s s') :
    Walk.EndAlike (Abreast nodes earlier earlier') Eq (x s) (y s')

namespace Together

variable {x y : Walk Memory α}

theorem pure (a : α) : Together nodes earlier earlier' (pure a : Walk Memory α) (pure a) :=
  ⟨fun h => .ok rfl h⟩

theorem fail {e e' : Walk.Error} (he : e.Alike e') :
    Together nodes earlier earlier' (Walk.fail e : Walk Memory α) (Walk.fail e') :=
  ⟨fun h => .failed he h⟩

theorem bind {f g : α → Walk Memory β} (hx : Together nodes earlier earlier' x y)
    (hf : ∀ a, Together nodes earlier earlier' (f a) (g a)) :
    Together nodes earlier earlier' (x >>= f) (y >>= g) := by
  refine ⟨fun {s s'} h => ?_⟩
  have ended := hx.run h
  simp only [Bind.bind, EStateM.bind]
  revert ended
  generalize x s = r, y s' = r'
  intro ended
  cases ended with
  | @ok a a' t t' ha ht =>
    cases ha
    exact (hf a).run ht
  | failed he ht => exact .failed he ht
  | outOfDepth ht => exact .outOfDepth ht

theorem setParent (e p : Entity) :
    Together nodes earlier earlier' (Walk.setParent e p)
      (Walk.setParent e.blocked p.blocked) := by
  refine ⟨fun {s s'} h => .ok rfl ⟨h.serials, ?_, h.events⟩⟩
  change s'.parents.insert e.blocked.id p.blocked = (s.parents.insert e.id p).map Entity.blocked
  rw [Table.map_insert, ← h.parents, e.blocked_id]

variable {config : Config} {x x' : Extensions Memory ScopeContext} {o o' : Options}

/-- Calls that are answered alike and have the same visible events. -/
theorem call {call call' : HookCall ScopeContext} {s s' : WalkState Memory}
    (h : Abreast nodes earlier earlier' s s')
    (ha : (answer config call s.memory).1 = (answer config call' s'.memory).1)
    (he : ∀ a, SameVisibly nodes (eventsOf config (.called call a))
      (eventsOf config (.called call' a))) :
    Walk.EndAlike (Abreast nodes earlier earlier') Eq
      ((⟨visitor config, x, o⟩ : Walker Memory ScopeContext).call call s)
      ((⟨visitor config, x', o'⟩ : Walker Memory ScopeContext).call call' s') := by
  refine .ok ha (h.append ?_ h.parents (answer_events config call s.memory)
    (answer_events config call' s'.memory) (ha ▸ he _))
  change (answer config call s.memory).2.serials = (answer config call' s'.memory).2.serials
  rw [answer_serials, answer_serials, h.serials]

end Together

end Pieces

/-- Nothing is short-circuited: all calls for nodes are to go on. -/
theorem answer_node {config : Config} (hq : config.shortCircuit = []) (hook : NodeHook) (n : Node)
    (c : ScopeContext) (m : Memory) : (answer config (.node hook n c) m).1 = .proceed := by
  cases hook with
  | visit | generalVisit =>
    change answerIf (config.shortCircuit.contains n.kind) = _
    rw [hq]
    rfl
  | enter | postProcess =>
    simp only [answer]
    split <;> rfl
  | _ => rfl

theorem node_of_mem_eventsOf {config : Config} {hook : NodeHook} {n : Node} {c : ScopeContext}
    {a : Answer} {event : Event} (h : event ∈ eventsOf config (.called (.node hook n c) a)) :
    event.node = some n.id := by
  cases hook with
  | enter | postProcess =>
    simp only [eventsOf, answer] at h
    split at h
    · cases List.mem_singleton.1 h
      rfl
    · cases h
  | _ =>
    cases List.mem_singleton.1 h
    rfl

section Blocked

variable {nodes : List Node} {config : Config}

/-- What is written of a node of a kind of a front end is not visible. -/
theorem visible_eq_nil {n : Node} (hn : n ∈ nodes) (hk : n.kind.isCustom = true)
    {events : List Event} (h : ∀ event ∈ events, event.node = some n.id) :
    visible nodes events = [] := by
  refine List.filter_eq_nil_iff.2 fun event he => ?_
  rw [h event he, Option.all_some, List.all_eq_true]
  intro all
  simpa [hk] using all n hn

/-- The hooks of a node and of what becomes of it are the same where they are visible. -/
theorem sameVisibly_node {n : Node} (hn : n ∈ nodes) (hook : NodeHook) (c : ScopeContext)
    (a : Answer) :
    SameVisibly nodes (eventsOf config (.called (.node hook n c) a))
      (eventsOf config (.called (.node hook n.blocked c.blocked) a)) := by
  rcases n.custom_or_builtIn with ⟨kind, hk⟩ | hb
  · have custom : n.kind.isCustom = true := hk ▸ rfl
    rw [SameVisibly, visible_eq_nil hn custom fun _ => node_of_mem_eventsOf,
      visible_eq_nil hn custom fun _ h => n.blocked_id ▸ node_of_mem_eventsOf h]
    exact .nil
  · have same : eventsOf config (.called (.node hook n.blocked c.blocked) a) =
        eventsOf config (.called (.node hook n c) a) := by
      simp only [eventsOf, answer, recordNode, hb.blocked_kind, hb.blocked_describe,
        Node.blocked_id, ScopeContext.blocked]
    exact same ▸ .refl nodes _

theorem sameVisibly_target {a : Assignment} (hb : a.target.IsBuiltIn) (hook : TargetHook)
    (c : ScopeContext) (answer : Answer) :
    SameVisibly nodes (eventsOf config (.called (.target hook a c) answer))
      (eventsOf config (.called (.target hook a.blocked c.blocked) answer)) := by
  have target : a.blocked.target = a.target.blocked := rfl
  have same : eventsOf config (.called (.target hook a.blocked c.blocked) answer) =
      eventsOf config (.called (.target hook a c) answer) := by
    simp only [eventsOf, Recorder.answer, TargetHook.name, a.blocked_order?, target,
      hb.blocked_kind, hb.blocked_describe, Node.blocked_id, ScopeContext.blocked]
  exact same ▸ .refl nodes _

theorem sameVisibly_entity (hook : EntityHook) (e : Entity) (c : ScopeContext)
    (i i' : Option ScopeContext) (t : ParentTable) (a : Answer) :
    SameVisibly nodes (eventsOf config (.called (.entity hook e c i t) a))
      (eventsOf config (.called
        (.entity hook e.blocked c.blocked i' (t.map Entity.blocked)) a)) := by
  have parent : (ParentTable.parent? (t.map Entity.blocked) e.blocked).map (·.name) =
      (ParentTable.parent? t e).map (·.name) := by
    simp only [ParentTable.parent?, Table.get?_map, Entity.blocked_id, Option.map_map,
      Function.comp_def, Entity.blocked_name]
  have same : eventsOf config (.called
        (.entity hook e.blocked c.blocked i' (t.map Entity.blocked)) a) =
      eventsOf config (.called (.entity hook e c i t) a) := by
    simp only [eventsOf, answer, recordEntity, parent, Entity.blocked_kind, Entity.blocked_name,
      ScopeContext.blocked]
  exact same ▸ .refl nodes _

/-- What is derived in the two walks: the entity on top, and what is written. -/
theorem derivations_blocked {region : Region nodes} {d d' : Derivation}
    (hd : (Matching.blocks region).Derivations d d') {top : Entity} (ht : top.nodes ⊆ nodes) :
    (d.top top).nodes ⊆ nodes ∧ d'.top top.blocked = (d.top top).blocked ∧
      ∀ k, Event.SameButCleanup nodes
        { hook := d.hookName, subject := subject d, context := k }
        { hook := d'.hookName, subject := subject d', context := k } := by
  cases hd with
  | file h | type h | code h =>
    obtain ⟨he, rfl⟩ := h
    refine ⟨he, rfl, fun k => ?_⟩
    simp only [subject, Entity.blocked_name]
    exact .same
  | localScope h hb =>
    obtain ⟨-, rfl⟩ := h
    refine ⟨ht, rfl, fun k => ?_⟩
    simp only [subject, hb.blocked_describe]
    exact .same
  | @unwind n n' h =>
    obtain ⟨hn, rfl⟩ := h
    refine ⟨ht, rfl, fun k => ?_⟩
    rcases n.custom_or_builtIn with ⟨kind, hk⟩ | hb
    · exact .cleanup hn hk
    · simp only [subject, hb.blocked_describe]
      exact .same

section Walkers

variable {α : Type} {earlier earlier' : List Event} {x x' : Extensions Memory ScopeContext}
  {o o' : Options}

/-- Contexts are derived side by side. -/
theorem derive_together {region : Region nodes} {d d' : Derivation}
    (hd : (Matching.blocks region).Derivations d d') {c : ScopeContext}
    (hc : c.top.nodes ⊆ nodes) {f g : ScopeContext → Walk Memory α}
    (hf : ∀ {i : ScopeContext}, i.top.nodes ⊆ nodes →
      Together nodes earlier earlier' (f i) (g i.blocked)) :
    Together nodes earlier earlier'
      ((⟨visitor config, x, o⟩ : Walker Memory ScopeContext).derive d c >>= f)
      ((⟨visitor config, x', o'⟩ : Walker Memory ScopeContext).derive d' c.blocked >>= g) := by
  obtain ⟨below, top, same⟩ := derivations_blocked hd hc
  refine ⟨fun {s s'} h => ?_⟩
  have inner : (derive d' c.blocked s'.memory).1 = ((derive d c s.memory).1).blocked := by
    rw [derive_eq, derive_eq, ← h.serials]
    exact congrArg (ScopeContext.mk · _) top
  have next : Abreast nodes earlier earlier' { s with memory := (derive d c s.memory).2 }
      { s' with memory := (derive d' c.blocked s'.memory).2 } := by
    simp only [derive_eq, ← h.serials]
    refine h.append rfl h.parents Array.toList_push Array.toList_push ?_
    exact .cons (same _) .nil
  change Walk.EndAlike _ _ (f (derive d c s.memory).1 { s with memory := (derive d c s.memory).2 })
    (g (derive d' c.blocked s'.memory).1 { s' with memory := (derive d' c.blocked s'.memory).2 })
  rw [inner]
  refine (hf ?_).run next
  rw [derive_eq]
  exact below

theorem callEntity_together (hook : EntityHook) (e : Entity) (c : ScopeContext)
    (i i' : Option ScopeContext) :
    Together nodes earlier earlier'
      ((⟨visitor config, x, o⟩ : Walker Memory ScopeContext).callEntity hook e c i)
      ((⟨visitor config, x', o'⟩ : Walker Memory ScopeContext).callEntity hook e.blocked c.blocked
        i') := by
  refine ⟨fun {s s'} h => ?_⟩
  change Walk.EndAlike _ _
    ((⟨visitor config, x, o⟩ : Walker Memory ScopeContext).call (.entity hook e c i s.parents) s)
    ((⟨visitor config, x', o'⟩ : Walker Memory ScopeContext).call
      (.entity hook e.blocked c.blocked i' s'.parents) s')
  refine Together.call h ?_ ?_
  · change answerIf _ = answerIf _
    rw [e.blocked_name]
  · rw [h.parents]
    exact sameVisibly_entity hook e c i i' s.parents

theorem callNode_together (hq : config.shortCircuit = []) (hook : NodeHook) {n : Node}
    (hn : n ∈ nodes) (c : ScopeContext) :
    Together nodes earlier earlier'
      ((⟨visitor config, x, o⟩ : Walker Memory ScopeContext).callNode hook n c)
      ((⟨visitor config, x', o'⟩ : Walker Memory ScopeContext).callNode hook n.blocked
        c.blocked) := by
  refine ⟨fun h => Together.call h ?_ (sameVisibly_node hn hook c)⟩
  rw [answer_node hq, answer_node hq]

/-- The hooks of a block alone: they go on, and are not visible. -/
theorem Together.skip (hq : config.shortCircuit = []) (hook : NodeHook) {n : Node} (hn : n ∈ nodes)
    (hk : n.kind.isCustom = true) (c : ScopeContext) {y : Walk Memory α}
    {f : Answer → Walk Memory α} (hf : Together nodes earlier earlier' y (f .proceed)) :
    Together nodes earlier earlier' y
      ((⟨visitor config, x', o'⟩ : Walker Memory ScopeContext).callNode hook n.blocked c >>=
        f) := by
  refine ⟨fun {s s'} h => ?_⟩
  have next : Abreast nodes earlier earlier' s
      { s' with memory := (answer config (.node hook n.blocked c) s'.memory).2 } := by
    have hidden (a : Answer) :
        visible nodes (eventsOf config (.called (.node hook n.blocked c) a)) = [] :=
      visible_eq_nil hn hk fun _ h => n.blocked_id ▸ node_of_mem_eventsOf h
    refine h.append ?_ h.parents (List.append_nil _).symm
      (answer_events config (.node hook n.blocked c) s'.memory) ?_
    · simp only [answer_serials, h.serials]
    · rw [SameVisibly, hidden]
      exact .nil
  change Walk.EndAlike _ _ (y s) (f (answer config (.node hook n.blocked c) s'.memory).1
    { s' with memory := (answer config (.node hook n.blocked c) s'.memory).2 })
  rw [answer_node hq]
  exact hf.run next

end Walkers

/-- Walks of a tree, with handlers that have all children visited, go on beside walks of the tree
with blocks. -/
def coupling (region : Region nodes) (hq : config.shortCircuit = [])
    {x : Table String (NodeHandler Memory ScopeContext)}
    (hx : ∀ n ∈ nodes, ∀ kind, n.kind = .custom kind → x.get? kind = some visitAllChildren)
    (o : Options) (earlier earlier' : List Event) :
    Coupling (Matching.blocks region) ⟨visitor config, { nodes := x }, o⟩ (walker config o) where
  contexts c c' := c.top.nodes ⊆ nodes ∧ c' = c.blocked
  pieces := Together nodes earlier earlier'
  rescans := rfl
  top := by
    rintro c _ ⟨hc, rfl⟩
    exact ⟨hc, rfl⟩
  pure := .pure
  fail := .fail
  outOfDepth := ⟨.outOfDepth⟩
  bind := .bind
  derive := by
    rintro α d d' hd c _ ⟨hc, rfl⟩ f g hf
    exact derive_together hd hc fun hi => hf ⟨hi, rfl⟩
  setParent := by
    rintro e _ ⟨-, rfl⟩ p _ ⟨-, rfl⟩
    exact .setParent e p
  callEntity := by
    rintro hook e _ ⟨-, rfl⟩ c _ ⟨-, rfl⟩ i i' -
    exact callEntity_together hook e c i i'
  callNode := by
    rintro hook n _ ⟨hn, rfl⟩ c _ ⟨-, rfl⟩
    exact callNode_together hq hook hn c
  callTarget := by
    rintro hook ⟨target, rhs, assign⟩ ⟨_, _, _⟩ ⟨⟨⟨-, hb⟩, rfl⟩, ⟨-, rfl⟩, ⟨-, rfl⟩⟩ c _ ⟨-, rfl⟩
    exact ⟨fun h => Together.call h rfl (sameVisibly_target (hb target .refl) hook c)⟩
  checkArity := by
    intro n n' h
    obtain rfl : n' = n.blocked := h.elim And.right And.right
    rw [Walker.checkArity_eq, Walker.checkArity_eq, n.blocked_refused?]
    cases hr : n.refused? o with
    | none => exact .pure ()
    | some expected => exact .fail ((Node.isBuiltIn_of_refused? hr).blocked_malformed expected)
  customEntity := by
    rintro d d' - e _ ⟨-, rfl⟩ kind hk c _ -
    have same : (Walk.Error.ofEntity e).Alike (Walk.Error.ofEntity e.blocked) := by
      rw [Walk.Error.ofEntity, Walk.Error.ofEntity, e.blocked_kind, e.blocked_name]
      exact .same
    exact .fail same
  customNode := by
    rintro d d' hd n _ ⟨hn, rfl⟩ kind hk c _ hc
    have custom : n.kind.isCustom = true := hk ▸ rfl
    have block : n.blocked.kind = .blockStmt := n.blocked_kind.trans (hk ▸ rfl)
    have children : List.Forall₂ (Matching.blocks region).nodes n.children n.blocked.children :=
      n.blocked_children ▸ forall₂_map fun m hm => ⟨region.children hn hm, rfl⟩
    rw [Walker.runCustomNode_visitAllChildren (hx n hn kind hk), Walker.runNode_block block]
    refine .skip hq .visit hn custom _ ?_
    exact .bind (hd.visitEach (.pure ()) .bind hc children) fun _ =>
      .skip hq .leave hn custom _ (.pure _)
  customTarget := by
    rintro d d' - ⟨target, rhs, assign⟩ ⟨_, _, _⟩ ⟨⟨⟨-, hb⟩, rfl⟩, ⟨-, rfl⟩, ⟨-, rfl⟩⟩ c _ -
    have same : (Walk.Error.unsupported target assign).Alike
        (Walk.Error.unsupported target.blocked assign.blocked) := by
      rw [Walk.Error.unsupported, Walk.Error.unsupported, (hb target .refl).blocked_kind,
        target.blocked_position, assign.blocked_position]
      exact .unsupported
    exact .fail same

/-- Whole walks end alike if visits of their roots do. -/
theorem whole_together {earlier earlier' : List Event} {d d' : Descent Memory ScopeContext}
    {root root' : Entity} {c c' : ScopeContext}
    (h : Together nodes earlier earlier' (d.entity root c) (d'.entity root' c'))
    {s s' : WalkState Memory}
    (hs : Abreast nodes earlier earlier' { s with parents := {} } { s' with parents := {} }) :
    Walk.EndAlike (Abreast nodes earlier earlier') (fun t t' => t' = t.map Entity.blocked)
      (Walk.whole d root c s) (Walk.whole d' root' c' s') := by
  have ended := h.run hs
  rw [Walk.whole_run, Walk.whole_run]
  revert ended
  generalize d.entity root c _ = r, d'.entity root' c' _ = r'
  intro ended
  cases ended with
  | ok _ ht => exact .ok ht.parents ⟨ht.serials, rfl, ht.events⟩
  | failed he ht => exact .failed he ht
  | outOfDepth ht => exact .outOfDepth ht

end Blocked

/-- A walk and its counterpart with blocks end alike, with the same error but for how a whole
assignment is shown, and with the same parents but for the blocks in them. What they add to the
events is the same where it is visible. -/
structure LikeBlocks (nodes : List Node) (x y : Walk Memory ParentTable)
    (s s' : WalkState Memory) : Prop where
  ends : Walk.EndAlike (fun t t' => t'.parents = t.parents.map Entity.blocked)
    (fun table table' => table' = table.map Entity.blocked) (x s) (y s')
  events : ∃ added added',
    (x.final s).memory.events.toList = s.memory.events.toList ++ added ∧
    (y.final s').memory.events.toList = s'.memory.events.toList ++ added' ∧
    SameVisibly nodes added added'

/-- For a recorder that short-circuits nothing, nodes of kinds of a front end are like blocks if
their handlers have all children visited. -/
theorem walk_of_blocked (config : Config) (hq : config.shortCircuit = []) (o : Options)
    (depth : Nat) {root : Entity} {c : ScopeContext}
    (ht : ∀ e ∈ [root, c.top], e.BuiltInTargets)
    {x : Table String (NodeHandler Memory ScopeContext)}
    (hx : ∀ n ∈ [root, c.top].flatMap Entity.nodes, ∀ kind, n.kind = .custom kind →
      x.get? kind = some visitAllChildren)
    {s s' : WalkState Memory} (hs : s.memory.serials = s'.memory.serials) :
    let w : Walker Memory ScopeContext := ⟨visitor config, { nodes := x }, o⟩
    let w' := walker config o
    LikeBlocks ([root, c.top].flatMap Entity.nodes) (w.walk depth root c)
        (w'.walk depth root.blocked c.blocked) s s' ∧
      (root.size ≤ depth → ∀ t, w.walk depth root c s ≠ .error .outOfDepth t) := by
  intro w w'
  have below {e : Entity} (he : e ∈ [root, c.top]) :
      e.nodes ⊆ [root, c.top].flatMap Entity.nodes :=
    fun n hn => List.mem_flatMap.2 ⟨e, he, hn⟩
  have together := ((coupling (Entity.region ht) hq hx o s.memory.events.toList
    s'.memory.events.toList).descent depth).entity ⟨below List.mem_cons_self, rfl⟩
    ⟨below (List.mem_cons_of_mem _ List.mem_cons_self), rfl⟩
  have start : Abreast ([root, c.top].flatMap Entity.nodes) s.memory.events.toList
      s'.memory.events.toList { s with parents := {} } { s' with parents := {} } :=
    ⟨hs, rfl, [], [], (List.append_nil _).symm, (List.append_nil _).symm, .nil⟩
  have ended := whole_together together start
  refine ⟨⟨ended.imp fun _ _ h => h.parents, ended.final.events⟩, fun hd t => ?_⟩
  have deep : root.blocked.size ≤ depth := root.blocked_size ▸ hd
  exact ended.ne_outOfDepth (Walker.walk_ne_outOfDepth (lexical config) rfl deep c.blocked s') t

/-- A function that sets a field of a node of a kind of a front end. Another such node, which
declares a field, is the cleanup code. -/
def foreignCleanup : Entity :=
  let a : Node := { id := ⟨1⟩, kind := .var, children := [], value := some (.str "a") }
  let holder : Node := { id := ⟨2⟩, kind := .custom "xml", children := [a] }
  let name : Node := { id := ⟨3⟩, kind := .constant, children := [] }
  let target : Node := { id := ⟨4⟩, kind := .objectRef, children := [holder, name] }
  let one : Node := { id := ⟨5⟩, kind := .constant, children := [], value := some (.int 1) }
  let assign : Node := { id := ⟨6⟩, kind := .assign, children := [target, one] }
  let cleanup : Node := { id := ⟨7⟩, kind := .custom "xml", children := [] }
  let unwind : Node := { id := ⟨8⟩, kind := .unwind, children := [assign, cleanup] }
  let field : Entity := { id := ⟨2⟩, kind := .field, name := "field" }
  { id := ⟨1⟩
    kind := .function
    name := "f"
    body := some unwind
    scopes := ⟨[(.node ⟨7⟩, [field])]⟩ }

theorem walk_of_blocked_foreignCleanup :
    let root := foreignCleanup
    let c : ScopeContext := ⟨root, 0⟩
    let x : Table String (NodeHandler Memory ScopeContext) :=
      Table.insert {} "xml" visitAllChildren
    let w : Walker Memory ScopeContext := ⟨visitor {}, { nodes := x }, {}⟩
    let w' := walker {} {}
    let s : WalkState Memory := { memory := {} }
    (∀ e ∈ [root, c.top], e.BuiltInTargets) ∧
      (∀ n ∈ [root, c.top].flatMap Entity.nodes, ∀ kind, n.kind = .custom kind →
        x.get? kind = some visitAllChildren) ∧
      (w.walk root.size root c).succeeds s = true ∧
      LikeBlocks ([root, c.top].flatMap Entity.nodes) (w.walk root.size root c)
        (w'.walk root.size root.blocked c.blocked) s s ∧
      ∀ t, w.walk root.size root c s ≠ .error .outOfDepth t := by
  intro root c x w w' s
  have targets : ∀ e ∈ [root, c.top], e.BuiltInTargets := by decide
  have handled : ∀ n ∈ [root, c.top].flatMap Entity.nodes, ∀ kind, n.kind = .custom kind →
      x.get? kind = some visitAllChildren := by
    have kinds : ∀ n ∈ [root, c.top].flatMap Entity.nodes, n.kind.isCustom = true →
        n.kind = .custom "xml" := by decide
    intro n hn kind hk
    cases hk.symm.trans (kinds n hn (hk ▸ rfl))
    rfl
  have run : (w.walk root.size root c).succeeds s = true := by decide +kernel
  obtain ⟨alike, deep⟩ := walk_of_blocked {} rfl {} root.size targets handled
    (rfl : s.memory.serials = s.memory.serials)
  exact ⟨targets, handled, run, alike, deep le_rfl⟩

end Recorder

end SyntaxWalk
