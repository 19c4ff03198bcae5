import SyntaxWalk.Proofs.Depth
import SyntaxWalk.Proofs.Log
import SyntaxWalk.Proofs.Plan

/-!
# Where hooks run

Every hook of a walk without extensions runs at a place of the tree: at an entity, or at a node of
the body of an entity with code. Which context is in force at a place is read off the tree:
`Governs` names the derivation that it comes from, which is the only one when the entities and the
nodes of the tree are distinct (`Governs.unique`). A walk runs every hook under the context that its
place calls for (`Walker.settled`).
-/

namespace SyntaxWalk

inductive Place where
  | entity (e : Entity)
  /-- A node of the body of an entity. -/
  | node (e : Entity) (n : Node)

/-- The derivation for the child `i` of a node alone: for the child of a local scope and for what an
unwind protects. -/
def Node.shield? (n : Node) (i : Nat) : Option Derivation :=
  match n.kind, i with
  | .localScope, 0 => some (.localScope n)
  | .unwind, 0 => (n.child? 1).map .unwind
  | _, _ => none

/-- The derivation of the context in force at a place of a tree; there is none where it is the
context that the walk started with. -/
inductive Governs (root : Entity) : Place → Option Derivation → Prop where
  | root : Governs root (.entity root) none
  | held {e g d x} (h : Governs root (.entity e) g) (hd : e.derivation? = some d)
      (hx : x ∈ e.held) : Governs root (.entity x) (some d)
  | body {e g b} (h : Governs root (.entity e) g) (hk : e.kind.isCode = true)
      (hb : e.body = some b) : Governs root (.node e b) (some (.code e))
  | child {e n m g i} (h : Governs root (.node e n) g) (hm : n.child? i = some m) :
      Governs root (.node e m) ((n.shield? i).or g)
  /-- What is scoped to a node is entered under the context of the node. -/
  | hoisted {e n x g} (h : Governs root (.node e n) g) (hx : x ∈ e.scopedUnder (.node n.id)) :
      Governs root (.entity x) g

namespace Place

/-- A place is in a tree. -/
def Within (root : Entity) : Place → Prop
  | entity e => e ∈ root.members
  | node e n => e ∈ root.members ∧ e.kind.isCode = true ∧ ∃ b, e.body = some b ∧ n ∈ b.subtree

end Place

namespace Entity

theorem derivation?_top {e : Entity} {d : Derivation} (h : e.derivation? = some d)
    (outer : Entity) : d.top outer = e := by
  unfold derivation? at h
  cases hk : e.kind <;> rw [hk] at h <;> cases h <;> rfl

end Entity

namespace Governs

variable {root : Entity} {p : Place} {g g' : Option Derivation}

theorem within (h : Governs root p g) : p.Within root := by
  induction h with
  | root => exact root.mem_members_self
  | held _ _ hx ih =>
    exact Entity.mem_members_allScoped ih (Entity.mem_allScoped_of_mem_held hx)
  | @body e g b _ hk hb ih => exact ⟨ih, hk, b, hb, b.mem_subtree_self⟩
  | child _ hm ih =>
    obtain ⟨he, hk, b, hb, hn⟩ := ih
    exact ⟨he, hk, b, hb, Node.mem_subtree_children hn (Node.mem_of_child? hm)⟩
  | hoisted _ hx ih =>
    exact Entity.mem_members_allScoped ih.1 (Entity.mem_allScoped_of_mem_scopedUnder hx)

theorem mem_nodes {e : Entity} {n : Node} (h : Governs root (.node e n) g) :
    n ∈ e.bodyNodes ∧ n ∈ root.nodes := by
  obtain ⟨he, -, b, hb, hn⟩ := h.within
  have body : n ∈ e.bodyNodes := by
    rw [Entity.bodyNodes, hb]
    exact List.mem_flatMap.2 ⟨b, List.mem_singleton_self b, hn⟩
  exact ⟨body, List.mem_flatMap.2 ⟨e, he, body⟩⟩

section Unique

variable (he : root.DistinctEntities) (hn : root.DistinctNodes)

include he hn

omit he in
/-- Two nodes of a body with the same child are the same node, and the child has one index. -/
theorem same_parent {e : Entity} {n n' m : Node} {i j : Nat} (h : Governs root (.node e n) g)
    (h' : Governs root (.node e n') g') (hi : n.child? i = some m) (hj : n'.child? j = some m) :
    n = n' ∧ i = j := by
  obtain ⟨hmem, -, b, hb, hs⟩ := h.within
  obtain ⟨-, -, b', hb', hs'⟩ := h'.within
  cases hb.symm.trans hb'
  cases hn.parent_unique hmem hb hs hs' (Node.mem_of_child? hi) (Node.mem_of_child? hj)
  exact ⟨rfl, hn.index_unique hmem hb hs hi hj⟩

omit he in
theorem body_no_child {e : Entity} {n b : Node} {i : Nat} (h : Governs root (.node e n) g)
    (hb : e.body = some b) : n.child? i ≠ some b := by
  intro hi
  obtain ⟨hmem, -, b', hb', hs⟩ := h.within
  cases hb.symm.trans hb'
  exact hn.body_not_mem hmem hb hs (Node.mem_of_child? hi)

omit hn in
/-- What is scoped to a node is not held outside the nodes as well. -/
theorem hoisted_not_held {e e' x : Entity} {n : Node} (h : Governs root (.entity e) g)
    (h' : Governs root (.node e' n) g') (hx : x ∈ e.held)
    (hx' : x ∈ e'.scopedUnder (.node n.id)) : False := by
  obtain ⟨hmem, hk, -⟩ := h'.within
  cases he.declarer_unique h.within hmem (Entity.mem_allScoped_of_mem_held hx)
    (Entity.mem_allScoped_of_mem_scopedUnder hx')
  rw [Entity.held, if_pos hk] at hx
  cases he.key_unique hmem hx hx'

/-- A place has one context in force. -/
theorem unique (h : Governs root p g) (h' : Governs root p g') : g = g' := by
  induction h generalizing g' with
  | root =>
    cases h' with
    | root => rfl
    | held h hd hx => exact (he.root_not_mem h.within (Entity.mem_allScoped_of_mem_held hx)).elim
    | hoisted h hx =>
      exact (he.root_not_mem h.within.1 (Entity.mem_allScoped_of_mem_scopedUnder hx)).elim
  | held h hd hx ih =>
    cases h' with
    | root => exact (he.root_not_mem h.within (Entity.mem_allScoped_of_mem_held hx)).elim
    | held h' hd' hx' =>
      cases he.declarer_unique h.within h'.within (Entity.mem_allScoped_of_mem_held hx)
        (Entity.mem_allScoped_of_mem_held hx')
      exact hd.symm.trans hd'
    | hoisted h' hx' => exact (hoisted_not_held he h h' hx hx').elim
  | body h hk hb ih =>
    cases h' with
    | body => rfl
    | child h' hm => exact (body_no_child hn h' hb hm).elim
  | child h hm ih =>
    cases h' with
    | body _ _ hb => exact (body_no_child hn h hb hm).elim
    | child h' hm' =>
      obtain ⟨rfl, rfl⟩ := same_parent hn h h' hm hm'
      rw [ih h']
  | hoisted h hx ih =>
    cases h' with
    | root =>
      exact (he.root_not_mem h.within.1 (Entity.mem_allScoped_of_mem_scopedUnder hx)).elim
    | held h' hd' hx' => exact (hoisted_not_held he h' h hx' hx).elim
    | hoisted h' hx' =>
      cases he.declarer_unique h.within.1 h'.within.1 (Entity.mem_allScoped_of_mem_scopedUnder hx)
        (Entity.mem_allScoped_of_mem_scopedUnder hx')
      cases hn.eq_of_id h.mem_nodes.2 h'.mem_nodes.2
        (ScopeKey.node.inj (he.key_unique h.within.1 hx hx'))
      exact ih h'

omit he in
/-- A node is in the body of one entity. -/
theorem owner_unique {e e' : Entity} {n : Node} (h : Governs root (.node e n) g)
    (h' : Governs root (.node e' n) g') : e = e' :=
  hn.owner_unique h.within.1 h'.within.1 h.mem_nodes.1 h'.mem_nodes.1

end Unique

end Governs

/-! ## Tasks and entries at their places -/

variable {σ C : Type}

theorem Visitor.Lexical.logged {v : Visitor σ C} (h : v.Lexical) : v.logged.Lexical :=
  fun d context m => h d context m.memory

def Entry.entered? : Entry C → Option Entity
  | .called (.entity .enter e _ _ _) _ => some e
  | _ => none

/-- The entities that have been entered, in order. -/
def entered (log : List (Entry C)) : List Entity :=
  log.filterMap Entry.entered?

/-- Where a context comes from: it is that of the walk, or it has been derived. -/
def Source (start : C) (log : List (Entry C)) : Option Derivation → C → Prop
  | none, context => context = start
  | some d, context => ∃ outer, .derived d outer context ∈ log

/-- A context is the one in force at a place. -/
def Placed (root : Entity) (start : C) (log : List (Entry C)) (p : Place) (context : C) : Prop :=
  ∃ g, Governs root p g ∧ Source start log g context

/-- The place at which a hook is called. -/
def HookCall.place (top : C → Entity) : HookCall C → Place
  | .entity _ e _ _ _ => .entity e
  | .node _ n context => .node (top context) n
  | .target _ a context => .node (top context) a.target

/-- The place at which a context is derived. -/
def Derivation.site (outer : Entity) : Derivation → Place
  | .file e | .type e | .code e => .entity e
  | .localScope n => .node outer n
  | .unwind cleanup => .node outer cleanup

/-- The context for what an entity holds is on hand, if its kind has one. -/
def Holding (top : C → Entity) (log : List (Entry C)) (e : Entity) (outer : C) : Option C → Prop
  | none => e.derivation? = none
  | some inner => top inner = e ∧ ∃ d, e.derivation? = some d ∧ .derived d outer inner ∈ log

/-- A node whose entity has been entered, under the context in force there. -/
def NodePlaced (top : C → Entity) (root : Entity) (start : C) (log : List (Entry C)) (n : Node)
    (context : C) : Prop :=
  Placed root start log (.node (top context) n) context ∧ top context ∈ entered log

def Task.Placed (top : C → Entity) (root : Entity) (start : C) (log : List (Entry C)) :
    Task C → Prop
  | .entity e context => SyntaxWalk.Placed root start log (.entity e) context
  | .nested parent e context =>
    SyntaxWalk.Placed root start log (.entity e) context ∧ parent ∈ entered log ∧
      e ∈ parent.allScoped
  | .openEntity e context | .finishEntity e context =>
    SyntaxWalk.Placed root start log (.entity e) context ∧ e ∈ entered log
  | .holdEntity e context inner | .leaveEntity e context inner =>
    SyntaxWalk.Placed root start log (.entity e) context ∧ e ∈ entered log ∧
      Holding top log e context inner
  | .node n context | .openNode n context | .finishNode n context =>
    NodePlaced top root start log n context
  | .plan n context steps =>
    NodePlaced top root start log n context ∧ ∀ step ∈ steps, step.Fits n.kind
  | .child n i context => ∀ m, n.child? i = some m → NodePlaced top root start log m context
  | .target a context _ | .leaveTarget a context => NodePlaced top root start log a.target context
  | .lastTarget a context _ =>
    NodePlaced top root start log a.target context ∧ a.target.kind = .blockExpr

/-- An entry was placed when it was written. -/
def Entry.Placed (top : C → Entity) (root : Entity) (start : C) (log : List (Entry C)) :
    Entry C → Prop
  | .called call _ => SyntaxWalk.Placed root start log (call.place top) call.context
  | .derived d outer inner =>
    SyntaxWalk.Placed root start log (d.site (top outer)) outer ∧
      top inner = d.top (top outer)
  | .began | .ended => False

/-- An act is placed, and the tasks it leads to are once its entry is written. -/
def Act.Placed (top : C → Entity) (root : Entity) (start : C) (log : List (Entry C)) :
    Act C → Prop
  | .fail _ => True
  | .replace tasks | .adopt _ _ tasks => ∀ task ∈ tasks, task.Placed top root start log
  | .derive d outer tasks =>
    ∀ inner, top inner = d.top (top outer) →
      Entry.Placed top root start log (.derived d outer inner) ∧
        ∀ task ∈ tasks inner, task.Placed top root start (log ++ [.derived d outer inner])
  | .call hook tasks _ =>
    ∀ answer, Entry.Placed top root start log (.called hook answer) ∧
      ∀ task ∈ tasks answer, task.Placed top root start (log ++ [.called hook answer])

section Growth

variable {top : C → Entity} {root : Entity} {start : C} {log log' : List (Entry C)}
  (hl : log ⊆ log')

include hl

theorem entered_subset : entered log ⊆ entered log' :=
  List.filterMap_subset _ hl

theorem Placed.mono {p : Place} {context : C} (h : Placed root start log p context) :
    Placed root start log' p context := by
  obtain ⟨g, hg, hs⟩ := h
  refine ⟨g, hg, ?_⟩
  cases g with
  | none => exact hs
  | some d =>
    obtain ⟨outer, hs⟩ := hs
    exact ⟨outer, hl hs⟩

theorem NodePlaced.mono {n : Node} {context : C} (h : NodePlaced top root start log n context) :
    NodePlaced top root start log' n context :=
  ⟨h.1.mono hl, entered_subset hl h.2⟩

theorem Holding.mono {e : Entity} {outer : C} {inner : Option C}
    (h : Holding top log e outer inner) : Holding top log' e outer inner := by
  cases inner with
  | none => exact h
  | some inner =>
    obtain ⟨ht, d, hd, hs⟩ := h
    exact ⟨ht, d, hd, hl hs⟩

theorem Task.Placed.mono {task : Task C} (h : task.Placed top root start log) :
    task.Placed top root start log' := by
  cases task with
  | entity => exact SyntaxWalk.Placed.mono hl h
  | nested => exact ⟨h.1.mono hl, entered_subset hl h.2.1, h.2.2⟩
  | openEntity | finishEntity => exact ⟨h.1.mono hl, entered_subset hl h.2⟩
  | holdEntity | leaveEntity => exact ⟨h.1.mono hl, entered_subset hl h.2.1, h.2.2.mono hl⟩
  | node | openNode | finishNode | target | leaveTarget => exact NodePlaced.mono hl h
  | plan | lastTarget => exact ⟨h.1.mono hl, h.2⟩
  | child => exact fun m hm => (h m hm).mono hl

end Growth

theorem Node.shield?_eq_none {n : Node} {i : Nat}
    (h : i = 0 → n.kind ≠ .localScope ∧ n.kind ≠ .unwind) : n.shield? i = none := by
  unfold shield?
  split
  · rename_i hk
    exact ((h rfl).1 hk).elim
  · rename_i hk
    exact ((h rfl).2 hk).elim
  · rfl

theorem NodeKind.isAssignment_ne {kind : NodeKind} (h : kind.isAssignment = true) :
    kind ≠ .localScope ∧ kind ≠ .unwind := by
  constructor <;> rintro rfl <;> cases h

namespace NodePlaced

variable {top : C → Entity} {root : Entity} {start : C} {log : List (Entry C)} {n m : Node}
  {context : C} {i : Nat} (h : NodePlaced top root start log n context)

include h

theorem child (hs : n.shield? i = none) (hm : n.child? i = some m) :
    NodePlaced top root start log m context := by
  obtain ⟨⟨g, hg, hsource⟩, he⟩ := h
  have governs := Governs.child hg hm
  rw [hs, Option.none_or] at governs
  exact ⟨⟨g, governs, hsource⟩, he⟩

/-- The child of a node that derives no contexts. -/
theorem of_mem (hk : n.kind ≠ .localScope ∧ n.kind ≠ .unwind) (hm : m ∈ n.children) :
    NodePlaced top root start log m context := by
  obtain ⟨i, hi⟩ := List.mem_iff_getElem?.1 hm
  exact h.child (Node.shield?_eq_none fun _ => hk) hi

theorem shielded {d : Derivation} {inner : C} (hs : n.shield? i = some d)
    (hm : n.child? i = some m) (hd : .derived d context inner ∈ log)
    (ht : top inner = top context) : NodePlaced top root start log m inner := by
  obtain ⟨⟨g, hg, -⟩, he⟩ := h
  have governs := Governs.child hg hm
  rw [hs, Option.some_or] at governs
  exact ⟨⟨some d, ht ▸ governs, context, hd⟩, ht ▸ he⟩

end NodePlaced

namespace Walker

variable {w : Walker σ C} {root : Entity} {start : C} {log : List (Entry C)}

theorem site_derivation? {e : Entity} {d : Derivation} (h : e.derivation? = some d)
    (outer : Entity) : d.site outer = .entity e := by
  unfold Entity.derivation? at h
  cases hk : e.kind <;> rw [hk] at h <;> cases h <;> rfl

theorem contents_placed {e : Entity} {context : C} {inner : Option C}
    (hp : Placed root start log (.entity e) context) (he : e ∈ entered log)
    (hi : Holding w.visitor.top log e context inner) :
    ∀ task ∈ contents e inner, task.Placed w.visitor.top root start log := by
  obtain ⟨g, hg, -⟩ := hp
  cases inner with
  | none => exact nofun
  | some inner =>
    obtain ⟨ht, d, hd, hs⟩ := hi
    have held {x : Entity} (hx : x ∈ e.held) :
        (Task.nested e x inner).Placed w.visitor.top root start log :=
      ⟨⟨some d, .held hg hd hx, context, hs⟩, he, Entity.mem_allScoped_of_mem_held hx⟩
    intro task htask
    simp only [contents] at htask
    split at htask
    · rename_i hk
      cases (Entity.derivation?_of_isCode hk).symm.trans hd
      rcases List.mem_append.1 htask with htask | htask
      · obtain ⟨b, hb, rfl⟩ := List.mem_map.1 htask
        have governs := Governs.body hg hk (Option.mem_toList.1 hb)
        exact ⟨⟨some (.code e), ht ▸ governs, context, hs⟩, ht ▸ he⟩
      · obtain ⟨x, hx, rfl⟩ := List.mem_map.1 htask
        exact held (by rwa [Entity.held, if_pos hk])
    · rename_i hk
      obtain ⟨x, hx, rfl⟩ := List.mem_map.1 htask
      exact held (by rwa [Entity.held, if_neg hk])

theorem hoisted_placed {n : Node} {context : C}
    (h : NodePlaced w.visitor.top root start log n context) :
    ∀ task ∈ w.hoisted n context, task.Placed w.visitor.top root start log := by
  intro task htask
  obtain ⟨x, hx, rfl⟩ := List.mem_map.1 htask
  obtain ⟨⟨g, hg, hs⟩, he⟩ := h
  exact ⟨⟨g, .hoisted hg hx, hs⟩, he, Entity.mem_allScoped_of_mem_scopedUnder hx⟩

theorem targetCall_placed {a : Assignment} {context : C} {skip : Nat} {inside : List (Task C)}
    (h : NodePlaced w.visitor.top root start log a.target context)
    (hi : ∀ task ∈ inside, task.Placed w.visitor.top root start log) :
    (targetCall a context skip inside).Placed w.visitor.top root start log := by
  intro answer
  have grows := List.subset_append_left log [.called (.target .visit a context) answer]
  refine ⟨h.1, forall_onProceed (fun task htask => ?_) answer⟩
  rcases List.mem_append.1 htask with htask | htask
  · exact (hi task htask).mono grows
  · cases List.mem_singleton.1 htask
    exact NodePlaced.mono grows h

theorem entity_placed {e : Entity} {context : C}
    (hp : Placed root start log (.entity e) context) (parents : ParentTable) :
    (Act.call (.entity .enter e context none parents)
      (onProceed [.openEntity e context, .finishEntity e context]) 0).Placed w.visitor.top root start
        log := by
  intro answer
  have grows := List.subset_append_left log
    [.called (.entity .enter e context none parents) answer]
  have now : e ∈ entered (log ++ [.called (.entity .enter e context none parents) answer]) := by
    simp [entered, Entry.entered?]
  refine ⟨hp, forall_onProceed ?_ answer⟩
  simp only [List.forall_mem_cons]
  exact ⟨⟨hp.mono grows, now⟩, ⟨hp.mono grows, now⟩, nofun⟩

theorem holdEntity_placed {e : Entity} {context : C} {inner : Option C}
    (hp : (Task.holdEntity e context inner).Placed w.visitor.top root start log)
    (parents : ParentTable) :
    (Act.call (.entity .visit e context inner parents)
      (onProceed (contents e inner ++ [.leaveEntity e context inner])) 0).Placed w.visitor.top root
        start log := by
  intro answer
  have grows := List.subset_append_left log [.called (.entity .visit e context inner parents) answer]
  obtain ⟨placed, he, hi⟩ := hp
  refine ⟨placed, forall_onProceed (fun task htask => ?_) answer⟩
  rcases List.mem_append.1 htask with htask | htask
  · exact (contents_placed placed he hi task htask).mono grows
  · cases List.mem_singleton.1 htask
    exact ⟨placed.mono grows, entered_subset grows he, hi.mono grows⟩

theorem openNode_placed {n : Node} {context : C} {steps : List Step}
    (h : NodePlaced w.visitor.top root start log n context) (hs : ∀ step ∈ steps, step.Fits n.kind) :
    (Act.call (.node .visit n context) (w.afterVisit n context steps) 0).Placed w.visitor.top root
      start log := by
  intro answer
  have grows := List.subset_append_left log [.called (.node .visit n context) answer]
  have hoisted := hoisted_placed (h.mono grows)
  refine ⟨h.1, ?_⟩
  cases answer with
  | proceed => exact List.forall_mem_cons.2 ⟨⟨h.mono grows, hs⟩, hoisted⟩
  | handled =>
    simp only [afterVisit]
    split
    · exact hoisted
    · exact List.forall_mem_nil _

/-- Whatever a task leads to is placed if the task is. -/
theorem Move.placed {parents : ParentTable} {task : Task C} {act : Act C}
    (h : w.Move parents task act) (hp : task.Placed w.visitor.top root start log) :
    act.Placed w.visitor.top root start log := by
  cases h with
  | fail => trivial
  | entity => exact entity_placed hp parents
  | nested => exact List.forall_mem_singleton.2 hp.1
  | @openEntity e context d hd =>
    intro inner ht
    have grows := List.subset_append_left log [.derived d context inner]
    have now : .derived d context inner ∈ log ++ [.derived d context inner] := by simp
    refine ⟨⟨site_derivation? hd _ ▸ hp.1, ht⟩, List.forall_mem_singleton.2 ?_⟩
    exact ⟨hp.1.mono grows, entered_subset grows hp.2, ht.trans (Entity.derivation?_top hd _),
      d, hd, now⟩
  | openField h =>
    refine List.forall_mem_singleton.2 ⟨hp.1, hp.2, ?_⟩
    simp only [Holding, Entity.derivation?, h]
  | holdEntity => exact holdEntity_placed hp parents
  | leaveEntity | finishEntity | finishNode | leaveTarget =>
    exact fun answer => ⟨hp.1, List.forall_mem_nil _⟩
  | @node n context =>
    intro answer
    have grows := List.subset_append_left log [.called (.node .enter n context) answer]
    refine ⟨hp.1, forall_onProceed ?_ answer⟩
    simp only [List.forall_mem_cons]
    exact ⟨hp.mono grows, hp.mono grows, List.forall_mem_nil _⟩
  | openNode h hs => exact openNode_placed hp (NodeKind.plan_fits hs)
  | planDone => exact fun answer => ⟨hp.1.1, List.forall_mem_nil _⟩
  | planVisit =>
    obtain ⟨hn, hs⟩ := hp
    obtain ⟨hstep, hs⟩ := List.forall_mem_cons.1 hs
    simp only [Act.Placed, List.forall_mem_cons]
    exact ⟨fun m hm => hn.child (Node.shield?_eq_none hstep) hm, ⟨hn, hs⟩, List.forall_mem_nil _⟩
  | @planLocal n context i steps =>
    obtain ⟨hn, hs⟩ := hp
    obtain ⟨⟨hk, rfl⟩, hrest⟩ := List.forall_mem_cons.1 hs
    have shield : n.shield? 0 = some (.localScope n) := by simp only [Node.shield?, hk]
    intro inner ht
    have grows := List.subset_append_left log [.derived (.localScope n) context inner]
    refine ⟨⟨hn.1, ht⟩, ?_⟩
    simp only [List.forall_mem_cons]
    exact ⟨fun m hm => (hn.mono grows).shielded shield hm (by simp) ht, ⟨hn.mono grows, hrest⟩,
      List.forall_mem_nil _⟩
  | @planProtected n context i j steps body cleanup hi hj =>
    obtain ⟨hn, hs⟩ := hp
    obtain ⟨⟨hk, rfl, rfl⟩, hrest⟩ := List.forall_mem_cons.1 hs
    have shield : n.shield? 0 = some (.unwind cleanup) := by
      simp only [Node.shield?, hk, hj, Option.map_some]
    have bare : n.shield? 1 = none := by simp [Node.shield?]
    intro inner ht
    have grows := List.subset_append_left log [.derived (.unwind cleanup) context inner]
    refine ⟨⟨(hn.child bare hj).1, ht⟩, ?_⟩
    simp only [List.forall_mem_cons]
    exact ⟨(hn.mono grows).shielded shield hi (by simp) ht, ⟨hn.mono grows, hrest⟩,
      List.forall_mem_nil _⟩
  | @planBetween n context point steps =>
    obtain ⟨hn, hs⟩ := hp
    intro answer
    have grows := List.subset_append_left log [.called (.node (.between point) n context) answer]
    refine ⟨hn.1, List.forall_mem_singleton.2 ⟨hn.mono grows, ?_⟩⟩
    exact (List.forall_mem_cons.1 hs).2
  | planAssign hi hj =>
    obtain ⟨hn, hs⟩ := hp
    obtain ⟨hk, hs⟩ := List.forall_mem_cons.1 hs
    have plain := NodeKind.isAssignment_ne hk
    simp only [Act.Placed, List.forall_mem_cons]
    exact ⟨hn.of_mem plain (Node.mem_of_child? hj), hn.of_mem plain (Node.mem_of_child? hi),
      ⟨hn, hs⟩, List.forall_mem_nil _⟩
  | child h => exact List.forall_mem_singleton.2 (hp _ h)
  | @arrayTarget a context skip h =>
    have plain : a.target.kind ≠ .localScope ∧ a.target.kind ≠ .unwind := by simp [h]
    refine targetCall_placed hp (List.forall_mem_cons.2 ⟨fun m hm => ?_, fun task htask => ?_⟩)
    · exact hp.of_mem plain (Node.mem_of_child? hm)
    · obtain ⟨m, hm, rfl⟩ := List.mem_map.1 htask
      exact hp.of_mem plain (List.mem_of_mem_drop hm)
  | @objectTarget a context skip h =>
    have plain : a.target.kind ≠ .localScope ∧ a.target.kind ≠ .unwind := by simp [h]
    refine targetCall_placed hp (List.forall_mem_singleton.2 fun m hm => ?_)
    exact hp.of_mem plain (Node.mem_of_child? hm)
  | blockTarget h => exact targetCall_placed hp (List.forall_mem_singleton.2 ⟨hp, h⟩)
  | varTarget h => exact targetCall_placed hp (List.forall_mem_nil _)
  | lastTarget h =>
    obtain ⟨hn, hk⟩ := hp
    exact List.forall_mem_singleton.2 (hn.of_mem (by simp [hk]) (Node.mem_of_lastChild? h))

/-! ## Whole walks -/

/-- What is on the agenda and in the log is at its place. -/
structure Settled (w : Walker σ C) (root : Entity) (start : C)
    (p : List (Task C) × WalkState (Logged σ C)) : Prop where
  tasks : ∀ task ∈ p.1, task.Placed w.visitor.top root start p.2.memory.log
  entries : Throughout (Entry.Placed w.visitor.top root start) p.2.memory.log

theorem settled_start (w : Walker σ C) (root : Entity) (start : C) (memory : σ) :
    w.Settled root start (Walker.start root start { memory }) :=
  ⟨List.forall_mem_singleton.2 ⟨none, .root, rfl⟩, .nil⟩

theorem act_placed (parents : ParentTable) {task : Task C}
    (h : task.Placed w.visitor.top root start log) :
    (w.logged.act parents task).Placed w.visitor.top root start log :=
  (w.logged.act_move parents task).placed h

theorem Settled.step (hv : w.visitor.Lexical) {p q : List (Task C) × WalkState (Logged σ C)}
    (h : w.logged.Advances p q) (hp : w.Settled root start p) : w.Settled root start q := by
  obtain ⟨tasks, entries⟩ := hp
  cases h with
  | @replace task rest s after h | @adopt task rest s child parent after h =>
    obtain ⟨htask, hrest⟩ := List.forall_mem_cons.1 tasks
    have placed := act_placed s.parents htask
    rw [h] at placed
    exact ⟨List.forall_mem_append.2 ⟨placed, hrest⟩, entries⟩
  | @derive task rest s d context after h =>
    obtain ⟨htask, hrest⟩ := List.forall_mem_cons.1 tasks
    have placed := act_placed s.parents htask
    rw [h] at placed
    obtain ⟨entry, placed⟩ := placed _ (hv d context s.memory.memory)
    have grows (x : Entry C) := List.subset_append_left s.memory.log [x]
    exact ⟨List.forall_mem_append.2 ⟨placed, fun task ht => (hrest task ht).mono (grows _)⟩,
      .snoc entries entry⟩
  | @call task rest s hook after skip h =>
    obtain ⟨htask, hrest⟩ := List.forall_mem_cons.1 tasks
    have placed := act_placed s.parents htask
    rw [h] at placed
    obtain ⟨entry, placed⟩ := placed (w.visitor.answer hook s.memory.memory).1
    have grows (x : Entry C) := List.subset_append_left s.memory.log [x]
    refine ⟨List.forall_mem_append.2 ⟨placed, fun task ht => ?_⟩, .snoc entries entry⟩
    exact (hrest task (List.mem_of_mem_drop ht)).mono (grows _)

theorem settled (hv : w.visitor.Lexical) {memory : σ}
    {p : List (Task C) × WalkState (Logged σ C)}
    (h : w.logged.Reaches (Walker.start root start { memory }) p) : w.Settled root start p :=
  Reaches.keeps (fun h hp => hp.step hv h) h (settled_start w root start memory)

theorem Settled.call_placed {p : List (Task C) × WalkState (Logged σ C)}
    (h : w.Settled root start p) {hook : HookCall C} {answer : Answer}
    (hmem : .called hook answer ∈ p.2.memory.log) :
    Placed root start p.2.memory.log (hook.place w.visitor.top) hook.context := by
  obtain ⟨before, after, hl⟩ := List.append_of_mem hmem
  have placed : Placed root start before (hook.place w.visitor.top) hook.context :=
    h.entries.split hl
  exact placed.mono (hl ▸ List.subset_append_left before _)

theorem Settled.entered_mem {p : List (Task C) × WalkState (Logged σ C)}
    (h : w.Settled root start p) {e : Entity} (he : e ∈ entered p.2.memory.log) :
    e ∈ root.members := by
  obtain ⟨x, hx, hxe⟩ := List.mem_filterMap.1 he
  unfold Entry.entered? at hxe
  split at hxe
  · cases hxe
    obtain ⟨g, hg, -⟩ := h.call_placed hx
    exact hg.within
  · cases hxe

end Walker

end SyntaxWalk
