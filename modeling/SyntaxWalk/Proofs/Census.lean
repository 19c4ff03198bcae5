import Mathlib.Data.List.Flatten
import Mathlib.Data.List.Perm.Subperm
import SyntaxWalk.Proofs.Places

/-!
# Every context is derived once

A tree of distinct entities and nodes has a stock of deeds: one for the context of each entity, and
for each node one as a local scope and one as the cleanup code of an unwind. What a walk has derived
and what its agenda may still derive are drawn from this stock, so nothing is derived twice
(`Walker.derived_once`).
-/

namespace SyntaxWalk

/-- The derivation of a context, by what it is for. -/
inductive Deed where
  | entity (id : EntityId)
  | localScope (id : NodeId)
  | unwind (id : NodeId)
  deriving DecidableEq

def Derivation.deed : Derivation → Deed
  | .file e | .type e | .code e => .entity e.id
  | .localScope n => .localScope n.id
  | .unwind cleanup => .unwind cleanup.id

variable {σ C α β : Type}

def Entry.deed? : Entry C → Option Deed
  | .derived d _ _ => some d.deed
  | _ => none

/-- The deeds of a log, in order. -/
def deeds (log : List (Entry C)) : List Deed :=
  log.filterMap Entry.deed?

/-! ## Parts of lists -/

theorem flatMap_subperm {l l' : List α} (h : l.Subperm l') (f : α → List β) :
    (l.flatMap f).Subperm (l'.flatMap f) := by
  obtain ⟨m, hp, hs⟩ := h
  exact (hp.flatMap_right f).symm.subperm.trans (hs.flatMap f).subperm

theorem nodup_of_subperm {l l' : List α} (h : l.Subperm l') (hl : l'.Nodup) : l.Nodup := by
  obtain ⟨m, hp, hs⟩ := h
  exact hp.nodup_iff.1 (hl.sublist hs)

theorem ScopeTable.under_cons (row : ScopeKey × List α) (rows : List (ScopeKey × List α))
    (k : ScopeKey) : (⟨row :: rows⟩ : ScopeTable α).under k =
      if k = row.1 then row.2 else (⟨rows⟩ : ScopeTable α).under k := by
  obtain ⟨l, as⟩ := row
  simp only [under, List.lookup_cons]
  by_cases h : k = l
  · simp [h]
  · simp [h, beq_false_of_ne h]

/-- Different keys of a table have different parts of what is filed in it. -/
theorem ScopeTable.flatMap_under_subperm (rows : List (ScopeKey × List α)) {keys : List ScopeKey}
    (h : keys.Nodup) :
    (keys.flatMap (⟨rows⟩ : ScopeTable α).under).Subperm (rows.flatMap (·.2)) := by
  induction rows generalizing keys with
  | nil => simp [under]
  | cons row rows ih =>
    have later {keys : List ScopeKey} (hk : row.1 ∉ keys) :
        keys.flatMap (⟨row :: rows⟩ : ScopeTable α).under =
          keys.flatMap (⟨rows⟩ : ScopeTable α).under := by
      refine List.flatMap_congr fun k hmem => ?_
      have hne : k ≠ row.1 := by
        rintro rfl
        exact hk hmem
      rw [under_cons, if_neg hne]
    rw [List.flatMap_cons]
    by_cases hmem : row.1 ∈ keys
    · obtain ⟨before, after, rfl⟩ := List.append_of_mem hmem
      have perm : (before ++ row.1 :: after).Perm (row.1 :: (before ++ after)) :=
        List.perm_middle
      obtain ⟨hrow, hrest⟩ := List.nodup_cons.1 (perm.nodup_iff.1 h)
      refine (perm.flatMap_right _).subperm.trans ?_
      rw [List.flatMap_cons, later hrow, under_cons, if_pos rfl]
      exact List.Subperm.append (List.Subperm.refl _) (ih hrest)
    · rw [later hmem]
      exact (ih h).trans (List.sublist_append_right _ _).subperm

theorem filterMap_getElem?_range (l : List α) :
    (List.range l.length).filterMap (l[·]?) = l := by
  induction l with
  | nil => rfl
  | cons a l ih =>
    rw [List.length_cons, List.range_succ_eq_map, List.filterMap_cons, List.filterMap_map]
    exact congrArg (a :: ·) ih

/-- Different indices of a list pick different parts of it. -/
theorem filterMap_getElem?_subperm (l : List α) {is : List Nat} (h : is.Nodup) :
    (is.filterMap (l[·]?)).Subperm l := by
  have inside : is.filterMap (l[·]?) = (is.filter (· < l.length)).filterMap (l[·]?) := by
    rw [List.filterMap_filter]
    refine List.filterMap_congr fun i _ => ?_
    by_cases hi : i < l.length
    · simp [hi]
    · simp [hi]
  have range : (is.filter (· < l.length)).Subperm (List.range l.length) :=
    List.subperm_of_subset (h.filter _) fun i hi => by simpa using (List.mem_filter.1 hi).2
  obtain ⟨m, hp, hs⟩ := range
  have picked := (hp.symm.filterMap (l[·]?)).subperm.trans (hs.filterMap (l[·]?)).subperm
  rwa [← inside, filterMap_getElem?_range] at picked

theorem nodup_map_map {γ : Type} {f : α → β} {g : β → γ} {l : List α} (hg : Function.Injective g)
    (h : (l.map f).Nodup) : (l.map fun a => g (f a)).Nodup := by
  have mapped := h.map hg
  rwa [List.map_map] at mapped

/-! ## The stock of a tree -/

namespace Node

/-- The deeds of a node as a local scope, and of its children as cleanup code. -/
def ownDeeds (n : Node) : List Deed :=
  .localScope n.id :: n.children.map fun m => .unwind m.id

end Node

namespace Entity

/-- The deeds of all that an entity and what it declares can bring. -/
def stock (e : Entity) : List Deed :=
  e.members.flatMap fun x => .entity x.id :: x.bodyNodes.flatMap Node.ownDeeds

theorem stock_eq (e : Entity) :
    e.stock = .entity e.id :: (e.bodyNodes.flatMap Node.ownDeeds ++ e.allScoped.flatMap stock) := by
  unfold stock
  rw [members_eq, List.flatMap_cons, List.flatMap_assoc]
  rfl

theorem DistinctNodes.children_nodup {root : Entity} (h : root.DistinctNodes) :
    ((root.nodes.flatMap Node.children).map (·.id)).Nodup := by
  have body (e : Entity) : e.bodyNodes.Perm (e.body.toList ++ e.bodyNodes.flatMap Node.children) := by
    unfold bodyNodes
    cases e.body with
    | none => exact List.Perm.refl _
    | some b =>
      rw [Option.toList_some, List.flatMap_singleton]
      exact b.subtree_perm
  have perm : root.nodes.Perm
      (root.members.flatMap (fun e => e.body.toList) ++ root.nodes.flatMap Node.children) := by
    unfold nodes
    rw [List.flatMap_assoc]
    exact (List.Perm.flatMap_left _ fun e _ => body e).trans (List.flatMap_append_perm _ _ _).symm
  have all : (root.nodes.map Node.id).Nodup := h
  rw [(perm.map Node.id).nodup_iff, List.map_append] at all
  exact (List.nodup_append.1 all).2.1

theorem stock_nodup {root : Entity} (he : root.DistinctEntities) (hn : root.DistinctNodes) :
    root.stock.Nodup := by
  have ofNodes : (root.nodes.flatMap Node.ownDeeds).Perm
      (root.nodes.map (fun n => Deed.localScope n.id) ++
        (root.nodes.flatMap Node.children).map fun m => .unwind m.id) := by
    rw [List.map_flatMap]
    exact flatMap_cons_perm ..
  have all : root.stock.Perm (root.members.map (fun e => Deed.entity e.id) ++
      (root.nodes.map (fun n => Deed.localScope n.id) ++
        (root.nodes.flatMap Node.children).map fun m => .unwind m.id)) := by
    refine (flatMap_cons_perm ..).trans ?_
    rw [← List.flatMap_assoc]
    exact ofNodes.append_left _
  have entities : (root.members.map fun e => Deed.entity e.id).Nodup :=
    nodup_map_map (fun _ _ h => by cases h; rfl) he
  have scopes : (root.nodes.map fun n => Deed.localScope n.id).Nodup :=
    nodup_map_map (fun _ _ h => by cases h; rfl) hn
  have cleanups : ((root.nodes.flatMap Node.children).map fun m => Deed.unwind m.id).Nodup :=
    nodup_map_map (fun _ _ h => by cases h; rfl) hn.children_nodup
  rw [all.nodup_iff, List.nodup_append, List.nodup_append]
  refine ⟨entities, ⟨scopes, cleanups, ?_⟩, ?_⟩
  · simp only [List.forall_mem_map]
    exact fun _ _ _ _ => nofun
  · simp only [List.forall_mem_map, List.forall_mem_append]
    exact fun _ _ => ⟨fun _ _ => nofun, fun _ _ => nofun⟩

end Entity

/-! ## What tasks may still derive -/

/-- The deeds in the body from a node on, with all that the entity of the body scopes to its
nodes. -/
def Node.stock (e : Entity) (n : Node) : List Deed :=
  n.subtree.flatMap fun m =>
    m.ownDeeds ++ (e.scopedUnder (.node m.id)).flatMap Entity.stock

theorem Node.stock_eq (e : Entity) (n : Node) :
    n.stock e = n.ownDeeds ++ (e.scopedUnder (.node n.id)).flatMap Entity.stock ++
      n.children.flatMap (Node.stock e) := by
  unfold stock
  rw [subtree_eq, List.flatMap_cons, List.flatMap_assoc]

namespace Step

/-- The deeds of a step itself. -/
def ownDeeds (n : Node) : Step → List Deed
  | .visitLocal _ => [.localScope n.id]
  | .visitProtected _ cleanup => (n.child? cleanup).toList.map fun m => .unwind m.id
  | _ => []

end Step

/-- The deeds of steps of a plan. -/
def stepsStock (e : Entity) (n : Node) (steps : List Step) : List Deed :=
  steps.flatMap (Step.ownDeeds n) ++
    ((steps.flatMap Step.children).filterMap n.child?).flatMap (Node.stock e)

def owed (top : C → Entity) : Task C → List Deed
  | .entity e _ | .nested _ e _ | .openEntity e _ => e.stock
  | .holdEntity e _ inner =>
    match inner with
    | none => []
    | some inner =>
      if e.kind.isCode then
        e.body.toList.flatMap (Node.stock (top inner)) ++
          (e.scopedUnder .global).flatMap Entity.stock
      else e.allScoped.flatMap Entity.stock
  | .node n context | .openNode n context => n.stock (top context)
  | .plan n context steps => stepsStock (top context) n steps
  | .child n i context => ([i].filterMap n.child?).flatMap (Node.stock (top context))
  | .target a context _ => a.target.children.flatMap (Node.stock (top context))
  | .lastTarget a context _ => a.target.lastChild?.toList.flatMap (Node.stock (top context))
  | .leaveEntity .. | .finishEntity .. | .finishNode .. | .leaveTarget .. => []

/-- An act draws what it derives, and what its tasks owe, from some deeds. -/
def Spends (top : C → Entity) (stock : List Deed) : Act C → Prop
  | .fail _ => True
  | .replace tasks | .adopt _ _ tasks => (tasks.flatMap (owed top)).Subperm stock
  | .derive d outer tasks => ∀ inner, top inner = d.top (top outer) →
    (d.deed :: (tasks inner).flatMap (owed top)).Subperm stock
  | .call _ tasks _ => ∀ answer, ((tasks answer).flatMap (owed top)).Subperm stock

theorem Step.ownDeeds_subperm {n : Node} {steps : List Step} (h : Shape n.kind steps) :
    (steps.flatMap (ownDeeds n)).Subperm n.ownDeeds := by
  cases h with
  | localScope => exact (List.Sublist.cons_cons _ (List.nil_sublist _)).subperm
  | unwind =>
    have cleanup : (n.child? 1).toList.Sublist n.children := by
      cases h : n.child? 1 with
      | none => exact List.nil_sublist _
      | some m => exact List.singleton_sublist.2 (Node.mem_of_child? h)
    simpa [ownDeeds, Node.ownDeeds] using ((cleanup.map _).cons _).subperm
  | assign => exact List.nil_subperm
  | plain _ _ _ hs =>
    have none : steps.flatMap (ownDeeds n) = [] := by
      refine List.flatMap_eq_nil_iff.2 fun step hstep => ?_
      cases step with
      | visit | between => rfl
      | _ => exact (hs _ hstep).elim
    rw [none]
    exact List.nil_subperm

/-- A plan draws on the deeds of its node and of the children. -/
theorem stepsStock_subperm {e : Entity} {n : Node} {steps : List Step}
    (h : n.kind.plan? n.childCount = some steps) :
    (stepsStock e n steps).Subperm (n.ownDeeds ++ n.children.flatMap (Node.stock e)) :=
  List.Subperm.append (Step.ownDeeds_subperm (NodeKind.plan_shape h))
    (flatMap_subperm (filterMap_getElem?_subperm n.children (NodeKind.plan_nodup h)) _)

/-- What the first step of a plan comes to, and the rest of the plan after it. -/
theorem stepsStock_cons (e : Entity) (n : Node) (step : Step) (steps : List Step)
    {made : List Deed}
    (h : made =
      step.ownDeeds n ++ (step.children.filterMap n.child?).flatMap (Node.stock e)) :
    (made ++ stepsStock e n steps).Subperm (stepsStock e n (step :: steps)) := by
  refine List.Perm.subperm (List.perm_iff_count.2 fun deed => ?_)
  simp only [h, stepsStock, List.flatMap_cons, List.filterMap_append, List.flatMap_append,
    List.count_append]
  omega

/-- What a code entity holds draws on the deeds of its body and of its declarations. -/
theorem held_subperm {root e : Entity} (hn : root.DistinctNodes) (he : e ∈ root.members) :
    (e.body.toList.flatMap (Node.stock e) ++
        (e.scopedUnder .global).flatMap Entity.stock).Subperm
      (e.bodyNodes.flatMap Node.ownDeeds ++ e.allScoped.flatMap Entity.stock) := by
  have keys : (e.bodyNodes.map (fun n => ScopeKey.node n.id) ++ [ScopeKey.global]).Nodup := by
    have nodeKeys : (e.bodyNodes.map fun n => ScopeKey.node n.id).Nodup :=
      nodup_map_map (fun _ _ h => by cases h; rfl) (hn.body_nodup he)
    exact nodeKeys.append (List.nodup_singleton _) (by simp [List.Disjoint])
  have filed := flatMap_subperm (ScopeTable.flatMap_under_subperm e.scopes.rows keys) Entity.stock
  rw [List.flatMap_append, List.flatMap_append, List.flatMap_singleton, List.flatMap_map,
    List.flatMap_assoc] at filed
  have body : (e.body.toList.flatMap (Node.stock e)).Perm
      (e.bodyNodes.flatMap Node.ownDeeds ++
        e.bodyNodes.flatMap fun n => (e.scopedUnder (.node n.id)).flatMap Entity.stock) := by
    unfold Entity.bodyNodes Node.stock
    rw [← List.flatMap_assoc]
    exact (List.flatMap_append_perm _ _ _).symm
  refine (body.append_right _).subperm.trans ?_
  rw [List.append_assoc]
  exact List.Subperm.append (List.Subperm.refl _) filed

namespace Walker

variable {w : Walker σ C} {top : C → Entity}

theorem onProceed_spends {tasks : List (Task C)} {stock : List Deed}
    (h : (tasks.flatMap (owed top)).Subperm stock) (answer : Answer) :
    ((onProceed tasks answer).flatMap (owed top)).Subperm stock := by
  cases answer with
  | proceed => exact h
  | handled => exact List.nil_subperm

theorem owed_nested (parent : Entity) (context : C) (es : List Entity) :
    (es.map (Task.nested parent · context)).flatMap (owed top) = es.flatMap Entity.stock :=
  List.flatMap_map ..

theorem owed_nodes (context : C) (ns : List Node) :
    (ns.map (Task.node · context)).flatMap (owed top) = ns.flatMap (Node.stock (top context)) :=
  List.flatMap_map ..

theorem contents_spends (e : Entity) (context : C) (inner : Option C) :
    (contents e inner).flatMap (owed top) = owed top (.holdEntity e context inner) := by
  cases inner with
  | none => rfl
  | some inner =>
    simp only [contents, owed]
    split
    · rw [List.flatMap_append, owed_nodes, owed_nested]
    · rw [owed_nested]

theorem openEntity_spends {root e : Entity} {d : Derivation} (hn : root.DistinctNodes)
    (he : e ∈ root.members) (hd : e.derivation? = some d) (context inner : C)
    (ht : top inner = e) :
    (d.deed :: owed top (.holdEntity e context (some inner))).Subperm e.stock := by
  have deed : d.deed = .entity e.id := by
    unfold Entity.derivation? at hd
    cases hk : e.kind <;> rw [hk] at hd <;> cases hd <;> rfl
  rw [deed, e.stock_eq]
  refine (List.subperm_cons _).2 ?_
  simp only [owed, ht]
  split
  · exact held_subperm hn he
  · exact (List.sublist_append_right _ _).subperm

theorem hoisted_spends (n : Node) (context : C) :
    (w.hoisted n context).flatMap (owed top) =
      ((w.visitor.top context).scopedUnder (.node n.id)).flatMap Entity.stock :=
  owed_nested ..

theorem targetCall_spends {a : Assignment} {context : C} {skip : Nat} {inside : List (Task C)}
    (h : (inside.flatMap (owed top)).Subperm (owed top (.target a context skip))) :
    Spends top (owed top (.target a context skip)) (targetCall a context skip inside) := by
  refine onProceed_spends ?_
  rw [List.flatMap_append, List.flatMap_singleton]
  exact (List.append_nil _).symm ▸ h

theorem openNode_spends {n : Node} {context : C} {steps : List Step}
    (hs : n.kind.plan? n.childCount = some steps) (answer : Answer) :
    ((w.afterVisit n context steps answer).flatMap (owed w.visitor.top)).Subperm
      (n.stock (w.visitor.top context)) := by
  have hoisted : ((w.hoisted n context).flatMap (owed w.visitor.top)).Subperm
      (n.stock (w.visitor.top context)) := by
    rw [hoisted_spends, n.stock_eq, List.append_assoc]
    exact ((List.sublist_append_left _ _).trans (List.sublist_append_right _ _)).subperm
  cases answer with
  | proceed =>
    rw [afterVisit, List.flatMap_cons, hoisted_spends, n.stock_eq, List.append_assoc]
    refine ((stepsStock_subperm hs).append (List.Subperm.refl _)).trans ?_
    rw [List.append_assoc]
    exact (List.perm_append_comm.append_left _).subperm
  | handled =>
    rw [afterVisit]
    split
    · exact hoisted
    · exact List.nil_subperm

theorem Move.spends {root : Entity} (hn : root.DistinctNodes) {parents : ParentTable}
    {task : Task C} {act : Act C} (h : w.Move parents task act)
    (hm : ∀ e context, task = .openEntity e context → e ∈ root.members) :
    Spends w.visitor.top (owed w.visitor.top task) act := by
  cases h with
  | fail => trivial
  | @entity e context =>
    refine onProceed_spends ?_
    rw [List.flatMap_cons, List.flatMap_singleton]
    exact (List.append_nil e.stock).symm ▸ List.Subperm.refl _
  | @nested parent e context =>
    rw [Spends, List.flatMap_singleton]
    exact List.Subperm.refl _
  | @openEntity e context d hd =>
    intro inner ht
    rw [List.flatMap_singleton]
    exact openEntity_spends hn (hm e context rfl) hd context inner
      (ht.trans (Entity.derivation?_top hd _))
  | openField => exact List.nil_subperm
  | @holdEntity e context inner =>
    refine onProceed_spends ?_
    rw [List.flatMap_append, contents_spends e context inner]
    exact (List.append_nil _).symm ▸ List.Subperm.refl _
  | leaveEntity | finishEntity | planDone | finishNode | leaveTarget =>
    exact fun _ => List.nil_subperm
  | @node n context =>
    refine onProceed_spends ?_
    rw [List.flatMap_cons, List.flatMap_singleton]
    exact (List.append_nil (n.stock _)).symm ▸ List.Subperm.refl _
  | openNode h hs => exact openNode_spends hs
  | @planVisit n context i steps =>
    rw [Spends, List.flatMap_cons, List.flatMap_singleton]
    exact stepsStock_cons (w.visitor.top context) n (.visit i) steps rfl
  | @planLocal n context i steps =>
    intro inner ht
    change w.visitor.top inner = w.visitor.top context at ht
    have child : owed w.visitor.top (.child n i inner) =
        ([i].filterMap n.child?).flatMap (Node.stock (w.visitor.top context)) := by rw [owed, ht]
    rw [List.flatMap_cons, List.flatMap_singleton, child]
    exact stepsStock_cons (w.visitor.top context) n (.visitLocal i) steps rfl
  | @planProtected n context i j steps body cleanup hi hj =>
    intro inner ht
    change w.visitor.top inner = w.visitor.top context at ht
    have made : .unwind cleanup.id :: body.stock (w.visitor.top context) =
        (Step.visitProtected i j).ownDeeds n ++
          ((Step.visitProtected i j).children.filterMap n.child?).flatMap
            (Node.stock (w.visitor.top context)) := by
      simp [Step.ownDeeds, Step.children, Step.visited, hi, hj]
    rw [List.flatMap_cons, List.flatMap_singleton, owed, ht]
    exact stepsStock_cons (w.visitor.top context) n (.visitProtected i j) steps made
  | @planBetween n context point steps =>
    intro answer
    rw [List.flatMap_singleton]
    exact stepsStock_cons (w.visitor.top context) n (.between point) steps rfl
  | @planAssign n context i j steps target rhs hi hj =>
    have made : rhs.stock (w.visitor.top context) ++ target.stock (w.visitor.top context) =
        (Step.assign i j).ownDeeds n ++ ((Step.assign i j).children.filterMap n.child?).flatMap
          (Node.stock (w.visitor.top context)) := by
      simp [Step.ownDeeds, Step.children, Step.visited, hi, hj]
    rw [Spends, List.flatMap_cons, List.flatMap_cons, List.flatMap_singleton, ← List.append_assoc]
    refine List.Subperm.trans (List.Subperm.append ?_ (List.Subperm.refl _))
      (stepsStock_cons (w.visitor.top context) n (.assign i j) steps made)
    refine List.Subperm.append (List.Subperm.refl _) ?_
    rw [owed, target.stock_eq]
    exact (List.sublist_append_right _ _).subperm
  | child h =>
    rw [Spends, List.flatMap_singleton, owed, owed, List.filterMap_cons, h, List.filterMap_nil,
      List.flatMap_singleton]
  | @arrayTarget a context skip h =>
    refine targetCall_spends ?_
    rw [List.flatMap_cons, owed_nodes, owed, owed, ← List.flatMap_append]
    refine List.Sublist.subperm (List.Sublist.flatMap ?_ _)
    unfold Node.child?
    rcases a.target.children with _ | ⟨m, _ | ⟨k, ms⟩⟩
    · exact List.Sublist.refl _
    · exact List.Sublist.refl _
    · exact ((List.Sublist.refl ms).cons k).cons_cons m
  | @objectTarget a context skip h =>
    refine targetCall_spends ?_
    rw [List.flatMap_singleton, owed, owed]
    refine List.Sublist.subperm (List.Sublist.flatMap ?_ _)
    unfold Node.child?
    cases a.target.children with
    | nil => exact List.Sublist.refl _
    | cons m ms => exact (List.nil_sublist ms).cons_cons m
  | @blockTarget a context skip h =>
    refine targetCall_spends ?_
    rw [List.flatMap_singleton, owed, owed]
    refine List.Sublist.subperm (List.Sublist.flatMap ?_ _)
    cases hl : a.target.lastChild? with
    | none => exact List.nil_sublist _
    | some last => exact List.singleton_sublist.2 (Node.mem_of_lastChild? hl)
  | varTarget h => exact targetCall_spends List.nil_subperm
  | @lastTarget a context skip last h =>
    rw [Spends, List.flatMap_singleton, owed, owed, h, Option.toList_some, List.flatMap_singleton,
      last.stock_eq]
    exact (List.sublist_append_right _ _).subperm

/-- What has been derived and what may still be is drawn from the stock of the root. -/
def Drawn (w : Walker σ C) (root : Entity) (p : List (Task C) × WalkState (Logged σ C)) : Prop :=
  (deeds p.2.memory.log ++ p.1.flatMap (owed w.visitor.top)).Subperm root.stock

variable {root : Entity} {start : C} {p q : List (Task C) × WalkState (Logged σ C)}

theorem drawn_start (w : Walker σ C) (root : Entity) (start : C) (memory : σ) :
    w.Drawn root (Walker.start root start { memory }) := by
  rw [Drawn, Walker.start, List.flatMap_singleton]
  exact List.Subperm.refl _

theorem act_spends (hn : root.DistinctNodes) (hs : w.Settled root start p) {task : Task C}
    (ht : task ∈ p.1) (parents : ParentTable) :
    Spends w.visitor.top (owed w.visitor.top task) (w.logged.act parents task) := by
  refine (w.logged.act_move parents task).spends hn ?_
  rintro e context rfl
  obtain ⟨⟨g, hg, -⟩, -⟩ := hs.tasks _ ht
  exact hg.within

theorem Drawn.step (hv : w.visitor.Lexical) (hn : root.DistinctNodes)
    (h : w.logged.Advances p q) (hs : w.Settled root start p) (hp : w.Drawn root p) :
    w.Drawn root q := by
  refine List.Subperm.trans ?_ hp
  cases h with
  | @replace task rest s tasks h | @adopt task rest s child parent tasks h =>
    have spends := act_spends hn hs List.mem_cons_self s.parents
    rw [h, Spends] at spends
    rw [List.flatMap_append, List.flatMap_cons]
    exact (List.Subperm.refl _).append (spends.append (List.Subperm.refl _))
  | @derive task rest s d context tasks h =>
    have spends := act_spends hn hs List.mem_cons_self s.parents
    rw [h, Spends] at spends
    have log : deeds (w.logged.visitor.derive d context s.memory).2.log =
        deeds s.memory.log ++ [d.deed] := List.filterMap_append
    rw [log, List.flatMap_append, List.flatMap_cons, List.append_assoc]
    refine (List.Subperm.refl _).append ?_
    exact (spends _ (hv d context s.memory.memory)).append (List.Subperm.refl _)
  | @call task rest s hook tasks skip h =>
    have spends := act_spends hn hs List.mem_cons_self s.parents
    rw [h, Spends] at spends
    have log : deeds (w.logged.visitor.answer hook s.memory).2.log = deeds s.memory.log :=
      List.filterMap_append.trans (List.append_nil _)
    rw [log, List.flatMap_append, List.flatMap_cons]
    refine (List.Subperm.refl _).append ((spends _).append ?_)
    exact ((List.drop_sublist _ rest).flatMap _).subperm

/-- No context is derived twice. -/
theorem derived_once (hv : w.visitor.Lexical) (he : root.DistinctEntities)
    (hn : root.DistinctNodes) {memory : σ}
    (h : w.logged.Reaches (Walker.start root start { memory }) p) :
    (deeds p.2.memory.log).Nodup := by
  have both : w.Settled root start p ∧ w.Drawn root p :=
    Reaches.keeps (I := fun p => w.Settled root start p ∧ w.Drawn root p)
      (fun h hp => ⟨hp.1.step hv h, hp.2.step hv hn h hp.1⟩) h
      ⟨settled_start w root start memory, drawn_start w root start memory⟩
  have all := nodup_of_subperm both.2 (Entity.stock_nodup he hn)
  exact (List.nodup_append.1 all).1

end Walker

end SyntaxWalk
