import SyntaxWalk.Proofs.Course
import SyntaxWalk.Proofs.Kept
import SyntaxWalk.Proofs.Parents

/-!
# Walks with a mix of contexts

Inside an entity a visitor may put the entity on top of its contexts or leave on top what is there,
case by case. What is on top then lags behind the body that is walked, but a tree that scopes
things to nodes of the declarer's own body alone has nothing hoisted then: if something is scoped to
a node, the body is that of the entity on top (`Entity.WellScoped.top_eq`). So every walk ends,
and it enters a part of the preorder in its order, each entity nested in its declarer
(`mixed_walks`).
-/

namespace SyntaxWalk

variable {σ C β : Type}

namespace Nesting

/-- Inside an entity it is on top itself, or what is on top outside. -/
def mixed : Nesting := fun e outer inner => inner = outer ∨ inner = e

/-- The same, but code is always on top inside itself. -/
def hosting : Nesting := fun e outer inner => inner = e ∨ inner = outer ∧ e.kind.isCode = false

theorem mixed.mem_members {root e outer inner : Entity} (h : mixed e outer inner)
    (he : e ∈ root.members) (ho : outer ∈ root.members) : inner ∈ root.members := by
  rcases h with rfl | rfl
  · exact ho
  · exact he

end Nesting

theorem Entity.topBy_derivation? {e : Entity} {d : Derivation} (h : e.derivation? = some d)
    (into : Nesting) (outer inner : Entity) :
    d.topBy into outer inner = into e outer inner := by
  unfold derivation? at h
  cases hk : e.kind <;> rw [hk] at h <;> cases h <;> rfl

/-- A visitor that puts code on top inside itself, and is free elsewhere. -/
theorem Visitor.Nests.hosting {v : Visitor σ C} (hv : v.Nests .mixed)
    (hc : ∀ e context m, v.top (v.derive (.code e) context m).1 = e) :
    v.NestsFitting .hosting := by
  intro d context m fits
  have top := hv d context m
  cases d with
  | file e | type e =>
    have other : e.kind.isCode = false := by
      rw [Bool.eq_false_iff]
      intro code
      cases fits.symm.trans (Entity.derivation?_of_isCode code)
    exact top.elim (fun kept => .inr ⟨kept, other⟩) .inl
  | code e => exact .inl (hc e context m)
  | localScope | unwind => exact top

/-- A tree of distinct entities and nodes, in which what is scoped to a node is so by the entity
whose body has the node. -/
structure Entity.WellScoped (root : Entity) : Prop where
  entities : root.DistinctEntities
  nodes : root.DistinctNodes
  own : ∀ e ∈ root.members, e.ScopesOwnNodes

theorem Entity.scopesOwnNodes_of_rows {e : Entity}
    (h : ∀ row ∈ e.scopes.rows, row.1 ∈ ScopeKey.global :: e.bodyNodes.map (.node ·.id)) :
    e.ScopesOwnNodes := by
  intro id x hx
  obtain ⟨xs, row, -⟩ := ScopeTable.exists_row_of_mem_under hx
  obtain same | key := List.mem_cons.1 (h _ row)
  · cases same
  · obtain ⟨n, hn, same⟩ := List.mem_map.1 key
    exact ⟨n, hn, ScopeKey.node.inj same⟩

namespace Entity.WellScoped

variable {root e top x : Entity} {n : Node} (h : root.WellScoped) (he : e ∈ root.members)
  (ht : top ∈ root.members)

include h he ht

/-- If something is scoped to a node, then by the entity of its body. -/
theorem top_eq (hn : n ∈ e.bodyNodes) (hx : x ∈ top.scopedUnder (.node n.id)) : top = e := by
  obtain ⟨m, own, same⟩ := h.own top ht n.id x hx
  obtain rfl : m = n := h.nodes.eq_of_id (List.mem_flatMap.2 ⟨top, ht, own⟩)
    (List.mem_flatMap.2 ⟨e, he, hn⟩) same
  exact h.nodes.owner_unique ht he own hn

theorem scopedUnder_eq_nil (hne : top ≠ e) (hn : n ∈ e.bodyNodes) :
    top.scopedUnder (.node n.id) = [] :=
  List.eq_nil_iff_forall_not_mem.2 fun _ hx => hne (h.top_eq he ht hn hx)

/-- The size of an entity is depth enough for it, whatever is on top. -/
theorem allowance_size : (allowance .mixed e.size).entity e top := by
  induction e using induct generalizing top with
  | h e ih =>
    have declared {inner : Entity} (hi : Nesting.mixed e top inner) {y : Entity}
        (hy : y ∈ e.allScoped) : (allowance .mixed e.scopeSize).entity y inner :=
      (allowance_covers .mixed (size_le_scopeSize hy)).entity
        (ih y hy (mem_members_allScoped he hy) (hi.mem_members he ht))
    rw [e.size_eq]
    refine allowance_of_inside (fun _ _ inner hi y hy => ?_) fun _ inner hi b hb y hy => ?_
    · exact declared hi (mem_allScoped_of_mem_held hy)
    · obtain ⟨n, reaches, hy⟩ := hy
      have here : n ∈ e.bodyNodes :=
        List.mem_flatMap.2 ⟨b, Option.mem_toList.2 hb, reaches.mem_subtree⟩
      obtain rfl : inner = e := h.top_eq he (hi.mem_members he ht) here hy
      exact declared hi (mem_allScoped_of_mem_scopedUnder hy)

/-- A body that is walked with something else on top has nothing hoisted. -/
theorem contents_sublist (v : Course β) : (v.contents top e).Sublist (v.contents e e) := by
  by_cases hne : top = e
  · exact hne ▸ List.Sublist.refl _
  · unfold Course.contents
    split
    · refine .append (Compares.sublist.flatMap fun b hb => ?_) (List.Sublist.refl _)
      refine Node.listing_mono .sublist b fun n hn => ⟨List.Sublist.refl _, ?_⟩
      have here : n ∈ e.bodyNodes := List.mem_flatMap.2 ⟨b, hb, hn⟩
      rw [Course.after, Course.scopedAt, h.scopedUnder_eq_nil he ht hne here]
      exact List.sublist_append_right _ _
    · exact List.Sublist.refl _

end Entity.WellScoped

/-! ## Tasks in their trees -/

/-- The node is in the body of an entity that has been entered. -/
def Node.Housed (es : List Entity) (n : Node) : Prop :=
  ∃ e ∈ es, n ∈ e.bodyNodes

/-- What a task goes on with is of the tree: an entity on top, one that has been entered or is about
to be, and the body that a node is in. -/
def Task.Housed (top : C → Entity) (root : Entity) (es : List Entity) : Task C → Prop
  | .entity e context => e ∈ root.members ∧ top context ∈ root.members
  | .nested parent e context => parent ∈ es ∧ e ∈ parent.allScoped ∧ top context ∈ root.members
  | .openEntity e context => e ∈ es ∧ top context ∈ root.members
  | .holdEntity e _ inner => e ∈ es ∧ ∀ context ∈ inner, top context ∈ root.members
  | .node n context | .openNode n context | .plan n context _ | .child n _ context =>
    n.Housed es ∧ top context ∈ root.members
  | .target a context _ | .lastTarget a context _ =>
    a.target.Housed es ∧ top context ∈ root.members
  | .leaveEntity .. | .finishEntity .. | .finishNode .. | .leaveTarget .. => True

def Act.Housed (top : C → Entity) (root : Entity) (es : List Entity) : Act C → Prop
  | .fail _ => True
  | .replace tasks | .adopt _ _ tasks => ∀ task ∈ tasks, task.Housed top root es
  | .derive d context tasks => ∀ inner, d.topBy .mixed (top context) (top inner) →
    ∀ task ∈ tasks inner, task.Housed top root es
  | .call hook tasks _ => ∀ answer, ∀ task ∈ tasks answer,
    task.Housed top root (es ++ (Entry.called hook answer).entered?.toList)

theorem Node.Housed.child {es : List Entity} {n m : Node} (h : n.Housed es)
    (hm : m ∈ n.children) : m.Housed es := by
  obtain ⟨e, he, hn⟩ := h
  obtain ⟨b, hb, hn⟩ := List.mem_flatMap.1 hn
  exact ⟨e, he, List.mem_flatMap.2 ⟨b, hb, Node.mem_subtree_children hn hm⟩⟩

theorem Task.Housed.mono {top : C → Entity} {root : Entity} {es es' : List Entity} {task : Task C}
    (h : task.Housed top root es) (hes : es ⊆ es') : task.Housed top root es' := by
  have node {n : Node} (h : n.Housed es) : n.Housed es' := by
    obtain ⟨e, he, hn⟩ := h
    exact ⟨e, hes he, hn⟩
  cases task with
  | entity => exact h
  | nested | openEntity | holdEntity => exact ⟨hes h.1, h.2⟩
  | node | openNode | plan | child | target | lastTarget => exact ⟨node h.1, h.2⟩
  | leaveEntity | finishEntity | finishNode | leaveTarget => trivial

namespace Walker

variable {w : Walker σ C} {root : Entity} {es : List Entity}

theorem call_housed {hook : HookCall C} {tasks : Answer → List (Task C)} {skip : Nat}
    (h : ∀ answer, ∀ task ∈ tasks answer, task.Housed w.visitor.top root es) :
    (Act.call hook tasks skip).Housed w.visitor.top root es :=
  fun answer task ht => (h answer task ht).mono (List.subset_append_left _ _)

theorem targetCall_housed {a : Assignment} {context : C} {skip : Nat} {inside : List (Task C)}
    (h : ∀ task ∈ inside, task.Housed w.visitor.top root es) :
    (targetCall a context skip inside).Housed w.visitor.top root es :=
  call_housed <| forall_onProceed <|
    List.forall_mem_append.2 ⟨h, List.forall_mem_singleton.2 trivial⟩

theorem contents_housed {e : Entity} {inner : Option C} (he : e ∈ es)
    (hi : ∀ context ∈ inner, w.visitor.top context ∈ root.members) :
    ∀ task ∈ contents e inner, task.Housed w.visitor.top root es := by
  cases inner with
  | none => exact List.forall_mem_nil _
  | some inner =>
    have top := hi inner rfl
    rw [contents]
    split
    · refine List.forall_mem_append.2 ⟨List.forall_mem_map.2 fun b hb => ?_,
        List.forall_mem_map.2 fun x hx => ?_⟩
      · exact ⟨⟨e, he, List.mem_flatMap.2 ⟨b, hb, b.mem_subtree_self⟩⟩, top⟩
      · exact ⟨he, Entity.mem_allScoped_of_mem_scopedUnder hx, top⟩
    · exact List.forall_mem_map.2 fun x hx => ⟨he, hx, top⟩

section Moves

variable (hw : root.WellScoped) (hes : ∀ e ∈ es, e ∈ root.members)

include hw hes

theorem hoisted_housed {n : Node} {context : C} (hn : n.Housed es)
    (ht : w.visitor.top context ∈ root.members) :
    ∀ task ∈ w.hoisted n context, task.Housed w.visitor.top root es := by
  refine List.forall_mem_map.2 fun x hx => ?_
  obtain ⟨e, he, here⟩ := hn
  have top : w.visitor.top context = e := hw.top_eq (hes e he) ht here hx
  exact ⟨top ▸ he, Entity.mem_allScoped_of_mem_scopedUnder hx, ht⟩

theorem Move.housed {parents : ParentTable} {task : Task C} {act : Act C}
    (h : w.Move parents task act) (ht : task.Housed w.visitor.top root es) :
    act.Housed w.visitor.top root es := by
  cases h with
  | fail => trivial
  | @entity e context =>
    exact fun answer => forall_onProceed (List.forall_mem_cons.2
      ⟨⟨List.mem_append_right _ (List.mem_singleton_self e), ht.2⟩,
        List.forall_mem_singleton.2 trivial⟩) answer
  | nested =>
    exact List.forall_mem_singleton.2
      ⟨Entity.mem_members_allScoped (hes _ ht.1) ht.2.1, ht.2.2⟩
  | @openEntity e context d hd =>
    intro inner hi
    refine List.forall_mem_singleton.2 ⟨ht.1, fun _ h => ?_⟩
    cases h
    rw [Entity.topBy_derivation? hd] at hi
    exact hi.mem_members (hes e ht.1) ht.2
  | openField => exact List.forall_mem_singleton.2 ⟨ht.1, nofun⟩
  | holdEntity =>
    exact call_housed <| forall_onProceed <| List.forall_mem_append.2
      ⟨contents_housed ht.1 ht.2, List.forall_mem_singleton.2 trivial⟩
  | leaveEntity | finishEntity | planDone | finishNode | leaveTarget =>
    exact fun _ => List.forall_mem_nil _
  | node =>
    exact call_housed <| forall_onProceed <|
      List.forall_mem_cons.2 ⟨ht, List.forall_mem_singleton.2 trivial⟩
  | openNode =>
    refine call_housed fun answer => ?_
    exact forall_afterVisit ht (hoisted_housed hw hes ht.1 ht.2) answer
  | planVisit => exact List.forall_mem_cons.2 ⟨ht, List.forall_mem_singleton.2 ht⟩
  | planLocal =>
    intro inner hi
    have top : w.visitor.top inner = _ := hi
    exact List.forall_mem_cons.2 ⟨⟨ht.1, top ▸ ht.2⟩, List.forall_mem_singleton.2 ht⟩
  | planProtected hi hj =>
    intro inner ht'
    have top : w.visitor.top inner = _ := ht'
    exact List.forall_mem_cons.2 ⟨⟨ht.1.child (Node.mem_of_child? hi), top ▸ ht.2⟩,
      List.forall_mem_singleton.2 ht⟩
  | planBetween => exact call_housed fun _ => List.forall_mem_singleton.2 ht
  | planAssign hi hj =>
    exact List.forall_mem_cons.2 ⟨⟨ht.1.child (Node.mem_of_child? hj), ht.2⟩,
      List.forall_mem_cons.2 ⟨⟨ht.1.child (Node.mem_of_child? hi), ht.2⟩,
        List.forall_mem_singleton.2 ht⟩⟩
  | child h =>
    exact List.forall_mem_singleton.2 ⟨ht.1.child (Node.mem_of_child? h), ht.2⟩
  | arrayTarget =>
    exact targetCall_housed <| List.forall_mem_cons.2 ⟨ht, List.forall_mem_map.2 fun m hm =>
      ⟨ht.1.child (List.mem_of_mem_drop hm), ht.2⟩⟩
  | objectTarget | blockTarget => exact targetCall_housed (List.forall_mem_singleton.2 ht)
  | varTarget => exact targetCall_housed (List.forall_mem_nil _)
  | lastTarget h =>
    exact List.forall_mem_singleton.2 ⟨ht.1.child (Node.mem_of_lastChild? h), ht.2⟩

end Moves

/-- What is on the agenda is housed in the tree, and so is what has been entered. -/
structure Mixing (w : Walker σ C) (root : Entity) (p : List (Task C) × WalkState (Logged σ C)) :
    Prop where
  tasks : ∀ task ∈ p.1, task.Housed w.visitor.top root (entered p.2.memory.log)
  entered : ∀ e ∈ SyntaxWalk.entered p.2.memory.log, e ∈ root.members

variable {p q : List (Task C) × WalkState (Logged σ C)}

theorem Mixing.of_entered {agenda : List (Task C)} {s : WalkState (Logged σ C)} {es : List Entity}
    (same : SyntaxWalk.entered s.memory.log = es)
    (tasks : ∀ task ∈ agenda, task.Housed w.visitor.top root es)
    (members : ∀ e ∈ es, e ∈ root.members) : w.Mixing root (agenda, s) := by
  subst same
  exact ⟨tasks, members⟩

theorem Mixing.step (hw : root.WellScoped) (hv : w.visitor.Nests .mixed) (h : w.logged.Advances p q)
    (hp : w.Mixing root p) : w.Mixing root q := by
  obtain ⟨tasks, members⟩ := hp
  cases h with
  | @replace task rest s after h | @adopt task rest s child parent after h =>
    obtain ⟨first, others⟩ := List.forall_mem_cons.1 tasks
    have housed := (w.logged.act_move s.parents task).housed hw members first
    rw [h] at housed
    exact ⟨List.forall_mem_append.2 ⟨housed, others⟩, members⟩
  | @derive task rest s d context after h =>
    obtain ⟨first, others⟩ := List.forall_mem_cons.1 tasks
    have housed := (w.logged.act_move s.parents task).housed hw members first
    rw [h] at housed
    have placed := housed _ (hv d context s.memory.memory)
    refine .of_entered ?_ (List.forall_mem_append.2 ⟨placed, others⟩) members
    exact List.filterMap_append.trans (List.append_nil _)
  | @call task rest s hook after skip h =>
    obtain ⟨first, others⟩ := List.forall_mem_cons.1 tasks
    have move := w.logged.act_move s.parents task
    have housed := move.housed hw members first
    have enters := move.enters
    rw [h] at housed enters
    obtain ⟨new, -⟩ := enters (w.visitor.answer hook s.memory.memory).1
    refine .of_entered List.filterMap_append (List.forall_mem_append.2 ⟨housed _, fun t ht => ?_⟩)
      (List.forall_mem_append.2 ⟨members, fun e he => ?_⟩)
    · exact (others t (List.mem_of_mem_drop ht)).mono (List.subset_append_left _ _)
    · have entering : task.enters? = some e := new.symm.trans (Option.mem_toList.1 he)
      cases task with
      | entity e context =>
        cases entering
        exact first.1
      | _ => cases entering

theorem mixing_reaches (hw : root.WellScoped) (hv : w.visitor.Nests .mixed) {context : C}
    (ht : w.visitor.top context ∈ root.members) {memory : σ}
    (h : w.logged.Reaches (start root context { memory }) p) : w.Mixing root p :=
  h.keeps (fun step hp => hp.step hw hv step)
    ⟨List.forall_mem_singleton.2 ⟨root.mem_members_self, ht⟩, List.forall_mem_nil _⟩

theorem Mixing.rooted (h : w.Mixing root p) : Rooted root p where
  entered := h.entered
  entity he := (h.tasks _ he).1
  nested hn := ⟨(h.tasks _ hn).1, (h.tasks _ hn).2.1⟩

end Walker

/-! ## Whole walks -/

section Walk

variable {v : Visitor σ C} {root : Entity} {context : C} (hw : root.WellScoped)
  (hp : v.Proceeds) (rescan : Bool) (ht : v.top context ∈ root.members)

include hw hp ht in
theorem mixed_sublist (hv : v.Nests .mixed) (depth : Nat) (s : WalkState σ) :
    let w : Walker σ C := ⟨v, {}, ⟨rescan, true⟩⟩
    (entered (w.walkLog depth root context s)).Sublist root.preorder := by
  intro w
  obtain ⟨p, reached, hlog, -⟩ := w.walk_reaches rfl depth root context s
  have told := Course.outlook_reaches (w := w) (v := { met := fun x => [x] }) .sublist hp
    hv.fitting reached fun {task rest u q} before _ _ => by
      have mixing := Walker.mixing_reaches (w := w) hw hv ht before
      refine ⟨fun _ unrefused plan => ?_, fun {e outer top} opened _ inside => ?_⟩
      · rw [Course.plan_eq _ (Node.accepts_of_refused? rfl unrefused) plan]
      · subst opened
        obtain ⟨he, ho⟩ := mixing.tasks _ List.mem_cons_self
        have member := mixing.entered e he
        exact hw.contents_sublist member (inside.mem_members member ho) _
  rw [← hlog, ← Course.flatMap_noted_entered, ← Course.ofEntity_preorder]
  refine (List.sublist_append_left _ _).trans (told.trans ?_)
  simp [Course.outlook, Walker.start, Course.ahead]

include hp in
theorem hosting_preorder (hv : v.NestsFitting .hosting) {depth : Nat} {s t : WalkState σ}
    {table : ParentTable} :
    let w : Walker σ C := ⟨v, {}, ⟨rescan, true⟩⟩
    w.walk depth root context s = .ok table t →
      entered (w.walkLog depth root context s) = root.preorder := by
  intro w h
  rw [← Course.flatMap_noted_entered, ← Course.ofEntity_preorder]
  refine Course.walk_ok (w := w) .eq hp hv rfl h fun _ _ _ => ?_
  refine ⟨fun _ unrefused plan => ?_, fun {e outer top} _ code inside => ?_⟩
  · exact Course.plan_eq _ (Node.accepts_of_refused? rfl unrefused) plan
  · rcases inside with rfl | ⟨-, other⟩
    · rfl
    · rw [code] at other
      cases other

include hw hp ht in
/-- A walk of a tree that scopes things to the declarers' own nodes returns, whatever the visitor
leaves on top or puts there and whatever entity of the tree is on top at first. It enters no entity
twice, keeps to the order of the preorder and finds the declarers as parents. If code is always put
on top and the walk succeeds, all of the preorder is entered. -/
theorem mixed_walks (hv : v.Nests .mixed) (s : WalkState σ) :
    let w : Walker σ C := ⟨v, {}, ⟨rescan, true⟩⟩
    w.Returns (fun w depth => w.walk depth root context) root.size s ∧
      ∀ depth,
        let es := entered (w.walkLog depth root context s)
        (es.map (·.id)).Nodup ∧ es.Sublist root.preorder ∧
          w.KeepsParents depth root context s ∧
          ((∀ e context m, v.top (v.derive (.code e) context m).1 = e) →
            ∀ {table t}, w.walk depth root context s = .ok table t → es = root.preorder) := by
  intro w
  have enough : (allowance .mixed root.size).entity root (w.visitor.top context) :=
    hw.allowance_size root.mem_members_self ht
  refine ⟨Walker.walk_returns hv rfl enough s, fun depth => ?_⟩
  intro es
  have part : es.Sublist root.preorder := mixed_sublist hw hp rescan ht hv depth s
  refine ⟨?_, part, ?_, fun hc _ _ ok => hosting_preorder hp rescan (hv.hosting hc) ok⟩
  · exact (part.map _).nodup (Entity.preorder_nodup hw.entities hw.nodes)
  · refine Walker.keepsParents_of_rooted rfl hw.entities depth context s
      (fun _ reached => (Walker.mixing_reaches hw hv ht reached).rooted) fun t h => ?_
    by_contra deep
    have covered := (allowance_covers .mixed (Nat.le_of_not_lt deep)).entity enough
    exact (Walker.walk_ends hv rfl covered).error h rfl

end Walk

/-- A visitor whose contexts are entities: it puts code on top and copies otherwise. -/
def hostingVisitor : Visitor Unit Entity where
  top := id
  derive d context :=
    match d with
    | .code e => pure e
    | _ => pure context
  answer _ := pure .proceed

theorem mixed_walks_hoistingFile :
    let w : Walker Unit Entity := ⟨hostingVisitor, {}, ⟨true, true⟩⟩
    let inner : Entity := { id := ⟨3⟩, kind := .function, name := "inner" }
    let s : WalkState Unit := { memory := () }
    let es := entered (w.walkLog 8 hoistingFile inner s)
    hoistingFile.WellScoped ∧ hostingVisitor.Proceeds ∧ hostingVisitor.Nests .mixed ∧
      inner ∈ hoistingFile.members ∧
      (∀ e context m, hostingVisitor.top (hostingVisitor.derive (.code e) context m).1 = e) ∧
      (∃ table t, w.walk 8 hoistingFile inner s = .ok table t) ∧
      w.Returns (fun w depth => w.walk depth hoistingFile inner) hoistingFile.size s ∧
      (es.map (·.id)).Nodup ∧ w.KeepsParents 8 hoistingFile inner s ∧
      es = hoistingFile.preorder := by
  intro w inner s es
  have scopes : hoistingFile.WellScoped := by
    refine ⟨by decide, by decide, fun e he => Entity.scopesOwnNodes_of_rows ?_⟩
    revert e
    decide
  have proceeds : hostingVisitor.Proceeds := fun _ _ => rfl
  have nests : hostingVisitor.Nests .mixed := by
    intro d context m
    cases d with
    | file | type => exact .inl rfl
    | code => exact .inr rfl
    | localScope | unwind => exact rfl
  have member : inner ∈ hoistingFile.members := List.mem_of_getElem? (i := 2) rfl
  have hosts (e : Entity) (context : Entity) (m : Unit) :
      hostingVisitor.top (hostingVisitor.derive (.code e) context m).1 = e := rfl
  have run : ∃ table t, w.walk 8 hoistingFile inner s = .ok table t :=
    Walk.exists_ok (by decide +kernel)
  have ⟨_, _, ok⟩ := run
  obtain ⟨returns, walks⟩ := mixed_walks scopes proceeds true member nests s
  obtain ⟨nodup, -, parents, all⟩ := walks 8
  exact ⟨scopes, proceeds, nests, member, hosts, run, returns, nodup, parents, all hosts ok⟩

end SyntaxWalk
