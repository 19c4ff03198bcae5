import SyntaxWalk.Proofs.Listing
import SyntaxWalk.Proofs.Thorough

/-!
# Courses of walks

A course tells something whenever an entity is entered, a node is entered or a node is finished, all
through a tree and in the order of a walk. It is computed from the tree alone. What a walk has told
so far, followed by what the tasks on its agenda are yet to tell, stays the same from step to step,
or comes to less: at a node whose plan leaves out children, and in a body that is walked with
another entity on top than the one it belongs to (`Course.outlook_advances`).
-/

namespace SyntaxWalk

/-- A survey that passes by nothing and notes nothing of targets lists what it notes of nodes. -/
theorem Survey.Whole.visit_listing {β : Type} {u : Survey β} (hu : u.Whole)
    (ht : ∀ t a, u.target t a = []) (top : Entity) (n : Node) :
    u.visit top n = n.listing u.node (fun m => u.scopedAt top m.id) ∧
      ∀ a, u.assign top n a = n.targetListing u.node fun m => u.scopedAt top m.id := by
  induction n using Node.induct with
  | h n ih =>
    have child (i : Nat) :
        u.child top n i = n.childListing u.node (fun m => u.scopedAt top m.id) i := by
      rw [child_eq]
      exact List.flatMap_congr fun m hm => (ih m (Node.mem_of_child? (Option.mem_toList.1 hm))).1
    have target : u.childTarget top n 0 =
        n.childTargetListing u.node (fun m => u.scopedAt top m.id) 0 := by
      unfold childTarget Node.childTargetListing
      cases hc : n.child? 0 with
      | none => rfl
      | some t =>
        exact ((ih t (Node.mem_of_child? hc)).2 n).trans (List.flatMap_singleton ..).symm
    refine ⟨?_, fun a => ?_⟩
    · rw [visit_eq, hu.opens, Node.listing_eq, Node.interior, target,
        List.flatMap_congr fun i _ => child i]
      rfl
    · rw [assign_eq, ht, List.nil_append, Node.targetListing_eq]
      cases n.kind with
      | blockExpr =>
        cases hl : n.lastChild? with
        | none => rfl
        | some t =>
          exact ((ih t (Node.mem_of_lastChild? hl)).2 a).trans (List.flatMap_singleton ..).symm
      | _ => exact List.flatMap_congr fun m hm => (ih m (Node.mem_of_mem_operands hm)).1

/-! ## Derivations in walks -/

/-- The context of an entity is derived in the way of the entity's kind. -/
def Derivation.Fits (d : Derivation) : Prop :=
  match d with
  | .file e | .type e | .code e => e.derivation? = some d
  | .localScope _ | .unwind _ => True

theorem Entity.derivation?_fits {e : Entity} {d : Derivation} (h : e.derivation? = some d) :
    d.Fits := by
  have own := h
  unfold derivation? at own
  cases hk : e.kind <;> rw [hk] at own <;> cases own <;> exact h

/-- On top of the contexts that are derived in a walk is what may be there. -/
def Visitor.NestsFitting {σ C : Type} (v : Visitor σ C) (into : Nesting) : Prop :=
  ∀ (d : Derivation) context m, d.Fits →
    d.topBy into (v.top context) (v.top (v.derive d context m).1)

theorem Visitor.Nests.fitting {σ C : Type} {v : Visitor σ C} {into : Nesting} (h : v.Nests into) :
    v.NestsFitting into :=
  fun d context m _ => h d context m

theorem Walker.Move.fits {σ C : Type} {w : Walker σ C} {parents : ParentTable} {task : Task C}
    {d : Derivation} {context : C} {tasks : C → List (Task C)}
    (h : w.Move parents task (.derive d context tasks)) : d.Fits := by
  cases h with
  | openEntity h => exact Entity.derivation?_fits h
  | planLocal | planProtected => trivial

/-! ## What is told of a tree -/

/-- What is told when an entity is entered, and when a node is entered and finished. -/
structure Course (β : Type) where
  met : Entity → List β := fun _ => []
  begun : Node → List β := fun _ => []
  done : Node → List β := fun _ => []

namespace Course

variable {β : Type} (v : Course β)

/-- What is told of an entity and all that is reached from it. -/
def ofEntity : Entity → List β :=
  Entity.fold fun e below =>
    v.met e ++
      match e.kind with
      | .file | .type => below.all.flatten
      | .function | .script =>
        e.body.toList.flatMap
            (Node.listing v.begun fun n => (below.under (.node n.id)).flatten ++ v.done n) ++
          (below.under .global).flatten
      | .field | .custom _ => []

/-- What is told of the entities that an entity scopes to a node. -/
def scopedAt (top : Entity) (n : Node) : List β :=
  (top.scopedUnder (.node n.id)).flatMap v.ofEntity

/-- What is told after all that lies below a node. -/
def after (top : Entity) (n : Node) : List β :=
  v.scopedAt top n ++ v.done n

/-- What is told for a visit of a node with an entity on top. -/
def visit (top : Entity) : Node → List β :=
  Node.listing v.begun (v.after top)

/-- What is told for a node as the target of an assignment. -/
def assign (top : Entity) : Node → List β :=
  Node.targetListing v.begun (v.after top)

def child (top : Entity) (n : Node) (i : Nat) : List β :=
  n.childListing v.begun (v.after top) i

def childTarget (top : Entity) (n : Node) (i : Nat) : List β :=
  n.childTargetListing v.begun (v.after top) i

/-- What is told between the beginning and the end of a node, but for what is scoped to it. -/
def interior (top : Entity) (n : Node) : List β :=
  n.interior v.begun (v.after top)

/-- What is told in the steps of a plan. -/
def plan (top : Entity) (n : Node) (steps : List Step) : List β :=
  steps.flatMap (Step.gather (v.child top n) (v.childTarget top n))

/-- What is told of what an entity holds, if `top` is on top of the context for it. -/
def contents (top e : Entity) : List β :=
  if e.kind.isCode then
    e.body.toList.flatMap (v.visit top) ++ (e.scopedUnder .global).flatMap v.ofEntity
  else e.allScoped.flatMap v.ofEntity

/-- What is told of an entity after it has been entered. -/
def inside (e : Entity) : List β :=
  match e.derivation? with
  | some _ => v.contents e e
  | none => []

variable {v}

theorem ofEntity_eq (e : Entity) : v.ofEntity e = v.met e ++ v.inside e := by
  rw [ofEntity, Entity.fold_eq]
  simp only [ScopeTable.all_map, ScopeTable.under_map, ← List.flatMap_def]
  cases hk : e.kind <;> simp only [inside, contents, Entity.derivation?, hk] <;> rfl

theorem visit_eq (top : Entity) (n : Node) :
    v.visit top n = v.begun n ++ (v.interior top n ++ (v.scopedAt top n ++ v.done n)) := by
  rw [visit, Node.listing_eq, List.append_assoc]
  rfl

theorem assign_eq (top : Entity) (t : Node) :
    v.assign top t =
      match t.kind with
      | .blockExpr => t.lastChild?.toList.flatMap (v.assign top)
      | _ => t.operands.flatMap (v.visit top) :=
  Node.targetListing_eq t

theorem child_eq (top : Entity) (n : Node) (i : Nat) :
    v.child top n i = (n.child? i).toList.flatMap (v.visit top) :=
  rfl

/-- Where nothing is told of nodes themselves, a visit tells of what is scoped to them. -/
theorem visit_quiet (top : Entity) {b : Node}
    (hv : ∀ n ∈ b.subtree, v.begun n = [] ∧ v.done n = []) :
    v.visit top b =
      b.finishOrder.flatMap fun id => (top.scopedUnder (.node id)).flatMap v.ofEntity := by
  rw [← (Node.listing_finishOrder _ b).1, visit]
  refine Node.listing_mono .eq b fun n hn => ?_
  obtain ⟨begun, done⟩ := hv n hn
  exact ⟨begun, by rw [after, done, List.append_nil]; rfl⟩

/-- With an accepted number of children, the plan of a node tells what lies below it. -/
theorem plan_eq (top : Entity) {n : Node} {steps : List Step}
    (ha : n.kind.arity.all (·.accepts n.childCount)) (hp : n.kind.plan? n.childCount = some steps) :
    v.plan top n steps = v.interior top n :=
  NodeKind.plan_gather ha hp _ _

/-- What is told compares with what a survey notes that tells all of a node at its beginning. -/
theorem ofEntity_survey {R : List β → List β → Prop} (hR : Compares R)
    (h : ∀ n {xs xs'} ys, R xs xs' →
      R (v.begun n ++ xs ++ (ys ++ v.done n)) (v.begun n ++ v.done n ++ xs' ++ ys)) (e : Entity) :
    R (v.ofEntity e)
      (({ met := v.met, node := fun n => v.begun n ++ v.done n } : Survey β).ofEntity e) := by
  let u : Survey β := { met := v.met, node := fun n => v.begun n ++ v.done n }
  have whole : u.Whole := ⟨fun _ => rfl, fun _ => rfl⟩
  induction e using Entity.induct with
  | h e ih =>
    have all : R (e.allScoped.flatMap v.ofEntity) (e.allScoped.flatMap u.ofEntity) :=
      hR.flatMap ih
    have under (key : ScopeKey) :
        R ((e.scopedUnder key).flatMap v.ofEntity) ((e.scopedUnder key).flatMap u.ofEntity) :=
      hR.flatMap fun x hx => ih x (Entity.mem_allScoped_of_mem_scopedUnder hx)
    have visit (n : Node) : R (v.visit e n) (u.visit e n) := by
      rw [(whole.visit_listing (fun _ _ => rfl) e n).1]
      refine (Node.listing_compares hR n fun m _ _ _ below => ?_).1
      exact hR.trans (h m _ below) (hR.append (hR.refl _) (under _))
    have contents : R (v.contents e e) (u.contents e e) := by
      rw [Course.contents, Survey.contents]
      split
      · exact hR.append (hR.flatMap fun n _ => visit n) (under _)
      · exact all
    rw [ofEntity_eq, Survey.ofEntity_eq]
    refine hR.append (hR.refl _) ?_
    rw [whole.enters, if_pos rfl, inside, Survey.inside]
    cases e.derivation? with
    | none => exact hR.refl []
    | some d => exact contents

/-- What is told is the same whether at the beginning or at the end of nodes, but for the order. -/
theorem ofEntity_perm (e : Entity) : (v.ofEntity e).Perm
    (({ met := v.met, node := fun n => v.begun n ++ v.done n } : Survey β).ofEntity e) := by
  refine ofEntity_survey .perm (fun n xs xs' ys same => ?_) e
  have swapped : (xs ++ (ys ++ v.done n)).Perm (v.done n ++ xs' ++ ys) := calc
    xs ++ (ys ++ v.done n) = xs ++ ys ++ v.done n := (List.append_assoc ..).symm
    List.Perm _ (v.done n ++ (xs ++ ys)) := List.perm_append_comm
    List.Perm _ (v.done n ++ (xs' ++ ys)) := (same.append_right ys).append_left _
    _ = v.done n ++ xs' ++ ys := (List.append_assoc ..).symm
  simpa only [List.append_assoc] using swapped.append_left (v.begun n)

/-- A course that tells of entities alone, and of each by itself, is the preorder. -/
theorem ofEntity_preorder (e : Entity) :
    ({ met := fun x => [x] } : Course Entity).ofEntity e = e.preorder :=
  (ofEntity_survey .eq (fun _ _ _ _ same => same ▸ by simp) e).trans <|
    Survey.ofEntity_preorder ⟨fun _ => rfl, fun _ => rfl⟩
      ⟨fun _ => rfl, fun _ => rfl, fun _ => rfl, fun _ _ => rfl⟩ e

/-! ## Courses along agendas -/

variable {σ C : Type} (v)

/-- What is told when a hook is called. -/
def told : HookCall C → List β
  | .entity .enter e _ _ _ => v.met e
  | .node .enter n _ => v.begun n
  | .node .postProcess n _ => v.done n
  | _ => []

def noted : Entry C → List β
  | .called call _ => v.told call
  | _ => []

/-- A course that tells of entities by themselves tells which have been entered. -/
theorem flatMap_noted_entered (log : List (Entry C)) :
    log.flatMap (noted { met := fun x => [x] }) = entered log := by
  rw [entered, List.filterMap_eq_flatMap_toList]
  refine List.flatMap_congr fun x _ => ?_
  cases x with
  | called call answer =>
    cases call with
    | entity hook | node hook => cases hook <;> rfl
    | target => rfl
  | _ => rfl

/-- What is still to be told for a task. -/
def ahead (top : C → Entity) : Task C → List β
  | .entity e _ | .nested _ e _ => v.ofEntity e
  | .openEntity e _ => v.inside e
  | .holdEntity e _ inner =>
    match inner with
    | none => []
    | some inner => v.contents (top inner) e
  | .node n context => v.visit (top context) n
  | .openNode n context => v.interior (top context) n ++ v.scopedAt (top context) n
  | .plan n context steps => v.plan (top context) n steps
  | .child n i context => v.child (top context) n i
  | .finishNode n _ => v.done n
  | .target a context _ => v.assign (top context) a.target
  | .lastTarget a context _ => a.target.lastChild?.toList.flatMap (v.assign (top context))
  | .leaveEntity .. | .finishEntity .. | .leaveTarget .. => []

/-- What has been told, and then what the tasks on the agenda are yet to tell. -/
def outlook (top : C → Entity) (p : List (Task C) × WalkState (Logged σ C)) : List β :=
  p.2.memory.log.flatMap v.noted ++ p.1.flatMap (v.ahead top)

/-- An act tells a first part of a list and leaves the rest to the tasks that it puts on the
agenda. -/
def Brings (R : List β → List β → Prop) (into : Nesting) (top : C → Entity) (xs : List β) :
    Act C → Prop
  | .fail _ => True
  | .replace tasks | .adopt _ _ tasks => R (tasks.flatMap (v.ahead top)) xs
  | .derive d context tasks => ∀ inner, d.topBy into (top context) (top inner) →
    R ((tasks inner).flatMap (v.ahead top)) xs
  | .call hook tasks _ => R (v.told hook ++ (tasks .proceed).flatMap (v.ahead top)) xs

/-- Where a walk may come to less than the course: at the plan of a node, and in the body of an
entity if something else may be on top there. -/
structure Slack (R : List β → List β → Prop) (into : Nesting) (w : Walker σ C) (task : Task C) :
    Prop where
  node {n context steps} (ht : task = .openNode n context) (hr : n.refused? w.options = none)
    (hp : n.kind.plan? n.childCount = some steps) :
    R (v.plan (w.visitor.top context) n steps) (v.interior (w.visitor.top context) n)
  code {e context top} (ht : task = .openEntity e context) (hk : e.kind.isCode = true)
    (hi : into e (w.visitor.top context) top) : R (v.contents top e) (v.contents e e)

variable {v} {R : List β → List β → Prop} (hR : Compares R) {into : Nesting} {top : C → Entity}
  {w : Walker σ C}

/-- If each body is walked with its own entity on top, the slack is that of plans. -/
theorem Slack.of_lexical (hR : Compares R) {task : Task C}
    (h : ∀ {n context steps}, task = .openNode n context → n.refused? w.options = none →
      n.kind.plan? n.childCount = some steps →
      R (v.plan (w.visitor.top context) n steps) (v.interior (w.visitor.top context) n)) :
    v.Slack R .lexical w task := by
  refine ⟨h, fun {e _ top} _ _ hi => ?_⟩
  obtain rfl : top = e := hi
  exact hR.refl _

theorem ahead_nested (parent : Entity) (context : C) (es : List Entity) :
    (es.map (Task.nested parent · context)).flatMap (v.ahead top) = es.flatMap v.ofEntity :=
  List.flatMap_map ..

theorem ahead_nodes (context : C) (ns : List Node) :
    (ns.map (Task.node · context)).flatMap (v.ahead top) = ns.flatMap (v.visit (top context)) :=
  List.flatMap_map ..

theorem ahead_contents (e : Entity) (inner : C) :
    (Walker.contents e (some inner)).flatMap (v.ahead top) = v.contents (top inner) e := by
  simp only [Walker.contents, contents]
  split
  · rw [List.flatMap_append, ahead_nodes, ahead_nested]
  · exact ahead_nested ..

theorem ahead_hoisted (n : Node) (context : C) :
    (w.hoisted n context).flatMap (v.ahead w.visitor.top) =
      v.scopedAt (w.visitor.top context) n :=
  ahead_nested ..

include hR

theorem brings_eq {xs ys : List β} (h : xs = ys) : R xs ys :=
  h ▸ hR.refl xs

theorem targetCall_brings {a : Assignment} {context : C} {skip : Nat} {inside : List (Task C)}
    {xs : List β} (h : inside.flatMap (v.ahead top) = xs) :
    v.Brings R into top xs (Walker.targetCall a context skip inside) := by
  refine brings_eq hR ?_
  change (inside ++ [Task.leaveTarget a context]).flatMap _ = xs
  rw [List.flatMap_append, h]
  exact List.append_nil xs

/-- Every act brings what is ahead of its task, but for the slack there is. -/
theorem brings {parents : ParentTable} {task : Task C} {act : Act C}
    (h : w.Move parents task act) (hs : v.Slack R into w task) :
    v.Brings R into w.visitor.top (v.ahead w.visitor.top task) act := by
  cases h with
  | fail => trivial
  | @entity e context =>
    refine brings_eq hR ?_
    change v.met e ++ [Task.openEntity e context, .finishEntity e context].flatMap _ = v.ofEntity e
    simp [ahead, ofEntity_eq]
  | nested => exact brings_eq hR (List.flatMap_singleton ..)
  | @openEntity e context d h =>
    intro inner hi
    rw [List.flatMap_singleton]
    simp only [ahead, inside, h]
    cases hk : e.kind.isCode with
    | true =>
      have code := Entity.derivation?_of_isCode hk
      cases h.symm.trans code
      exact hs.code rfl hk hi
    | false =>
      refine brings_eq hR ?_
      simp only [contents, hk, Bool.false_eq_true, if_false]
  | @openField e context h =>
    refine brings_eq hR ?_
    simp [ahead, inside, Entity.derivation?, h]
  | @holdEntity e context inner =>
    refine brings_eq hR ?_
    change (Walker.contents e inner ++ [Task.leaveEntity e context inner]).flatMap _ = _
    rw [List.flatMap_append]
    cases inner with
    | none => rfl
    | some inner =>
      rw [ahead_contents]
      exact List.append_nil _
  | leaveEntity | finishEntity | planDone | leaveTarget => exact hR.refl []
  | @node n context =>
    refine brings_eq hR ?_
    change v.begun n ++ [Task.openNode n context, .finishNode n context].flatMap _ =
      v.visit (w.visitor.top context) n
    simp [ahead, visit_eq]
  | @openNode n context steps h hp =>
    change R ((Task.plan n context steps :: w.hoisted n context).flatMap _) _
    rw [List.flatMap_cons, ahead_hoisted]
    exact hR.append (hs.node rfl h hp) (hR.refl _)
  | finishNode => exact brings_eq hR (List.append_nil _)
  | planVisit =>
    refine brings_eq hR ?_
    simp [ahead, plan, Step.gather, Step.visited]
  | planLocal =>
    intro inner hi
    have top : w.visitor.top inner = _ := hi
    refine brings_eq hR ?_
    simp [ahead, plan, Step.gather, Step.visited, top]
  | planProtected hi hj =>
    intro inner ht
    have top : w.visitor.top inner = _ := ht
    refine brings_eq hR ?_
    simp [ahead, plan, Step.gather, Step.visited, child_eq, top, hi]
  | planBetween =>
    refine brings_eq hR ?_
    simp [told, ahead, plan, Step.gather, Step.visited]
  | planAssign hi hj =>
    refine brings_eq hR ?_
    simp [ahead, plan, Step.gather, Step.visited, child_eq, childTarget, Node.childTargetListing,
      assign, hi, hj]
  | child h =>
    refine brings_eq hR ?_
    simp [ahead, child_eq, h]
  | arrayTarget hk hr =>
    apply targetCall_brings hR
    rw [List.flatMap_cons, ahead_nodes, ahead, child_eq, ahead, assign_eq, Node.operands, hk,
      ← List.flatMap_append]
  | objectTarget hk hr =>
    apply targetCall_brings hR
    rw [List.flatMap_singleton, ahead, child_eq, ahead, assign_eq, Node.operands, hk]
  | blockTarget hk =>
    apply targetCall_brings hR
    rw [List.flatMap_singleton, ahead, ahead, assign_eq, hk]
  | varTarget hk =>
    apply targetCall_brings hR
    rw [ahead, assign_eq, Node.operands, hk]
    rfl
  | lastTarget h =>
    refine brings_eq hR ?_
    simp [ahead, h]

/-- From step to step the outlook stays the same, but for the slack there is. -/
theorem outlook_advances (hp : w.visitor.Proceeds) (hv : w.visitor.NestsFitting into)
    {task : Task C} {rest : List (Task C)} {s : WalkState (Logged σ C)}
    {q : List (Task C) × WalkState (Logged σ C)} (h : w.logged.Advances (task :: rest, s) q)
    (hs : v.Slack R into w task) :
    R (v.outlook w.visitor.top q) (v.outlook w.visitor.top (task :: rest, s)) := by
  have slack : v.Slack R into w.logged task := ⟨hs.node, hs.code⟩
  have move := w.logged.act_move s.parents task
  have brings := brings hR move slack
  -- What is told by the step is written after the log, and the rest of the agenda is not touched.
  have step (said : List β) (tasks : List (Task C))
      (h : R (said ++ tasks.flatMap (v.ahead w.visitor.top)) (v.ahead w.visitor.top task)) :
      R (s.memory.log.flatMap v.noted ++ said ++ (tasks ++ rest).flatMap (v.ahead w.visitor.top))
        (v.outlook w.visitor.top (task :: rest, s)) := by
    rw [outlook, List.flatMap_cons, List.append_assoc, List.flatMap_append,
      ← List.append_assoc said]
    exact hR.append (hR.refl _) (hR.append h (hR.refl _))
  cases h with
  | @replace _ _ _ tasks h | @adopt _ _ _ child parent tasks h =>
    rw [h] at brings
    have stepped := step [] tasks brings
    rwa [List.append_nil] at stepped
  | @derive _ _ _ d context tasks h =>
    rw [h] at brings move
    have derived := hv d context s.memory.memory move.fits
    simpa [outlook, Walker.logged, Visitor.logged, noted] using step [] _ (brings _ derived)
  | @call _ _ _ hook tasks skip h =>
    rw [h] at brings
    simpa [outlook, Walker.logged, Visitor.logged, noted, hp hook s.memory.memory] using
      step _ _ brings

/-- All through a run the outlook compares with that at the beginning, if there is slack at every
task that has been worked off. -/
theorem outlook_reaches (hp : w.visitor.Proceeds) (hv : w.visitor.NestsFitting into)
    {start p : List (Task C) × WalkState (Logged σ C)} (h : w.logged.Reaches start p)
    (hs : ∀ {task rest s q}, w.logged.Reaches start (task :: rest, s) →
      w.logged.Advances (task :: rest, s) q → w.logged.Reaches q p → v.Slack R into w task) :
    R (v.outlook w.visitor.top p) (v.outlook w.visitor.top start) := by
  induction h with
  | refl => exact hR.refl _
  | @tail mid q before step ih =>
    have earlier := ih fun reached advances later => hs reached advances (later.tail step)
    obtain ⟨agenda, s⟩ := mid
    cases agenda with
    | nil => cases step
    | cons task rest =>
      exact hR.trans (outlook_advances hR hp hv step (hs before step .refl)) earlier

/-- What the log of a walk that has succeeded tells compares with the course. -/
theorem walk_ok (hp : w.visitor.Proceeds) (hv : w.visitor.NestsFitting into)
    (hx : w.extensions = {}) {depth : Nat} {root : Entity} {context : C} {s t : WalkState σ}
    {table : ParentTable}
    (h : w.walk depth root context s = .ok table t)
    (hs : ∀ {task rest u q}, w.logged.Reaches (Walker.start root context { memory := s.memory })
        (task :: rest, u) → w.logged.Advances (task :: rest, u) q →
      q.2.memory.log ⊆ w.walkLog depth root context s → v.Slack R into w task) :
    R ((w.walkLog depth root context s).flatMap v.noted) (v.ofEntity root) := by
  obtain ⟨u, reached, hlog, -⟩ := w.walk_ok_reaches hx h
  have told := outlook_reaches hR hp hv (v := v) reached fun before step later =>
    hs before step (hlog ▸ Walker.log_subset later)
  rw [← hlog]
  simpa [outlook, Walker.start, ahead] using told

end Course

end SyntaxWalk
