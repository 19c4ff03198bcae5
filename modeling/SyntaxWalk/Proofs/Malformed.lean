import SyntaxWalk.Proofs.Contexts
import SyntaxWalk.Proofs.Failure
import SyntaxWalk.Proofs.Operation

/-!
# Malformed nodes

An operation that fails with a malformed node tells the truth: the node was given to it, as such, in
an entity or by the context it started from, or the visitor has brought it in on top of a derived
context where another entity belongs. The number of children that is said to be expected does not
fit the number that was found. If numbers of children are checked, what is expected is what the kind
demands, and no hook but that of entering was called on the node; or the node is a block expression
without children that was assigned to (`malformed_truthful`).
-/

namespace SyntaxWalk

variable {σ C : Type}

/-! ## What is expected -/

/-- What is expected of a malformed node does not fit what was found. -/
def Walk.Error.Truthful : Walk.Error → Prop
  | .malformedNode _ expected found _ => expected.accepts found = false
  | _ => True

theorem Arity.atLeast_rejects {count i : Nat} (h : count ≤ i) :
    (Arity.atLeast (i + 1)).accepts count = false :=
  decide_eq_false (by omega)

theorem Walk.Error.missing_truthful {n : Node} {i : Nat} (h : n.child? i = none) :
    (Walk.Error.missing n i).Truthful := by
  have few : (Arity.atLeast (i + 1)).accepts n.childCount = false :=
    Arity.atLeast_rejects (List.getElem?_eq_none_iff.1 h)
  unfold missing
  cases n.kind.arity with
  | none => exact few
  | some expected =>
    dsimp only
    split
    · exact few
    · exact Bool.eq_false_iff.2 ‹_›

theorem Node.refused_truthful {n : Node} {o : Options} {expected : Arity}
    (h : n.refused? o = some expected) : (Walk.Error.malformed n expected).Truthful :=
  (refused?_eq_some.1 h).2.2

/-- A built-in kind without a plan for a number of children does not accept it. -/
theorem Node.unplanned_truthful {n : Node} (hk : ∀ kind, n.kind ≠ .custom kind)
    (hp : n.kind.plan? n.childCount = none) :
    (Walk.Error.malformed n (n.kind.arity.getD .any)).Truthful := by
  have rejected : ¬ n.kind.arity.all (·.accepts n.childCount) := by
    intro accepted
    have planned := NodeKind.plan?_isSome hk accepted
    rw [hp] at planned
    cases planned
  cases ha : n.kind.arity with
  | none =>
    rw [ha] at rejected
    exact (rejected rfl).elim
  | some expected =>
    rw [ha] at rejected
    exact Bool.eq_false_iff.2 rejected

namespace Walker

variable {w : Walker σ C}

theorem planAct_truthful {n : Node} {context : C} {steps : List Step} {e : Walk.Error}
    (h : planAct n context steps = .fail e) : e.Truthful := by
  cases steps with
  | nil => cases h
  | cons step steps =>
    cases step with
    | visitProtected i j | assign i j =>
      simp only [planAct] at h
      split at h
      · cases h
      · cases h
        exact Walk.Error.missing_truthful ‹_›
      · cases h
        exact Walk.Error.missing_truthful ‹_›
    | _ => cases h

theorem openAct_truthful {n : Node} {context : C} {e : Walk.Error}
    (h : w.openAct n context = .fail e) : e.Truthful := by
  unfold openAct at h
  split at h
  · cases h
    exact Node.refused_truthful ‹_›
  · split at h
    · cases h
      trivial
    · unfold builtInAct at h
      split at h <;> cases h
      exact Node.unplanned_truthful ‹_› ‹_›

theorem targetAct_truthful {a : Assignment} {context : C} {skip : Nat} {e : Walk.Error}
    (h : w.targetAct a context skip = .fail e) : e.Truthful := by
  unfold targetAct at h
  split at h
  · split at h <;> cases h
    exact Node.refused_truthful ‹_›
  · split at h <;> cases h
    exact Node.refused_truthful ‹_›
  · cases h
  · cases h
  · cases h
    trivial

/-- Whatever task fails, its error is truthful. -/
theorem act_truthful {parents : ParentTable} {task : Task C} {e : Walk.Error}
    (h : w.act parents task = .fail e) : e.Truthful := by
  cases task with
  | openEntity x context =>
    simp only [act, entityAct] at h
    split at h <;> cases h
    trivial
  | openNode n context => exact openAct_truthful h
  | plan n context steps => exact planAct_truthful h
  | child n i context =>
    simp only [act] at h
    split at h <;> cases h
    exact Walk.Error.missing_truthful ‹_›
  | target a context skip => exact targetAct_truthful h
  | lastTarget a context skip =>
    simp only [act] at h
    split at h <;> cases h
    have none : a.target.children = [] := List.getLast?_eq_none_iff.1 ‹_›
    exact Arity.atLeast_rejects (congrArg List.length none).le
  | _ => cases h

end Walker

/-! ## Tasks in view of the log -/

/-- All tasks that an act leads to are as said when it has been logged. -/
def Act.Leads (P : List (Entry C) → Task C → Prop) (log : List (Entry C)) : Act C → Prop
  | .fail _ => True
  | .replace tasks | .adopt _ _ tasks => ∀ t ∈ tasks, P log t
  | .derive d context tasks =>
    ∀ inner, ∀ t ∈ tasks inner, P (log ++ [.derived d context inner]) t
  | .call hook tasks _ => ∀ answer, ∀ t ∈ tasks answer, P (log ++ [.called hook answer]) t

/-- The hook that an act calls is as said, if it calls one. -/
def Act.Calls (P : HookCall C → Prop) : Act C → Prop
  | .call hook _ _ => P hook
  | _ => True

namespace Walker

variable {w : Walker σ C} {task : Task C} {rest : List (Task C)}
  {s : WalkState (Logged σ C)} {q : List (Task C) × WalkState (Logged σ C)}

theorem Advances.forall_tasks {P : List (Entry C) → Task C → Prop}
    (mono : ∀ log x t, P log t → P (log ++ [x]) t)
    (h : w.logged.Advances (task :: rest, s) q)
    (hact : (w.logged.act s.parents task).Leads P s.memory.log)
    (hrest : ∀ t ∈ rest, P s.memory.log t) : ∀ t ∈ q.1, P q.2.memory.log t := by
  cases h with
  | replace h | adopt h =>
    rw [h] at hact
    exact List.forall_mem_append.2 ⟨hact, hrest⟩
  | derive h =>
    rw [h] at hact
    exact List.forall_mem_append.2 ⟨hact _, fun t ht => mono _ _ t (hrest t ht)⟩
  | call h =>
    rw [h] at hact
    refine List.forall_mem_append.2 ⟨hact _, fun t ht => mono _ _ t (hrest t ?_)⟩
    exact List.mem_of_mem_drop ht

/-- What is so of the tasks of an agenda in view of what has been logged stays so. -/
theorem Reaches.forall_logged {P : List (Entry C) → Task C → Prop}
    (mono : ∀ log x t, P log t → P (log ++ [x]) t)
    (h : ∀ parents log t, P log t → (w.logged.act parents t).Leads P log)
    {p : List (Task C) × WalkState (Logged σ C)} (hr : w.logged.Reaches p q)
    (hp : ∀ t ∈ p.1, P p.2.memory.log t) : ∀ t ∈ q.1, P q.2.memory.log t := by
  refine hr.keeps (I := fun p => ∀ t ∈ p.1, P p.2.memory.log t) (fun {p q} hs hp => ?_) hp
  obtain ⟨agenda, s⟩ := p
  cases agenda with
  | nil => cases hs
  | cons task rest =>
    obtain ⟨first, others⟩ := List.forall_mem_cons.1 hp
    exact hs.forall_tasks mono (h s.parents s.memory.log task first) others

theorem Advances.forall_called {P : HookCall C → Prop}
    (h : w.logged.Advances (task :: rest, s) q) (hact : (w.logged.act s.parents task).Calls P)
    (hlog : ∀ call answer, .called call answer ∈ s.memory.log → P call) :
    ∀ call answer, .called call answer ∈ q.2.memory.log → P call := by
  cases h with
  | replace | adopt => exact hlog
  | derive =>
    intro call answer hmem
    rcases List.mem_append.1 hmem with hmem | hmem
    · exact hlog call answer hmem
    · cases List.mem_singleton.1 hmem
  | call h =>
    rw [h] at hact
    intro call answer hmem
    rcases List.mem_append.1 hmem with hmem | hmem
    · exact hlog call answer hmem
    · cases List.mem_singleton.1 hmem
      exact hact

end Walker

/-! ## Nodes that are given -/

/-- What is known on the way of a walk: nodes that it may come to, and targets that it has taken
apart under a context. -/
structure Knowledge (C : Type) where
  nodes : Node → Prop
  targets : Assignment → C → Prop

namespace Knowledge

/-- Children of nodes that are known are known. -/
def Closed (K : Knowledge C) : Prop :=
  ∀ n m, K.nodes n → m ∈ n.children → K.nodes m

structure Extends (K K' : Knowledge C) : Prop where
  nodes {n} (h : K.nodes n) : K'.nodes n
  targets {a c} (h : K.targets a c) : K'.targets a c

end Knowledge

/-- The nodes of all bodies of an entity are known. -/
def Entity.Within (K : Knowledge C) (e : Entity) : Prop :=
  ∀ n ∈ e.nodes, K.nodes n

theorem Entity.Within.scoped {K : Knowledge C} {e x : Entity} (h : e.Within K)
    (hx : x ∈ e.allScoped) : x.Within K :=
  fun _ hn => h _ (nodes_subset hx hn)

/-- What a task is about is known, and so is what its contexts have on top. -/
def Task.Known (top : C → Entity) (K : Knowledge C) : Task C → Prop
  | .entity e c | .nested _ e c | .openEntity e c => e.Within K ∧ (top c).Within K
  | .holdEntity e _ inner => e.Within K ∧ ∀ c ∈ inner, (top c).Within K
  | .node n c | .openNode n c | .plan n c _ | .child n _ c => K.nodes n ∧ (top c).Within K
  | .target a c _ => K.nodes a.target ∧ (top c).Within K
  | .lastTarget a c _ => (K.nodes a.target ∧ (top c).Within K) ∧ K.targets a c
  | .leaveEntity .. | .finishEntity .. | .finishNode .. | .leaveTarget .. => True

/-- All tasks of an act are known, if the context is that it asks for, or the target that it calls a
hook for. -/
def Act.Known (top : C → Entity) (K : Knowledge C) : Act C → Prop
  | .fail _ => True
  | .replace tasks | .adopt _ _ tasks => ∀ t ∈ tasks, t.Known top K
  | .derive d outer tasks =>
    (d.top (top outer)).Within K ∧
      ∀ inner, (top inner).Within K → ∀ t ∈ tasks inner, t.Known top K
  | .call hook tasks _ =>
    ∀ answer, (∀ a c, hook = .target .visit a c → answer = .proceed → K.targets a c) →
      ∀ t ∈ tasks answer, t.Known top K

theorem Task.Known.mono {top : C → Entity} {K K' : Knowledge C} (h : K.Extends K') {t : Task C}
    (ht : t.Known top K) : t.Known top K' := by
  have within {e : Entity} (he : e.Within K) : e.Within K' := fun n hn => h.nodes (he n hn)
  cases t with
  | entity | nested | openEntity => exact ⟨within ht.1, within ht.2⟩
  | holdEntity => exact ⟨within ht.1, fun c hc => within (ht.2 c hc)⟩
  | node | openNode | plan | child | target => exact ⟨h.nodes ht.1, within ht.2⟩
  | lastTarget => exact ⟨⟨h.nodes ht.1.1, within ht.1.2⟩, h.targets ht.2⟩
  | leaveEntity | finishEntity | finishNode | leaveTarget => trivial

namespace Walker

variable {w : Walker σ C} {K : Knowledge C}

theorem nested_known {parent e : Entity} {c : C} {es : List Entity} (he : e.Within K)
    (hc : (w.visitor.top c).Within K) (hs : ∀ x ∈ es, x ∈ e.allScoped) :
    ∀ t ∈ es.map (Task.nested parent · c), t.Known w.visitor.top K :=
  List.forall_mem_map.2 fun x hx => ⟨he.scoped (hs x hx), hc⟩

theorem hoisted_known {n : Node} {c : C} (hc : (w.visitor.top c).Within K) :
    ∀ t ∈ w.hoisted n c, t.Known w.visitor.top K :=
  nested_known hc hc fun _ => Entity.mem_allScoped_of_mem_scopedUnder

theorem contents_known {e : Entity} {inner : Option C} (he : e.Within K)
    (hc : ∀ c ∈ inner, (w.visitor.top c).Within K) :
    ∀ t ∈ contents e inner, t.Known w.visitor.top K := by
  cases inner with
  | none => exact nofun
  | some c =>
    have top := hc c rfl
    rw [contents]
    split
    · refine List.forall_mem_append.2 ⟨List.forall_mem_map.2 fun b hb => ⟨he b ?_, top⟩, ?_⟩
      · exact Entity.mem_nodes_of_body e.mem_members_self (Option.mem_toList.1 hb)
          b.mem_subtree_self
      · exact nested_known he top fun _ => Entity.mem_allScoped_of_mem_scopedUnder
    · exact nested_known he top fun _ => id

theorem Move.known (closed : K.Closed) {parents : ParentTable} {task : Task C} {act : Act C}
    (h : w.Move parents task act) (ht : task.Known w.visitor.top K) :
    act.Known w.visitor.top K := by
  have two {t u : Task C} (ht : t.Known w.visitor.top K) (hu : u.Known w.visitor.top K) :
      ∀ v ∈ [t, u], v.Known w.visitor.top K :=
    List.forall_mem_cons.2 ⟨ht, List.forall_mem_singleton.2 hu⟩
  have inside {tasks : List (Task C)} {a : Assignment} {context : C}
      (h : ∀ t ∈ tasks, t.Known w.visitor.top K) :
      ∀ t ∈ tasks ++ [.leaveTarget a context], t.Known w.visitor.top K :=
    List.forall_mem_append.2 ⟨h, List.forall_mem_singleton.2 trivial⟩
  cases h with
  | fail => trivial
  | entity | node =>
    intro answer _
    refine forall_onProceed (two ?_ ?_) answer
    · exact ht
    · trivial
  | nested => exact List.forall_mem_singleton.2 ht
  | openEntity hd =>
    refine ⟨Entity.derivation?_top hd _ ▸ ht.1, fun inner hi => ?_⟩
    refine List.forall_mem_singleton.2 ⟨ht.1, fun c hc => ?_⟩
    cases hc
    exact hi
  | openField => exact List.forall_mem_singleton.2 ⟨ht.1, nofun⟩
  | holdEntity =>
    refine fun answer _ => forall_onProceed (List.forall_mem_append.2 ⟨?_, ?_⟩) answer
    · exact contents_known ht.1 ht.2
    · exact List.forall_mem_singleton.2 trivial
  | leaveEntity | finishEntity | planDone | finishNode | leaveTarget =>
    exact fun _ _ => List.forall_mem_nil _
  | openNode => exact fun answer _ => forall_afterVisit ht (hoisted_known ht.2) answer
  | planVisit => exact two ht ht
  | planLocal => exact ⟨ht.2, fun inner hi => two ⟨ht.1, hi⟩ ht⟩
  | planProtected hi =>
    exact ⟨ht.2, fun inner hc => two ⟨closed _ _ ht.1 (Node.mem_of_child? hi), hc⟩ ht⟩
  | planBetween => exact fun _ _ => List.forall_mem_singleton.2 ht
  | planAssign hi hj =>
    refine List.forall_mem_cons.2 ⟨?_, two ?_ ht⟩
    · exact ⟨closed _ _ ht.1 (Node.mem_of_child? hj), ht.2⟩
    · exact ⟨closed _ _ ht.1 (Node.mem_of_child? hi), ht.2⟩
  | child h => exact List.forall_mem_singleton.2 ⟨closed _ _ ht.1 (Node.mem_of_child? h), ht.2⟩
  | arrayTarget =>
    intro answer _
    refine forall_onProceed (inside (List.forall_mem_cons.2 ⟨?_, ?_⟩)) answer
    · exact ht
    · exact List.forall_mem_map.2 fun m hm => ⟨closed _ _ ht.1 (List.mem_of_mem_drop hm), ht.2⟩
  | objectTarget =>
    intro answer _
    refine forall_onProceed (inside (List.forall_mem_singleton.2 ?_)) answer
    exact ht
  | blockTarget =>
    intro answer asked
    cases answer with
    | proceed => exact inside (List.forall_mem_singleton.2 ⟨ht, asked _ _ rfl rfl⟩)
    | handled => exact List.forall_mem_nil _
  | varTarget => exact fun answer _ => forall_onProceed (inside (List.forall_mem_nil _)) answer
  | lastTarget h =>
    exact List.forall_mem_singleton.2 ⟨closed _ _ ht.1.1 (Node.mem_of_lastChild? h), ht.1.2⟩

end Walker

namespace Operation

/-- The nodes that an operation is given: as such, in an entity, or by the context that it starts
from. -/
inductive Holds (op : Operation C) (top : C → Entity) : Node → Prop where
  | node {m n} (hm : m ∈ op.nodes) (hn : n ∈ m.subtree) : Holds op top n
  | entity {e n} (he : e ∈ op.entities) (hn : n ∈ e.nodes) : Holds op top n
  | start {n} (hn : n ∈ (top op.context).nodes) : Holds op top n

/-- The nodes that may come up: those that an operation is given, and those of entities that the
visitor has put on top of contexts where other entities belong. -/
inductive Gives (op : Operation C) (top : C → Entity) (log : List (Entry C)) : Node → Prop where
  | held {n} (h : op.Holds top n) : Gives op top log n
  | foreign {d outer inner n} (hd : .derived d outer inner ∈ log)
      (ht : top inner ≠ d.top (top outer)) (hn : n ∈ (top inner).nodes) : Gives op top log n

variable (op : Operation C) (top : C → Entity) (log : List (Entry C))

/-- What is known when a log has been written. -/
def knowledge : Knowledge C where
  nodes := op.Gives top log
  targets a c := .called (.target .visit a c) .proceed ∈ log

theorem knowledge_closed : (op.knowledge top log).Closed := by
  intro n m hn hm
  cases hn with
  | held h =>
    apply Gives.held
    cases h with
    | node hk hn => exact .node hk (Node.mem_subtree_children hn hm)
    | entity he hn => exact .entity he (Entity.mem_nodes_children hn hm)
    | start hn => exact .start (Entity.mem_nodes_children hn hm)
  | foreign hd ht hn => exact .foreign hd ht (Entity.mem_nodes_children hn hm)

variable {log}

theorem knowledge_extends {log' : List (Entry C)} (h : log ⊆ log') :
    (op.knowledge top log).Extends (op.knowledge top log') := by
  constructor
  · intro n hn
    cases hn with
    | held hn => exact .held hn
    | foreign hd ht hn => exact .foreign (h hd) ht hn
  · exact fun ha => h ha

theorem tasks_known : ∀ t ∈ op.tasks, t.Known top (op.knowledge top log) := by
  have start : (top op.context).Within (op.knowledge top log) := fun n hn => .held (.start hn)
  cases op with
  | walk e c | visitEntity e c =>
    refine List.forall_mem_singleton.2 ⟨fun n hn => ?_, start⟩
    exact .held (.entity (List.mem_singleton_self e) hn)
  | visitNested parent es c =>
    exact List.forall_mem_map.2 fun e he => ⟨fun n hn => .held (.entity he hn), start⟩
  | visit n c =>
    refine List.forall_mem_singleton.2 ⟨?_, start⟩
    exact .held (.node (List.mem_singleton_self n) n.mem_subtree_self)
  | visitChildren n i c =>
    refine List.forall_mem_map.2 fun m hm => ⟨.held (.node (List.mem_singleton_self n) ?_), start⟩
    exact Node.mem_subtree_children n.mem_subtree_self (List.mem_of_mem_drop hm)
  | dispatch a c =>
    refine List.forall_mem_singleton.2 ⟨?_, start⟩
    exact .held (.node List.mem_cons_self a.target.mem_subtree_self)

end Operation

namespace Walker

variable {w : Walker σ C}

theorem known_leads (op : Operation C) (parents : ParentTable) (log : List (Entry C))
    (t : Task C) (ht : t.Known w.visitor.top (op.knowledge w.visitor.top log)) :
    (w.logged.act parents t).Leads
      (fun log t => t.Known w.visitor.top (op.knowledge w.visitor.top log)) log := by
  have known (later : List (Entry C)) (h : log ⊆ later) :
      (w.logged.act parents t).Known w.visitor.top (op.knowledge w.visitor.top later) :=
    (w.logged.act_move parents t).known (op.knowledge_closed _ _)
      (ht.mono (op.knowledge_extends _ h))
  revert known
  generalize w.logged.act parents t = act
  intro known
  cases act with
  | fail => trivial
  | replace | adopt => exact known log (List.Subset.refl _)
  | derive d c tasks =>
    intro inner
    obtain ⟨top, leads⟩ := known _ (List.subset_append_left log [.derived d c inner])
    apply leads inner
    by_cases same : w.visitor.top inner = d.top (w.visitor.top c)
    · rw [same]
      exact top
    · intro n hn
      exact .foreign (List.mem_append_right _ (List.mem_singleton_self _)) same hn
  | call hook tasks skip =>
    intro answer
    apply known _ (List.subset_append_left log [.called hook answer]) answer
    intro a c asked proceeds
    subst asked proceeds
    exact List.mem_append_right _ (List.mem_singleton_self _)

end Walker

/-! ## Nodes that are refused -/

/-- A hook that is called for a node which is refused is that of entering it. -/
def HookCall.Cleared (o : Options) (call : HookCall C) : Prop :=
  ∀ n, call.subject = .inr n → n.refused? o = none ∨ ∃ c, call = .node .enter n c

/-- A task that comes after the number of children has been checked comes when it is right. -/
def Task.Passed (o : Options) : Task C → Prop
  | .plan n _ _ | .finishNode n _ => n.refused? o = none
  | .lastTarget a _ _ | .leaveTarget a _ => a.target.refused? o = none
  | _ => True

/-- Of an agenda only the first node may be refused, as soon as it has been entered. -/
inductive Careful (o : Options) : List (Task C) → Prop where
  | passed {agenda} (h : ∀ t ∈ agenda, t.Passed o) : Careful o agenda
  | entered {n c rest} (h : ∀ t ∈ rest, t.Passed o) :
      Careful o (.openNode n c :: .finishNode n c :: rest)

theorem Node.refused?_of_any {n : Node} {o : Options} (h : n.kind.arity = some .any) :
    n.refused? o = none := by
  cases hr : n.refused? o with
  | none => rfl
  | some expected =>
    obtain ⟨-, ha, rejected⟩ := refused?_eq_some.1 hr
    cases h.symm.trans ha
    cases rejected

theorem HookCall.cleared_of_target {o : Options} {hook : TargetHook} {a : Assignment} {c : C}
    (h : a.target.refused? o = none) : (HookCall.target hook a c).Cleared o := by
  intro n hn
  cases hn
  exact .inl h

namespace Walker

variable {w : Walker σ C} {task : Task C} {rest : List (Task C)}
  {s : WalkState (Logged σ C)} {q : List (Task C) × WalkState (Logged σ C)}

theorem Move.cleared {parents : ParentTable} {act : Act C} (h : w.Move parents task act)
    (ht : task.Passed w.options) : act.Calls (HookCall.Cleared w.options) := by
  cases h with
  | fail | nested | openEntity | openField | planVisit | planLocal | planProtected | planAssign
  | child | lastTarget => trivial
  | entity | holdEntity | leaveEntity | finishEntity => exact nofun
  | node =>
    intro n hn
    cases hn
    exact .inr ⟨_, rfl⟩
  | openNode h =>
    intro n hn
    cases hn
    exact .inl h
  | planDone | planBetween | finishNode =>
    intro n hn
    cases hn
    exact .inl ht
  | arrayTarget _ hr | objectTarget _ hr => exact HookCall.cleared_of_target hr
  | blockTarget hk | varTarget hk =>
    exact HookCall.cleared_of_target (Node.refused?_of_any (by rw [hk]; rfl))
  | leaveTarget => exact HookCall.cleared_of_target ht

theorem Move.passed {parents : ParentTable} {act : Act C} (h : w.Move parents task act)
    (ht : task.Passed w.options) (hn : ∀ n c, task ≠ .node n c) (log : List (Entry C)) :
    act.Leads (fun _ => Task.Passed w.options) log := by
  have inside {tasks : List (Task C)} {a : Assignment} {c : C}
      (ha : a.target.refused? w.options = none) (h : ∀ t ∈ tasks, t.Passed w.options) :
      ∀ answer, ∀ t ∈ onProceed (tasks ++ [.leaveTarget a c]) answer, t.Passed w.options :=
    forall_onProceed (List.forall_mem_append.2 ⟨h, List.forall_mem_singleton.2 ha⟩)
  cases h with
  | fail => trivial
  | node => exact absurd rfl (hn _ _)
  | entity =>
    exact forall_onProceed (List.forall_mem_cons.2 ⟨trivial, List.forall_mem_singleton.2 trivial⟩)
  | nested | openField | child | lastTarget => exact List.forall_mem_singleton.2 trivial
  | openEntity => exact fun _ => List.forall_mem_singleton.2 trivial
  | holdEntity =>
    refine forall_onProceed (List.forall_mem_append.2 ⟨?_, List.forall_mem_singleton.2 trivial⟩)
    exact forall_contents (fun _ _ => trivial) (fun _ _ => trivial) _
  | leaveEntity | finishEntity | planDone | finishNode | leaveTarget =>
    exact fun _ => List.forall_mem_nil _
  | openNode h => exact forall_afterVisit h (List.forall_mem_map.2 fun _ _ => trivial)
  | planVisit => exact List.forall_mem_cons.2 ⟨trivial, List.forall_mem_singleton.2 ht⟩
  | planLocal | planProtected =>
    exact fun _ => List.forall_mem_cons.2 ⟨trivial, List.forall_mem_singleton.2 ht⟩
  | planBetween => exact fun _ => List.forall_mem_singleton.2 ht
  | planAssign =>
    exact List.forall_mem_cons.2
      ⟨trivial, List.forall_mem_cons.2 ⟨trivial, List.forall_mem_singleton.2 ht⟩⟩
  | arrayTarget _ hr =>
    exact inside hr (List.forall_mem_cons.2 ⟨trivial, List.forall_mem_map.2 fun _ _ => trivial⟩)
  | objectTarget _ hr => exact inside hr (List.forall_mem_singleton.2 trivial)
  | @blockTarget a c skip hk =>
    have unrefused : a.target.refused? w.options = none :=
      Node.refused?_of_any (by rw [hk]; rfl)
    exact inside unrefused (List.forall_mem_singleton.2 unrefused)
  | varTarget hk =>
    exact inside (Node.refused?_of_any (by rw [hk]; rfl)) (List.forall_mem_nil _)

/-- A node that is refused is not opened. -/
theorem Advances.unrefused {n : Node} {c : C}
    (h : w.logged.Advances (.openNode n c :: rest, s) q) : n.refused? w.options = none := by
  have move := w.logged.act_move s.parents (.openNode n c)
  cases h with
  | replace h | adopt h | derive h =>
    rw [h] at move
    cases move
  | call h =>
    rw [h] at move
    cases move with
    | openNode unrefused => exact unrefused

/-- A step that does not enter a node leaves no refused node behind. -/
theorem Advances.passed (h : w.logged.Advances (task :: rest, s) q)
    (hn : ∀ n c, task ≠ .node n c) (ht : task.Passed w.options)
    (hrest : ∀ t ∈ rest, t.Passed w.options) : Careful w.options q.1 := by
  have move := w.logged.act_move s.parents task
  have passed := move.passed ht hn s.memory.log
  exact .passed (h.forall_tasks (fun _ _ _ => id) passed hrest)

theorem Advances.careful (h : w.logged.Advances (task :: rest, s) q)
    (hp : Careful w.options (task :: rest)) : Careful w.options q.1 := by
  cases hp with
  | @entered n c rest hrest =>
    exact h.passed nofun trivial (List.forall_mem_cons.2 ⟨h.unrefused, hrest⟩)
  | passed hp =>
    obtain ⟨first, others⟩ := List.forall_mem_cons.1 hp
    by_cases node : ∃ n c, task = .node n c
    · obtain ⟨n, c, rfl⟩ := node
      -- Only here a node that may be refused comes to the front.
      cases h with
      | replace h | adopt h | derive h => cases h
      | call h =>
        cases h
        generalize (w.logged.visitor.answer _ s.memory).1 = answer
        cases answer with
        | proceed => exact .entered others
        | handled => exact .passed others
    · exact h.passed (fun n c same => node ⟨n, c, same⟩) first others

/-- Whatever is called on the way of an agenda without refused nodes is cleared. -/
theorem Reaches.cleared {p : List (Task C) × WalkState (Logged σ C)} (hr : w.logged.Reaches p q)
    (hp : Careful w.options p.1)
    (hlog : ∀ call answer, .called call answer ∈ p.2.memory.log → call.Cleared w.options) :
    ∀ call answer, .called call answer ∈ q.2.memory.log → call.Cleared w.options := by
  let kept (p : List (Task C) × WalkState (Logged σ C)) : Prop :=
    Careful w.options p.1 ∧
      ∀ call answer, .called call answer ∈ p.2.memory.log → call.Cleared w.options
  refine (hr.keeps (I := kept) (fun {p q} step earlier => ?_) ⟨hp, hlog⟩).2
  obtain ⟨agenda, s⟩ := p
  obtain ⟨careful, cleared⟩ := earlier
  cases agenda with
  | nil => cases step
  | cons task rest =>
    refine ⟨step.careful careful, step.forall_called ?_ cleared⟩
    apply (w.logged.act_move s.parents task).cleared
    cases careful with
    | passed h => exact h task List.mem_cons_self
    | entered => trivial

/-- What holds of the contexts that a visitor derives holds of those in the log. -/
theorem Reaches.forall_derived {P : Derivation → C → C → Prop}
    (hv : ∀ d c m, P d c (w.visitor.derive d c m).1) {p : List (Task C) × WalkState (Logged σ C)}
    (hr : w.logged.Reaches p q)
    (hp : ∀ d outer inner, .derived d outer inner ∈ p.2.memory.log → P d outer inner) :
    ∀ d outer inner, .derived d outer inner ∈ q.2.memory.log → P d outer inner := by
  let kept (p : List (Task C) × WalkState (Logged σ C)) : Prop :=
    ∀ d outer inner, .derived d outer inner ∈ p.2.memory.log → P d outer inner
  refine hr.keeps (I := kept) (fun {p q} step earlier => ?_) hp
  cases step with
  | replace | adopt => exact earlier
  | derive =>
    intro d outer inner hmem
    rcases List.mem_append.1 hmem with hmem | hmem
    · exact earlier d outer inner hmem
    · cases List.mem_singleton.1 hmem
      exact hv _ _ _
  | call =>
    intro d outer inner hmem
    rcases List.mem_append.1 hmem with hmem | hmem
    · exact earlier d outer inner hmem
    · cases List.mem_singleton.1 hmem

end Walker

/-! ## Whole operations -/

/-- No child is missing of those that a node is asked for when its number of children fits. -/
structure Node.Complete (n : Node) : Prop where
  planned (hk : ∀ kind, n.kind ≠ .custom kind) : ∃ steps, n.kind.plan? n.childCount = some steps ∧
    ∀ step ∈ steps, ∀ i ∈ step.needs, ∃ m, n.child? i = some m
  target (hk : n.kind = .arrayRef ∨ n.kind = .objectRef) : ∃ m, n.child? 0 = some m

theorem Node.complete_of_accepts {n : Node} (h : n.kind.arity.all (·.accepts n.childCount)) :
    n.Complete := by
  constructor
  · intro hk
    obtain ⟨steps, planned⟩ := Option.isSome_iff_exists.1 (NodeKind.plan?_isSome hk h)
    refine ⟨steps, planned, fun step hstep i hi => ?_⟩
    exact exists_child_of_lt (NodeKind.plan_supplied h planned hstep hi)
  · exact fun hk => exists_child_of_lt (base_lt hk h)

namespace Operation

/-- A node is rightly called malformed by an operation with this log, because of what was expected
of it. -/
structure Offends (op : Operation C) (v : Visitor σ C) (o : Options) (log : List (Entry C))
    (n : Node) (expected : Arity) : Prop where
  given : op.Gives v.top log n
  held (hv : v.Lexical) : op.Holds v.top n
  rejected : expected.accepts n.childCount = false
  /-- The node was refused before any hook but that of entering it, or it has no last child that
  could be assigned to. -/
  checked (hc : o.checkArity = true) :
    (n.kind.arity = some expected ∧ ∀ call answer, .called call answer ∈ log →
      call.subject = .inr n → ∃ c, call = .node .enter n c) ∨
    (n.kind = .blockExpr ∧ expected = .atLeast 1 ∧ n.childCount = 0 ∧
      ∃ a c, a.target = n ∧ .called (.target .visit a c) .proceed ∈ log)

theorem Gives.holds {op : Operation C} {top : C → Entity} {log : List (Entry C)} {n : Node}
    (h : op.Gives top log n)
    (ht : ∀ d outer inner, .derived d outer inner ∈ log → top inner = d.top (top outer)) :
    op.Holds top n := by
  cases h with
  | held h => exact h
  | foreign hd hf => exact absurd (ht _ _ _ hd) hf

end Operation

/-- The node that a task fails at, if it fails at a malformed node. -/
theorem Task.Fails.offender {o : Options} {task : Task C} {kind : NodeKind} {expected : Arity}
    {found : Nat} {position : Option Position}
    (h : task.Fails o (.malformedNode kind expected found position)) :
    ∃ n, Walk.Error.malformed n expected = .malformedNode kind expected found position ∧
      (∀ top K, task.Known top K → K.nodes n) ∧
      (n.refused? o = some expected ∨ task.Lacks o n ∨
        ∃ a c skip, task = .lastTarget a c skip ∧ a.target = n ∧ a.target.lastChild? = none ∧
          expected = .atLeast 1) := by
  generalize he : Walk.Error.malformedNode kind expected found position = e at h
  cases h with
  | entity | node | unsupported => cases he
  | refused hr =>
    cases he
    exact ⟨_, rfl, fun _ _ known => known.1, .inl hr⟩
  | refusedTarget hk hr =>
    cases he
    exact ⟨_, rfl, fun _ _ known => known.1, .inl hr⟩
  | emptyBlock hl =>
    cases he
    exact ⟨_, rfl, fun _ _ known => known.1.1, .inr (.inr ⟨_, _, _, rfl, rfl, hl, rfl⟩)⟩
  | lacking hl =>
    cases he
    refine ⟨_, rfl, fun _ _ known => ?_, .inr (.inl hl)⟩
    cases hl <;> exact known.1

namespace Operation

variable {w : Walker σ C} {op : Operation C} {s : WalkState σ} {task : Task C}
  {rest : List (Task C)} {u : WalkState (Logged σ C)}

theorem enter_log (op : Operation C) (s : WalkState σ) :
    (op.enter (s.withLog : WalkState (Logged σ C))).memory.log = [] := by
  cases op <;> rfl

theorem tasks_passed (op : Operation C) (o : Options) : ∀ t ∈ op.tasks, t.Passed o :=
  forall_tasks (fun _ _ => trivial) (fun _ _ _ => trivial) (fun _ _ => trivial)
    (fun _ _ => trivial) op

theorem tasks_supplied (op : Operation C) : ∀ t ∈ op.tasks, t.Supplied :=
  forall_tasks (fun _ _ => trivial) (fun _ _ _ => trivial) (fun _ _ => trivial)
    (fun _ _ => trivial) op

section Reached

variable (hr : w.logged.Reaches (op.tasks, op.enter s.withLog) (task :: rest, u))

include hr

theorem reached_known :
    task.Known w.visitor.top (op.knowledge w.visitor.top u.memory.log) := by
  have known := Walker.Reaches.forall_logged
    (P := fun log t => t.Known w.visitor.top (op.knowledge w.visitor.top log))
    (fun log x t ht => ht.mono (op.knowledge_extends _ (List.subset_append_left log [x])))
    (fun parents log t => Walker.known_leads op parents log t) hr (op.tasks_known _)
  exact known task List.mem_cons_self

theorem reached_supplied (hc : w.options.checkArity = true) : task.Supplied := by
  have supplied := hr.forall_tasks (fun parents t ht =>
    Walker.Move.supplied (w := w.logged) hc (w.logged.act_move parents t) ht) op.tasks_supplied
  exact supplied task List.mem_cons_self

theorem reached_cleared {call : HookCall C} {answer : Answer}
    (h : .called call answer ∈ u.memory.log) : call.Cleared w.options := by
  refine hr.cleared (.passed (op.tasks_passed _)) (fun call answer hmem => ?_) call answer h
  rw [op.enter_log] at hmem
  cases hmem

theorem reached_tops (hv : w.visitor.Lexical) {d : Derivation} {outer inner : C}
    (h : .derived d outer inner ∈ u.memory.log) :
    w.visitor.top inner = d.top (w.visitor.top outer) := by
  refine hr.forall_derived (P := fun d outer inner =>
    w.visitor.top inner = d.top (w.visitor.top outer)) hv (fun d outer inner hmem => ?_) d _ _ h
  rw [op.enter_log] at hmem
  cases hmem

/-- The node at which an operation fails is rightly called malformed. -/
theorem reached_offends {kind : NodeKind} {expected : Arity} {found : Nat}
    {position : Option Position} (fails : w.logged.act u.parents task =
      .fail (.malformedNode kind expected found position)) :
    ∃ n, n.kind = kind ∧ n.childCount = found ∧ n.position = position ∧
      op.Offends w.visitor w.options u.memory.log n expected := by
  obtain ⟨n, same, known, why⟩ := (Walker.act_fails fails).offender
  have truthful := Walker.act_truthful fails
  have given : op.Gives w.visitor.top u.memory.log n := known _ _ (reached_known hr)
  cases same
  refine ⟨n, rfl, rfl, rfl, given, fun hv => ?_, truthful, fun hc => ?_⟩
  · exact given.holds fun d outer inner => reached_tops hr hv
  · have supplied := reached_supplied hr hc
    rcases why with refused | lacks | ⟨a, c, skip, rfl, rfl, none, rfl⟩
    · obtain ⟨-, arity, -⟩ := Node.refused?_eq_some.1 refused
      refine .inl ⟨arity, fun call answer hmem hsubject => ?_⟩
      apply (reached_cleared hr hmem n hsubject).resolve_left
      exact fun unrefused => nomatch unrefused.symm.trans refused
    · exact absurd lacks (supplied.not_lacks hc)
    · have children : a.target.children = [] := List.getLast?_eq_none_iff.1 none
      exact .inr ⟨supplied, rfl, congrArg List.length children, a, c, rfl, (reached_known hr).2⟩

end Reached

end Operation

/-- An error that calls a node malformed is truthful, whatever the visitor does and whatever the
operation. A number of children that has passed its check leaves nothing missing. -/
theorem malformed_truthful (v : Visitor σ C) (o : Options) (op : Operation C) (depth : Nat)
    (s : WalkState σ) :
    (∀ {kind expected found position t},
      op.run ⟨v, {}, o⟩ depth s =
        .error (.failed (.malformedNode kind expected found position)) t →
      ∃ n, n.kind = kind ∧ n.childCount = found ∧ n.position = position ∧
        op.Offends v o (op.log ⟨v, {}, o⟩ depth s) n expected) ∧
    (o.checkArity = true → ∀ {n : Node} {t u : WalkState σ},
      (⟨v, {}, o⟩ : Walker σ C).checkArity n t = .ok () u → n.Complete) := by
  constructor
  · intro kind expected found position t failed
    obtain ⟨task, rest, u, reached, fails, hlog⟩ := op.log_error rfl failed
    rw [← hlog]
    exact op.reached_offends reached fails
  · intro hc n t u passed
    rw [Walker.checkArity_eq] at passed
    cases hr : n.refused? o with
    | none => exact Node.complete_of_accepts (Node.accepts_of_refused? hc hr)
    | some expected =>
      rw [hr] at passed
      cases passed

/-- A function whose body assigns a constant to a block expression without children. -/
def blockAssigned : Entity :=
  let block : Node := { id := ⟨1⟩, kind := .blockExpr, children := [] }
  let constant : Node := { id := ⟨2⟩, kind := .constant, children := [] }
  { id := ⟨1⟩
    kind := .function
    name := "f"
    body := some { id := ⟨3⟩, kind := .assign, children := [block, constant] } }

theorem malformed_truthful_blockAssigned :
    let w := Recorder.walker {} {}
    let op : Operation ScopeContext := .walk blockAssigned ⟨blockAssigned, 0⟩
    let s : WalkState Recorder.Memory := { memory := {} }
    (∃ t, op.run w 4 s = .error (.failed (.malformedNode .blockExpr (.atLeast 1) 0 none)) t ∧
      ∃ n, n.kind = .blockExpr ∧ n.childCount = 0 ∧ n.position = none ∧
        op.Offends (Recorder.visitor {}) {} (op.log w 4 s) n (.atLeast 1)) ∧
    ∀ n ∈ blockAssigned.body, w.checkArity n s = .ok () s ∧ n.Complete := by
  intro w op s
  obtain ⟨offends, complete⟩ := malformed_truthful (Recorder.visitor {}) {} op 4 s
  refine ⟨⟨_, rfl, offends rfl⟩, fun n hn => ?_⟩
  have passed : w.checkArity n s = .ok () s := by
    cases hn
    rfl
  exact ⟨passed, complete rfl passed⟩

end SyntaxWalk
