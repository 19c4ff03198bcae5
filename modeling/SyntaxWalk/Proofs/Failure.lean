import SyntaxWalk.Proofs.Agenda
import SyntaxWalk.Proofs.Reach

/-!
# How tasks fail

A walk without extensions fails at a task: at an entity or a node of a kind of a front end, at a
node with a wrong number of children, or at a target that cannot be assigned to. `Task.Fails`
lists the ways, each with its error. A walk that checks numbers of children never gets as far as to
miss a child (`Task.Supplied.not_lacks`).
-/

namespace SyntaxWalk

variable {σ C : Type}

/-- The kinds of targets that a walk takes apart by their shape. -/
def NodeKind.isTarget : NodeKind → Bool
  | .arrayRef | .objectRef | .blockExpr | .var => true
  | _ => false

namespace Task

variable {o : Options}

/-- A task needs children that a node has not, and this is noticed only then. -/
inductive Lacks (o : Options) : Task C → Node → Prop where
  | plan {n context} (h : n.refused? o = none) (hk : ∀ kind, n.kind ≠ .custom kind)
      (hp : n.kind.plan? n.childCount = none) : Lacks o (.openNode n context) n
  | step {n context step steps i} (hi : i ∈ step.needs) (h : n.child? i = none) :
      Lacks o (.plan n context (step :: steps)) n
  | child {n i context} (h : n.child? i = none) : Lacks o (.child n i context) n

/-- All ways in which a task fails, with what is known in each. -/
inductive Fails (o : Options) : Task C → Walk.Error → Prop where
  | entity {e context kind} (h : e.kind = .custom kind) :
      Fails o (.openEntity e context) (.ofEntity e)
  | node {n context kind} (h : n.kind = .custom kind) : Fails o (.openNode n context) (.ofNode n)
  | refused {n context expected} (h : n.refused? o = some expected) :
      Fails o (.openNode n context) (.malformed n expected)
  | refusedTarget {a context skip expected}
      (hk : a.target.kind = .arrayRef ∨ a.target.kind = .objectRef)
      (h : a.target.refused? o = some expected) :
      Fails o (.target a context skip) (.malformed a.target expected)
  | unsupported {a context skip} (hk : a.target.kind.isTarget = false) :
      Fails o (.target a context skip) (.unsupported a.target a.assign)
  | emptyBlock {a context skip} (h : a.target.lastChild? = none) :
      Fails o (.lastTarget a context skip) (.malformed a.target (.atLeast 1))
  | lacking {task n expected} (h : Lacks o task n) : Fails o task (.malformed n expected)

theorem Lacks.fails {task : Task C} {n : Node} (h : task.Lacks o n) (i : Nat) :
    task.Fails o (.missing n i) := by
  unfold Walk.Error.missing
  split <;> exact .lacking h

end Task

namespace Walker

variable {w : Walker σ C}

theorem planAct_fails {o : Options} {n : Node} {context : C} {steps : List Step} {e : Walk.Error}
    (h : planAct n context steps = .fail e) : (Task.plan n context steps).Fails o e := by
  have missing {step : Step} {steps : List Step} {i : Nat} (hi : i ∈ step.needs)
      (h : n.child? i = none) : (Task.plan n context (step :: steps)).Fails o (.missing n i) :=
    (Task.Lacks.step hi h).fails i
  cases steps with
  | nil => cases h
  | cons step steps =>
    cases step with
    | visitProtected i j | assign i j =>
      simp only [planAct] at h
      cases hi : n.child? i with
      | none =>
        simp only [hi] at h
        cases h
        exact missing List.mem_cons_self hi
      | some m =>
        cases hj : n.child? j with
        | none =>
          simp only [hi, hj] at h
          cases h
          exact missing (List.mem_cons_of_mem _ (List.mem_singleton_self j)) hj
        | some k =>
          simp only [hi, hj] at h
          cases h
    | _ => cases h

theorem openAct_fails {n : Node} {context : C} {e : Walk.Error}
    (h : w.openAct n context = .fail e) : (Task.openNode n context).Fails w.options e := by
  unfold openAct at h
  split at h
  · cases h
    exact .refused ‹_›
  · split at h
    · cases h
      exact .node ‹_›
    · unfold builtInAct at h
      split at h <;> cases h
      exact .lacking (.plan ‹_› ‹_› ‹_›)

theorem targetAct_fails {a : Assignment} {context : C} {skip : Nat} {e : Walk.Error}
    (h : w.targetAct a context skip = .fail e) :
    (Task.target a context skip).Fails w.options e := by
  unfold targetAct at h
  split at h
  · split at h <;> cases h
    exact .refusedTarget (.inl ‹_›) ‹_›
  · split at h <;> cases h
    exact .refusedTarget (.inr ‹_›) ‹_›
  · cases h
  · cases h
  · rename_i array object block var
    cases h
    refine .unsupported ?_
    unfold NodeKind.isTarget
    split
    · exact (array ‹_›).elim
    · exact (object ‹_›).elim
    · exact (block ‹_›).elim
    · exact (var ‹_›).elim
    · rfl

theorem act_fails {parents : ParentTable} {task : Task C} {e : Walk.Error}
    (h : w.act parents task = .fail e) : task.Fails w.options e := by
  cases task with
  | openEntity x context =>
    simp only [act, entityAct] at h
    split at h <;> cases h
    exact .entity ‹_›
  | openNode n context => exact openAct_fails h
  | plan n context steps => exact planAct_fails h
  | child n i context =>
    simp only [act] at h
    split at h <;> cases h
    exact (Task.Lacks.child ‹_›).fails i
  | target a context skip => exact targetAct_fails h
  | lastTarget a context skip =>
    simp only [act] at h
    split at h <;> cases h
    exact .emptyBlock ‹_›
  | _ => cases h

end Walker

/-! ## Walks that check numbers of children -/

/-- A reference with an accepted number of children has the child that it refers into. -/
theorem Node.base_lt {n : Node} (hk : n.kind = .arrayRef ∨ n.kind = .objectRef)
    (h : n.kind.arity.all (·.accepts n.childCount)) : 0 < n.childCount := by
  rcases hk with hk | hk
  · rw [hk] at h
    exact Nat.lt_of_lt_of_le Nat.two_pos (of_decide_eq_true h)
  · rw [hk] at h
    exact Nat.lt_of_lt_of_eq Nat.two_pos (beq_iff_eq.1 h).symm

/-- All tasks that an act leads to are as said. -/
def Act.Forall (P : Task C → Prop) : Act C → Prop
  | .fail _ => True
  | .replace tasks | .adopt _ _ tasks => ∀ task ∈ tasks, P task
  | .derive _ _ tasks => ∀ inner, ∀ task ∈ tasks inner, P task
  | .call _ tasks _ => ∀ answer, ∀ task ∈ tasks answer, P task

/-- The children that a task needs are there, and only block expressions stand for their last
children. -/
def Task.Supplied : Task C → Prop
  | .plan n _ steps => ∀ step ∈ steps, ∀ i ∈ step.needs, i < n.childCount
  | .child n i _ => i < n.childCount
  | .lastTarget a _ _ => a.target.kind = .blockExpr
  | _ => True

namespace Walker

variable {w : Walker σ C}

theorem Reaches.forall_tasks {P : Task C → Prop}
    (h : ∀ parents task, P task → (w.act parents task).Forall P)
    {p q : List (Task C) × WalkState σ} (hr : w.Reaches p q) (hp : ∀ task ∈ p.1, P task) :
    ∀ task ∈ q.1, P task := by
  refine hr.keeps (I := fun p => ∀ task ∈ p.1, P task) (fun {p q} hs hp => ?_) hp
  cases hs with
  | @replace task rest s tasks hact | @adopt task rest s child parent tasks hact =>
    obtain ⟨first, others⟩ := List.forall_mem_cons.1 hp
    have after := h s.parents task first
    rw [hact] at after
    exact List.forall_mem_append.2 ⟨after, others⟩
  | @derive task rest s d context tasks hact =>
    obtain ⟨first, others⟩ := List.forall_mem_cons.1 hp
    have after := h s.parents task first
    rw [hact] at after
    exact List.forall_mem_append.2 ⟨after _, others⟩
  | @call task rest s hook tasks skip hact =>
    obtain ⟨first, others⟩ := List.forall_mem_cons.1 hp
    have after := h s.parents task first
    rw [hact] at after
    refine List.forall_mem_append.2 ⟨after _, fun t ht => others t ?_⟩
    exact List.mem_of_mem_drop ht

theorem targetCall_supplied {a : Assignment} {context : C} {skip : Nat} {inside : List (Task C)}
    (h : ∀ task ∈ inside, task.Supplied) :
    (targetCall a context skip inside).Forall Task.Supplied :=
  forall_onProceed (List.forall_mem_append.2 ⟨h, List.forall_mem_singleton.2 trivial⟩)

theorem Move.supplied (hc : w.options.checkArity = true) {parents : ParentTable} {task : Task C}
    {act : Act C} (h : w.Move parents task act) (hs : task.Supplied) :
    act.Forall Task.Supplied := by
  cases h with
  | fail => trivial
  | entity | node =>
    exact forall_onProceed (List.forall_mem_cons.2 ⟨trivial, List.forall_mem_singleton.2 trivial⟩)
  | nested | openField | child | lastTarget => exact List.forall_mem_singleton.2 trivial
  | openEntity => exact fun _ => List.forall_mem_singleton.2 trivial
  | holdEntity =>
    refine forall_onProceed (List.forall_mem_append.2 ⟨?_, List.forall_mem_singleton.2 trivial⟩)
    exact forall_contents (fun _ _ => trivial) (fun _ _ => trivial) _
  | leaveEntity | finishEntity | planDone | finishNode | leaveTarget =>
    exact fun _ => List.forall_mem_nil _
  | @openNode n context steps h hp =>
    refine forall_afterVisit (fun step hstep i hi => ?_) (List.forall_mem_map.2 fun _ _ => trivial)
    exact NodeKind.plan_supplied (Node.accepts_of_refused? hc h) hp hstep hi
  | planVisit =>
    obtain ⟨step, steps⟩ := List.forall_mem_cons.1 hs
    exact List.forall_mem_cons.2
      ⟨step _ List.mem_cons_self, List.forall_mem_singleton.2 steps⟩
  | planLocal =>
    obtain ⟨step, steps⟩ := List.forall_mem_cons.1 hs
    exact fun _ => List.forall_mem_cons.2
      ⟨step _ List.mem_cons_self, List.forall_mem_singleton.2 steps⟩
  | planProtected =>
    exact fun _ => List.forall_mem_cons.2
      ⟨trivial, List.forall_mem_singleton.2 (List.forall_mem_cons.1 hs).2⟩
  | planBetween => exact fun _ => List.forall_mem_singleton.2 (List.forall_mem_cons.1 hs).2
  | planAssign =>
    exact List.forall_mem_cons.2 ⟨trivial, List.forall_mem_cons.2
      ⟨trivial, List.forall_mem_singleton.2 (List.forall_mem_cons.1 hs).2⟩⟩
  | @arrayTarget a context skip hk hr =>
    refine targetCall_supplied <|
      List.forall_mem_cons.2 ⟨?_, List.forall_mem_map.2 fun _ _ => trivial⟩
    exact Node.base_lt (.inl hk) (Node.accepts_of_refused? hc hr)
  | @objectTarget a context skip hk hr =>
    refine targetCall_supplied (List.forall_mem_singleton.2 ?_)
    exact Node.base_lt (.inr hk) (Node.accepts_of_refused? hc hr)
  | blockTarget h => exact targetCall_supplied (List.forall_mem_singleton.2 h)
  | varTarget => exact targetCall_supplied (List.forall_mem_nil _)

/-- When numbers of children are checked, every task has the children it needs. -/
theorem supplied (hc : w.options.checkArity = true) {root : Entity} {start : C} {memory : σ}
    {p : List (Task C) × WalkState σ} (h : w.Reaches (Walker.start root start memory) p) :
    ∀ task ∈ p.1, task.Supplied :=
  h.forall_tasks (fun parents task hs => (w.act_move parents task).supplied hc hs)
    (List.forall_mem_singleton.2 trivial)

end Walker

theorem Task.Supplied.not_lacks {task : Task C} (hs : task.Supplied) {o : Options}
    (hc : o.checkArity = true) {n : Node} : ¬ task.Lacks o n := by
  intro h
  cases h with
  | plan h hk hp =>
    have planned := NodeKind.plan?_isSome hk (Node.accepts_of_refused? hc h)
    rw [hp] at planned
    cases planned
  | step hi h =>
    obtain ⟨m, hm⟩ := Node.exists_child_of_lt ((List.forall_mem_cons.1 hs).1 _ hi)
    cases h.symm.trans hm
  | child h =>
    obtain ⟨m, hm⟩ := Node.exists_child_of_lt hs
    cases h.symm.trans hm

end SyntaxWalk
