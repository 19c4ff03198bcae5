import SyntaxWalk.Proofs.Failure
import SyntaxWalk.Proofs.Places

/-!
# Where walks fail

The constructs that have been entered and not yet post-processed lie inside each other, and the
agenda holds what is left to do in each of them, from the innermost one outwards (`Stack`). A task
that fails does so within the innermost one, and this is the construct that the error tells of
(`Walker.failure_provenance`).
-/

namespace SyntaxWalk

variable {σ C : Type}

/-- An entity or node that is walked under a context. -/
inductive Construct (C : Type) where
  | entity (e : Entity) (context : C)
  | node (n : Node) (context : C)

/-- The target of an assignment comes to a node through the last children of block expressions. -/
def Node.HasTarget (n u : Node) : Prop :=
  n.kind.isAssignment = true ∧ ∃ t, n.child? 0 = some t ∧ t.TargetChain u

namespace Construct

/-- One construct lies directly inside another. -/
inductive Contains (top : C → Entity) : Construct C → Construct C → Prop where
  | body {e context b inner} (hk : e.kind.isCode = true) (hb : e.body = some b) :
      Contains top (.entity e context) (.node b inner)
  | held {e context x inner d} (hd : e.derivation? = some d) (hx : x ∈ e.held) :
      Contains top (.entity e context) (.entity x inner)
  | node {n context m inner} (h : n.Leads m) : Contains top (.node n context) (.node m inner)
  /-- What is scoped to a node is entered under the context of the node. -/
  | hoisted {n context x} (hx : x ∈ (top context).scopedUnder (.node n.id)) :
      Contains top (.node n context) (.entity x context)

/-- Constructs inside each other, from the innermost one out to the root. -/
inductive Path (top : C → Entity) (root : Entity) (start : C) : List (Construct C) → Prop where
  | nil : Path top root start []
  | root : Path top root start [.entity root start]
  | inside {c c' cs} (h : Path top root start (c :: cs)) (hc : c.Contains top c') :
      Path top root start (c' :: c :: cs)

theorem Path.tail {top : C → Entity} {root : Entity} {start : C} {c : Construct C}
    {cs : List (Construct C)} (h : Path top root start (c :: cs)) : Path top root start cs := by
  cases h with
  | root => exact .nil
  | inside h => exact h

/-- A construct is the one that an error tells of. -/
def Explains (c : Construct C) : Walk.Error → Prop
  | .unhandledEntity kind name =>
    ∃ e context, c = .entity e context ∧ e.kind = kind ∧ e.name = name ∧
      ∃ custom, kind = .custom custom
  | .unhandledNode kind position =>
    ∃ n context, c = .node n context ∧ n.kind = kind ∧ n.position = position ∧
      ∃ custom, kind = .custom custom
  | .malformedNode kind _ found position =>
    ∃ n context u, c = .node n context ∧ (u = n ∨ n.HasTarget u) ∧
      u.kind = kind ∧ u.childCount = found ∧ u.position = position
  | .unsupportedAssignment target rendered position =>
    ∃ n context u, c = .node n context ∧ n.HasTarget u ∧ u.kind = target ∧
      target.isTarget = false ∧ n.print = rendered ∧ (n.position <|> u.position) = position

end Construct

/-! ## Pending constructs -/

namespace Entry

/-- The construct that is entered, unless its visitor handles it. -/
def begins? : Entry C → Option (Construct C)
  | .called (.entity .enter e context _ _) .proceed => some (.entity e context)
  | .called (.node .enter n context) .proceed => some (.node n context)
  | _ => none

/-- The construct that is post-processed. -/
def finishes? : Entry C → Option (Construct C)
  | .called (.entity .postProcess e context _ _) _ => some (.entity e context)
  | .called (.node .postProcess n context) _ => some (.node n context)
  | _ => none

/-- What an entry does to the constructs that are pending, innermost first. -/
inductive Turns (x : Entry C) : List (Construct C) → List (Construct C) → Prop where
  | begins {c cs} (h : x.begins? = some c) : Turns x cs (c :: cs)
  | finishes {c cs} (h : x.finishes? = some c) : Turns x (c :: cs) cs
  | other {cs} (hb : x.begins? = none) (hf : x.finishes? = none) : Turns x cs cs

theorem finishes?_of_begins? {x : Entry C} {c : Construct C} (h : x.begins? = some c) :
    x.finishes? = none := by
  unfold begins? at h
  split at h <;> first | rfl | cases h

theorem Turns.unique {x : Entry C} {cs cs₁ cs₂ : List (Construct C)} (h₁ : x.Turns cs cs₁)
    (h₂ : x.Turns cs cs₂) : cs₁ = cs₂ := by
  cases h₁ with
  | begins h =>
    have hf := finishes?_of_begins? h
    cases h₂ <;> simp_all
  | finishes h =>
    cases h₂ with
    | begins h' => simp [finishes?_of_begins? h'] at h
    | finishes => rfl
    | other _ hf => simp [hf] at h
  | other hb hf => cases h₂ <;> simp_all

end Entry

/-- The constructs that have been entered in a log and not yet post-processed, innermost first. -/
inductive Pending : List (Entry C) → List (Construct C) → Prop where
  | nil : Pending [] []
  | snoc {log cs x cs'} (h : Pending log cs) (hx : x.Turns cs cs') : Pending (log ++ [x]) cs'

/-- A log has one list of pending constructs. -/
theorem Pending.unique {log : List (Entry C)} {cs cs' : List (Construct C)} (h : Pending log cs)
    (h' : Pending log cs') : cs = cs' := by
  induction h generalizing cs' with
  | nil =>
    generalize hl : ([] : List (Entry C)) = log at h'
    cases h' with
    | nil => rfl
    | snoc => exact (List.append_ne_nil_of_right_ne_nil _ (List.cons_ne_nil _ _) hl.symm).elim
  | @snoc log cs x cs₁ h hx ih =>
    generalize hl : log ++ [x] = log' at h'
    cases h' with
    | nil => exact (List.append_ne_nil_of_right_ne_nil _ (List.cons_ne_nil _ _) hl).elim
    | snoc h' hx' =>
      obtain ⟨rfl, hxx⟩ := List.append_inj' hl rfl
      cases List.singleton_inj.1 hxx
      cases ih h'
      exact hx.unique hx'

/-! ## Tasks within constructs -/

namespace Task

/-- How many tasks a task takes off the agenda when it is handled. -/
def skip : Task C → Nat
  | .target _ _ skip | .lastTarget _ _ skip => skip
  | _ => 0

/-- The target of an assignment is taken apart within the assignment. -/
def Assigns (c : Construct C) (a : Assignment) : Prop :=
  ∃ context, c = .node a.assign context ∧ a.assign.HasTarget a.target

/-- The task asks the visitor about an entity, as the first task of a walk does. -/
def opens : Task C → Bool
  | .entity .. => true
  | _ => false

/-- The construct that is left with a task. -/
def finishes? : Task C → Option (Construct C)
  | .finishEntity e context => some (.entity e context)
  | .finishNode n context => some (.node n context)
  | _ => none

/-- A task is part of the walk of a construct. -/
def Within (top : C → Entity) (c : Construct C) : Task C → Prop
  | .entity x context | .nested _ x context => c.Contains top (.entity x context)
  | .node m context => c.Contains top (.node m context)
  | .openEntity e context | .leaveEntity e context _ => c = .entity e context
  | .holdEntity e context inner =>
    c = .entity e context ∧ (inner.isSome → e.derivation?.isSome)
  | .openNode n context => c = .node n context
  | .plan n context steps => c = .node n context ∧ ∀ step ∈ steps, step.Comes n
  | .child m i context =>
    (∃ n outer, c = .node n outer ∧ (m = n ∨ n.HasTarget m)) ∧
      ∀ k, m.child? i = some k → c.Contains top (.node k context)
  | .target a _ _ | .leaveTarget a _ => Assigns c a
  | .lastTarget a _ _ => Assigns c a ∧ a.target.kind = .blockExpr
  | .finishEntity .. | .finishNode .. => False

end Task

/-- The tasks on an agenda, each within the innermost construct that is pending when its turn
comes. -/
inductive Stack (top : C → Entity) (root : Entity) (start : C) :
    List (Construct C) → List (Task C) → Prop where
  | idle : Stack top root start [] []
  | begin : Stack top root start [] [.entity root start]
  | work {c cs task rest} (ht : task.Within top c) (h : Stack top root start (c :: cs) rest)
      (hs : Stack top root start (c :: cs) (rest.drop task.skip)) :
      Stack top root start (c :: cs) (task :: rest)
  | finish {c cs task rest} (ht : task.finishes? = some c) (h : Stack top root start cs rest) :
      Stack top root start (c :: cs) (task :: rest)

section Tasks

variable {top : C → Entity} {root : Entity} {start : C} {c : Construct C}
  {cs : List (Construct C)} {task : Task C} {tasks rest : List (Task C)}

/-- A task that fails does so with an error that tells of the construct around it. -/
theorem Task.Fails.explains {o : Options} {x : Walk.Error} (h : task.Fails o x)
    (ht : task.Within top c) : c.Explains x := by
  have target {a : Assignment} (ha : Task.Assigns c a) (expected : Arity) :
      c.Explains (.malformed a.target expected) := by
    obtain ⟨context, rfl, hu⟩ := ha
    exact ⟨_, _, _, rfl, .inr hu, rfl, rfl, rfl⟩
  cases h with
  | @entity e context kind h =>
    obtain rfl : c = .entity e context := ht
    exact ⟨e, context, rfl, rfl, rfl, kind, h⟩
  | @node n context kind h =>
    obtain rfl : c = .node n context := ht
    exact ⟨n, context, rfl, rfl, rfl, kind, h⟩
  | @refused n context expected h =>
    obtain rfl : c = .node n context := ht
    exact ⟨n, context, n, rfl, .inl rfl, rfl, rfl, rfl⟩
  | refusedTarget _ h => exact target ht _
  | @unsupported a _ _ hk =>
    obtain ⟨context, rfl, hu⟩ := ht
    exact ⟨a.assign, context, a.target, rfl, hu, rfl, hk, rfl, rfl⟩
  | emptyBlock => exact target ht.1 _
  | @lacking task n expected h =>
    cases h with
    | @plan _ context =>
      obtain rfl : c = .node n context := ht
      exact ⟨n, context, n, rfl, .inl rfl, rfl, rfl, rfl⟩
    | @step _ context =>
      obtain rfl : c = .node n context := ht.1
      exact ⟨n, context, n, rfl, .inl rfl, rfl, rfl, rfl⟩
    | child =>
      obtain ⟨⟨k, outer, rfl, hn⟩, -⟩ := ht
      exact ⟨k, outer, n, rfl, hn, rfl, rfl, rfl⟩

namespace Stack

theorem work_of_skip (ht : task.Within top c) (h0 : task.skip = 0)
    (h : Stack top root start (c :: cs) rest) : Stack top root start (c :: cs) (task :: rest) :=
  .work ht h (by rwa [h0])

theorem append (h : Stack top root start (c :: cs) rest)
    (ht : ∀ task ∈ tasks, task.Within top c ∧ task.skip = 0) :
    Stack top root start (c :: cs) (tasks ++ rest) := by
  induction tasks with
  | nil => exact h
  | cons task tasks ih =>
    obtain ⟨⟨hw, h0⟩, ht⟩ := List.forall_mem_cons.1 ht
    exact work_of_skip hw h0 (ih ht)

/-- What is entered is opened and then left. -/
theorem enter {opened left : Task C} (hw : opened.Within top c) (h0 : opened.skip = 0)
    (hf : left.finishes? = some c) (h : Stack top root start cs rest) :
    Stack top root start (c :: cs) (opened :: left :: rest) :=
  work_of_skip hw h0 (.finish hf h)

/-- A task other than the first one and those that leave a construct is within the innermost one. -/
theorem within (h : Stack top root start cs (task :: rest)) (hf : task.finishes? = none)
    (hb : task.opens = false) :
    ∃ c cs', cs = c :: cs' ∧ task.Within top c ∧ Stack top root start cs rest ∧
      Stack top root start cs (rest.drop task.skip) := by
  cases h with
  | begin => cases hb
  | work ht h hs => exact ⟨_, _, rfl, ht, h, hs⟩
  | finish ht => simp [hf] at ht

/-- A task that fails is within the innermost construct, which its error tells of. -/
theorem fails {o : Options} {x : Walk.Error} (h : Stack top root start cs (task :: rest))
    (hx : task.Fails o x) : ∃ c cs', cs = c :: cs' ∧ c.Explains x := by
  have inside : task.finishes? = none ∧ task.opens = false := by
    cases hx with
    | lacking hl => cases hl <;> exact ⟨rfl, rfl⟩
    | _ => exact ⟨rfl, rfl⟩
  obtain ⟨c, cs', rfl, within, -⟩ := h.within inside.1 inside.2
  exact ⟨c, cs', rfl, hx.explains within⟩

/-- A plan is carried out within its node, to which every step keeps. -/
theorem plan_cons {n : Node} {context : C} {step : Step} {steps : List Step}
    (h : Stack top root start cs (.plan n context (step :: steps) :: rest)) :
    ∃ cs', cs = .node n context :: cs' ∧ step.Comes n ∧
      Stack top root start cs (.plan n context steps :: rest) ∧ Stack top root start cs rest := by
  obtain ⟨c, cs', rfl, ⟨rfl, hs⟩, below, -⟩ := h.within rfl rfl
  obtain ⟨first, later⟩ := List.forall_mem_cons.1 hs
  exact ⟨cs', rfl, first, .work_of_skip ⟨rfl, later⟩ rfl below, below⟩

theorem finished (h : Stack top root start cs (task :: rest)) (hf : task.finishes? = some c) :
    ∃ cs', cs = c :: cs' ∧ Stack top root start cs' rest := by
  cases h with
  | begin => cases hf
  | work ht =>
    cases task with
    | finishEntity | finishNode => exact ht.elim
    | _ => cases hf
  | finish ht h =>
    cases ht.symm.trans hf
    exact ⟨_, rfl, h⟩

end Stack

end Tasks

/-- After an act the tasks are again within the constructs that are then pending. -/
def Act.Keeps (top : C → Entity) (root : Entity) (start : C) (cs : List (Construct C))
    (rest : List (Task C)) : Act C → Prop
  | .fail _ => True
  | .replace tasks | .adopt _ _ tasks => Stack top root start cs (tasks ++ rest)
  | .derive _ _ tasks => ∀ inner, Stack top root start cs (tasks inner ++ rest)
  | .call hook tasks skip =>
    ∀ answer, ∃ cs', (Entry.called hook answer).Turns cs cs' ∧ Construct.Path top root start cs' ∧
      Stack top root start cs' (tasks answer ++ rest.drop (if answer = .handled then skip else 0))

namespace Walker

variable {w : Walker σ C} {root : Entity} {start : C} {c : Construct C} {cs : List (Construct C)}
  {rest : List (Task C)}

/-- A hook that is called between entering and post-processing a construct. -/
theorem call_keeps {top : C → Entity} {hook : HookCall C} {tasks : Answer → List (Task C)}
    {skip : Nat} (hb : ∀ answer, (Entry.called hook answer).begins? = none)
    (hf : ∀ answer, (Entry.called hook answer).finishes? = none)
    (hp : Construct.Path top root start cs)
    (h : ∀ answer, Stack top root start cs
      (tasks answer ++ rest.drop (if answer = .handled then skip else 0))) :
    (Act.call hook tasks skip).Keeps top root start cs rest :=
  fun answer => ⟨cs, .other (hb answer) (hf answer), hp, h answer⟩

theorem contents_within {top : C → Entity} {e : Entity} {context : C} {inner : Option C}
    (hd : inner.isSome → e.derivation?.isSome) :
    ∀ task ∈ contents e inner, task.Within top (.entity e context) ∧ task.skip = 0 := by
  cases inner with
  | none => exact List.forall_mem_nil _
  | some inner =>
    obtain ⟨d, hd⟩ := Option.isSome_iff_exists.1 (hd rfl)
    have held (es : List Entity) (h : ∀ x ∈ es, x ∈ e.held) :
        ∀ task ∈ es.map (Task.nested e · inner),
          task.Within top (.entity e context) ∧ task.skip = 0 :=
      List.forall_mem_map.2 fun x hx => ⟨.held hd (h x hx), rfl⟩
    simp only [contents]
    split
    · rename_i hk
      refine List.forall_mem_append.2 ⟨List.forall_mem_map.2 fun b hb => ?_, held _ fun x hx => ?_⟩
      · exact ⟨.body hk (Option.mem_toList.1 hb), rfl⟩
      · rwa [Entity.held, if_pos hk]
    · rename_i hk
      exact held _ fun x hx => by rwa [Entity.held, if_neg hk]

theorem hoisted_within (n : Node) (context : C) :
    ∀ task ∈ w.hoisted n context, task.Within w.visitor.top (.node n context) ∧ task.skip = 0 :=
  List.forall_mem_map.2 fun _ hx => ⟨.hoisted hx, rfl⟩

theorem contains_child {top : C → Entity} {n m : Node} {context inner : C} {step : Step} {i : Nat}
    (hs : step.Comes n) (hi : i ∈ step.visited) (hm : n.child? i = some m) :
    (Construct.node n context).Contains top (.node m inner) :=
  .node (.child (hs.traversed hi (List.getElem?_eq_some_iff.1 hm).1) hm)

theorem child_within {top : C → Entity} {n : Node} {context inner : C} {step : Step} {i : Nat}
    (hs : step.Comes n) (hi : i ∈ step.visited) :
    (Task.child n i inner).Within top (.node n context) :=
  ⟨⟨n, context, rfl, .inl rfl⟩, fun _ hm => contains_child hs hi hm⟩

theorem targetCall_keeps {top : C → Entity} {a : Assignment} {context : C} {skip : Nat}
    {inside : List (Task C)} (hp : Construct.Path top root start (c :: cs))
    (ha : Task.Assigns c a) (h : Stack top root start (c :: cs) rest)
    (hs : Stack top root start (c :: cs) (rest.drop skip))
    (hi : Stack top root start (c :: cs) (.leaveTarget a context :: rest) →
      Stack top root start (c :: cs) (inside ++ .leaveTarget a context :: rest)) :
    (targetCall a context skip inside).Keeps top root start (c :: cs) rest := by
  refine call_keeps (by rintro (_ | _) <;> rfl) (by rintro (_ | _) <;> rfl) hp fun answer => ?_
  cases answer with
  | proceed => simpa [onProceed] using hi (.work_of_skip ha rfl h)
  | handled => exact hs

theorem operands_within {top : C → Entity} {a : Assignment} {context : C} (ha : Task.Assigns c a)
    {m : Node} (hm : m ∈ a.target.operands) : c.Contains top (.node m context) := by
  obtain ⟨outer, rfl, assigned, t, ht, chain⟩ := ha
  exact .node (.target assigned ht chain hm)

/-- The first child of a target that is taken apart by its operands. -/
theorem first_within {top : C → Entity} {a : Assignment} {context : C} (ha : Task.Assigns c a)
    (hm : ∀ m, a.target.child? 0 = some m → m ∈ a.target.operands) :
    (Task.child a.target 0 context).Within top c := by
  refine ⟨?_, fun m h => operands_within ha (hm m h)⟩
  obtain ⟨outer, rfl, target⟩ := ha
  exact ⟨_, outer, rfl, .inr target⟩

theorem Move.keeps {parents : ParentTable} {task : Task C} {act : Act C}
    (hm : w.Move parents task act) (hp : Construct.Path w.visitor.top root start cs)
    (h : Stack w.visitor.top root start cs (task :: rest)) :
    act.Keeps w.visitor.top root start cs rest := by
  cases hm with
  | fail => trivial
  | @entity e context =>
    intro answer
    cases h with
    | begin =>
      cases answer with
      | proceed => exact ⟨_, .begins rfl, .root, .enter rfl rfl rfl .idle⟩
      | handled => exact ⟨_, .other rfl rfl, hp, .idle⟩
    | work ht h =>
      cases answer with
      | proceed => exact ⟨_, .begins rfl, .inside hp ht, .enter rfl rfl rfl h⟩
      | handled => exact ⟨_, .other rfl rfl, hp, h⟩
    | finish ht => cases ht
  | nested =>
    obtain ⟨c, cs, rfl, ht, h, -⟩ := h.within rfl rfl
    exact h.append (List.forall_mem_singleton.2 ⟨ht, rfl⟩)
  | @openEntity e context d hd =>
    obtain ⟨c, cs, rfl, ht, h, -⟩ := h.within rfl rfl
    intro inner
    exact h.append (List.forall_mem_singleton.2 ⟨⟨ht, fun _ => by simp [hd]⟩, rfl⟩)
  | openField =>
    obtain ⟨c, cs, rfl, ht, h, -⟩ := h.within rfl rfl
    exact h.append (List.forall_mem_singleton.2 ⟨⟨ht, Bool.noConfusion⟩, rfl⟩)
  | @holdEntity e context inner =>
    obtain ⟨c, cs, rfl, ⟨rfl, hd⟩, h, -⟩ := h.within rfl rfl
    refine call_keeps (by rintro (_ | _) <;> rfl) (by rintro (_ | _) <;> rfl) hp fun answer => ?_
    cases answer with
    | proceed =>
      exact h.append (List.forall_mem_append.2
        ⟨contents_within hd, List.forall_mem_singleton.2 ⟨rfl, rfl⟩⟩)
    | handled => exact h
  | leaveEntity | leaveTarget | planDone =>
    obtain ⟨c, cs, rfl, -, h, -⟩ := h.within rfl rfl
    exact call_keeps (by rintro (_ | _) <;> rfl) (by rintro (_ | _) <;> rfl) hp fun answer => by
      cases answer <;> exact h
  | finishEntity | finishNode =>
    obtain ⟨cs, rfl, outside⟩ := h.finished rfl
    exact fun answer => ⟨cs, .finishes rfl, hp.tail, by cases answer <;> exact outside⟩
  | @node n context =>
    obtain ⟨c, cs, rfl, ht, h, -⟩ := h.within rfl rfl
    intro answer
    cases answer with
    | proceed => exact ⟨_, .begins rfl, .inside hp ht, .enter rfl rfl rfl h⟩
    | handled => exact ⟨_, .other rfl rfl, hp, h⟩
  | @openNode n context steps _ hplan =>
    obtain ⟨c, cs, rfl, rfl, h, -⟩ := h.within rfl rfl
    have hoisted := h.append (w.hoisted_within n context)
    refine call_keeps (by rintro (_ | _) <;> rfl) (by rintro (_ | _) <;> rfl) hp fun answer => ?_
    cases answer with
    | proceed => exact .work_of_skip ⟨rfl, Node.plan_comes hplan⟩ rfl hoisted
    | handled =>
      simp only [afterVisit]
      split
      · exact hoisted
      · exact h
  | planVisit =>
    obtain ⟨cs, rfl, step, later, -⟩ := h.plan_cons
    exact .work_of_skip (child_within step List.mem_cons_self) rfl later
  | planLocal =>
    obtain ⟨cs, rfl, step, later, -⟩ := h.plan_cons
    exact fun inner => .work_of_skip (child_within step List.mem_cons_self) rfl later
  | planProtected hi hj =>
    obtain ⟨cs, rfl, step, later, -⟩ := h.plan_cons
    exact fun inner => .work_of_skip (contains_child step List.mem_cons_self hi) rfl later
  | planBetween =>
    obtain ⟨cs, rfl, -, later, -⟩ := h.plan_cons
    refine call_keeps (by rintro (_ | _) <;> rfl) (by rintro (_ | _) <;> rfl) hp fun answer => ?_
    cases answer <;> exact later
  | @planAssign n context i j steps target rhs hi hj =>
    obtain ⟨cs, rfl, step, later, below⟩ := h.plan_cons
    obtain ⟨hk, rfl⟩ := step.target rfl
    have assigns : Task.Assigns (.node n context) ⟨target, rhs, n⟩ :=
      ⟨context, rfl, hk, target, hi, .refl⟩
    refine .work_of_skip (contains_child step List.mem_cons_self hj) rfl ?_
    exact .work assigns later below
  | child hm =>
    obtain ⟨c, cs, rfl, ⟨-, hk⟩, h, -⟩ := h.within rfl rfl
    exact h.append (List.forall_mem_singleton.2 ⟨hk _ hm, rfl⟩)
  | @arrayTarget a context skip hk =>
    obtain ⟨c, cs, rfl, ht, h, skipped⟩ := h.within rfl rfl
    refine targetCall_keeps hp ht h skipped fun left => left.append ?_
    refine List.forall_mem_cons.2 ⟨⟨first_within ht fun m hm => ?_, rfl⟩,
      List.forall_mem_map.2 fun m hm => ⟨operands_within ht ?_, rfl⟩⟩
    · simp [Node.operands, hk, hm]
    · simp [Node.operands, hk, hm]
  | @objectTarget a context skip hk =>
    obtain ⟨c, cs, rfl, ht, h, skipped⟩ := h.within rfl rfl
    refine targetCall_keeps hp ht h skipped fun left => left.append ?_
    refine List.forall_mem_singleton.2 ⟨first_within ht fun m hm => ?_, rfl⟩
    simp [Node.operands, hk, hm]
  | blockTarget hk =>
    obtain ⟨c, cs, rfl, ht, h, skipped⟩ := h.within rfl rfl
    exact targetCall_keeps hp ht h skipped fun left => .work ⟨ht, hk⟩ left skipped
  | varTarget =>
    obtain ⟨c, cs, rfl, ht, h, skipped⟩ := h.within rfl rfl
    exact targetCall_keeps hp ht h skipped id
  | @lastTarget a context skip last hl =>
    obtain ⟨c, cs, rfl, ⟨ht, hk⟩, h, skipped⟩ := h.within rfl rfl
    obtain ⟨outer, rfl, assigned, t, hc, chain⟩ := ht
    have assigns : Task.Assigns (.node a.assign outer) { a with target := last } :=
      ⟨outer, rfl, assigned, t, hc, chain.tail ⟨hk, hl⟩⟩
    exact .work assigns h skipped

/-! ## Whole walks -/

/-- The pending constructs lie inside each other, and the agenda holds what is left of them. -/
structure Traced (w : Walker σ C) (root : Entity) (start : C) (cs : List (Construct C))
    (p : List (Task C) × WalkState (Logged σ C)) : Prop where
  pending : Pending p.2.memory.log cs
  path : Construct.Path w.visitor.top root start cs
  stack : Stack w.visitor.top root start cs p.1

theorem act_keeps (parents : ParentTable) {task : Task C}
    (hp : Construct.Path w.visitor.top root start cs)
    (h : Stack w.visitor.top root start cs (task :: rest)) :
    (w.logged.act parents task).Keeps w.visitor.top root start cs rest :=
  (w.logged.act_move parents task).keeps hp h

theorem Traced.step {p q : List (Task C) × WalkState (Logged σ C)}
    (h : w.logged.Advances p q) (ht : w.Traced root start cs p) :
    ∃ cs', w.Traced root start cs' q := by
  obtain ⟨pending, path, stack⟩ := ht
  cases h with
  | @replace task rest s tasks h | @adopt task rest s child parent tasks h =>
    have keeps := act_keeps s.parents path stack
    rw [h] at keeps
    exact ⟨cs, pending, path, keeps⟩
  | @derive task rest s d context tasks h =>
    have keeps := act_keeps s.parents path stack
    rw [h] at keeps
    exact ⟨cs, .snoc pending (.other rfl rfl), path, keeps _⟩
  | @call task rest s hook tasks skip h =>
    have keeps := act_keeps s.parents path stack
    rw [h] at keeps
    obtain ⟨cs', turns, path, stack⟩ := keeps (w.visitor.answer hook s.memory.memory).1
    exact ⟨cs', .snoc pending turns, path, stack⟩

theorem traced {memory : σ} {p : List (Task C) × WalkState (Logged σ C)}
    (h : w.logged.Reaches (Walker.start root start { memory }) p) :
    ∃ cs, w.Traced root start cs p :=
  Reaches.keeps (I := fun p => ∃ cs, w.Traced root start cs p)
    (fun h ⟨_, ht⟩ => ht.step h) h ⟨[], .nil, .nil, .begin⟩

/-- A walk has failed at the end of its log, with an error that tells of the innermost of the
constructs that are pending there. They lie inside each other from the root on. -/
structure FailsWithin (w : Walker σ C) (root : Entity) (start : C) (s t : WalkState σ)
    (log : List (Entry C)) (x : Walk.Error) (c : Construct C) (cs : List (Construct C)) : Prop where
  /-- No hook is called and no context derived after the task that fails has come up. -/
  stops : ∃ task rest u,
    w.logged.Reaches (Walker.start root start { memory := s.memory }) (task :: rest, u) ∧
      w.logged.act u.parents task = .fail x ∧ u.memory.log = log ∧ u.forget = t
  pending : Pending log (c :: cs)
  only {cs'} (h : Pending log cs') : cs' = c :: cs
  path : Construct.Path w.visitor.top root start (c :: cs)
  explains : c.Explains x

/-- A walk that fails does so within a construct that its error tells of. -/
theorem failure_provenance (hx : w.extensions = {}) {depth : Nat} {context : C}
    {s t : WalkState σ} {x : Walk.Error}
    (h : w.walk depth root context s = .error (.failed x) t) :
    ∃ c cs, w.FailsWithin root context s t (w.walkLog depth root context s) x c cs := by
  obtain ⟨u, hu, forget, hlog⟩ := (w.walk_logged depth root context).of_error h
  obtain ⟨left, reached, task, rest, rfl, fails⟩ := walk_error (logged_extensions hx) hu
  obtain ⟨cs, pending, path, stack⟩ := traced reached
  obtain ⟨c, cs, rfl, explains⟩ := stack.fails (act_fails fails)
  have log : u.memory.log = w.walkLog depth root context s := hlog.symm
  refine ⟨c, cs, ⟨task, rest, u, reached, fails, log, forget⟩, ?_, fun h => ?_, path, explains⟩
  · exact log ▸ pending
  · exact Pending.unique h (log ▸ pending)

/-- A walker that keeps no memory and takes nothing over; its contexts are their top entities. -/
def plainWalker : Walker Unit Entity where
  visitor :=
    { top := id
      derive := fun d outer => pure (d.top outer)
      answer := fun _ => pure .proceed }

/-- A function whose body is of a kind of a front end. -/
def foreignBody : Entity :=
  { id := ⟨1⟩
    kind := .function
    name := "f"
    body := some { id := ⟨1⟩, kind := .custom "foreign", children := [] } }

theorem failure_provenance_foreignBody :
    plainWalker.walk 2 foreignBody foreignBody { memory := () } =
        .error (.failed (.unhandledNode (.custom "foreign") none)) { memory := () } ∧
      ∃ c cs, plainWalker.FailsWithin foreignBody foreignBody { memory := () } { memory := () }
        (plainWalker.walkLog 2 foreignBody foreignBody { memory := () })
        (.unhandledNode (.custom "foreign") none) c cs := by
  have run : plainWalker.walk 2 foreignBody foreignBody { memory := () } =
      .error (.failed (.unhandledNode (.custom "foreign") none)) { memory := () } := rfl
  exact ⟨run, failure_provenance rfl run⟩

end Walker

end SyntaxWalk
