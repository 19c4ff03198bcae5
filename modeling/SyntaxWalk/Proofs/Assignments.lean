import SyntaxWalk.Proofs.Stages

/-!
# The protocol of assignments

A visit of an assignment visits the right-hand side first. Then the target is taken apart: the hooks
of the block expressions on the way to the node that is assigned to are called from the outside in,
then the operands of that node are visited, and the leave hooks are called from the inside out. A
hook that takes the target over ends this, and with it the leave hooks that are still due, that of
the assignment included; what is scoped to the assignment is visited all the same
(`Walker.assignment_protocol`).
-/

namespace SyntaxWalk

variable {σ C : Type}

namespace Node

/-- Block expressions, each the last child of the one before it, that lead from a target to what it
stands for in the end. -/
inductive BlocksTo : Node → List Node → Node → Prop where
  | nil {t} : BlocksTo t [] t
  | cons {b u blocks t} (h : b.StandsFor u) (rest : BlocksTo u blocks t) :
      BlocksTo b (b :: blocks) t

/-- A kind at which a chain of block expressions ends. -/
def IsPlace (t : Node) : Prop :=
  t.kind = .var ∨ t.kind = .arrayRef ∨ t.kind = .objectRef

/-- The visits between the two hooks of a target at the end of a chain. -/
def operandStages (t : Node) (context : C) : List (VisitStage C) :=
  match t.kind with
  | .arrayRef => .child t 0 context :: (List.range' 2 (t.childCount - 2)).map (.child t · context)
  | .objectRef => [.child t 0 context]
  | _ => []

end Node

namespace VisitStage

/-- The `visit` hook of a target of an assignment. -/
def visitTarget (rhs assign : Node) (context : C) (answer : Answer) (b : Node) : VisitStage C :=
  .asked (.target .visit ⟨b, rhs, assign⟩ context) answer

def leaveTarget (rhs assign : Node) (context : C) (b : Node) : VisitStage C :=
  .told (.target .leave ⟨b, rhs, assign⟩ context)

end VisitStage

namespace Walker

variable {w : Walker σ C}

section Targets

variable (rhs assign : Node) (context : C)

/-- How the targets of a chain are gone through, from the outermost on, with the given stages
between their hooks: to the end and back, or up to one whose `visit` hook is handled. -/
inductive Dispatched (chain : List Node) (inside : List (VisitStage C)) :
    Answer → List (VisitStage C) → Prop where
  | through :
      Dispatched chain inside .proceed
        (chain.map (.visitTarget rhs assign context .proceed) ++ inside ++
          chain.reverse.map (.leaveTarget rhs assign context))
  | taken {before b after} (h : chain = before ++ b :: after) :
      Dispatched chain inside .handled
        (before.map (.visitTarget rhs assign context .proceed) ++
          [.visitTarget rhs assign context .handled b])

variable {rhs assign context} {chain : List Node} {inside : List (VisitStage C)}

theorem Dispatched.within : Dispatched rhs assign context [] inside .proceed inside := by
  have gone : Dispatched rhs assign context [] inside .proceed _ := .through
  simpa using gone

/-- A target around those of a chain. -/
theorem runTarget_takes (b : Node) {x : Walk (Logged σ C) Answer} {y : Walk σ Answer}
    (h : w.Takes x y (Dispatched rhs assign context chain inside) fun _ _ => True) :
    w.Takes (w.logged.runTarget ⟨b, rhs, assign⟩ context x)
      (w.runTarget ⟨b, rhs, assign⟩ context y)
      (Dispatched rhs assign context (b :: chain) inside) fun _ _ => True := by
  refine Takes.bind (.asked _) ?_ fun _ _ => id
  rintro answer _ rfl
  cases answer with
  | handled => exact .pure (.taken (List.nil_append _).symm)
  | proceed =>
    refine Takes.bind h (fun answer stages dispatched => ?_) fun _ _ => id
    cases dispatched with
    | @taken before b' after split =>
      have longer : b :: chain = (b :: before) ++ b' :: after := congrArg (b :: ·) split
      have around : Dispatched rhs assign context (b :: chain) inside .handled _ := .taken longer
      exact .pure (by simpa [VisitStage.visitTarget] using around)
    | through =>
      have around : Dispatched rhs assign context (b :: chain) inside .proceed _ := .through
      refine Takes.imp (Takes.told _ _) ?_ fun _ _ => id
      rintro _ _ ⟨rfl, rfl⟩
      simpa [VisitStage.visitTarget, VisitStage.leaveTarget] using around

/-- A target at the end of a chain. -/
theorem place_takes (hw : w.extensions = {}) (depth : Nat) {t : Node} (ht : t.IsPlace) :
    w.Takes (w.logged.dispatchIn (w.logged.descent depth) ⟨t, rhs, assign⟩ context)
      (w.dispatchIn (w.descent depth) ⟨t, rhs, assign⟩ context)
      (Dispatched rhs assign context [t] (t.operandStages context)) fun _ _ => True := by
  have around {x : Walk (Logged σ C) Answer} {y : Walk σ Answer} {stages : List (VisitStage C)}
      (h : w.Straight x y .proceed stages) :
      w.Takes (w.logged.runTarget ⟨t, rhs, assign⟩ context x)
        (w.runTarget ⟨t, rhs, assign⟩ context y)
        (Dispatched rhs assign context [t] stages) fun _ _ => True := by
    refine runTarget_takes t (h.imp ?_ fun _ _ _ => trivial)
    rintro _ _ ⟨rfl, rfl⟩
    exact .within
  unfold dispatchIn Node.operandStages
  rcases ht with hk | hk | hk <;> simp only [hk]
  · exact around .pure
  · refine Takes.bind (checkArity_takes t trivial) ?_ fun _ _ => id
    rintro _ _ rfl
    have indices := (visitChildren_straight hw depth t 2 context).giving Answer.proceed
    exact around (child_straight hw depth t 0 context indices)
  · refine Takes.bind (checkArity_takes t trivial) ?_ fun _ _ => id
    rintro _ _ rfl
    exact around (child_straight hw depth t 0 context .pure)

/-- The targets of a chain, from the outermost on. -/
theorem dispatch_takes (hw : w.extensions = {}) (depth : Nat) {first t : Node}
    {blocks : List Node} (hb : first.BlocksTo blocks t) (ht : t.IsPlace) :
    w.Takes (w.logged.dispatch depth ⟨first, rhs, assign⟩ context)
      (w.dispatch depth ⟨first, rhs, assign⟩ context)
      (Dispatched rhs assign context (blocks ++ [t]) (t.operandStages context))
      fun _ _ => True := by
  induction hb generalizing depth with
  | nil =>
    cases depth with
    | zero => exact .throw trivial _
    | succ depth => exact place_takes hw depth ht
  | @cons b u blocks t h rest ih =>
    cases depth with
    | zero => exact .throw trivial _
    | succ depth =>
      have around := runTarget_takes b (ih depth ht)
      change w.Takes (w.logged.dispatchIn (w.logged.descent depth) _ context)
        (w.dispatchIn (w.descent depth) _ context) _ _
      simp only [dispatchIn, h.1, h.2]
      exact around

end Targets

section Visits

variable (hw : w.extensions = {}) {n first t : Node} {blocks : List Node}
  (hk : n.kind.isAssignment = true) (hf : n.child? 0 = some first) (hb : first.BlocksTo blocks t)
  (ht : t.IsPlace)

include hw hk hf hb ht

/-- The right-hand side comes before the targets. -/
theorem runPlan_assignment_takes (depth : Nat) (context : C) {steps : List Step}
    (hp : n.kind.plan? n.childCount = some steps) :
    w.Takes (w.logged.runPlan (w.logged.descent depth) n context steps)
      (w.runPlan (w.descent depth) n context steps)
      (fun answer stages => ∃ rhs rest, n.child? 1 = some rhs ∧
        Dispatched rhs n context (blocks ++ [t]) (t.operandStages context) answer rest ∧
        stages = .child n 1 context :: rest)
      fun _ _ => True := by
  obtain rfl : steps = [.assign 0 1] := by
    cases hn : n.kind <;> rw [hn] at hk hp <;> cases hk <;> cases hp <;> rfl
  have step : w.Takes (w.logged.runStep (w.logged.descent depth) n context (.assign 0 1))
      (w.runStep (w.descent depth) n context (.assign 0 1))
      (fun answer stages => ∃ rhs rest, n.child? 1 = some rhs ∧
        Dispatched rhs n context (blocks ++ [t]) (t.operandStages context) answer rest ∧
        stages = .child n 1 context :: rest)
      fun _ _ => True := by
    simp only [runStep, Walk.requireChild_eq, hf, pure_bind]
    cases hr : n.child? 1 with
    | none => exact .throw trivial _
    | some rhs =>
      simp only [pure_bind]
      refine Takes.bind (visit_straight hw hr context) ?_ fun _ _ _ => trivial
      rintro _ _ ⟨-, rfl⟩
      exact (dispatch_takes hw depth hb ht).imp
        (fun answer rest gone => ⟨rhs, rest, rfl, gone, rfl⟩) fun _ _ => id
  refine Takes.bind step (fun answer stages gone => ?_) fun _ _ => id
  cases answer <;> exact .pure (by simpa using gone)

/-- A visit of an assignment that goes beyond its first hooks and succeeds visits the right-hand
side, then calls the visit hooks of the targets from the outermost on, up to one that is handled. If
none is, it visits the operands of the innermost and calls the leave hooks of the targets from there
back, and that of the assignment. If one is, it does nothing of this. In both cases it ends with the
entities that are scoped to the assignment and its post-processing. -/
theorem assignment_protocol (depth : Nat) (context : C) {s u : WalkState σ}
    (h : w.visit depth n context s = .ok () u) (ho : w.Opens n context s) :
    let log := Walk.log (w.logged.visit depth n context) s
    ∃ rhs, n.child? 1 = some rhs ∧
      (w.Through s
          (opening n context ++ .child n 1 context ::
            ((blocks ++ [t]).map (.visitTarget rhs n context .proceed) ++
              t.operandStages context ++ (t :: blocks.reverse).map (.leaveTarget rhs n context) ++
              .told (.node .leave n context) :: w.closing n context)) log u ∨
        ∃ before b after, blocks ++ [t] = before ++ b :: after ∧
          w.Through s
            (opening n context ++ .child n 1 context ::
              (before.map (.visitTarget rhs n context .proceed) ++
                .visitTarget rhs n context .handled b :: w.closing n context)) log u) := by
  intro log
  have takes := visit_takes hw depth fun depth steps hp =>
    runPlan_assignment_takes hw hk hf hb ht depth context hp
  obtain ⟨stages, through, visited⟩ := takes.ok h
  obtain ⟨_, ⟨⟨rhs, rest, hr, dispatched, rfl⟩, rfl⟩ | ⟨⟨rhs, rest, hr, dispatched, rfl⟩, rfl⟩⟩ :=
    visited.opened through ho
  · refine ⟨rhs, hr, .inr ?_⟩
    cases dispatched with
    | @taken before b after split =>
      refine ⟨before, b, after, split, ?_⟩
      simpa using through
  · refine ⟨rhs, hr, .inl ?_⟩
    cases dispatched with
    | through => simpa using through

end Visits

/-- An array element with two indices. -/
def arrayElement : Node :=
  let leaf (i : Nat) (kind : NodeKind) : Node := { id := ⟨i⟩, kind, children := [] }
  { id := ⟨5⟩
    kind := .arrayRef
    children := [leaf 1 .var, leaf 2 .constant, leaf 3 .constant, leaf 4 .var] }

/-- The array element as the last child of a block. -/
def elementBlock : Node :=
  { id := ⟨7⟩, kind := .blockExpr, children := [{ id := ⟨6⟩, kind := .empty, children := [] },
    arrayElement] }

def elementAssign : Node :=
  { id := ⟨9⟩, kind := .assign, children := [elementBlock,
    { id := ⟨8⟩, kind := .var, children := [] }] }

theorem assignment_protocol_elementAssign :
    let w := quiet true
    let log := Walk.log (w.logged.visit 4 elementAssign hoistingFile) ⟨(), {}⟩
    ∃ u rhs, elementAssign.child? 1 = some rhs ∧
      (w.Through ⟨(), {}⟩
          (opening elementAssign hoistingFile ++ .child elementAssign 1 hoistingFile ::
            ([elementBlock, arrayElement].map
                (.visitTarget rhs elementAssign hoistingFile .proceed) ++
              [.child arrayElement 0 hoistingFile, .child arrayElement 2 hoistingFile,
                .child arrayElement 3 hoistingFile] ++
              [arrayElement, elementBlock].map (.leaveTarget rhs elementAssign hoistingFile) ++
              .told (.node .leave elementAssign hoistingFile) ::
                w.closing elementAssign hoistingFile)) log u ∨
        ∃ before b after, [elementBlock, arrayElement] = before ++ b :: after ∧
          w.Through ⟨(), {}⟩
            (opening elementAssign hoistingFile ++ .child elementAssign 1 hoistingFile ::
              (before.map (.visitTarget rhs elementAssign hoistingFile .proceed) ++
                .visitTarget rhs elementAssign hoistingFile .handled b ::
                  w.closing elementAssign hoistingFile)) log u) := by
  have chain : elementBlock.BlocksTo [elementBlock] arrayElement := .cons ⟨rfl, rfl⟩ .nil
  have succeeds : Walk.succeeds ((quiet true).visit 4 elementAssign hoistingFile) ⟨(), {}⟩ :=
    by decide +kernel
  obtain ⟨⟨⟩, u, visited⟩ := Walk.exists_ok succeeds
  exact ⟨u, assignment_protocol rfl rfl rfl chain (.inr (.inl rfl)) 4 hoistingFile visited
    ⟨_, _, rfl, rfl⟩⟩

end Walker

end SyntaxWalk
