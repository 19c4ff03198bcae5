import SyntaxWalk.Proofs.Failure
import SyntaxWalk.Proofs.Outlast

/-!
# Walks with handlers

Handlers are asked where a walk without handlers fails, and nowhere else. So a walk with handlers
goes as the one without up to there, and ends with it unless a handler takes on what the other could
not handle (`Walker.extensions_conservative`).
-/

namespace SyntaxWalk

variable {σ C α : Type}

/-- The walk has met a construct of a kind that it does not handle itself. -/
def Walk.Error.isUnhandled : Walk.Error → Bool
  | .unhandledEntity .. | .unhandledNode .. | .unsupportedAssignment .. => true
  | .malformedNode .. => false

/-- A handler answers that it has declined; until then it only looks. -/
def Procedure.Declines : Procedure σ C Answer → Prop
  | .done answer => answer = .proceed
  | .look next => ∀ view, (next view).Declines
  | .fail _ | .request .. | .walk .. | .store .. => False

/-- Handlers registered under the name of the kind that an error is about decline each construct
that the error can be about. An error tells what it shows of its construct, but neither which one it
was nor in which context it was met. So declining is asked of a handler in every context, and only
of constructs that give this very error: what it does with other constructs is left open. -/
structure Extensions.Declines (x : Extensions σ C) (error : Walk.Error) : Prop where
  entity {e handler} (h : error = .ofEntity e) (hx : x.entities.get? e.kind.name = some handler)
    (context) : (handler e context).Declines
  node {n handler} (h : error = .ofNode n) (hx : x.nodes.get? n.kind.name = some handler)
    (context) : (handler n context).Declines
  target {a handler} (h : error = .unsupported a.target a.assign)
    (hx : x.targets.get? a.target.kind.name = some handler) (context) :
    (handler a context).Declines

/-- A walk without handlers has stopped where there may be one. -/
def Stop.MayHandle : Stop → Prop
  | .failed e => e.isUnhandled = true
  | .outOfDepth => True

/-- A walk with handlers stops as one without did. -/
def Stop.Declined (x : Extensions σ C) (stop : Stop) : Prop :=
  ∃ e, stop = .failed e ∧ x.Declines e

namespace Procedure

/-- A procedure that declines leaves all as it was. -/
theorem Declines.run {p : Procedure σ C Answer} (hp : p.Declines) (w : Walker σ C)
    (d : Descent (Logged σ C) C) (s : WalkState (Logged σ C)) :
    w.logged.runProcedure d p.lift s = .ok .proceed s := by
  induction p with
  | done answer =>
    obtain rfl : answer = .proceed := hp
    rfl
  | look next ih => exact ih _ (hp _)
  | fail e | request r next ih | walk root context next ih | store memory next ih => exact hp.elim

theorem Declines.run_logged {p : Procedure σ C Answer} (hp : p.Declines) (w : Walker σ C)
    (d : Descent (Logged σ C) C) (s : WalkState (Logged σ C)) :
    w.logged.runProcedure d p.logged s =
      .ok .proceed { s with memory := (s.memory.add .began).add .ended } := by
  rw [logged, Walker.runProcedure_bind]
  refine Walk.bind_eq_ok.2 ⟨(), { s with memory := s.memory.add .began }, rfl, ?_⟩
  rw [Walker.runProcedure_bind]
  refine Walk.bind_eq_ok.2 ⟨.proceed, _, hp.run w d _, ?_⟩
  rw [Walker.runProcedure_bind]
  exact Walk.bind_eq_ok.2 ⟨(), _, rfl, rfl⟩

end Procedure

theorem hooks_marks (log : List (Entry C)) : hooks (log ++ [.began] ++ [.ended]) = hooks log := by
  simp [hooks, Entry.isMark]

namespace Walker

open Walk (Outlasts)

variable {v : Visitor σ C} {x : Extensions σ C} {o : Options}

section Handlers

variable {d d' : Descent (Logged σ C) C}
  (hd : Descent.Related Eq (Outlasts Stop.MayHandle (Stop.Declined x)) d d')

include hd

/-- A failure is outlasted by a handler, and settled if the handler declines. -/
theorem handler_takes_over (w : Walker σ C) (p : Procedure σ C Answer) (a : α) {e : Walk.Error}
    (he : e.isUnhandled = true) (hp : x.Declines e → p.Declines) :
    Outlasts Stop.MayHandle (Stop.Declined x) (Walk.fail e)
      (w.logged.runProcedure d' p.logged >>= fun answer =>
        match answer with
        | .handled => pure a
        | .proceed => Walk.fail e) := by
  -- That the log only grows is shown of the handler beside itself.
  have same : Descent.Related Eq (Outlasts (· = .outOfDepth) fun _ => False) d' d' :=
    ⟨fun e _ _ h => h ▸ .refl (hd.entity e rfl).grows,
      fun n _ _ h => h ▸ .refl (hd.node n rfl).grows,
      fun a _ _ h => h ▸ .refl (hd.target a rfl).grows⟩
  have grows := (handler_outlasts (w := w) (fun _ => id) same p a e).grows
  refine ⟨grows, fun s => .inr ⟨.failed e, s, rfl, he, grows s, ?_⟩⟩
  rintro ⟨_, ⟨⟩, declines⟩
  have run := (hp declines).run_logged w d' s
  exact ⟨_, Walk.bind_eq_error.2 (.inr ⟨_, _, run, rfl⟩), rfl, hooks_marks s.memory.log⟩

theorem runCustomEntity_extends (e : Entity) {kind : String} (hk : e.kind = .custom kind)
    (context : C) :
    Outlasts Stop.MayHandle (Stop.Declined x)
      ((⟨v, {}, o⟩ : Walker σ C).logged.runCustomEntity d e kind context)
      ((⟨v, x, o⟩ : Walker σ C).logged.runCustomEntity d' e kind context) := by
  have name : e.kind.name = kind := hk ▸ rfl
  have bare : (⟨v, {}, o⟩ : Walker σ C).logged.runCustomEntity d e kind context =
    Walk.fail (.ofEntity e) := rfl
  rw [bare]
  simp only [runCustomEntity, logged, Extensions.logged, Table.get?_map]
  cases h : x.entities.get? kind with
  | none => exact .throw
  | some handler =>
    exact handler_takes_over hd ⟨v, x, o⟩ _ _ rfl fun declines =>
      declines.entity rfl (name ▸ h) context

theorem runCustomNode_extends (n : Node) {kind : String} (hk : n.kind = .custom kind)
    (context : C) :
    Outlasts Stop.MayHandle (Stop.Declined x)
      ((⟨v, {}, o⟩ : Walker σ C).logged.runCustomNode d n kind context)
      ((⟨v, x, o⟩ : Walker σ C).logged.runCustomNode d' n kind context) := by
  have name : n.kind.name = kind := hk ▸ rfl
  have bare : (⟨v, {}, o⟩ : Walker σ C).logged.runCustomNode d n kind context =
    Walk.fail (.ofNode n) := rfl
  rw [bare]
  simp only [runCustomNode, logged, Extensions.logged, Table.get?_map]
  cases h : x.nodes.get? kind with
  | none => exact .throw
  | some handler =>
    exact handler_takes_over hd ⟨v, x, o⟩ _ _ rfl fun declines =>
      declines.node rfl (name ▸ h) context

theorem runCustomTarget_extends (a : Assignment) (context : C) :
    Outlasts Stop.MayHandle (Stop.Declined x)
      ((⟨v, {}, o⟩ : Walker σ C).logged.runCustomTarget d a context)
      ((⟨v, x, o⟩ : Walker σ C).logged.runCustomTarget d' a context) := by
  have bare : (⟨v, {}, o⟩ : Walker σ C).logged.runCustomTarget d a context =
    Walk.fail (.unsupported a.target a.assign) := rfl
  rw [bare]
  simp only [runCustomTarget, logged, Extensions.logged, Table.get?_map]
  cases h : x.targets.get? a.target.kind.name with
  | none => exact .throw
  | some handler =>
    exact handler_takes_over hd ⟨v, x, o⟩ _ _ rfl fun declines => declines.target rfl h context

end Handlers

/-- A walk without handlers is beside one with handlers. -/
def extending (v : Visitor σ C) (x : Extensions σ C) (o : Options) :
    Simulation (⟨v, {}, o⟩ : Walker σ C).logged (⟨v, x, o⟩ : Walker σ C).logged :=
  v.outlasting Stop.MayHandle (Stop.Declined x) rfl checkArity_outlasts
    (fun hd e _ hk context => runCustomEntity_extends hd e hk context)
    (fun hd n _ hk context => runCustomNode_extends hd n hk context)
    (fun hd a context => runCustomTarget_extends hd a context)

theorem walk_extending (v : Visitor σ C) (x : Extensions σ C) (o : Options) (more depth : Nat)
    (root : Entity) (context : C) :
    Outlasts Stop.MayHandle (Stop.Declined x)
      ((⟨v, {}, o⟩ : Walker σ C).logged.walk depth root context)
      ((⟨v, x, o⟩ : Walker σ C).logged.walk (more + depth) root context) := by
  have undeclined : ¬ Stop.Declined x .outOfDepth := by
    rintro ⟨e, h, -⟩
    cases h
  have grown := ((⟨v, x, o⟩ : Walker σ C).deepening).descent more
  have descents := (extending v x o).descent_add more
    ⟨fun e _ _ h => .of_throw trivial undeclined (grown.entity e h).grows,
      fun n _ _ h => .of_throw trivial undeclined (grown.node n h).grows,
      fun a _ _ h => .of_throw trivial undeclined (grown.target a h).grows⟩ depth
  exact whole_outlasts descents root context

/-! ## Built-in constructs -/

theorem runPlan_extensions (d : Descent σ C) (n : Node) (context : C) (steps : List Step) :
    (⟨v, x, o⟩ : Walker σ C).runPlan d n context steps =
      (⟨v, {}, o⟩ : Walker σ C).runPlan d n context steps := by
  induction steps with
  | nil => rfl
  | cons step steps ih =>
    have step : (⟨v, x, o⟩ : Walker σ C).runStep d n context step =
        (⟨v, {}, o⟩ : Walker σ C).runStep d n context step := by
      cases step <;> rfl
    simp only [runPlan, step, ih]

theorem runBuiltIn_extensions (d : Descent σ C) (n : Node) (context : C) :
    (⟨v, x, o⟩ : Walker σ C).runBuiltIn d n context =
      (⟨v, {}, o⟩ : Walker σ C).runBuiltIn d n context := by
  unfold runBuiltIn
  simp only [runPlan_extensions]
  rfl

theorem visitNodeIn_extensions (d : Descent σ C) {n : Node} (hk : ∀ kind, n.kind ≠ .custom kind)
    (context : C) :
    (⟨v, x, o⟩ : Walker σ C).visitNodeIn d n context =
      (⟨v, {}, o⟩ : Walker σ C).visitNodeIn d n context := by
  have run : (⟨v, x, o⟩ : Walker σ C).runNode d n context =
      (⟨v, {}, o⟩ : Walker σ C).runNode d n context := by
    unfold runNode
    split
    · exact (hk _ ‹_›).elim
    · exact runBuiltIn_extensions d n context
  unfold visitNodeIn
  rw [run]
  rfl

theorem dispatchIn_extensions (d : Descent σ C) {a : Assignment}
    (hk : a.target.kind.isTarget = true) (context : C) :
    (⟨v, x, o⟩ : Walker σ C).dispatchIn d a context =
      (⟨v, {}, o⟩ : Walker σ C).dispatchIn d a context := by
  unfold dispatchIn
  split <;> simp_all [NodeKind.isTarget] <;> rfl

theorem visitEntityIn_extensions (d : Descent σ C) {e : Entity}
    (hk : ∀ kind, e.kind ≠ .custom kind) (context : C) :
    (⟨v, x, o⟩ : Walker σ C).visitEntityIn d e context =
      (⟨v, {}, o⟩ : Walker σ C).visitEntityIn d e context := by
  have run : (⟨v, x, o⟩ : Walker σ C).runEntity d e context =
      (⟨v, {}, o⟩ : Walker σ C).runEntity d e context := by
    unfold runEntity
    split <;> first | exact (hk _ ‹_›).elim | rfl
  unfold visitEntityIn
  rw [run]
  rfl

/-- Handlers change nothing about a walk that ends well or with a malformed node. Other failures
they can only outlast, if one that is registered for the failing kind does not decline; what had
been called up to there is called all the same. Nothing but kinds that are not built in, and targets
that have no shape to be assigned to, is walked otherwise. -/
theorem extensions_conservative (v : Visitor σ C) (x : Extensions σ C) (o : Options)
    (depth more : Nat) (root : Entity) (context : C) (s : WalkState σ) :
    let bare : Walker σ C := ⟨v, {}, o⟩
    let extended : Walker σ C := ⟨v, x, o⟩
    let calls := hooks (bare.walkLog depth root context s)
    let calls' := hooks (extended.walkLog (more + depth) root context s)
    let same := extended.walk (more + depth) root context s = bare.walk depth root context s ∧
      calls' = calls
    (match bare.walk depth root context s with
      | .ok _ _ => same
      | .error (.failed e) _ =>
        if e.isUnhandled then calls <+: calls' ∧ (x.Declines e → same) else same
      | .error .outOfDepth _ => calls <+: calls') ∧
    (∀ d e context, (∀ kind, e.kind ≠ .custom kind) →
      extended.visitEntityIn d e context = bare.visitEntityIn d e context) ∧
    (∀ d n context, (∀ kind, n.kind ≠ .custom kind) →
      extended.visitNodeIn d n context = bare.visitNodeIn d n context) ∧
    (∀ d a context, a.target.kind.isTarget = true →
      extended.dispatchIn d a context = bare.dispatchIn d a context) := by
  intro bare extended calls calls' same
  refine ⟨?_, fun d e context hk => visitEntityIn_extensions d hk context,
    fun d n context hk => visitNodeIn_extensions d hk context,
    fun d a context hk => dispatchIn_extensions d hk context⟩
  have walks := walk_extending v x o more depth root context
  have forgets := walk_logged bare depth root context
  have forgets' := walk_logged extended (more + depth) root context
  have log : bare.walkLog depth root context s =
      ((bare.logged.walk depth root context).final s.withLog).memory.log := rfl
  have log' : extended.walkLog (more + depth) root context s =
      ((extended.logged.walk (more + depth) root context).final s.withLog).memory.log := rfl
  rcases walks.goes s.withLog with h | ⟨stop, t, h, handle, grown, declined⟩
  · have both : same := by
      refine ⟨forgets'.congr forgets h, ?_⟩
      have logs : (extended.logged.walk (more + depth) root context).final s.withLog =
          (bare.logged.walk depth root context).final s.withLog := by
        rw [Walk.final, h, Walk.final]
      exact congrArg (hooks ·.memory.log) logs
    have further : calls <+: calls' := both.2 ▸ List.prefix_rfl
    split
    · exact both
    · split
      · exact ⟨further, fun _ => both⟩
      · exact both
    · exact further
  · have bareEnd : bare.walk depth root context s = .error stop t.forget := forgets.error h
    have bareLog : bare.walkLog depth root context s = t.memory.log := by
      rw [log, Walk.final, h]
    have further : calls <+: calls' := by
      have grown : bare.walkLog depth root context s <+:
          extended.walkLog (more + depth) root context s := bareLog ▸ grown
      exact grown.filter _
    rw [bareEnd]
    cases stop with
    | outOfDepth => exact further
    | failed e =>
      have unhandled : e.isUnhandled = true := handle
      simp only [unhandled, if_true]
      refine ⟨further, fun declines => ?_⟩
      obtain ⟨u, hu, forget, calls⟩ := declined ⟨e, rfl, declines⟩
      have extendedLog : extended.walkLog (more + depth) root context s = u.memory.log := by
        rw [log', Walk.final, hu]
      refine ⟨?_, ?_⟩
      · rw [bareEnd, ← forget]
        exact forgets'.error hu
      · change hooks _ = hooks _
        rw [extendedLog, bareLog]
        exact calls

end Walker

end SyntaxWalk
