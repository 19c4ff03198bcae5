import SyntaxWalk.Proofs.Log

/-!
# Walks that go further

One walk may stop where another, under the same visitor, goes on: the other has more depth left, or
a handler, or a check less. `Outlasts` says so of pieces of walks, for the stops that `may` be
outlasted; after those that are `settled` the other walk stops as well. Whatever a walker does
without looking at its handlers and checks is the same on both sides, which leaves little to show of
each such pair of walkers (`Visitor.outlasting`). More depth, for one, changes nothing but that a
walk is out of depth (`Walker.walk_deeper`).
-/

namespace SyntaxWalk

variable {σ C α β : Type}

/-- An entry says that a handler begins or has ended. -/
def Entry.isMark : Entry C → Bool
  | .began | .ended => true
  | .called .. | .derived .. => false

/-- The calls of the visitor in a log. -/
def hooks (log : List (Entry C)) : List (Entry C) :=
  log.filter fun x => !x.isMark

namespace Walk

theorem final_bind (x : Walk σ α) (f : α → Walk σ β) (s : WalkState σ) :
    (x >>= f).final s =
      match x s with
      | .ok a t => (f a).final t
      | .error _ t => t := by
  unfold final
  simp only [Bind.bind, EStateM.bind]
  cases x s <;> rfl

theorem attempt_outOfDepth {x : Walk σ α} {s t : WalkState σ} (h : x s = .error .outOfDepth t) :
    attempt x s = .error .outOfDepth t := by
  unfold attempt
  rw [h]

theorem attempt_congr {x y : Walk σ α} {s : WalkState σ} (h : y s = x s) :
    attempt y s = attempt x s := by
  unfold attempt
  rw [h]

theorem final_attempt (x : Walk σ α) (s : WalkState σ) : (attempt x).final s = x.final s := by
  unfold final attempt
  cases x s with
  | ok a t => rfl
  | error stop t => cases stop <;> rfl

/-- A piece of a walk does what another does, or goes on from where the other has stopped. -/
structure Outlasts (may settled : Stop → Prop) (x y : Walk (Logged σ C) α) : Prop where
  grows (s) : s.memory.log <+: (y.final s).memory.log
  goes (s) : y s = x s ∨ ∃ stop t, x s = .error stop t ∧ may stop ∧
    t.memory.log <+: (y.final s).memory.log ∧
    (settled stop → ∃ u, y s = .error stop u ∧ u.forget = t.forget ∧
      hooks u.memory.log = hooks t.memory.log)

namespace Outlasts

variable {may settled : Stop → Prop} {x y : Walk (Logged σ C) α}
  {f g : α → Walk (Logged σ C) β}

theorem refl (h : ∀ s, s.memory.log <+: (x.final s).memory.log) : Outlasts may settled x x :=
  ⟨h, fun _ => .inl rfl⟩

theorem pure {a : α} :
    Outlasts may settled (pure a : Walk (Logged σ C) α) (pure a) :=
  .refl fun _ => List.prefix_rfl

theorem throw {stop : Stop} :
    Outlasts may settled (throw stop : Walk (Logged σ C) α) (throw stop) :=
  .refl fun _ => List.prefix_rfl

/-- Anything outlasts what stops at once. -/
theorem of_throw {stop : Stop} (hm : may stop) (hs : ¬ settled stop)
    (h : ∀ s, s.memory.log <+: (y.final s).memory.log) :
    Outlasts may settled (MonadExcept.throw stop) y :=
  ⟨h, fun s => .inr ⟨stop, s, rfl, hm, h s, fun settles => (hs settles).elim⟩⟩

theorem bind (h : Outlasts may settled x y) (hf : ∀ a, Outlasts may settled (f a) (g a)) :
    Outlasts may settled (x >>= f) (y >>= g) := by
  -- What has been logged when `y` is over is still there when `y >>= g` is.
  have later (s) : (y.final s).memory.log <+: ((y >>= g).final s).memory.log := by
    rw [Walk.final_bind, Walk.final]
    cases y s with
    | ok a t => exact (hf a).grows t
    | error stop t => exact List.prefix_rfl
  refine ⟨fun s => (h.grows s).trans (later s), fun s => ?_⟩
  rcases h.goes s with hs | ⟨stop, t, hs, hm, ht, settles⟩
  · rw [Walk.final_bind, hs]
    simp only [Bind.bind, EStateM.bind, hs]
    cases hx : x s with
    | ok a t => exact (hf a).goes t
    | error stop t => exact .inl rfl
  · refine .inr ⟨stop, t, Walk.bind_eq_error.2 (.inl hs), hm, ht.trans (later s), fun hstop => ?_⟩
    obtain ⟨u, hu, same⟩ := settles hstop
    exact ⟨u, Walk.bind_eq_error.2 (.inl hu), same⟩

/-- An attempt reports every stop but that for want of depth, so no other may be outlasted in it. -/
theorem attempt (hm : ∀ stop, may stop → stop = .outOfDepth) (h : Outlasts may settled x y) :
    Outlasts may settled (Walk.attempt x) (Walk.attempt y) := by
  constructor
  · intro s
    rw [final_attempt]
    exact h.grows s
  · intro s
    rw [final_attempt]
    rcases h.goes s with hs | ⟨stop, t, hs, hstop, ht, settles⟩
    · exact .inl (attempt_congr hs)
    · obtain rfl := hm stop hstop
      refine .inr ⟨_, t, attempt_outOfDepth hs, hstop, ht, fun settled => ?_⟩
      obtain ⟨u, hu, same⟩ := settles settled
      exact ⟨u, attempt_outOfDepth hu, same⟩

end Outlasts

end Walk

open Walk (Outlasts)

/-- Walks under one visitor are beside each other if they differ in the arity check and in custom
parts by what may be outlasted. -/
def Visitor.outlasting (v : Visitor σ C) (may settled : Stop → Prop) {x x' : Extensions σ C}
    {o o' : Options} (hr : o.rescanNodeScopes = o'.rescanNodeScopes)
    (hc : ∀ n, Outlasts may settled ((⟨v, x, o⟩ : Walker σ C).logged.checkArity n)
      ((⟨v, x', o'⟩ : Walker σ C).logged.checkArity n))
    (hentity : ∀ {d d'}, Descent.Related Eq (Outlasts may settled) d d' → ∀ (e : Entity) kind,
      e.kind = .custom kind → ∀ context,
      Outlasts may settled ((⟨v, x, o⟩ : Walker σ C).logged.runCustomEntity d e kind context)
        ((⟨v, x', o'⟩ : Walker σ C).logged.runCustomEntity d' e kind context))
    (hnode : ∀ {d d'}, Descent.Related Eq (Outlasts may settled) d d' → ∀ (n : Node) kind,
      n.kind = .custom kind → ∀ context,
      Outlasts may settled ((⟨v, x, o⟩ : Walker σ C).logged.runCustomNode d n kind context)
        ((⟨v, x', o'⟩ : Walker σ C).logged.runCustomNode d' n kind context))
    (htarget : ∀ {d d'}, Descent.Related Eq (Outlasts may settled) d d' → ∀ a context,
      Outlasts may settled ((⟨v, x, o⟩ : Walker σ C).logged.runCustomTarget d a context)
        ((⟨v, x', o'⟩ : Walker σ C).logged.runCustomTarget d' a context)) :
    Simulation (⟨v, x, o⟩ : Walker σ C).logged (⟨v, x', o'⟩ : Walker σ C).logged where
  contexts := Eq
  pieces := Outlasts may settled
  rescans := hr
  top h := congrArg v.top h
  pure _ := .pure
  fail _ := .throw
  outOfDepth := .throw
  bind := .bind
  derive d c c' h f g hf := by
    subst h
    exact .bind (.refl fun _ => List.prefix_append _ _) fun i => hf rfl
  setParent _ _ := .refl fun _ => List.prefix_rfl
  callEntity hook e c c' h i i' hi := by
    subst h
    cases eq_of_optionRel hi
    exact .refl fun _ => List.prefix_append _ _
  callNode hook n c c' h := by
    subst h
    exact .refl fun _ => List.prefix_append _ _
  callTarget hook a c c' h := by
    subst h
    exact .refl fun _ => List.prefix_append _ _
  checkArity := hc
  customEntity hd e kind hk c c' h := h ▸ hentity hd e kind hk c
  customNode hd n kind hk c c' h := h ▸ hnode hd n kind hk c
  customTarget hd a c c' h := h ▸ htarget hd a c

namespace Walker

variable {w : Walker σ C} {may settled : Stop → Prop}

theorem checkArity_outlasts (n : Node) :
    Outlasts may settled (w.logged.checkArity n) (w.logged.checkArity n) := by
  rw [checkArity_eq]
  cases n.refused? w.logged.options with
  | some expected => exact .throw
  | none => exact .pure

/-! ## Handlers -/

section Handlers

variable {d d' : Descent (Logged σ C) C} (hm : ∀ stop, may stop → stop = .outOfDepth)
  (hd : Descent.Related Eq (Outlasts may settled) d d')

include hd

theorem runRequest_outlasts (r : Request C) :
    Outlasts may settled (w.logged.runRequest d r) (w.logged.runRequest d' r) := by
  cases r with
  | node n context => exact .bind (hd.node n rfl) fun _ => .pure
  | entity e context => exact .bind (hd.entity e rfl) fun _ => .pure
  | nested parent e context =>
    have parent : Outlasts may settled (Walk.setParent e parent : Walk (Logged σ C) Unit)
        (Walk.setParent e parent) := .refl fun _ => List.prefix_rfl
    exact .bind parent fun _ => .bind (hd.entity e rfl) fun _ => .pure
  | target a context => exact hd.target a rfl
  | hook c => exact .refl fun _ => List.prefix_append _ _

theorem whole_outlasts (root : Entity) (context : C) :
    Outlasts may settled (Walk.whole d root context) (Walk.whole d' root context) :=
  .bind (.refl fun _ => List.prefix_rfl) fun _ => .bind (hd.entity root rfl) fun _ =>
    .refl fun _ => List.prefix_rfl

include hm

theorem runLifted_outlasts (p : Procedure σ C α) :
    Outlasts may settled (w.logged.runProcedure d p.lift) (w.logged.runProcedure d' p.lift) := by
  induction p with
  | done a => exact .pure
  | fail e => exact .throw
  | request r next ih => exact .bind (.attempt hm (runRequest_outlasts hd r)) ih
  | walk root context next ih => exact .bind (.attempt hm (whole_outlasts hd root context)) ih
  | look next ih => exact ⟨fun s => (ih _).grows s, fun s => (ih _).goes s⟩
  | store memory next ih =>
    exact ⟨fun s => ih.grows { s with memory := { s.memory with memory } },
      fun s => ih.goes { s with memory := { s.memory with memory } }⟩

theorem runProcedure_outlasts (p : Procedure σ C α) :
    Outlasts may settled (w.logged.runProcedure d p.logged)
      (w.logged.runProcedure d' p.logged) := by
  have marked (x : Entry C) : Outlasts may settled (w.logged.runProcedure d (.mark x))
      (w.logged.runProcedure d' (.mark x)) := .refl fun _ => List.prefix_append _ _
  simp only [Procedure.logged, runProcedure_bind]
  exact .bind (marked _) fun _ => .bind (runLifted_outlasts hm hd p) fun _ =>
    .bind (marked _) fun _ => .pure

/-- What a handler does, and what becomes of its answer. -/
theorem handler_outlasts (p : Procedure σ C Answer) (a : α) (e : Walk.Error) :
    Outlasts may settled
      (w.logged.runProcedure d p.logged >>= fun answer =>
        match answer with
        | .handled => pure a
        | .proceed => Walk.fail e)
      (w.logged.runProcedure d' p.logged >>= fun answer =>
        match answer with
        | .handled => pure a
        | .proceed => Walk.fail e) := by
  refine .bind (runProcedure_outlasts hm hd p) fun answer => ?_
  cases answer with
  | proceed => exact .throw
  | handled => exact .pure

theorem runCustomEntity_outlasts (e : Entity) (kind : String) (context : C) :
    Outlasts may settled (w.logged.runCustomEntity d e kind context)
      (w.logged.runCustomEntity d' e kind context) := by
  simp only [runCustomEntity, logged, Extensions.logged, Table.get?_map]
  cases w.extensions.entities.get? kind with
  | some handler => exact handler_outlasts hm hd _ _ _
  | none => exact .throw

theorem runCustomNode_outlasts (n : Node) (kind : String) (context : C) :
    Outlasts may settled (w.logged.runCustomNode d n kind context)
      (w.logged.runCustomNode d' n kind context) := by
  simp only [runCustomNode, logged, Extensions.logged, Table.get?_map]
  cases w.extensions.nodes.get? kind with
  | some handler => exact handler_outlasts hm hd _ _ _
  | none => exact .throw

theorem runCustomTarget_outlasts (a : Assignment) (context : C) :
    Outlasts may settled (w.logged.runCustomTarget d a context)
      (w.logged.runCustomTarget d' a context) := by
  simp only [runCustomTarget, logged, Extensions.logged, Table.get?_map]
  cases w.extensions.targets.get? a.target.kind.name with
  | some handler => exact handler_outlasts hm hd _ _ _
  | none => exact .throw

end Handlers

/-! ## Depth -/

/-- A walker is beside itself, given more depth. -/
def deepening (w : Walker σ C) : Simulation w.logged w.logged :=
  w.visitor.outlasting (· = .outOfDepth) (fun _ => False) rfl checkArity_outlasts
    (fun hd e kind _ => runCustomEntity_outlasts (fun _ => id) hd e kind)
    (fun hd n kind _ => runCustomNode_outlasts (fun _ => id) hd n kind)
    (fun hd => runCustomTarget_outlasts (fun _ => id) hd)

theorem descent_deeper (w : Walker σ C) (more depth : Nat) :
    Descent.Related Eq (Outlasts (· = .outOfDepth) fun _ => False) (w.logged.descent depth)
      (w.logged.descent (more + depth)) := by
  have grown := w.deepening.descent more
  exact w.deepening.descent_add more
    ⟨fun e _ _ h => .of_throw rfl id (grown.entity e h).grows,
      fun n _ _ h => .of_throw rfl id (grown.node n h).grows,
      fun a _ _ h => .of_throw rfl id (grown.target a h).grows⟩ depth

end Walker

/-- What did not lack depth goes in the same way when it has more. -/
theorem Walk.Outlasts.same {settled : Stop → Prop} {x y : Walk (Logged σ C) α} {x' y' : Walk σ α}
    (h : Outlasts (· = .outOfDepth) settled x y) (hx : Forgets x x') (hy : Forgets y y')
    {s : WalkState σ} (hs : ∀ t, x' s ≠ .error .outOfDepth t) :
    y' s = x' s ∧ y.log s = x.log s := by
  rcases h.goes s.withLog with same | ⟨stop, t, stopped, rfl, -⟩
  · refine ⟨hy.congr hx same, ?_⟩
    unfold Walk.log Walk.final
    rw [same]
  · exact (hs _ (hx.error stopped)).elim

namespace Walker

/-- More depth changes nothing about a walk that has depth enough. -/
theorem walk_deeper (w : Walker σ C) {depth : Nat} (more : Nat) (root : Entity) (context : C)
    {s : WalkState σ} (hs : ∀ t, w.walk depth root context s ≠ .error .outOfDepth t) :
    w.walk (more + depth) root context s = w.walk depth root context s ∧
      w.walkLog (more + depth) root context s = w.walkLog depth root context s := by
  have walks : Outlasts (· = .outOfDepth) (fun _ => False) (w.logged.walk depth root context)
      (w.logged.walk (more + depth) root context) :=
    whole_outlasts (w.descent_deeper more depth) root context
  exact walks.same (w.walk_logged depth root context) (w.walk_logged (more + depth) root context) hs

end Walker

end SyntaxWalk
