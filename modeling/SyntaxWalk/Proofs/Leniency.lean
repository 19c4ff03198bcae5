import SyntaxWalk.Proofs.Failure
import SyntaxWalk.Proofs.Outlast

/-!
# Walks without the check of numbers of children

A walk that does not check numbers of children does what one that checks them does, up to where the
check ends that one; from there it may go on (`Walker.unchecked_goes_further`). The two walks are
beside each other as said by `Walk.Outlasts`.
-/

namespace SyntaxWalk

variable {σ C α β : Type}

/-- An error names a number of children that the kind of the node does not accept. -/
def Walk.Error.BreaksArity : Walk.Error → Prop
  | .malformedNode kind expected found _ =>
    kind.arity = some expected ∧ expected.accepts found = false
  | _ => False

/-- A walk has stopped for a number of children that is not accepted. -/
def Stop.BreaksArity : Stop → Prop
  | .failed e => e.BreaksArity
  | .outOfDepth => False

theorem Walk.Outlasts.eases {settled : Stop → Prop} {x y : Walk (Logged σ C) α}
    (h : Outlasts Stop.BreaksArity settled x y) (s : WalkState (Logged σ C)) :
    y s = x s ∨ ∃ e t, x s = .error (.failed e) t ∧ e.BreaksArity ∧
      t.memory.log <+: (y.final s).memory.log := by
  rcases h.goes s with hs | ⟨stop, t, hs, breaks, ht, -⟩
  · exact .inl hs
  · cases stop with
    | failed e => exact .inr ⟨e, t, hs, breaks, ht⟩
    | outOfDepth => exact breaks.elim

namespace Walker

/-- A walker without extensions, with or without the check of numbers of children. -/
def bare (v : Visitor σ C) (rescan check : Bool) : Walker σ C where
  visitor := v
  options := ⟨rescan, check⟩

theorem checkArity_eases (v : Visitor σ C) (rescan : Bool) (n : Node) :
    Walk.Outlasts Stop.BreaksArity (fun _ => False) ((bare v rescan true).logged.checkArity n)
      ((bare v rescan false).logged.checkArity n) := by
  have unchecked : n.refused? (bare v rescan false).options = none := by
    cases h : n.refused? (bare v rescan false).options with
    | none => rfl
    | some expected => cases (Node.refused?_eq_some.1 h).1
  rw [checkArity_eq, checkArity_eq]
  simp only [logged, unchecked]
  cases h : n.refused? (bare v rescan true).options with
  | none => exact .pure
  | some expected => exact .of_throw (Node.refused?_eq_some.1 h).2 id fun _ => List.prefix_rfl

/-- A walk that checks numbers of children is beside one that does not. -/
def easing (v : Visitor σ C) (rescan : Bool) :
    Simulation (bare v rescan true).logged (bare v rescan false).logged :=
  v.outlasting Stop.BreaksArity (fun _ => False) rfl (checkArity_eases v rescan)
    (fun _ _ _ _ _ => .throw) (fun _ _ _ _ _ => .throw) (fun _ _ _ => .throw)

theorem walk_eases (v : Visitor σ C) (rescan : Bool) (depth : Nat) (root : Entity) (context : C) :
    Walk.Outlasts Stop.BreaksArity (fun _ => False)
      ((bare v rescan true).logged.walk depth root context)
      ((bare v rescan false).logged.walk depth root context) :=
  whole_outlasts ((easing v rescan).descent depth) root context

/-! ## Where the check ends a walk -/

end Walker

/-- The node whose number of children is checked at the beginning of a task. -/
def Task.checked? : Task C → Option Node
  | .openNode n _ => some n
  | .target a _ _ =>
    match a.target.kind with
    | .arrayRef | .objectRef => some a.target
    | _ => none
  | _ => none

namespace Walker

/-- A walk ends in an error that its check of a number of children has raised. -/
def EndsAtCheck (w : Walker σ C) (depth : Nat) (root : Entity) (context : C) (s : WalkState σ) :
    Prop :=
  ∃ task rest n e t, w.walk depth root context s = .error (.failed e) t ∧
    w.Reaches (start root context s.memory) (task :: rest, t) ∧
    w.act t.parents task = .fail e ∧ task.checked? = some n ∧
    w.checkArity n t = .error (.failed e) t

/-- A check is what has ended a walk if and only if the error names a number of children that is not
accepted. -/
theorem endsAtCheck_iff {w : Walker σ C} (hx : w.extensions = {})
    (hc : w.options.checkArity = true) {depth : Nat} {root : Entity} {context : C}
    {s : WalkState σ} :
    w.EndsAtCheck depth root context s ↔
      ∃ e t, w.walk depth root context s = .error (.failed e) t ∧ e.BreaksArity := by
  constructor
  · rintro ⟨task, rest, n, e, t, h, -, -, -, hn⟩
    refine ⟨e, t, h, ?_⟩
    rw [checkArity_eq] at hn
    cases hr : n.refused? w.options with
    | none =>
      rw [hr] at hn
      cases hn
    | some expected =>
      rw [hr] at hn
      cases hn
      exact (Node.refused?_eq_some.1 hr).2
  · rintro ⟨e, t, h, breaks⟩
    obtain ⟨left, reached, task, rest, rfl, hact⟩ := walk_error hx h
    have refused {n : Node} {expected : Arity} (hr : n.refused? w.options = some expected) :
        w.checkArity n t = .error (.failed (.malformed n expected)) t := by
      rw [checkArity_eq, hr]
      rfl
    suffices checked : ∃ n, task.checked? = some n ∧ w.checkArity n t = .error (.failed e) t by
      obtain ⟨n, hn, hcheck⟩ := checked
      exact ⟨task, rest, n, e, t, h, reached, hact, hn, hcheck⟩
    have hs := supplied hc reached task List.mem_cons_self
    cases act_fails hact with
    | entity | node | unsupported => exact breaks.elim
    | refused hr => exact ⟨_, rfl, refused hr⟩
    | refusedTarget hk hr =>
      refine ⟨_, ?_, refused hr⟩
      rcases hk with hk | hk <;> simp only [Task.checked?, hk]
    | @emptyBlock a =>
      -- Any number of children is accepted of a block expression, so the error breaks nothing.
      have hk : a.target.kind = .blockExpr := hs
      have arity := breaks.1
      rw [hk] at arity
      cases arity
    | lacking hl => exact (hs.not_lacks hc hl).elim

/-- Without the check of numbers of children a walk ends as it does with it, having called the same
hooks, unless it is the check that ends it; then it has called at least the same hooks. -/
theorem unchecked_goes_further (v : Visitor σ C) (rescan : Bool) (depth : Nat) (root : Entity)
    (context : C) (s : WalkState σ) :
    let checked := bare v rescan true
    let unchecked := bare v rescan false
    (¬ checked.EndsAtCheck depth root context s →
      unchecked.walk depth root context s = checked.walk depth root context s ∧
        unchecked.walkLog depth root context s = checked.walkLog depth root context s) ∧
    (checked.EndsAtCheck depth root context s →
      checked.walkLog depth root context s <+: unchecked.walkLog depth root context s) := by
  intro checked unchecked
  have log (w : Walker σ C) : w.walkLog depth root context s =
      ((w.logged.walk depth root context).final s.withLog).memory.log := rfl
  rcases (walk_eases v rescan depth root context).eases s.withLog with same | ⟨e, t, h, he, ht⟩
  · have logs : unchecked.walkLog depth root context s = checked.walkLog depth root context s := by
      rw [log, log, Walk.final, Walk.final, same]
    refine ⟨fun _ => ⟨?_, logs⟩, fun _ => logs ▸ List.prefix_rfl⟩
    exact (walk_logged unchecked depth root context).congr
      (walk_logged checked depth root context) same
  · have ends : checked.EndsAtCheck depth root context s :=
      (endsAtCheck_iff rfl rfl).2 ⟨e, _, (walk_logged checked depth root context).error h, he⟩
    refine ⟨fun h => (h ends).elim, fun _ => ?_⟩
    rw [log, Walk.final, h]
    exact ht

end Walker

end SyntaxWalk
