import Mathlib.Data.List.Basic
import Mathlib.Tactic.IntervalCases
import SyntaxWalk.Walk.Plan

/-!
# What plans consist of

With a number of children that its kind accepts, the plan of a node visits the children that are
traversed, in their order (`plan_visited`), whatever else it does between them. Only local scopes,
unwinds and assignments have steps of other kinds, and each has one plan (`Step.Shape`).
-/

namespace SyntaxWalk

namespace Step

/-- The children that a step visits as ordinary nodes. -/
def visited : Step → List Nat
  | .visit i | .visitLocal i | .visitProtected i _ => [i]
  | .between _ => []
  | .assign _ rhs => [rhs]

/-- The children that a step visits or takes apart. -/
def children (step : Step) : List Nat :=
  step.visited ++
    match step with
    | .assign target _ => [target]
    | _ => []

/-- What is gathered in a step, from children that are visited and from those taken apart. -/
def gather {β : Type} (visit takeApart : Nat → List β) (step : Step) : List β :=
  step.visited.flatMap visit ++
    match step with
    | .assign target _ => takeApart target
    | _ => []

/-- Visits of children under the context of the node, and hooks between them. -/
def IsPlain : Step → Prop
  | .visit _ | .between _ => True
  | _ => False

/-- A step can be part of a plan of the kind. -/
def Fits (kind : NodeKind) : Step → Prop
  | .visit i => i = 0 → kind ≠ .localScope ∧ kind ≠ .unwind
  | .visitLocal i => kind = .localScope ∧ i = 0
  | .visitProtected i j => kind = .unwind ∧ i = 0 ∧ j = 1
  | .between _ => True
  | .assign _ _ => kind.isAssignment = true

/-- The plans of a kind, as far as contexts and assignment targets are concerned. -/
inductive Shape (kind : NodeKind) : List Step → Prop where
  | localScope (h : kind = .localScope) : Shape kind [.visitLocal 0]
  | unwind (h : kind = .unwind) : Shape kind [.visitProtected 0 1, .visit 1]
  | assign (h : kind.isAssignment = true) : Shape kind [.assign 0 1]
  | plain {steps} (hl : kind ≠ .localScope) (hu : kind ≠ .unwind) (ha : kind.isAssignment = false)
      (h : ∀ step ∈ steps, step.IsPlain) : Shape kind steps

end Step

namespace NodeKind

theorem visits_visited (indices : List Nat) :
    (visits indices).flatMap Step.visited = indices := by
  induction indices with
  | nil => rfl
  | cons i is ih => exact congrArg (i :: ·) ih

theorem pairs_visited (k start : Nat) :
    ((List.range' start k 2).flatMap fun key =>
        [Step.visit key, .visit (key + 1), .between (.fieldInit key)]).flatMap Step.visited =
      List.range' start (2 * k) := by
  induction k generalizing start with
  | zero => rfl
  | succ k ih =>
    rw [List.range'_succ, Nat.mul_succ, List.range'_succ, List.range'_succ, List.flatMap_cons,
      List.flatMap_append, ih]
    rfl

theorem elements_visited (indices : List Nat) :
    (indices.flatMap fun i => [Step.visit i, .between (.initElement i)]).flatMap Step.visited =
      indices := by
  induction indices with
  | nil => rfl
  | cons i is ih => exact congrArg (i :: ·) ih

/-- A plan visits the children that are traversed. -/
theorem plan_visited {kind : NodeKind} {count : Nat} {steps : List Step}
    (ha : kind.arity.all (·.accepts count)) (hp : kind.plan? count = some steps) :
    steps.flatMap Step.visited = kind.traversedChildren count := by
  cases kind with
  | functionExpr | functionStmt | getCaughtException | thisExpr | superExpr | var | constant
  | gotoStmt | empty | primitive | voidExpr =>
    cases hp
    rfl
  | localScope | arrayLength | throwStmt | typeLiteralExpr | loopStmt | unaryExpr | objectRef
  | assign | unwind | tryStmt | cast | instanceOf | binaryExpr | assignPreOp | assignPostOp =>
    obtain rfl := beq_iff_eq.1 ha
    cases hp
    rfl
  | declStmt | returnStmt | labelStmt | assertStmt | ifStmt | ifExpr =>
    cases hp
    simp only [arity, Option.all_some, Arity.accepts, Bool.and_eq_true, decide_eq_true_eq] at ha
    obtain ⟨lo, hi⟩ := ha
    interval_cases count <;> rfl
  | ifGoto =>
    rcases Bool.or_eq_true_iff.1 ha with h | h <;> obtain rfl := beq_iff_eq.1 h <;> cases hp <;> rfl
  | blockExpr | blockStmt =>
    cases hp
    rw [visits_visited, List.range_eq_range', traversedChildren, span, Nat.min_self, Nat.sub_zero]
  | newExpr | catchClause =>
    cases hp
    rw [visits_visited, traversedChildren, span, Nat.min_self]
  | call | arrayRef =>
    cases hp
    have ha : 2 ≤ count := of_decide_eq_true ha
    rw [List.flatMap_cons, visits_visited, traversedChildren, span, span, Nat.min_self,
      Nat.min_eq_left (by omega)]
    rfl
  | switchStmt =>
    cases hp
    have ha : 2 ≤ count := of_decide_eq_true ha
    rw [traversedChildren, span, Nat.min_eq_left (by omega)]
    rfl
  | eachElementGet | eachElementHasNext =>
    cases hp
    have ha : 1 ≤ count := of_decide_eq_true ha
    rw [traversedChildren, span, Nat.min_eq_left (by omega)]
    rfl
  | objectLiteral =>
    cases hp
    have ha : count % 2 = 1 := beq_iff_eq.1 ha
    obtain ⟨k, rfl⟩ : ∃ k, count = 2 * k + 1 := ⟨count / 2, by omega⟩
    rw [List.flatMap_cons, fieldKeys, pairs_visited, traversedChildren, span, Nat.min_self]
    rw [show (2 * k + 1) / 2 = k by omega]
    rfl
  | arrayLiteral =>
    cases hp
    have ha : 1 ≤ count := of_decide_eq_true ha
    obtain ⟨k, rfl⟩ : ∃ k, count = k + 1 := ⟨count - 1, by omega⟩
    rw [List.flatMap_append, elements_visited, traversedChildren, span, Nat.min_self]
    rfl
  | custom => cases hp

theorem isPlain_of_mem_visits {indices : List Nat} {step : Step} (h : step ∈ visits indices) :
    step.IsPlain := by
  obtain ⟨i, -, rfl⟩ := List.mem_map.1 h
  trivial

theorem plan_shape {kind : NodeKind} {count : Nat} {steps : List Step}
    (hp : kind.plan? count = some steps) : Step.Shape kind steps := by
  cases kind with
  | localScope => cases hp; exact .localScope rfl
  | unwind => cases hp; exact .unwind rfl
  | assign | assignPreOp | assignPostOp => cases hp; exact .assign rfl
  | custom => cases hp
  | ifGoto =>
    refine .plain nofun nofun rfl ?_
    simp only [plan?] at hp
    split_ifs at hp <;> cases hp <;> simp [Step.IsPlain]
  | blockExpr | blockStmt | newExpr | catchClause =>
    cases hp
    exact .plain nofun nofun rfl fun _ => isPlain_of_mem_visits
  | call | arrayRef =>
    cases hp
    exact .plain nofun nofun rfl (List.forall_mem_cons.2 ⟨trivial, fun _ => isPlain_of_mem_visits⟩)
  | declStmt | returnStmt | labelStmt | ifStmt | ifExpr =>
    cases hp
    refine .plain nofun nofun rfl ?_
    split_ifs <;> simp [Step.IsPlain]
  | objectLiteral | arrayLiteral =>
    cases hp
    refine .plain nofun nofun rfl ?_
    simp only [List.cons_append, List.nil_append, List.forall_mem_cons, List.forall_mem_flatMap]
    simp [Step.IsPlain]
  | _ =>
    cases hp
    refine .plain nofun nofun rfl ?_
    simp [Step.IsPlain]

/-- A plan gathers what the children give that it visits, and then what the target of an assignment
gives. -/
theorem plan_gather_visited {β : Type} {kind : NodeKind} {count : Nat} {steps : List Step}
    (hp : kind.plan? count = some steps) (visit takeApart : Nat → List β) :
    steps.flatMap (Step.gather visit takeApart) =
      (steps.flatMap Step.visited).flatMap visit ++
        if kind.isAssignment then takeApart 0 else [] := by
  have untargeted
      (hs : ∀ step ∈ steps, step.gather visit takeApart = step.visited.flatMap visit)
      (hk : kind.isAssignment = false) :
      steps.flatMap (Step.gather visit takeApart) =
        (steps.flatMap Step.visited).flatMap visit ++
          if kind.isAssignment then takeApart 0 else [] := by
    rw [List.flatMap_assoc, hk, List.flatMap_congr hs, if_neg Bool.false_ne_true, List.append_nil]
  cases plan_shape hp with
  | localScope hk => exact untargeted (by simp [Step.gather]) (by rw [hk]; rfl)
  | unwind hk => exact untargeted (by simp [Step.gather]) (by rw [hk]; rfl)
  | assign hk =>
    rw [if_pos hk, List.flatMap_singleton, List.flatMap_singleton]
    rfl
  | plain _ _ hk hs =>
    refine untargeted (fun step h => ?_) hk
    cases step with
    | visit | between => exact List.append_nil _
    | _ => exact (hs _ h).elim

/-- With an accepted number of children, these are the traversed ones. -/
theorem plan_gather {β : Type} {kind : NodeKind} {count : Nat} {steps : List Step}
    (ha : kind.arity.all (·.accepts count)) (hp : kind.plan? count = some steps)
    (visit takeApart : Nat → List β) :
    steps.flatMap (Step.gather visit takeApart) =
      (kind.traversedChildren count).flatMap visit ++
        if kind.isAssignment then takeApart 0 else [] := by
  rw [plan_gather_visited hp, plan_visited ha hp]

theorem plan_fits {kind : NodeKind} {count : Nat} {steps : List Step}
    (h : kind.plan? count = some steps) : ∀ step ∈ steps, step.Fits kind := by
  cases plan_shape h with
  | localScope hk => simpa [Step.Fits] using hk
  | unwind hk => simp [Step.Fits, hk]
  | assign hk => simpa [Step.Fits] using hk
  | plain hl hu _ hs =>
    intro step hstep
    cases step with
    | visit i => exact fun _ => ⟨hl, hu⟩
    | between => trivial
    | _ => exact (hs _ hstep).elim

theorem plain_children {steps : List Step} (h : ∀ step ∈ steps, step.IsPlain) :
    steps.flatMap Step.children = steps.flatMap Step.visited := by
  refine List.flatMap_congr fun step hstep => ?_
  cases step with
  | visit | between => rfl
  | _ => exact (h _ hstep).elim

theorem nodup_zero_range' (start count : Nat) : (0 :: List.range' (start + 1) count).Nodup := by
  refine List.nodup_cons.2 ⟨fun h => ?_, List.nodup_range'⟩
  have := List.mem_range'_1.1 h
  omega

/-- A plan comes to no child twice, whatever the number of children. -/
theorem plan_nodup {kind : NodeKind} {count : Nat} {steps : List Step}
    (hp : kind.plan? count = some steps) : (steps.flatMap Step.children).Nodup := by
  cases plan_shape hp with
  | localScope | unwind | assign => decide
  | plain _ _ _ hs =>
    rw [plain_children hs]
    cases kind with
    | custom => cases hp
    | ifGoto =>
      simp only [plan?] at hp
      split_ifs at hp <;> cases hp <;> decide
    | blockExpr | blockStmt =>
      cases hp
      rw [visits_visited]
      exact List.nodup_range
    | newExpr | catchClause =>
      cases hp
      rw [visits_visited]
      exact List.nodup_range'
    | call | arrayRef =>
      cases hp
      rw [List.flatMap_cons, visits_visited]
      exact nodup_zero_range' 1 _
    | declStmt | returnStmt | labelStmt | ifStmt | ifExpr =>
      cases hp
      split_ifs <;> decide
    | objectLiteral =>
      cases hp
      rw [List.flatMap_cons, fieldKeys, pairs_visited]
      exact nodup_zero_range' 0 _
    | arrayLiteral =>
      cases hp
      rw [List.flatMap_append, elements_visited]
      exact nodup_zero_range' 0 _
    | _ =>
      cases hp
      decide

end NodeKind

end SyntaxWalk
