import Mathlib.Logic.Relation
import SyntaxWalk.Proofs.Plan
import SyntaxWalk.Proofs.Tree

/-!
# Which nodes lead to which

A node leads to its traversed children and, if it is an assignment, to the operands of its target.
A block expression as a target stands for its last child, so the operands are those of the node at
the end of a chain. No plan comes to a child that is not traversed, whatever the number of children
(`NodeKind.plan_traversed`), and all children that it asks for are there if the kind accepts their
number (`NodeKind.plan_supplied`).
-/

namespace SyntaxWalk

namespace Node

/-- As a target, a block expression stands for its last child. -/
def StandsFor (t u : Node) : Prop :=
  t.kind = .blockExpr ∧ t.lastChild? = some u

/-- What a target comes to through the last children of block expressions. -/
abbrev TargetChain : Node → Node → Prop :=
  Relation.ReflTransGen StandsFor

/-- The children of a target that are visited when it is assigned to. -/
def operands (t : Node) : List Node :=
  match t.kind with
  | .arrayRef => (t.child? 0).toList ++ t.children.drop 2
  | .objectRef => (t.child? 0).toList
  | _ => []

/-- A target of a shape that can be assigned to, at the end of its chain. -/
def Assignable (t : Node) : Prop :=
  ∃ u, TargetChain t u ∧
    (u.kind = .var ∨ (u.kind = .arrayRef ∨ u.kind = .objectRef) ∧ u.isWellFormed = true)

/-- A visit of one node comes to another directly. -/
inductive Leads : Node → Node → Prop where
  | child {n m i} (hi : i ∈ n.kind.traversedChildren n.childCount) (hm : n.child? i = some m) :
      Leads n m
  | target {n t u m} (hk : n.kind.isAssignment = true) (ht : n.child? 0 = some t)
      (hu : TargetChain t u) (hm : m ∈ u.operands) : Leads n m

/-- A visit of one node comes to another. -/
abbrev Reaches : Node → Node → Prop :=
  Relation.ReflTransGen Leads

/-- What a walk asks of a node by itself. -/
structure Proper (n : Node) : Prop where
  builtIn : ∀ kind, n.kind ≠ .custom kind
  wellFormed : n.isWellFormed = true
  target : n.kind.isAssignment = true → ∀ t, n.child? 0 = some t → t.Assignable

theorem mem_of_mem_operands {t m : Node} (h : m ∈ t.operands) : m ∈ t.children := by
  have first (h : m ∈ (t.child? 0).toList) : m ∈ t.children :=
    mem_of_child? (Option.mem_toList.1 h)
  unfold operands at h
  split at h
  · rcases List.mem_append.1 h with h | h
    · exact first h
    · exact List.mem_of_mem_drop h
  · exact first h
  · cases h

theorem TargetChain.mem_subtree {b t u : Node} (h : t.TargetChain u) (ht : t ∈ b.subtree) :
    u ∈ b.subtree := by
  induction h with
  | refl => exact ht
  | tail _ hu ih => exact mem_subtree_children ih (mem_of_lastChild? hu.2)

/-- A visit of a node stays below it. -/
theorem Reaches.mem_subtree {b n : Node} (h : b.Reaches n) : n ∈ b.subtree := by
  induction h with
  | refl => exact b.mem_subtree_self
  | tail _ leads ih =>
    cases leads with
    | child _ hm => exact mem_subtree_children ih (mem_of_child? hm)
    | target _ ht hu hm =>
      have target := TargetChain.mem_subtree hu (mem_subtree_children ih (mem_of_child? ht))
      exact mem_subtree_children target (mem_of_mem_operands hm)

theorem exists_child_of_lt {n : Node} {i : Nat} (h : i < n.childCount) :
    ∃ m, n.child? i = some m :=
  ⟨n.children[i], List.getElem?_eq_getElem h⟩

theorem lt_of_child? {n m : Node} {i : Nat} (h : n.child? i = some m) : i < n.childCount :=
  (List.getElem?_eq_some_iff.1 h).1

theorem child?_eq_none {n : Node} {i : Nat} (h : n.childCount ≤ i) : n.child? i = none :=
  List.getElem?_eq_none h

end Node

/-- The children that a step asks for. -/
def Step.needs : Step → List Nat
  | .visit i | .visitLocal i => [i]
  | .visitProtected i j | .assign i j => [i, j]
  | .between _ => []

namespace NodeKind

theorem mem_span {i start stop count : Nat} (h : i ∈ span start stop count) :
    start ≤ i ∧ i < stop ∧ i < count := by
  have := List.mem_range'_1.1 h
  omega

theorem mem_span_of {i start stop count : Nat} (hl : start ≤ i) (hu : i < stop) (hc : i < count) :
    i ∈ span start stop count :=
  List.mem_range'_1.2 (by omega)

theorem lt_of_mem_traversedChildren {kind : NodeKind} {count i : Nat}
    (h : i ∈ kind.traversedChildren count) : i < count := by
  cases kind with
  | ifGoto =>
    simp only [traversedChildren] at h
    split_ifs at h <;> simp at h <;> omega
  | call | arrayRef =>
    rcases List.mem_append.1 h with h | h <;> exact (mem_span h).2.2
  | functionExpr | functionStmt | getCaughtException | thisExpr | superExpr | var | constant
  | gotoStmt | empty | primitive | voidExpr | custom => cases h
  | _ => exact (mem_span h).2.2

/-- A plan visits no other children than those that are traversed. -/
theorem plan_traversed {kind : NodeKind} {count : Nat} {steps : List Step}
    (hp : kind.plan? count = some steps) {step : Step} (hs : step ∈ steps) {i : Nat}
    (hi : i ∈ step.visited) (hc : i < count) : i ∈ kind.traversedChildren count := by
  have visited : i ∈ steps.flatMap Step.visited := List.mem_flatMap.2 ⟨step, hs, hi⟩
  clear hs hi
  cases kind with
  | custom => cases hp
  | functionExpr | functionStmt | getCaughtException | thisExpr | superExpr | var | constant
  | gotoStmt | empty | primitive | voidExpr =>
    cases hp
    cases visited
  | blockExpr | blockStmt =>
    exact mem_span_of (Nat.zero_le i) hc hc
  | newExpr | catchClause =>
    cases hp
    rw [visits_visited] at visited
    exact mem_span_of (List.mem_range'_1.1 visited).1 hc hc
  | call | arrayRef =>
    cases hp
    rw [List.flatMap_cons, visits_visited] at visited
    refine List.mem_append.2 ((List.mem_append.1 visited).imp (fun h => ?_) fun h => ?_)
    · cases List.mem_singleton.1 h
      exact mem_span_of le_rfl Nat.one_pos hc
    · exact mem_span_of (List.mem_range'_1.1 h).1 hc hc
  | objectLiteral | arrayLiteral => exact mem_span_of (Nat.zero_le i) hc hc
  | ifGoto =>
    simp only [plan?] at hp
    simp only [traversedChildren]
    split_ifs at hp ⊢ <;> cases hp <;> simpa [Step.visited] using visited
  | declStmt | returnStmt | labelStmt | ifStmt | ifExpr =>
    cases hp
    split_ifs at visited <;> simp [Step.visited] at visited <;>
      exact mem_span_of (by omega) (by omega) hc
  | _ =>
    cases hp
    simp [Step.visited] at visited
    exact mem_span_of (by omega) (by omega) hc

/-- A plan for an accepted number of children asks for no child that is not there. -/
theorem plan_supplied {kind : NodeKind} {count : Nat} {steps : List Step}
    (ha : kind.arity.all (·.accepts count)) (hp : kind.plan? count = some steps) {step : Step}
    (hs : step ∈ steps) {i : Nat} (hi : i ∈ step.needs) : i < count := by
  cases plan_shape hp with
  | localScope hk =>
    subst hk
    obtain rfl := beq_iff_eq.1 ha
    cases List.mem_singleton.1 hs
    cases List.mem_singleton.1 hi
    exact Nat.one_pos
  | unwind hk =>
    subst hk
    obtain rfl := beq_iff_eq.1 ha
    have needed : ∀ step ∈ [Step.visitProtected 0 1, .visit 1], ∀ i ∈ step.needs, i < 2 := by
      decide
    exact needed step hs i hi
  | assign hk =>
    have two : 2 ≤ count := by
      cases kind with
      | assign | assignPreOp | assignPostOp =>
        obtain rfl := beq_iff_eq.1 ha
        decide
      | _ => cases hk
    have needed : ∀ step ∈ [Step.assign 0 1], ∀ i ∈ step.needs, i < 2 := by decide
    exact (needed step hs i hi).trans_le two
  | plain _ _ _ plain =>
    have visited : i ∈ step.visited := by
      cases step with
      | visit | between => exact hi
      | _ => exact (plain _ hs).elim
    have traversed : i ∈ kind.traversedChildren count :=
      plan_visited ha hp ▸ List.mem_flatMap.2 ⟨step, hs, visited⟩
    exact lt_of_mem_traversedChildren traversed

/-- A built-in kind has a plan for every number of children that it accepts. -/
theorem plan?_isSome {kind : NodeKind} {count : Nat} (hk : ∀ name, kind ≠ .custom name)
    (ha : kind.arity.all (·.accepts count)) : (kind.plan? count).isSome := by
  cases kind with
  | custom name => exact (hk name rfl).elim
  | ifGoto =>
    rcases Bool.or_eq_true_iff.1 ha with h | h <;> obtain rfl := beq_iff_eq.1 h <;> rfl
  | _ => rfl

end NodeKind

/-- A step of the plan of a node comes to traversed children and to the target of an assignment, and
so does what it takes for cleanup code. -/
structure Step.Comes (n : Node) (step : Step) : Prop where
  traversed {i} (hi : i ∈ step.visited) (hc : i < n.childCount) :
    i ∈ n.kind.traversedChildren n.childCount
  cleanup {i j} (h : step = .visitProtected i j) (hc : j < n.childCount) :
    j ∈ n.kind.traversedChildren n.childCount
  target {i j} (h : step = .assign i j) : n.kind.isAssignment = true ∧ i = 0

theorem Node.plan_comes {n : Node} {steps : List Step}
    (hp : n.kind.plan? n.childCount = some steps) : ∀ step ∈ steps, step.Comes n := by
  intro step hs
  have fits := NodeKind.plan_fits hp step hs
  refine ⟨fun hi hc => NodeKind.plan_traversed hp hs hi hc, fun h hc => ?_, fun h => ?_⟩
  · subst h
    obtain ⟨hk, -, rfl⟩ := fits
    rw [hk] at hp ⊢
    cases hp
    exact NodeKind.mem_span_of (Nat.zero_le 1) Nat.one_lt_two hc
  · cases NodeKind.plan_shape hp with
    | localScope | unwind => simp_all
    | assign hk =>
      cases List.mem_singleton.1 hs
      cases h
      exact ⟨hk, rfl⟩
    | plain _ _ _ plain =>
      cases h
      exact (plain _ hs).elim

end SyntaxWalk
