import SyntaxWalk.Proofs.Depth

/-!
# What a walk that succeeds has come to

A visitor that takes nothing over leaves a walk no way around any construct. If the walk checks
numbers of children and succeeds, it has come to all that there is to come to, so the depth it had
is enough by the tree alone (`Walker.allowance_of_walk_ok`). This is the converse of
`Walker.walk_ends`: together they say how much depth a walk takes.
-/

namespace SyntaxWalk

variable {σ C α β : Type}

namespace Walk.Yields

variable {x : Walk σ α} {f : α → Walk σ β} {P : α → Prop} {Q : β → Prop}

theorem any : x.Yields fun _ => True :=
  ⟨fun _ => trivial⟩

theorem imp (h : x.Yields P) {P' : α → Prop} (hp : ∀ a, P a → P' a) : x.Yields P' :=
  ⟨fun hs => hp _ (h.ok hs)⟩

end Walk.Yields

/-- A visitor that never takes over. -/
def Visitor.Proceeds (v : Visitor σ C) : Prop :=
  ∀ call m, (v.answer call m).1 = .proceed

/-- What a step of the plan of a node comes to is allowed. -/
structure Step.Heeded (a : Allowance) (top : Entity) (n : Node) (step : Step) : Prop where
  visited {i m} (hi : i ∈ step.visited) (hm : n.child? i = some m) : a.node m top
  target {i j t} (h : step = .assign i j) (ht : n.child? i = some t) : a.target t top

/-- A step that visits one child and is not an assignment. -/
theorem Step.Heeded.of_visited {a : Allowance} {top : Entity} {n : Node} {step : Step} {i : Nat}
    (hv : step.visited = [i]) (hs : ∀ i j, step ≠ .assign i j)
    (h : ∀ m, n.child? i = some m → a.node m top) : step.Heeded a top n := by
  refine ⟨fun hi hm => ?_, fun he => (hs _ _ he).elim⟩
  rw [hv] at hi
  cases List.mem_singleton.1 hi
  exact h _ hm

theorem NodeKind.assign_mem_plan {kind : NodeKind} {count : Nat} {steps : List Step}
    (hk : kind.isAssignment = true) (hp : kind.plan? count = some steps) :
    Step.assign 0 1 ∈ steps := by
  cases plan_shape hp with
  | localScope h | unwind h =>
    rw [h] at hk
    cases hk
  | assign => exact List.mem_singleton_self _
  | plain _ _ h =>
    rw [h] at hk
    cases hk

namespace Walker

variable {w : Walker σ C}

/-- What the operations of a layer do without an error is allowed. -/
structure Heeds (w : Walker σ C) (d : Descent σ C) (a : Allowance) : Prop where
  entity (e context) : (d.entity e context).Yields fun _ => a.entity e (w.visitor.top context)
  node (n context) : (d.node n context).Yields fun _ => a.node n (w.visitor.top context)
  target (b : Assignment) (context) : (d.target b context).Yields fun answer =>
    answer = .proceed ∧ a.target b.target (w.visitor.top context)

theorem requireChild_yields (n : Node) (i : Nat) :
    (Walk.requireChild n i : Walk σ Node).Yields fun m => n.child? i = some m :=
  Walk.Ends.requireChild.toYields

theorem checkArity_yields (hc : w.options.checkArity = true) (n : Node) :
    (w.checkArity n).Yields fun _ => n.kind.arity.all (·.accepts n.childCount) := by
  rw [checkArity_eq]
  cases hr : n.refused? w.options with
  | none => exact .pure (Node.accepts_of_refused? hc hr)
  | some expected => exact .fail

section Layer

variable {d : Descent σ C} {a : Allowance} {into : Entity → Entity → Entity} (hd : w.Heeds d a)
  (hp : w.visitor.Proceeds)

include hp in
theorem call_yields (c : HookCall C) : (w.call c).Yields (· = .proceed) := by
  constructor
  rintro s _ t ⟨⟩
  exact hp _ _

include hp in
theorem callEntity_yields (hook : EntityHook) (e : Entity) (context : C) (inner : Option C) :
    (w.callEntity hook e context inner).Yields (· = .proceed) := by
  constructor
  rintro s _ t ⟨⟩
  exact hp _ _

include hd

theorem visitScoped_yields (parent : Entity) (context : C) (es : List Entity) :
    (Walk.visitScoped d parent context es).Yields fun _ =>
      ∀ e ∈ es, a.entity e (w.visitor.top context) := by
  induction es with
  | nil => exact .pure (List.forall_mem_nil _)
  | cons e es ih =>
    exact .bind .any fun _ _ => .bind (hd.entity e context) fun _ he =>
      ih.imp fun _ hes => List.forall_mem_cons.2 ⟨he, hes⟩

theorem visitEach_yields (context : C) (ns : List Node) :
    (Walk.visitEach d context ns).Yields fun _ => ∀ n ∈ ns, a.node n (w.visitor.top context) := by
  induction ns with
  | nil => exact .pure (List.forall_mem_nil _)
  | cons n ns ih =>
    exact .bind (hd.node n context) fun _ hn => ih.imp fun _ hns =>
      List.forall_mem_cons.2 ⟨hn, hns⟩

/-! ## Nodes -/

/-- A child that a step visits, under a context with the same entity on top. -/
theorem visitChild_yields {n : Node} {context inner : C} {i : Nat}
    (ht : w.visitor.top inner = w.visitor.top context) {f : Unit → Walk σ α} {Q : α → Prop}
    (hf : (∀ m, n.child? i = some m → a.node m (w.visitor.top context)) → (f ()).Yields Q) :
    (Walk.requireChild n i >>= fun m => d.node m inner >>= f).Yields Q := by
  refine .bind (requireChild_yields n i) fun m hm => .bind (hd.node m inner) fun _ h => hf ?_
  intro m' hm'
  cases hm.symm.trans hm'
  exact ht ▸ h

variable (hv : w.visitor.Nests (.of into))

include hv in
theorem runStep_yields (hp : w.visitor.Proceeds) (n : Node) (context : C) (step : Step) :
    (w.runStep d n context step).Yields fun answer =>
      answer = .proceed ∧ step.Heeded a (w.visitor.top context) n := by
  cases step with
  | visit i => exact visitChild_yields hd rfl fun h => .pure ⟨rfl, .of_visited rfl nofun h⟩
  | visitLocal i =>
    exact .bind (derive_ends hv _ _).toYields fun inner ht =>
      visitChild_yields hd ht fun h => .pure ⟨rfl, .of_visited rfl nofun h⟩
  | visitProtected i j =>
    refine .bind (requireChild_yields n i) fun body hb => .bind .any fun cleanup _ =>
      .bind (derive_ends hv _ _).toYields fun inner ht => .bind (hd.node body inner) fun _ h =>
        .pure ⟨rfl, .of_visited rfl nofun fun m hm => ?_⟩
    have top : w.visitor.top inner = w.visitor.top context := ht
    cases hb.symm.trans hm
    exact top ▸ h
  | between point => exact .bind (call_yields hp _) fun _ _ => .pure ⟨rfl, nofun, nofun⟩
  | assign i j =>
    refine .bind (requireChild_yields n i) fun target ht =>
      .bind (requireChild_yields n j) fun rhs hr => .bind (hd.node rhs context) fun _ right =>
        (hd.target ⟨target, rhs, n⟩ context).imp fun answer ⟨proceeds, left⟩ =>
          ⟨proceeds, fun hi hm => ?_, fun he hm => ?_⟩
    · cases List.mem_singleton.1 hi
      cases hr.symm.trans hm
      exact right
    · cases he
      cases ht.symm.trans hm
      exact left

include hv in
theorem runPlan_yields (hp : w.visitor.Proceeds) (n : Node) (context : C) (steps : List Step) :
    (w.runPlan d n context steps).Yields fun answer =>
      answer = .proceed ∧ ∀ step ∈ steps, step.Heeded a (w.visitor.top context) n := by
  induction steps with
  | nil => exact .pure ⟨rfl, List.forall_mem_nil _⟩
  | cons step steps ih =>
    refine .bind (runStep_yields hd hv hp n context step) fun answer ⟨proceeds, first⟩ => ?_
    subst proceeds
    exact ih.imp fun _ ⟨proceeds, rest⟩ => ⟨proceeds, List.forall_mem_cons.2 ⟨first, rest⟩⟩

include hv in
/-- A node with an accepted number of children, apart from what is scoped to it. -/
theorem runNode_yields (hp : w.visitor.Proceeds) (hw : w.extensions = {}) {n : Node}
    (ha : n.kind.arity.all (·.accepts n.childCount)) (context : C) :
    (w.runNode d n context).Yields fun answer =>
      answer = .proceed ∧
        (∀ i m, i ∈ n.kind.traversedChildren n.childCount → n.child? i = some m →
          a.node m (w.visitor.top context)) ∧
        (n.kind.isAssignment = true → ∀ t, n.child? 0 = some t →
          a.target t (w.visitor.top context)) := by
  unfold runNode
  split
  · simp only [runCustomNode, hw]
    exact .fail
  · unfold runBuiltIn
    split
    · exact .fail
    · rename_i steps plan
      refine .bind (call_yields hp _) fun _ proceeds => ?_
      subst proceeds
      refine .bind (runPlan_yields hd hv hp n context steps) fun _ inside => ?_
      obtain ⟨rfl, heeded⟩ := inside
      refine .bind .any fun _ _ => .pure ⟨rfl, fun i m hi hm => ?_, fun hk t ht => ?_⟩
      · rw [← NodeKind.plan_visited ha plan] at hi
        obtain ⟨step, hs, hi⟩ := List.mem_flatMap.1 hi
        exact (heeded step hs).visited hi hm
      · exact (heeded _ (NodeKind.assign_mem_plan hk plan)).target rfl ht

include hv in
theorem visitNodeIn_yields (hp : w.visitor.Proceeds) (hw : w.extensions = {})
    (hc : w.options.checkArity = true) (n : Node) (context : C) :
    (w.visitNodeIn d n context).Yields fun _ =>
      (a.above (.of into)).node n (w.visitor.top context) := by
  refine .bind (call_yields hp _) fun _ proceeds => ?_
  subst proceeds
  refine .bind (checkArity_yields hc n) fun _ ha =>
    .bind (runNode_yields hd hv hp hw ha context) fun _ ⟨proceeds, children, target⟩ => ?_
  subst proceeds
  exact .bind (visitScoped_yields hd _ context _) fun _ hoisted => .bind .any fun _ _ =>
    .pure ⟨children, target, hoisted⟩

/-! ## Assignment targets -/

omit hd in
theorem runTarget_yields (hp : w.visitor.Proceeds) (b : Assignment) (context : C)
    {inside : Walk σ Answer} {P : Prop} (h : inside.Yields fun answer => answer = .proceed ∧ P) :
    (w.runTarget b context inside).Yields fun answer => answer = .proceed ∧ P := by
  refine .bind (call_yields hp _) fun _ proceeds => ?_
  subst proceeds
  refine .bind h fun _ ⟨proceeds, hP⟩ => ?_
  subst proceeds
  exact .bind .any fun _ _ => .pure ⟨rfl, hP⟩

/-- The base of a reference. -/
theorem visitBase_yields (t : Node) (context : C) {f : Unit → Walk σ α} {Q : α → Prop}
    (hf : (∀ m ∈ (t.child? 0).toList, a.node m (w.visitor.top context)) → (f ()).Yields Q) :
    (Walk.requireChild t 0 >>= fun m => d.node m context >>= f).Yields Q :=
  visitChild_yields hd rfl fun h => hf fun m hm => h m (Option.mem_toList.1 hm)

theorem dispatchIn_yields (hp : w.visitor.Proceeds) (hw : w.extensions = {}) (b : Assignment)
    (context : C) :
    (w.dispatchIn d b context).Yields fun answer =>
      answer = .proceed ∧ (a.above (.of into)).target b.target (w.visitor.top context) := by
  have closed {t u : Node} (hk : t.kind ≠ .blockExpr) : ¬ t.StandsFor u := fun h => hk h.1
  unfold dispatchIn
  split
  · rename_i hk
    refine .bind .any fun _ _ => runTarget_yields hp b context ?_
    refine visitBase_yields hd b.target context fun base =>
      .bind (visitEach_yields hd context _) fun _ indices => .pure ⟨rfl, fun m hm => ?_, ?_⟩
    · rw [Node.operands, hk] at hm
      exact (List.mem_append.1 hm).elim (base m) (indices m)
    · exact fun u hu => (closed (hk ▸ nofun) hu).elim
  · rename_i hk
    refine .bind .any fun _ _ => runTarget_yields hp b context ?_
    refine visitBase_yields hd b.target context fun base => .pure ⟨rfl, fun m hm => ?_, ?_⟩
    · rw [Node.operands, hk] at hm
      exact base m hm
    · exact fun u hu => (closed (hk ▸ nofun) hu).elim
  · rename_i hk
    refine runTarget_yields hp b context ?_
    split
    · rename_i last hl
      refine (hd.target { b with target := last } context).imp fun _ ⟨proceeds, h⟩ =>
        ⟨proceeds, fun m hm => ?_, fun u hu => ?_⟩
      · rw [Node.operands, hk] at hm
        cases hm
      · cases hl.symm.trans hu.2
        exact h
    · exact .fail
  · rename_i hk
    refine runTarget_yields hp b context (.pure ⟨rfl, fun m hm => ?_, fun u hu => ?_⟩)
    · rw [Node.operands, hk] at hm
      cases hm
    · exact (closed (hk ▸ nofun) hu).elim
  · simp only [runCustomTarget, hw]
    exact .fail

/-! ## Entities -/

include hv in
theorem runContainer_yields (hp : w.visitor.Proceeds) {e : Entity} (context : C)
    {derivation : Derivation} (hc : e.kind.isCode = false)
    (ht : ∀ outer, derivation.topBy (.of into) outer = Nesting.of into e outer) :
    (w.runContainer d e context derivation).Yields fun _ =>
      (a.above (.of into)).entity e (w.visitor.top context) := by
  refine .bind (derive_ends hv _ _).toYields fun inner hi =>
    .bind (callEntity_yields hp _ _ _ _) fun _ proceeds => ?_
  subst proceeds
  refine .bind (visitScoped_yields hd e inner _) fun _ held => .bind .any fun _ _ =>
    .pure ⟨fun _ _ top htop x hx => ?_, fun hk => ?_⟩
  · rw [ht] at hi
    obtain rfl : top = w.visitor.top inner := htop.trans hi.symm
    exact held x (Entity.mem_allScoped_of_mem_held hx)
  · rw [hc] at hk
    cases hk

include hv in
theorem runCode_yields (hp : w.visitor.Proceeds) {e : Entity} (context : C)
    (hk : e.kind.isCode = true) :
    (w.runCode d e context).Yields fun _ =>
      (a.above (.of into)).entity e (w.visitor.top context) := by
  refine .bind (derive_ends hv _ _).toYields fun inner hi =>
    .bind (callEntity_yields hp _ _ _ _) fun _ proceeds => ?_
  subst proceeds
  have top {t : Entity} (ht : t = into e (w.visitor.top context)) : w.visitor.top inner = t :=
    Eq.trans hi ht.symm
  refine .bind (visitEach_yields hd inner _) fun _ body =>
    .bind (visitScoped_yields hd e inner _) fun _ held => .bind .any fun _ _ =>
      .pure ⟨fun _ _ _ ht x hx => ?_, fun _ _ ht n hn => ?_⟩
  · rw [Entity.held, if_pos hk] at hx
    exact top ht ▸ held x hx
  · exact top ht ▸ body n (Option.mem_toList.2 hn)

include hv in
theorem visitEntityIn_yields (hp : w.visitor.Proceeds) (hw : w.extensions = {}) (e : Entity)
    (context : C) :
    (w.visitEntityIn d e context).Yields fun _ =>
      (a.above (.of into)).entity e (w.visitor.top context) := by
  have inside : (w.runEntity d e context).Yields fun _ =>
      (a.above (.of into)).entity e (w.visitor.top context) := by
    unfold runEntity
    split
    · rename_i hk
      exact runContainer_yields hd hv hp context (hk ▸ rfl) fun _ => rfl
    · rename_i hk
      exact runContainer_yields hd hv hp context (hk ▸ rfl) fun _ => rfl
    · rename_i hk
      exact runCode_yields hd hv hp context (hk ▸ rfl)
    · rename_i hk
      exact runCode_yields hd hv hp context (hk ▸ rfl)
    · rename_i hk
      refine ⟨fun _ => ⟨fun d hd => ?_, fun hc => ?_⟩⟩
      · rw [Entity.derivation?, hk] at hd
        cases hd
      · rw [hk] at hc
        cases hc
    · simp only [runCustomEntity, hw]
      exact .fail
  refine .bind (callEntity_yields hp _ _ _ _) fun _ proceeds => ?_
  subst proceeds
  exact .bind inside fun _ h => .bind .any fun _ _ => .pure h

end Layer

/-- What a walk does without an error in some depth is allowed in that depth by the tree alone. -/
theorem descent_heeds {into : Entity → Entity → Entity} (hv : w.visitor.Nests (.of into))
    (hp : w.visitor.Proceeds)
    (hw : w.extensions = {}) (hc : w.options.checkArity = true) (depth : Nat) :
    w.Heeds (w.descent depth) (allowance (.of into) depth) := by
  induction depth with
  | zero => exact ⟨fun _ _ => ⟨nofun⟩, fun _ _ => ⟨nofun⟩, fun _ _ => ⟨nofun⟩⟩
  | succ depth ih =>
    exact ⟨fun e context => visitEntityIn_yields ih hv hp hw e context,
      fun n context => visitNodeIn_yields ih hv hp hw hc n context,
      fun b context => dispatchIn_yields ih hp hw b context⟩

theorem allowance_of_walk_ok {into : Entity → Entity → Entity} (hv : w.visitor.Nests (.of into))
    (hp : w.visitor.Proceeds) (hw : w.extensions = {}) (hc : w.options.checkArity = true)
    {depth : Nat} {root : Entity} {context : C} {s t : WalkState σ} {table : ParentTable}
    (h : w.walk depth root context s = .ok table t) :
    (allowance (.of into) depth).entity root (w.visitor.top context) := by
  have walks : (w.walk depth root context).Yields fun _ =>
      (allowance (.of into) depth).entity root (w.visitor.top context) :=
    .bind .any fun _ _ => .bind ((descent_heeds hv hp hw hc depth).entity root context) fun _ h =>
      ⟨fun _ => h⟩
  exact walks.ok h

end Walker

end SyntaxWalk
