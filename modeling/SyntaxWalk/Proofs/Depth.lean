import SyntaxWalk.Proofs.Agenda
import SyntaxWalk.Proofs.Reach
import SyntaxWalk.Visitor.Collector
import SyntaxWalk.Visitor.Recorder

/-!
# The depth that a walk needs

What a construct brings up depends on the tree and on the entity on top, and so does the depth that
is enough for it (`allowance`); a walk without handlers does not need more
(`Walker.descent_within`).

When every file, type and code entity is on top of the context derived for it, and stays there
inside its body, a walk comes back to no construct it is inside of: entities that are scoped to a
node are declared by the entity on top, which is larger than they are. The size of the tree is then
depth enough (`Walker.walk_ne_outOfDepth`).
-/

namespace SyntaxWalk

/-- The entity on top of a derived context, when `outer` is on top of the one it is derived from. -/
def Derivation.top (d : Derivation) (outer : Entity) : Entity :=
  match d with
  | .file e | .type e | .code e => e
  | .localScope _ | .unwind _ => outer

/-- The entity on top of a context is always the one whose code the context is for. -/
def Visitor.Lexical {σ C : Type} (v : Visitor σ C) : Prop :=
  ∀ d context m, v.top (v.derive d context m).1 = d.top (v.top context)

theorem Collector.lexical : Collector.visitor.Lexical := by
  intro d context m
  cases d <;> rfl

theorem Recorder.lexical (config : Config) : (visitor config).Lexical := by
  intro d context m
  cases d <;> rfl

/-! ## Depth by the tree alone -/

/-- What may be on top inside an entity, given what is on top outside of it. -/
abbrev Nesting := (e outer inner : Entity) → Prop

namespace Nesting

/-- What is on top inside is determined by the entity and by what is on top outside. -/
def of (into : Entity → Entity → Entity) : Nesting := fun e outer inner => inner = into e outer

/-- Every entity is on top of what is inside of it. -/
def lexical : Nesting := .of fun e _ => e

/-- What was on top of the first context stays there. -/
def kept : Nesting := .of fun _ outer => outer

end Nesting

/-- What may be on top of a derived context, when `outer` is on top of the one it is derived
from. -/
def Derivation.topBy (into : Nesting) (d : Derivation) (outer inner : Entity) : Prop :=
  match d with
  | .file e | .type e | .code e => into e outer inner
  | .localScope _ | .unwind _ => inner = outer

/-- On top of the contexts that a visitor derives is what may be there. -/
def Visitor.Nests {σ C : Type} (v : Visitor σ C) (into : Nesting) : Prop :=
  ∀ (d : Derivation) context m, d.topBy into (v.top context) (v.top (v.derive d context m).1)

theorem Visitor.Lexical.nests {σ C : Type} {v : Visitor σ C} (h : v.Lexical) :
    v.Nests Nesting.lexical := by
  intro d context m
  rw [h]
  cases d <;> exact rfl

namespace Entity

/-- What an entity declares outside the nodes of its body. -/
def held (e : Entity) : List Entity :=
  if e.kind.isCode then e.scopedUnder .global else e.allScoped

theorem mem_allScoped_of_mem_held {e x : Entity} (h : x ∈ e.held) : x ∈ e.allScoped := by
  unfold held at h
  split at h
  · exact mem_allScoped_of_mem_scopedUnder h
  · exact h

theorem derivation?_of_isCode {e : Entity} (h : e.kind.isCode = true) :
    e.derivation? = some (.code e) := by
  unfold derivation?
  cases hk : e.kind <;> rw [hk] at h <;> first | rfl | cases h

end Entity

/-- What some depth is enough for: entities, nodes that are visited and targets, each under the
entity on top. -/
structure Allowance where
  entity (e top : Entity) : Prop
  node (n : Node) (top : Entity) : Prop
  target (t : Node) (top : Entity) : Prop

namespace Allowance

/-- One layer more is enough for what brings up nothing that the layers below are not enough for. -/
def above (into : Nesting) (below : Allowance) : Allowance where
  entity e top :=
    (∀ d, e.derivation? = some d → ∀ inner, into e top inner → ∀ x ∈ e.held,
        below.entity x inner) ∧
      (e.kind.isCode = true → ∀ inner, into e top inner → ∀ n, e.body = some n →
        below.node n inner)
  node n top :=
    (∀ i m, i ∈ n.kind.traversedChildren n.childCount → n.child? i = some m → below.node m top) ∧
      (n.kind.isAssignment = true → ∀ t, n.child? 0 = some t → below.target t top) ∧
      ∀ x ∈ top.scopedUnder (.node n.id), below.entity x top
  target t top :=
    (∀ m ∈ t.operands, below.node m top) ∧ ∀ u, t.StandsFor u → below.target u top

/-- One is enough for all that the other is enough for. -/
structure Covers (a b : Allowance) : Prop where
  entity {e top} (h : b.entity e top) : a.entity e top
  node {n top} (h : b.node n top) : a.node n top
  target {t top} (h : b.target t top) : a.target t top

theorem Covers.above {a b : Allowance} (h : a.Covers b) (into : Nesting) :
    (a.above into).Covers (b.above into) where
  entity he :=
    ⟨fun d hd inner hi x hx => h.entity (he.1 d hd inner hi x hx),
      fun hk inner hi n hn => h.node (he.2 hk inner hi n hn)⟩
  node hn :=
    ⟨fun i m hi hm => h.node (hn.1 i m hi hm), fun hk t ht => h.target (hn.2.1 hk t ht),
      fun x hx => h.entity (hn.2.2 x hx)⟩
  target ht := ⟨fun m hm => h.node (ht.1 m hm), fun u hu => h.target (ht.2 u hu)⟩

end Allowance

/-- What a depth is enough for. -/
def allowance (into : Nesting) : (depth : Nat) → Allowance
  | 0 => ⟨fun _ _ => False, fun _ _ => False, fun _ _ => False⟩
  | depth + 1 => (allowance into depth).above into

theorem allowance_covers (into : Nesting) {depth depth' : Nat} (h : depth ≤ depth') :
    (allowance into depth').Covers (allowance into depth) := by
  induction depth generalizing depth' with
  | zero => exact ⟨False.elim, False.elim, False.elim⟩
  | succ depth ih =>
    obtain ⟨more, rfl⟩ : ∃ more, depth' = more + 1 := ⟨depth' - 1, by omega⟩
    exact (ih (Nat.le_of_succ_le_succ h)).above into

/-- A visit of a node comes to what `top` scopes to some node. -/
def Node.BringsUp (top : Entity) (n : Node) (x : Entity) : Prop :=
  ∃ m, n.Reaches m ∧ x ∈ top.scopedUnder (.node m.id)

/-- For a node it is enough if its size is added to what is enough for all that it brings up, and
for a target likewise. -/
theorem allowance_of_bringsUp {into : Nesting} {depth : Nat} {top : Entity} (n : Node) :
    ((∀ x, n.BringsUp top x → (allowance into depth).entity x top) →
        (allowance into (n.size + depth)).node n top) ∧
      ((∀ u, n.TargetChain u → ∀ m ∈ u.operands, ∀ x, m.BringsUp top x →
          (allowance into depth).entity x top) →
        (allowance into (n.size + depth)).target n top) := by
  induction n using Node.induct with
  | h n ih =>
    have layer : n.size + depth = (Node.sizeEach n.children + depth) + 1 := by
      have := n.size_eq
      omega
    have below {m : Node} (hm : m ∈ n.children) :
        (allowance into (Node.sizeEach n.children + depth)).Covers
          (allowance into (m.size + depth)) := by
      have := Node.size_le_sizeEach hm
      exact allowance_covers into (by omega)
    rw [layer]
    refine ⟨fun h => ⟨fun i m hi hm => ?_, fun hk t ht => ?_, fun x hx => ?_⟩,
      fun h => ⟨fun m hm => ?_, fun u hu => ?_⟩⟩
    · have hmem := Node.mem_of_child? hm
      exact (below hmem).node ((ih m hmem).1 fun x ⟨k, hr, hx⟩ =>
        h x ⟨k, hr.head (.child hi hm), hx⟩)
    · have hmem := Node.mem_of_child? ht
      exact (below hmem).target ((ih t hmem).2 fun u hu m hm x ⟨k, hr, hx⟩ =>
        h x ⟨k, hr.head (.target hk ht hu hm), hx⟩)
    · exact (allowance_covers into (by omega)).entity (h x ⟨n, .refl, hx⟩)
    · have hmem := Node.mem_of_mem_operands hm
      exact (below hmem).node ((ih m hmem).1 (h n .refl m hm))
    · have hmem := Node.mem_of_lastChild? hu.2
      exact (below hmem).target ((ih u hmem).2 fun k hk => h k (.head hu hk))

/-- For an entity it is enough if the size of its body is added to what is enough for all that comes
up directly inside it. -/
theorem Entity.allowance_of_inside {into : Nesting} {depth : Nat} {e top : Entity}
    (held : ∀ d, e.derivation? = some d → ∀ inner, into e top inner → ∀ x ∈ e.held,
      (allowance into depth).entity x inner)
    (body : e.kind.isCode = true → ∀ inner, into e top inner → ∀ b, e.body = some b →
      ∀ x, b.BringsUp inner x → (allowance into depth).entity x inner) :
    (allowance into (1 + (e.body.map Node.size).getD 0 + depth)).entity e top := by
  rw [Nat.add_assoc, Nat.add_comm]
  refine ⟨fun d hd inner hi x hx => ?_, fun hk inner hi b hb => ?_⟩
  · exact (allowance_covers into (Nat.le_add_left _ _)).entity (held d hd inner hi x hx)
  · rw [hb]
    exact (allowance_of_bringsUp b).1 (body hk inner hi b hb)

/-- When every entity is on top inside itself, its size is depth enough, as all that comes up inside
it is declared there. -/
theorem Entity.allowance_of_size (e top : Entity) : (allowance .lexical e.size).entity e top := by
  induction e using Entity.induct generalizing top with
  | h e ih =>
    have declared (x) (hx : x ∈ e.allScoped) : (allowance .lexical e.scopeSize).entity x e :=
      (allowance_covers .lexical (size_le_scopeSize hx)).entity (ih x hx e)
    rw [e.size_eq]
    refine allowance_of_inside (fun _ _ inner hi x hx => ?_) fun _ inner hi _ _ x hx => ?_
    · obtain rfl : inner = e := hi
      exact declared x (mem_allScoped_of_mem_held hx)
    · obtain rfl : inner = e := hi
      obtain ⟨_, _, hx⟩ := hx
      exact declared x (mem_allScoped_of_mem_scopedUnder hx)

/-- A node may bring up what the entity on top declares as well. -/
theorem Node.allowance_of_size (n : Node) (top : Entity) :
    (allowance .lexical (n.size + top.scopeSize)).node n top :=
  (allowance_of_bringsUp n).1 fun x ⟨_, _, hx⟩ =>
    (allowance_covers .lexical
      (Entity.size_le_scopeSize (Entity.mem_allScoped_of_mem_scopedUnder hx))).entity
      (x.allowance_of_size top)

section Allowed

variable {into : Nesting} {depth : Nat} {top : Entity} {n m t u : Node}

/-- What a depth is enough for is enough for the targets that a target stands for. -/
theorem allowance_targetChain (h : t.TargetChain u) (ht : (allowance into depth).target t top) :
    (allowance into depth).target u top := by
  induction h with
  | refl => exact ht
  | tail _ hu ih =>
    cases depth with
    | zero => exact ih.elim
    | succ depth => exact (allowance_covers into depth.le_succ).target (ih.2 _ hu)

theorem allowance_leads (h : n.Leads m) (hn : (allowance into depth).node n top) :
    (allowance into depth).node m top := by
  cases depth with
  | zero => exact hn.elim
  | succ depth =>
    have covers := allowance_covers into depth.le_succ
    cases h with
    | child hi hm => exact covers.node (hn.1 _ _ hi hm)
    | target hk ht hu hm =>
      have chain := allowance_targetChain hu (hn.2.1 hk _ ht)
      exact covers.node ((covers.target chain).1 _ hm)

/-- A depth that is enough for a node is enough for all that the node brings up. -/
theorem allowance_brought {x : Entity} (h : n.BringsUp top x)
    (hn : (allowance into depth).node n top) : (allowance into depth).entity x top := by
  obtain ⟨m, reaches, hx⟩ := h
  have hm : (allowance into depth).node m top := by
    clear hx
    induction reaches with
    | refl => exact hn
    | tail _ leads ih => exact allowance_leads leads ih
  cases depth with
  | zero => exact hm.elim
  | succ depth => exact (allowance_covers into depth.le_succ).entity (hm.2.2 x hx)

end Allowed

/-! ## Pieces of walks -/

variable {σ C α β : Type}

/-- Whatever value a piece of a walk gives is as said. -/
structure Walk.Yields (x : Walk σ α) (Q : α → Prop) : Prop where
  ok {s a t} : x s = .ok a t → Q a

/-- A piece of a walk has depth enough, and its values are as said. -/
structure Walk.Ends (x : Walk σ α) (Q : α → Prop) : Prop extends Walk.Yields x Q where
  error {s stop t} : x s = .error stop t → stop ≠ .outOfDepth

namespace Walk.Yields

variable {x : Walk σ α} {f : α → Walk σ β} {P : α → Prop} {Q : β → Prop}

theorem pure {a : α} (h : P a) : Walk.Yields (pure a : Walk σ α) P := by
  constructor
  rintro s _ t ⟨⟩
  exact h

theorem fail {e : Walk.Error} : Walk.Yields (Walk.fail e : Walk σ α) P := by
  constructor
  rintro s a t ⟨⟩

theorem bind (hx : x.Yields P) (hf : ∀ a, P a → (f a).Yields Q) : (x >>= f).Yields Q := by
  constructor
  intro s b u h
  obtain ⟨a, t, hs, ht⟩ := Walk.bind_eq_ok.1 h
  exact (hf a (hx.ok hs)).ok ht

end Walk.Yields

namespace Walk.Ends

variable {x : Walk σ α} {f : α → Walk σ β} {P : α → Prop} {Q : β → Prop}

theorem pure {a : α} (h : P a) : Walk.Ends (pure a : Walk σ α) P := by
  refine ⟨.pure h, ?_⟩
  rintro s stop t ⟨⟩

theorem fail {e : Walk.Error} : Walk.Ends (Walk.fail e : Walk σ α) P := by
  refine ⟨.fail, ?_⟩
  rintro s stop t ⟨⟩
  exact nofun

theorem bind (hx : x.Ends P) (hf : ∀ a, P a → (f a).Ends Q) : (x >>= f).Ends Q := by
  refine ⟨.bind hx.toYields fun a ha => (hf a ha).toYields, ?_⟩
  intro s stop u h
  rcases Walk.bind_eq_error.1 h with hs | ⟨a, t, hs, ht⟩
  · exact hx.error hs
  · exact (hf a (hx.ok hs)).error ht

/-- A piece that never stops. -/
theorem total (h : ∀ s, ∃ a t, x s = .ok a t ∧ P a) : x.Ends P := by
  refine ⟨⟨?_⟩, ?_⟩
  · intro s a t hs
    obtain ⟨_, _, hs', ha⟩ := h s
    rw [hs] at hs'
    cases hs'
    exact ha
  · intro s stop t hs
    obtain ⟨_, _, hs', _⟩ := h s
    rw [hs] at hs'
    cases hs'

theorem setParent {child parent : Entity} :
    (Walk.setParent child parent : Walk σ Unit).Ends fun _ => True :=
  total fun _ => ⟨_, _, rfl, trivial⟩

theorem requireChild {n : Node} {i : Nat} :
    (Walk.requireChild n i : Walk σ Node).Ends fun m => n.child? i = some m := by
  rw [Walk.requireChild_eq]
  cases n.child? i with
  | some m => exact pure rfl
  | none => exact fail

end Walk.Ends

namespace Walker

variable {w : Walker σ C}

theorem call_ends (c : HookCall C) : (w.call c).Ends fun _ => True :=
  .total fun _ => ⟨_, _, rfl, trivial⟩

theorem callEntity_ends (hook : EntityHook) (e : Entity) (context : C) (inner : Option C) :
    (w.callEntity hook e context inner).Ends fun _ => True :=
  .total fun _ => ⟨_, _, rfl, trivial⟩

theorem derive_ends {into : Nesting} (hv : w.visitor.Nests into) (d : Derivation) (context : C) :
    (w.derive d context).Ends fun inner =>
      d.topBy into (w.visitor.top context) (w.visitor.top inner) :=
  .total fun _ => ⟨_, _, rfl, hv _ _ _⟩

theorem checkArity_ends (n : Node) : (w.checkArity n).Ends fun _ => True := by
  rw [checkArity_eq]
  cases n.refused? w.options with
  | none => exact .pure trivial
  | some expected => exact .fail

/-- The operations of a layer have depth enough for what is allowed. -/
structure Within (w : Walker σ C) (d : Descent σ C) (a : Allowance) : Prop where
  entity {e context} (h : a.entity e (w.visitor.top context)) :
    (d.entity e context).Ends fun _ => True
  node {n context} (h : a.node n (w.visitor.top context)) : (d.node n context).Ends fun _ => True
  target {b : Assignment} {context} (h : a.target b.target (w.visitor.top context)) :
    (d.target b context).Ends fun _ => True

section Layer

variable {d : Descent σ C} {a : Allowance} {into : Nesting} (hd : w.Within d a)

include hd

theorem visitScoped_ends (parent : Entity) (context : C) {es : List Entity}
    (h : ∀ e ∈ es, a.entity e (w.visitor.top context)) :
    (Walk.visitScoped d parent context es).Ends fun _ => True := by
  induction es with
  | nil => exact .pure trivial
  | cons e es ih =>
    obtain ⟨he, hes⟩ := List.forall_mem_cons.1 h
    exact .bind .setParent fun _ _ => .bind (hd.entity he) fun _ _ => ih hes

theorem visitEach_ends {context : C} {ns : List Node}
    (h : ∀ n ∈ ns, a.node n (w.visitor.top context)) :
    (Walk.visitEach d context ns).Ends fun _ => True := by
  induction ns with
  | nil => exact .pure trivial
  | cons n ns ih =>
    obtain ⟨hn, hns⟩ := List.forall_mem_cons.1 h
    exact .bind (hd.node hn) fun _ _ => ih hns

/-! ## Nodes -/

section Node

variable {n : Node} {context : C} (h : (a.above into).node n (w.visitor.top context))

include h

/-- A child that a step visits, under a context with the same entity on top. -/
theorem visitChild_ends {step : Step} (hs : step.Comes n) {i : Nat} (hi : i ∈ step.visited)
    {inner : C} (ht : w.visitor.top inner = w.visitor.top context) {f : Unit → Walk σ α}
    {Q : α → Prop} (hf : (f ()).Ends Q) :
    (Walk.requireChild n i >>= fun m => d.node m inner >>= f).Ends Q := by
  refine .bind .requireChild fun m hm => .bind (hd.node ?_) fun _ _ => hf
  rw [ht]
  exact h.1 i m (hs.traversed hi (Node.lt_of_child? hm)) hm

variable (hv : w.visitor.Nests into)

include hv

theorem runStep_ends {step : Step} (hs : step.Comes n) :
    (w.runStep d n context step).Ends fun _ => True := by
  cases step with
  | visit i => exact visitChild_ends hd h hs List.mem_cons_self rfl (.pure trivial)
  | visitLocal i =>
    exact .bind (derive_ends hv _ _) fun inner hi =>
      visitChild_ends hd h hs List.mem_cons_self hi (.pure trivial)
  | visitProtected i j =>
    refine .bind .requireChild fun body hm => .bind .requireChild fun cleanup _ =>
      .bind (derive_ends hv _ _) fun inner hi => .bind (hd.node ?_) fun _ _ => .pure trivial
    have top : w.visitor.top inner = w.visitor.top context := hi
    rw [top]
    exact h.1 i body (hs.traversed List.mem_cons_self (Node.lt_of_child? hm)) hm
  | between point => exact .bind (call_ends _) fun _ _ => .pure trivial
  | assign i j =>
    obtain ⟨hk, rfl⟩ := hs.target rfl
    refine .bind .requireChild fun target ht => .bind .requireChild fun rhs hr => ?_
    have right := h.1 j rhs (hs.traversed List.mem_cons_self (Node.lt_of_child? hr)) hr
    exact .bind (hd.node right) fun _ _ => hd.target (h.2.1 hk target ht)

theorem runPlan_ends {steps : List Step} (hs : ∀ step ∈ steps, step.Comes n) :
    (w.runPlan d n context steps).Ends fun _ => True := by
  induction steps with
  | nil => exact .pure trivial
  | cons step steps ih =>
    obtain ⟨first, later⟩ := List.forall_mem_cons.1 hs
    refine .bind (runStep_ends hd h hv first) fun answer _ => ?_
    cases answer with
    | handled => exact .pure trivial
    | proceed => exact ih later

theorem runNode_ends (hw : w.extensions = {}) : (w.runNode d n context).Ends fun _ => True := by
  unfold runNode
  split
  · simp only [runCustomNode, hw]
    exact .fail
  · unfold runBuiltIn
    split
    · exact .fail
    · rename_i hp
      refine .bind (call_ends _) fun answer _ => ?_
      cases answer with
      | handled => exact .pure trivial
      | proceed =>
        refine .bind (runPlan_ends hd h hv (Node.plan_comes hp)) fun answer _ => ?_
        cases answer with
        | handled => exact .pure trivial
        | proceed => exact .bind (call_ends _) fun _ _ => .pure trivial

theorem visitNodeIn_ends (hw : w.extensions = {}) :
    (w.visitNodeIn d n context).Ends fun _ => True := by
  refine .bind (call_ends _) fun answer _ => ?_
  cases answer with
  | handled => exact .pure trivial
  | proceed =>
    refine .bind (checkArity_ends n) fun _ _ => .bind (runNode_ends hd h hv hw) fun answer _ => ?_
    have hoist : (w.visitScopedUnder d n answer context).Ends fun _ => True := by
      unfold visitScopedUnder
      split
      · exact visitScoped_ends hd _ _ h.2.2
      · exact .pure trivial
    exact .bind hoist fun _ _ => .bind (call_ends _) fun _ _ => .pure trivial

end Node

/-! ## Assignment targets -/

omit hd in
theorem runTarget_ends (b : Assignment) (context : C) {inside : Walk σ Answer}
    (h : inside.Ends fun _ => True) : (w.runTarget b context inside).Ends fun _ => True := by
  refine .bind (call_ends _) fun answer _ => ?_
  cases answer with
  | handled => exact .pure trivial
  | proceed =>
    refine .bind h fun answer _ => ?_
    cases answer with
    | handled => exact .pure trivial
    | proceed => exact .bind (call_ends _) fun _ _ => .pure trivial

theorem dispatchIn_ends (hw : w.extensions = {}) {b : Assignment} {context : C}
    (h : (a.above into).target b.target (w.visitor.top context)) :
    (w.dispatchIn d b context).Ends fun _ => True := by
  obtain ⟨operand, last⟩ := h
  unfold Node.operands at operand
  unfold dispatchIn
  split
  · rename_i hk
    rw [hk] at operand
    obtain ⟨base, indices⟩ := List.forall_mem_append.1 operand
    refine .bind (checkArity_ends _) fun _ _ => runTarget_ends b context ?_
    exact .bind .requireChild fun m hm =>
      .bind (hd.node (base m (Option.mem_toList.2 hm))) fun _ _ =>
        .bind (visitEach_ends hd indices) fun _ _ => .pure trivial
  · rename_i hk
    rw [hk] at operand
    refine .bind (checkArity_ends _) fun _ _ => runTarget_ends b context ?_
    exact .bind .requireChild fun m hm =>
      .bind (hd.node (operand m (Option.mem_toList.2 hm))) fun _ _ => .pure trivial
  · rename_i hk
    refine runTarget_ends b context ?_
    split
    · rename_i hl
      exact hd.target (last _ ⟨hk, hl⟩)
    · exact .fail
  · exact runTarget_ends b context (.pure trivial)
  · simp only [runCustomTarget, hw]
    exact .fail

/-! ## Entities -/

variable {e : Entity} {context : C} (h : (a.above into).entity e (w.visitor.top context))
  (hv : w.visitor.Nests into)

include h hv

theorem runContainer_ends {derivation : Derivation} (hk : e.derivation? = some derivation)
    (hc : e.kind.isCode = false) (ht : ∀ outer, derivation.topBy into outer = into e outer) :
    (w.runContainer d e context derivation).Ends fun _ => True := by
  have held := h.1 derivation hk
  rw [Entity.held, if_neg (by simp [hc]), ← ht] at held
  refine .bind (derive_ends hv _ _) fun inner hi =>
    .bind (callEntity_ends _ _ _ _) fun answer _ => ?_
  cases answer with
  | handled => exact .pure trivial
  | proceed =>
    exact .bind (visitScoped_ends hd e inner (held _ hi)) fun _ _ =>
      .bind (callEntity_ends _ _ _ _) fun _ _ => .pure trivial

theorem runCode_ends (hk : e.kind.isCode = true) :
    (w.runCode d e context).Ends fun _ => True := by
  have held := h.1 (.code e) (Entity.derivation?_of_isCode hk)
  rw [Entity.held, if_pos hk] at held
  refine .bind (derive_ends hv _ _) fun inner hi =>
    .bind (callEntity_ends _ _ _ _) fun answer _ => ?_
  cases answer with
  | handled => exact .pure trivial
  | proceed =>
    refine .bind (visitEach_ends hd fun n hn => ?_) fun _ _ =>
      .bind (visitScoped_ends hd e inner (held _ hi)) fun _ _ =>
        .bind (callEntity_ends _ _ _ _) fun _ _ => .pure trivial
    exact h.2 hk _ hi n (Option.mem_toList.1 hn)

theorem visitEntityIn_ends (hw : w.extensions = {}) :
    (w.visitEntityIn d e context).Ends fun _ => True := by
  have inside : (w.runEntity d e context).Ends fun _ => True := by
    unfold runEntity
    split
    · rename_i hk
      exact runContainer_ends hd h hv (by rw [Entity.derivation?, hk]) (hk ▸ rfl) fun _ => rfl
    · rename_i hk
      exact runContainer_ends hd h hv (by rw [Entity.derivation?, hk]) (hk ▸ rfl) fun _ => rfl
    · rename_i hk
      exact runCode_ends hd h hv (hk ▸ rfl)
    · rename_i hk
      exact runCode_ends hd h hv (hk ▸ rfl)
    · refine .bind (callEntity_ends _ _ _ _) fun answer _ => ?_
      cases answer with
      | handled => exact .pure trivial
      | proceed => exact .bind (callEntity_ends _ _ _ _) fun _ _ => .pure trivial
    · simp only [runCustomEntity, hw]
      exact .fail
  refine .bind (callEntity_ends _ _ _ _) fun answer _ => ?_
  cases answer with
  | handled => exact .pure trivial
  | proceed =>
    exact .bind inside fun _ _ => .bind (callEntity_ends _ _ _ _) fun _ _ => .pure trivial

end Layer

/-- The depth that is enough by the tree alone is enough for a walk. -/
theorem descent_within {into : Nesting} (hv : w.visitor.Nests into) (hw : w.extensions = {})
    (depth : Nat) : w.Within (w.descent depth) (allowance into depth) := by
  induction depth with
  | zero => exact ⟨False.elim, False.elim, False.elim⟩
  | succ depth ih =>
    exact ⟨fun h => visitEntityIn_ends ih h hv hw, fun h => visitNodeIn_ends ih h hv hw,
      fun h => dispatchIn_ends ih hw h⟩

theorem walk_ends {into : Nesting} (hv : w.visitor.Nests into) (hw : w.extensions = {})
    {depth : Nat} {root : Entity} {context : C}
    (hd : (allowance into depth).entity root (w.visitor.top context)) :
    (w.walk depth root context).Ends fun _ => True := by
  have start : (modify fun s => { s with parents := {} } : Walk σ Unit).Ends fun _ => True :=
    .total fun _ => ⟨_, _, rfl, trivial⟩
  exact .bind start fun _ _ => .bind ((descent_within hv hw depth).entity hd) fun _ _ =>
    .total fun _ => ⟨_, _, rfl, trivial⟩

/-- The size of a tree is depth enough for a walk of it. -/
theorem walk_ne_outOfDepth (hv : w.visitor.Lexical) (hw : w.extensions = {}) {depth : Nat}
    {root : Entity} (hd : root.size ≤ depth) (context : C) (s t : WalkState σ) :
    w.walk depth root context s ≠ .error .outOfDepth t := by
  intro h
  exact (walk_ends hv.nests hw
    ((allowance_covers .lexical hd).entity (root.allowance_of_size _))).error h rfl

end Walker

end SyntaxWalk
