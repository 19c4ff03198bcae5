import SyntaxWalk.Proofs.Untraversed

/-!
# Trees with blocks

A tree with blocks comes from another by making every node of a kind of a front end a block, with
the same number and the same children. A walk takes the two trees apart in the same way, but for
the targets of assignments: a block cannot be assigned to, so none may be of such a kind
(`Entity.BuiltInTargets`). Otherwise what a walk comes to in the one tree matches what becomes of it
in the other (`Matching.blocks`).
-/

namespace SyntaxWalk

namespace NodeKind

def isCustom : NodeKind → Bool
  | .custom _ => true
  | _ => false

/-- A block in the place of a kind of a front end. -/
def blocked : NodeKind → NodeKind
  | .custom _ => .blockStmt
  | kind => kind

end NodeKind

namespace Node

/-- A node in which all nodes of kinds of a front end have been made blocks. -/
def blocked : Node → Node :=
  relabel fun n => { n with kind := n.kind.blocked }

section Blocked

variable (n : Node)

theorem blocked_eq :
    n.blocked = { n with kind := n.kind.blocked, children := n.children.map blocked } :=
  relabel_eq _ n

@[simp] theorem blocked_id : n.blocked.id = n.id := by rw [blocked_eq]

@[simp] theorem blocked_kind : n.blocked.kind = n.kind.blocked := by rw [blocked_eq]

@[simp] theorem blocked_value : n.blocked.value = n.value := by rw [blocked_eq]

@[simp] theorem blocked_position : n.blocked.position = n.position := by rw [blocked_eq]

@[simp] theorem blocked_children : n.blocked.children = n.children.map blocked :=
  relabel_children _ n

@[simp] theorem blocked_childCount : n.blocked.childCount = n.childCount :=
  relabel_childCount _ n

@[simp] theorem blocked_child? (i : Nat) : n.blocked.child? i = (n.child? i).map blocked :=
  relabel_child? _ n i

@[simp] theorem blocked_lastChild? : n.blocked.lastChild? = n.lastChild?.map blocked :=
  relabel_lastChild? _ n

theorem blocked_size : n.blocked.size = n.size :=
  relabel_size _ n

end Blocked

theorem isBuiltIn_iff {n : Node} : n.IsBuiltIn ↔ n.kind.isCustom = false := by
  unfold IsBuiltIn
  cases n.kind <;> simp [NodeKind.isCustom]

instance (n : Node) : Decidable n.IsBuiltIn :=
  decidable_of_iff _ isBuiltIn_iff.symm

/-- A target with those that it stands for. -/
def chain : Node → List Node :=
  fold fun n below => n :: if n.kind = .blockExpr then below.getLast?.getD [] else []

theorem chain_eq (n : Node) :
    n.chain = n :: if n.kind = .blockExpr then (n.lastChild?.map chain).getD [] else [] := by
  rw [chain, fold_eq, List.getLast?_map]
  rfl

theorem mem_chain {t u : Node} : u ∈ t.chain ↔ t.TargetChain u := by
  induction t using induct with
  | h t ih =>
    have below : (∃ k, t.StandsFor k ∧ k.TargetChain u) ↔
        u ∈ if t.kind = .blockExpr then (t.lastChild?.map chain).getD [] else [] := by
      constructor
      · rintro ⟨k, ⟨hk, hl⟩, hu⟩
        rw [if_pos hk, hl]
        exact (ih k (mem_of_lastChild? hl)).2 hu
      · intro hu
        split at hu
        · rename_i hk
          cases hl : t.lastChild? with
          | none =>
            rw [hl] at hu
            cases hu
          | some k =>
            rw [hl] at hu
            exact ⟨k, ⟨hk, hl⟩, (ih k (mem_of_lastChild? hl)).1 hu⟩
        · cases hu
    have head : t.TargetChain u ↔ t = u ∨ ∃ k, t.StandsFor k ∧ k.TargetChain u :=
      Relation.ReflTransGen.cases_head_iff
    rw [chain_eq, List.mem_cons, head, below, eq_comm]

namespace IsBuiltIn

variable {n : Node} (h : n.IsBuiltIn)

include h

theorem blocked_kind : n.blocked.kind = n.kind := by
  rw [Node.blocked_kind]
  cases hk : n.kind with
  | custom kind => exact (h kind hk).elim
  | _ => rfl

theorem blocked_describe : n.blocked.describe = n.describe := by
  rw [describe, describe, blocked_value, h.blocked_kind]

theorem blocked_malformed (expected : Arity) :
    (Walk.Error.malformed n expected).Alike (Walk.Error.malformed n.blocked expected) := by
  rw [Walk.Error.malformed, Walk.Error.malformed, h.blocked_kind, blocked_childCount,
    blocked_position]
  exact .same

end IsBuiltIn

/-- A block may have any number of children, as may a node of a kind of a front end. -/
theorem blocked_refused? (n : Node) (o : Options) : n.blocked.refused? o = n.refused? o := by
  simp only [refused?, blocked_kind, blocked_childCount]
  cases n.kind with
  | custom => simp [NodeKind.blocked, NodeKind.arity, Arity.accepts]
  | _ => rfl

theorem isBuiltIn_of_refused? {n : Node} {o : Options} {expected : Arity}
    (h : n.refused? o = some expected) : n.IsBuiltIn := by
  intro kind hk
  have arity := (refused?_eq_some.1 h).2.1
  rw [hk] at arity
  cases arity

end Node

namespace Entity

/-- An entity in whose bodies all nodes of kinds of a front end have been made blocks. -/
def blocked : Entity → Entity :=
  mapBodies Node.blocked

section Blocked

variable (e : Entity)

@[simp] theorem blocked_id : e.blocked.id = e.id :=
  mapBodies_id _ e

@[simp] theorem blocked_kind : e.blocked.kind = e.kind :=
  mapBodies_kind _ e

@[simp] theorem blocked_name : e.blocked.name = e.name :=
  mapBodies_name _ e

@[simp] theorem blocked_body : e.blocked.body = e.body.map Node.blocked :=
  mapBodies_body _ e

@[simp] theorem blocked_scopedUnder (key : ScopeKey) :
    e.blocked.scopedUnder key = (e.scopedUnder key).map blocked :=
  mapBodies_scopedUnder _ e key

@[simp] theorem blocked_allScoped : e.blocked.allScoped = e.allScoped.map blocked :=
  mapBodies_allScoped _ e

theorem blocked_size : e.blocked.size = e.size :=
  mapBodies_size e Node.blocked_size

end Blocked

/-- No target of an assignment is of a kind of a front end, be it one that another stands for. -/
def BuiltInTargets (e : Entity) : Prop :=
  ∀ n ∈ e.nodes, n.kind.isAssignment = true → ∀ t ∈ n.child? 0, ∀ u ∈ t.chain, u.IsBuiltIn

instance (e : Entity) : Decidable e.BuiltInTargets :=
  inferInstanceAs (Decidable (∀ n ∈ e.nodes, n.kind.isAssignment = true →
    ∀ t ∈ n.child? 0, ∀ u ∈ t.chain, u.IsBuiltIn))

end Entity

/-- An assignment in which all nodes of kinds of a front end have been made blocks. -/
def Assignment.blocked (a : Assignment) : Assignment :=
  ⟨a.target.blocked, a.rhs.blocked, a.assign.blocked⟩

theorem Assignment.blocked_order? (a : Assignment) : a.blocked.order? = a.order? := by
  simp only [order?, blocked, Node.blocked_kind]
  cases a.assign.kind <;> rfl

/-- A context whose entity on top has been made one with blocks. -/
def ScopeContext.blocked (c : ScopeContext) : ScopeContext :=
  { c with top := c.top.blocked }

/-! ## What matches -/

/-- Nodes with all that is below them, in which targets of assignments are of built-in kinds. -/
structure Region (nodes : List Node) : Prop where
  children {n} (hn : n ∈ nodes) : n.children ⊆ nodes
  targets {n} (hn : n ∈ nodes) (hk : n.kind.isAssignment = true) {t} (ht : n.child? 0 = some t)
    {u} (hu : t.TargetChain u) : u.IsBuiltIn

/-- The nodes of some entity trees. -/
theorem Entity.region {roots : List Entity} (h : ∀ root ∈ roots, root.BuiltInTargets) :
    Region (roots.flatMap Entity.nodes) where
  children hn m hm := by
    obtain ⟨root, hr, hn⟩ := List.mem_flatMap.1 hn
    exact List.mem_flatMap.2 ⟨root, hr, mem_nodes_children hn hm⟩
  targets hn hk t ht u hu := by
    obtain ⟨root, hr, hn⟩ := List.mem_flatMap.1 hn
    exact h root hr _ hn hk t (Option.mem_def.2 ht) u (Node.mem_chain.2 hu)

section Lists

variable {α β : Type} {R : α → β → Prop} {f : α → β}

theorem optionRel_map {o : Option α} (h : ∀ a, o = some a → R a (f a)) :
    Option.Rel R o (o.map f) := by
  cases o with
  | none => exact .none
  | some a => exact .some (h a rfl)

theorem forall₂_map {l : List α} (h : ∀ a ∈ l, R a (f a)) : List.Forall₂ R l (l.map f) :=
  List.forall₂_map_right_iff.2 (List.forall₂_same.2 h)

end Lists

section Matching

variable {nodes : List Node}

/-- Parts of a region match what becomes of them. -/
def Matching.blocks (h : Region nodes) : Matching where
  entities e e' := e.nodes ⊆ nodes ∧ e' = e.blocked
  nodes n n' := n ∈ nodes ∧ n' = n.blocked
  targets t t' := (t ∈ nodes ∧ ∀ u, t.TargetChain u → u.IsBuiltIn) ∧ t' = t.blocked
  errors := Walk.Error.Alike
  entity := by
    rintro e _ ⟨-, rfl⟩
    simp
  body := by
    rintro e _ ⟨he, rfl⟩
    rw [Entity.blocked_body]
    exact optionRel_map fun b hb =>
      ⟨he (Entity.mem_nodes_of_body e.mem_members_self hb b.mem_subtree_self), rfl⟩
  scopedUnder := by
    rintro e _ ⟨he, rfl⟩ key
    rw [Entity.blocked_scopedUnder]
    refine forall₂_map fun x hx => ⟨fun n hn => he ?_, rfl⟩
    exact Entity.nodes_subset (Entity.mem_allScoped_of_mem_scopedUnder hx) hn
  allScoped := by
    rintro e _ ⟨he, rfl⟩ -
    rw [Entity.blocked_allScoped]
    exact forall₂_map fun x hx => ⟨fun n hn => he (Entity.nodes_subset hx hn), rfl⟩
  node := by
    rintro n _ ⟨-, rfl⟩
    exact n.blocked_id.symm
  builtIn := by
    rintro n _ ⟨-, rfl⟩ hb
    exact ⟨hb.blocked_kind.symm, n.blocked_childCount.symm⟩
  child := by
    rintro n _ ⟨hn, rfl⟩ i -
    rw [Node.blocked_child?]
    exact optionRel_map fun m hm => ⟨h.children hn (Node.mem_of_child? hm), rfl⟩
  assigned := by
    rintro n _ ⟨hn, rfl⟩ hk
    rw [Node.blocked_child?]
    exact optionRel_map fun t ht =>
      ⟨⟨h.children hn (Node.mem_of_child? ht), fun u hu => h.targets hn hk ht hu⟩, rfl⟩
  target := by
    rintro t _ ⟨⟨-, hb⟩, rfl⟩
    exact ⟨(hb t .refl).blocked_kind.symm, t.blocked_childCount.symm⟩
  base := by
    rintro t _ ⟨⟨ht, -⟩, rfl⟩ -
    rw [Node.blocked_child?]
    exact optionRel_map fun m hm => ⟨h.children ht (Node.mem_of_child? hm), rfl⟩
  indices := by
    rintro t _ ⟨⟨ht, -⟩, rfl⟩ -
    rw [Node.blocked_children, ← List.map_drop]
    exact forall₂_map fun m hm => ⟨h.children ht (List.mem_of_mem_drop hm), rfl⟩
  last := by
    rintro t _ ⟨⟨ht, hb⟩, rfl⟩ hk
    rw [Node.blocked_lastChild?]
    exact optionRel_map fun u hu =>
      ⟨⟨h.children ht (Node.mem_of_lastChild? hu), fun v hv => hb v (hv.head ⟨hk, hu⟩)⟩, rfl⟩
  malformed := by
    rintro n _ (⟨⟨-, rfl⟩, hb⟩ | ⟨⟨-, hb⟩, rfl⟩) expected
    · exact hb.blocked_malformed expected
    · exact (hb n .refl).blocked_malformed expected

end Matching

end SyntaxWalk
