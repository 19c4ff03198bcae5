import SyntaxWalk.Proofs.Matching

/-!
# Walks of two trees beside each other

A `Likeness` is a matching of trees in which nodes that belong together are of the same kind, kinds
of a front end included, and which says of all errors that a walk can end with which belong together
(`Likeness.matching`). The couplings of such trees are their correspondences: it is enough to relate
the handlers of the two walks to each other (`Correspondence.coupling`), and related trees have
related walks at every depth (`Correspondence.descent`). The second walk may also be given more
depth than the first (`Correspondence.descent_add`).
-/

namespace SyntaxWalk

variable {σ σ' C C' : Type}

/-- Relations between the parts of two trees which a walk keeps to. Nothing is asked of children
that a walk does not come to. -/
structure Likeness where
  entities : Entity → Entity → Prop
  /-- Nodes that are visited. -/
  nodes : Node → Node → Prop
  /-- Targets of assignments. -/
  targets : Node → Node → Prop
  errors : Walk.Error → Walk.Error → Prop
  entity {e e'} (h : entities e e') : e.id = e'.id ∧ e.kind = e'.kind
  body {e e'} (h : entities e e') : Option.Rel nodes e.body e'.body
  scopedUnder {e e'} (h : entities e e') (key : ScopeKey) :
    List.Forall₂ entities (e.scopedUnder key) (e'.scopedUnder key)
  allScoped {e e'} (h : entities e e') (hk : e.kind.isCode = false) :
    List.Forall₂ entities e.allScoped e'.allScoped
  node {n n'} (h : nodes n n') :
    n.id = n'.id ∧ n.kind = n'.kind ∧ n.childCount = n'.childCount
  child {n n'} (h : nodes n n') {i} (hi : i ∈ n.kind.traversedChildren n.childCount) :
    Option.Rel nodes (n.child? i) (n'.child? i)
  assigned {n n'} (h : nodes n n') (hk : n.kind.isAssignment = true) :
    Option.Rel targets (n.child? 0) (n'.child? 0)
  target {t t'} (h : targets t t') : t.kind = t'.kind ∧ t.childCount = t'.childCount
  base {t t'} (h : targets t t') (hk : t.kind = .arrayRef ∨ t.kind = .objectRef) :
    Option.Rel nodes (t.child? 0) (t'.child? 0)
  indices {t t'} (h : targets t t') (hk : t.kind = .arrayRef) :
    List.Forall₂ nodes (t.children.drop 2) (t'.children.drop 2)
  last {t t'} (h : targets t t') (hk : t.kind = .blockExpr) :
    Option.Rel targets t.lastChild? t'.lastChild?
  ofEntity {e e'} (h : entities e e') : errors (.ofEntity e) (.ofEntity e')
  ofNode {n n'} (h : nodes n n') : errors (.ofNode n) (.ofNode n')
  malformed {n n'} (h : nodes n n' ∨ targets n n') (expected) :
    errors (.malformed n expected) (.malformed n' expected)
  unsupported {t t'} (ht : targets t t') {n n'} (hn : nodes n n') :
    errors (.unsupported t n) (.unsupported t' n')

theorem optionRel_refl {α : Type} : ∀ a : Option α, Option.Rel Eq a a
  | some _ => .some rfl
  | none => .none

theorem eq_of_optionRel {α : Type} {a b : Option α} (h : Option.Rel Eq a b) : a = b := by
  cases h with
  | some h => rw [h]
  | none => rfl

theorem map_eq_of_optionRel {α β γ : Type} {R : α → β → Prop} {f : α → γ} {g : β → γ}
    {a : Option α} {b : Option β} (h : Option.Rel R a b) (hf : ∀ {x y}, R x y → f x = g y) :
    a.map f = b.map g := by
  cases h with
  | some h => exact congrArg Option.some (hf h)
  | none => rfl

namespace Likeness

/-- Each part belongs together with itself alone. -/
def same : Likeness where
  entities := Eq
  nodes := Eq
  targets := Eq
  errors := Eq
  entity h := ⟨congrArg _ h, congrArg _ h⟩
  body h := h ▸ optionRel_refl _
  scopedUnder h _ := h ▸ List.forall₂_refl _
  allScoped h _ := h ▸ List.forall₂_refl _
  node h := ⟨congrArg _ h, congrArg _ h, congrArg _ h⟩
  child h _ _ := h ▸ optionRel_refl _
  assigned h _ := h ▸ optionRel_refl _
  target h := ⟨congrArg _ h, congrArg _ h⟩
  base h _ := h ▸ optionRel_refl _
  indices h _ := h ▸ List.forall₂_refl _
  last h _ := h ▸ optionRel_refl _
  ofEntity h := congrArg _ h
  ofNode h := congrArg _ h
  malformed h _ :=
    h.elim (congrArg (Walk.Error.malformed · _)) (congrArg (Walk.Error.malformed · _))
  unsupported ht _ _ hn := congrArg₂ _ ht hn

variable (L : Likeness)

structure Assignments (a a' : Assignment) : Prop where
  target : L.targets a.target a'.target
  rhs : L.nodes a.rhs a'.rhs
  assign : L.nodes a.assign a'.assign

inductive Derivations : Derivation → Derivation → Prop where
  | file {e e'} (h : L.entities e e') : Derivations (.file e) (.file e')
  | type {e e'} (h : L.entities e e') : Derivations (.type e) (.type e')
  | code {e e'} (h : L.entities e e') : Derivations (.code e) (.code e')
  | localScope {n n'} (h : L.nodes n n') : Derivations (.localScope n) (.localScope n')
  | unwind {n n'} (h : L.nodes n n') : Derivations (.unwind n) (.unwind n')

variable {L}

theorem Assignments.eq {a a' : Assignment} (h : same.Assignments a a') : a = a' := by
  obtain ⟨target, rhs, assign⟩ := a
  obtain ⟨rfl, rfl, rfl⟩ := h
  rfl

theorem Derivations.eq {d d' : Derivation} (h : same.Derivations d d') : d = d' := by
  cases h with
  | file h | type h | code h | localScope h | unwind h => exact congrArg _ h

end Likeness

/-- The operations of two layers are related on parts that belong together. -/
structure Descent.Corresponds (L : Likeness) (contexts : C → C' → Prop)
    (pieces : ∀ {α : Type}, Walk σ α → Walk σ' α → Prop) (d : Descent σ C) (d' : Descent σ' C') :
    Prop where
  entity {e e'} (he : L.entities e e') {c c'} (h : contexts c c') :
    pieces (d.entity e c) (d'.entity e' c')
  node {n n'} (hn : L.nodes n n') {c c'} (h : contexts c c') : pieces (d.node n c) (d'.node n' c')
  target {a a'} (ha : L.Assignments a a') {c c'} (h : contexts c c') :
    pieces (d.target a c) (d'.target a' c')

namespace Likeness

variable {L : Likeness}

/-- Parts that belong together match. -/
def matching (L : Likeness) : Matching where
  entities := L.entities
  nodes := L.nodes
  targets := L.targets
  errors := L.errors
  entity := L.entity
  body := L.body
  scopedUnder := L.scopedUnder
  allScoped := L.allScoped
  node h := (L.node h).1
  builtIn h _ := (L.node h).2
  child := L.child
  assigned := L.assigned
  target := L.target
  base := L.base
  indices := L.indices
  last := L.last
  malformed h := L.malformed (h.imp_left And.left)

theorem Assignments.coupled {a a' : Assignment} (h : L.Assignments a a') :
    L.matching.Assignments a a' :=
  ⟨h.target, h.rhs, h.assign⟩

end Likeness

namespace Matching

variable {L : Likeness}

theorem Assignments.corresponds {a a' : Assignment} (h : L.matching.Assignments a a') :
    L.Assignments a a' :=
  ⟨h.target, h.rhs, h.assign⟩

theorem Derivations.corresponds {d d' : Derivation} (h : L.matching.Derivations d d') :
    L.Derivations d d' := by
  cases h with
  | file h => exact .file h
  | type h => exact .type h
  | code h => exact .code h
  | localScope h _ => exact .localScope h
  | unwind h => exact .unwind h

end Matching

namespace Descent

variable {L : Likeness} {contexts : C → C' → Prop}
  {pieces : ∀ {α : Type}, Walk σ α → Walk σ' α → Prop} {d : Descent σ C} {d' : Descent σ' C'}

theorem Corresponds.coupled (hd : Descent.Corresponds L contexts pieces d d') :
    Descent.Coupled L.matching contexts pieces d d' where
  entity := hd.entity
  node := hd.node
  target ha _ _ h := hd.target ha.corresponds h

theorem Coupled.corresponds (hd : Descent.Coupled L.matching contexts pieces d d') :
    Descent.Corresponds L contexts pieces d d' where
  entity := hd.entity
  node := hd.node
  target ha _ _ h := hd.target ha.coupled h

end Descent

/-- A relation between the pieces of two walks which the single operations keep to, and which holds
of what is put together from related pieces. -/
structure Correspondence (L : Likeness) (w : Walker σ C) (w' : Walker σ' C') where
  contexts : C → C' → Prop
  pieces : ∀ {α : Type}, Walk σ α → Walk σ' α → Prop
  rescans : w.options.rescanNodeScopes = w'.options.rescanNodeScopes
  top {c c'} (h : contexts c c') : L.entities (w.visitor.top c) (w'.visitor.top c')
  pure {α : Type} (a : α) : pieces (pure a) (pure a)
  fail {α : Type} {e e'} (h : L.errors e e') : pieces (Walk.fail e : Walk σ α) (Walk.fail e')
  outOfDepth {α : Type} : pieces (throw .outOfDepth : Walk σ α) (throw .outOfDepth)
  bind {α β : Type} {x : Walk σ α} {y : Walk σ' α} {f : α → Walk σ β} {g : α → Walk σ' β}
    (h : pieces x y) (hf : ∀ a, pieces (f a) (g a)) : pieces (x >>= f) (y >>= g)
  /-- What is derived from related contexts is related in all that follows. -/
  derive {α : Type} {d d'} (hd : L.Derivations d d') {c c'} (h : contexts c c') {f : C → Walk σ α}
    {g : C' → Walk σ' α} (hf : ∀ {i i'}, contexts i i' → pieces (f i) (g i')) :
    pieces (w.derive d c >>= f) (w'.derive d' c' >>= g)
  setParent {e e'} (he : L.entities e e') {p p'} (hp : L.entities p p') :
    pieces (Walk.setParent e p) (Walk.setParent e' p')
  callEntity (hook) {e e'} (he : L.entities e e') {c c'} (h : contexts c c') {i i'}
    (hi : Option.Rel contexts i i') :
    pieces (w.callEntity hook e c i) (w'.callEntity hook e' c' i')
  callNode (hook) {n n'} (hn : L.nodes n n') {c c'} (h : contexts c c') :
    pieces (w.callNode hook n c) (w'.callNode hook n' c')
  callTarget (hook) {a a'} (ha : L.Assignments a a') {c c'} (h : contexts c c') :
    pieces (w.callTarget hook a c) (w'.callTarget hook a' c')
  checkArity {n n'} (hn : L.nodes n n' ∨ L.targets n n') :
    pieces (w.checkArity n) (w'.checkArity n')
  customEntity {d d'} (hd : Descent.Corresponds L contexts pieces d d') {e e'}
    (he : L.entities e e') {kind} (hk : e.kind = .custom kind) {c c'} (h : contexts c c') :
    pieces (w.runCustomEntity d e kind c) (w'.runCustomEntity d' e' kind c')
  customNode {d d'} (hd : Descent.Corresponds L contexts pieces d d') {n n'} (hn : L.nodes n n')
    {kind} (hk : n.kind = .custom kind) {c c'} (h : contexts c c') :
    pieces (w.runCustomNode d n kind c) (w'.runCustomNode d' n' kind c')
  customTarget {d d'} (hd : Descent.Corresponds L contexts pieces d d') {a a'}
    (ha : L.Assignments a a') {c c'} (h : contexts c c') :
    pieces (w.runCustomTarget d a c) (w'.runCustomTarget d' a' c')

namespace Correspondence

variable {L : Likeness} {w : Walker σ C} {w' : Walker σ' C'} (S : Correspondence L w w')

/-- What corresponds is coupled. -/
def coupling : Coupling L.matching w w' where
  contexts := S.contexts
  pieces := S.pieces
  rescans := S.rescans
  top := S.top
  pure := S.pure
  fail := S.fail
  outOfDepth := S.outOfDepth
  bind := S.bind
  derive hd _ _ h _ _ hf := S.derive hd.corresponds h hf
  setParent := S.setParent
  callEntity := S.callEntity
  callNode := S.callNode
  callTarget hook _ _ ha _ _ h := S.callTarget hook ha.corresponds h
  checkArity := S.checkArity
  customEntity hd _ _ he _ hk _ _ h := S.customEntity hd.corresponds he hk h
  customNode hd _ _ hn _ hk _ _ h := by
    rw [Walker.runNode_custom ((L.node hn).2.1.symm.trans hk)]
    exact S.customNode hd.corresponds hn hk h
  customTarget hd _ _ ha _ _ h := S.customTarget hd.corresponds ha.corresponds h

section Layer

variable {d : Descent σ C} {d' : Descent σ' C'}
  (hd : Descent.Corresponds L S.contexts S.pieces d d') {c : C} {c' : C'} (h : S.contexts c c')

include hd h

theorem visitScoped {p p' : Entity} (hp : L.entities p p') {es es' : List Entity}
    (he : List.Forall₂ L.entities es es') :
    S.pieces (Walk.visitScoped d p c es) (Walk.visitScoped d' p' c' es') :=
  S.coupling.visitScoped hd.coupled h hp he

theorem visitEach {ns ns' : List Node} (hn : List.Forall₂ L.nodes ns ns') :
    S.pieces (Walk.visitEach d c ns) (Walk.visitEach d' c' ns') :=
  S.coupling.visitEach hd.coupled h hn

end Layer

/-- If a walk without depth is beside one of some depth, a walk of any depth is beside one that is
deeper by that much. -/
theorem descent_add (more : Nat)
    (hout : Descent.Corresponds L S.contexts S.pieces (w.descent 0) (w'.descent more))
    (depth : Nat) :
    Descent.Corresponds L S.contexts S.pieces (w.descent depth) (w'.descent (more + depth)) :=
  (S.coupling.descent_add more hout.coupled depth).corresponds

/-- Walks of any depth are related. -/
theorem descent (depth : Nat) :
    Descent.Corresponds L S.contexts S.pieces (w.descent depth) (w'.descent depth) :=
  (S.coupling.descent depth).corresponds

end Correspondence

end SyntaxWalk
