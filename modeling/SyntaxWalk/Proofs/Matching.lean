import Mathlib.Data.List.Forall2
import SyntaxWalk.Proofs.Agenda
import SyntaxWalk.Proofs.Reach

/-!
# Walks of two trees that match

Two walkers may be told apart by their visitors, their handlers, their options and by the trees that
they walk. A `Matching` says which parts of two trees go together, so that walks take both apart in
the same way; a node of a kind of a front end may also go together with a node of another kind. A
relation between the pieces of the walks is then shown to hold of whole walks by what is shown of
the single operations and by how pieces are put together (`Coupling`): matching trees have related
walks at every depth (`Coupling.descent`). The second walk may also be given more depth than the
first (`Coupling.descent_add`).
-/

namespace SyntaxWalk

variable {σ σ' C C' : Type}

/-- A node of a built-in kind. -/
def Node.IsBuiltIn (n : Node) : Prop :=
  ∀ kind, n.kind ≠ .custom kind

theorem Node.custom_or_builtIn (n : Node) : (∃ kind, n.kind = .custom kind) ∨ n.IsBuiltIn := by
  unfold IsBuiltIn
  cases n.kind <;> simp

namespace Walker

variable {w : Walker σ C} {d : Descent σ C} {n : Node} {c : C}

theorem runNode_custom {kind : String} (hk : n.kind = .custom kind) :
    w.runNode d n c = w.runCustomNode d n kind c := by
  rw [runNode, hk]

theorem runNode_builtIn (hb : n.IsBuiltIn) : w.runNode d n c = w.runBuiltIn d n c := by
  unfold runNode
  split
  · exact (hb _ ‹_›).elim
  · rfl

end Walker

/-- Relations between the parts of two trees which a walk keeps to. Nothing is asked of children
that a walk does not come to by itself. -/
structure Matching where
  entities : Entity → Entity → Prop
  /-- Nodes that are visited. -/
  nodes : Node → Node → Prop
  /-- Targets of assignments. -/
  targets : Node → Node → Prop
  errors : Walk.Error → Walk.Error → Prop
  entity {e e'} (h : entities e e') : e.id = e'.id ∧ e.kind = e'.kind
  body {e e'} (h : entities e e') : Option.Rel nodes e.body e'.body
  scopedUnder {e e'} (h : entities e e') (key : ScopeKey) :
    List.Forall₂ entities (e.scopedUnder key) (e'.scopedUnder key)
  allScoped {e e'} (h : entities e e') (hk : e.kind.isCode = false) :
    List.Forall₂ entities e.allScoped e'.allScoped
  node {n n'} (h : nodes n n') : n.id = n'.id
  builtIn {n n'} (h : nodes n n') (hb : n.IsBuiltIn) :
    n.kind = n'.kind ∧ n.childCount = n'.childCount
  child {n n'} (h : nodes n n') {i} (hi : i ∈ n.kind.traversedChildren n.childCount) :
    Option.Rel nodes (n.child? i) (n'.child? i)
  assigned {n n'} (h : nodes n n') (hk : n.kind.isAssignment = true) :
    Option.Rel targets (n.child? 0) (n'.child? 0)
  target {t t'} (h : targets t t') : t.kind = t'.kind ∧ t.childCount = t'.childCount
  base {t t'} (h : targets t t') (hk : t.kind = .arrayRef ∨ t.kind = .objectRef) :
    Option.Rel nodes (t.child? 0) (t'.child? 0)
  indices {t t'} (h : targets t t') (hk : t.kind = .arrayRef) :
    List.Forall₂ nodes (t.children.drop 2) (t'.children.drop 2)
  last {t t'} (h : targets t t') (hk : t.kind = .blockExpr) :
    Option.Rel targets t.lastChild? t'.lastChild?
  malformed {n n'} (h : nodes n n' ∧ n.IsBuiltIn ∨ targets n n') (expected) :
    errors (.malformed n expected) (.malformed n' expected)

namespace Matching

variable (M : Matching)

structure Assignments (a a' : Assignment) : Prop where
  target : M.targets a.target a'.target
  rhs : M.nodes a.rhs a'.rhs
  assign : M.nodes a.assign a'.assign

inductive Derivations : Derivation → Derivation → Prop where
  | file {e e'} (h : M.entities e e') : Derivations (.file e) (.file e')
  | type {e e'} (h : M.entities e e') : Derivations (.type e) (.type e')
  | code {e e'} (h : M.entities e e') : Derivations (.code e) (.code e')
  | localScope {n n'} (h : M.nodes n n') (hb : n.IsBuiltIn) :
      Derivations (.localScope n) (.localScope n')
  | unwind {n n'} (h : M.nodes n n') : Derivations (.unwind n) (.unwind n')

variable {M}

theorem missing {n n' : Node} (h : M.nodes n n' ∧ n.IsBuiltIn ∨ M.targets n n') (i : Nat) :
    M.errors (.missing n i) (.missing n' i) := by
  have same : n.kind = n'.kind ∧ n.childCount = n'.childCount :=
    h.elim (fun h => M.builtIn h.1 h.2) M.target
  unfold Walk.Error.missing
  rw [← same.1, ← same.2]
  split <;> exact M.malformed h _

section Steps

variable {n n' : Node} (h : M.nodes n n') (hb : n.IsBuiltIn)

include h hb

theorem lacking {i : Nat} (hi : n.childCount ≤ i) :
    Option.Rel M.nodes (n.child? i) (n'.child? i) := by
  rw [Node.child?_eq_none hi, Node.child?_eq_none ((M.builtIn h hb).2.symm.trans_le hi)]
  exact .none

/-- The children that a step visits belong together, or neither of the nodes has one. -/
theorem visited {step : Step} (hs : step.Comes n) {i : Nat} (hi : i ∈ step.visited) :
    Option.Rel M.nodes (n.child? i) (n'.child? i) := by
  rcases Nat.lt_or_ge i n.childCount with hc | hc
  · exact M.child h (hs.traversed hi hc)
  · exact lacking h hb hc

theorem cleanup {i j : Nat} (hs : (Step.visitProtected i j).Comes n) :
    Option.Rel M.nodes (n.child? j) (n'.child? j) := by
  rcases Nat.lt_or_ge j n.childCount with hc | hc
  · exact M.child h (hs.cleanup rfl hc)
  · exact lacking h hb hc

end Steps

end Matching

/-- The operations of two layers are related on parts that match. -/
structure Descent.Coupled (M : Matching) (contexts : C → C' → Prop)
    (pieces : ∀ {α : Type}, Walk σ α → Walk σ' α → Prop) (d : Descent σ C) (d' : Descent σ' C') :
    Prop where
  entity {e e'} (he : M.entities e e') {c c'} (h : contexts c c') :
    pieces (d.entity e c) (d'.entity e' c')
  node {n n'} (hn : M.nodes n n') {c c'} (h : contexts c c') : pieces (d.node n c) (d'.node n' c')
  target {a a'} (ha : M.Assignments a a') {c c'} (h : contexts c c') :
    pieces (d.target a c) (d'.target a' c')

/-- Visits of nodes that match are related, if what is put together from related pieces is. -/
theorem Descent.Coupled.visitEach {M : Matching} {contexts : C → C' → Prop}
    {pieces : ∀ {α : Type}, Walk σ α → Walk σ' α → Prop} {d : Descent σ C} {d' : Descent σ' C'}
    (hd : Descent.Coupled M contexts pieces d d') (pure : pieces (pure ()) (pure ()))
    (bind : ∀ {x y} {f : Unit → Walk σ Unit} {g : Unit → Walk σ' Unit}, pieces x y →
      (∀ a, pieces (f a) (g a)) → pieces (x >>= f) (y >>= g))
    {c c'} (h : contexts c c') {ns ns' : List Node} (hn : List.Forall₂ M.nodes ns ns') :
    pieces (Walk.visitEach d c ns) (Walk.visitEach d' c' ns') := by
  induction hn with
  | nil => exact pure
  | cons hn _ ih => exact bind (hd.node hn h) fun _ => ih

/-- A relation between the pieces of two walks which the single operations keep to, and which holds
of what is put together from related pieces. What the handler of a node does is to be related to
whatever the other walk does with the node that goes together with it. -/
structure Coupling (M : Matching) (w : Walker σ C) (w' : Walker σ' C') where
  contexts : C → C' → Prop
  pieces : ∀ {α : Type}, Walk σ α → Walk σ' α → Prop
  rescans : w.options.rescanNodeScopes = w'.options.rescanNodeScopes
  top {c c'} (h : contexts c c') : M.entities (w.visitor.top c) (w'.visitor.top c')
  pure {α : Type} (a : α) : pieces (pure a) (pure a)
  fail {α : Type} {e e'} (h : M.errors e e') : pieces (Walk.fail e : Walk σ α) (Walk.fail e')
  outOfDepth {α : Type} : pieces (throw .outOfDepth : Walk σ α) (throw .outOfDepth)
  bind {α β : Type} {x : Walk σ α} {y : Walk σ' α} {f : α → Walk σ β} {g : α → Walk σ' β}
    (h : pieces x y) (hf : ∀ a, pieces (f a) (g a)) : pieces (x >>= f) (y >>= g)
  /-- What is derived from related contexts is related in all that follows. -/
  derive {α : Type} {d d'} (hd : M.Derivations d d') {c c'} (h : contexts c c') {f : C → Walk σ α}
    {g : C' → Walk σ' α} (hf : ∀ {i i'}, contexts i i' → pieces (f i) (g i')) :
    pieces (w.derive d c >>= f) (w'.derive d' c' >>= g)
  setParent {e e'} (he : M.entities e e') {p p'} (hp : M.entities p p') :
    pieces (Walk.setParent e p) (Walk.setParent e' p')
  callEntity (hook) {e e'} (he : M.entities e e') {c c'} (h : contexts c c') {i i'}
    (hi : Option.Rel contexts i i') :
    pieces (w.callEntity hook e c i) (w'.callEntity hook e' c' i')
  callNode (hook) {n n'} (hn : M.nodes n n') {c c'} (h : contexts c c') :
    pieces (w.callNode hook n c) (w'.callNode hook n' c')
  callTarget (hook) {a a'} (ha : M.Assignments a a') {c c'} (h : contexts c c') :
    pieces (w.callTarget hook a c) (w'.callTarget hook a' c')
  checkArity {n n'} (hn : M.nodes n n' ∨ M.targets n n') :
    pieces (w.checkArity n) (w'.checkArity n')
  customEntity {d d'} (hd : Descent.Coupled M contexts pieces d d') {e e'}
    (he : M.entities e e') {kind} (hk : e.kind = .custom kind) {c c'} (h : contexts c c') :
    pieces (w.runCustomEntity d e kind c) (w'.runCustomEntity d' e' kind c')
  customNode {d d'} (hd : Descent.Coupled M contexts pieces d d') {n n'} (hn : M.nodes n n')
    {kind} (hk : n.kind = .custom kind) {c c'} (h : contexts c c') :
    pieces (w.runCustomNode d n kind c) (w'.runNode d' n' c')
  customTarget {d d'} (hd : Descent.Coupled M contexts pieces d d') {a a'}
    (ha : M.Assignments a a') {c c'} (h : contexts c c') :
    pieces (w.runCustomTarget d a c) (w'.runCustomTarget d' a' c')

namespace Coupling

variable {M : Matching} {w : Walker σ C} {w' : Walker σ' C'} (S : Coupling M w w')

/-- A child that is required goes on beside the one that belongs together with it. -/
theorem requireChild {α : Type} {parts : Node → Node → Prop} {n n' : Node} {i : Nat}
    (hm : Option.Rel parts (n.child? i) (n'.child? i))
    (h : M.nodes n n' ∧ n.IsBuiltIn ∨ M.targets n n')
    {f : Node → Walk σ α} {g : Node → Walk σ' α}
    (hf : ∀ {m m'}, parts m m' → S.pieces (f m) (g m')) :
    S.pieces (Walk.requireChild n i >>= f) (Walk.requireChild n' i >>= g) := by
  rw [Walk.requireChild_eq, Walk.requireChild_eq]
  revert hm
  generalize n.child? i = m, n'.child? i = m'
  intro hm
  cases hm with
  | some hm => exact hf hm
  | none => exact S.fail (M.missing h i)

section Layer

variable {d : Descent σ C} {d' : Descent σ' C'}
  (hd : Descent.Coupled M S.contexts S.pieces d d') {c : C} {c' : C'} (h : S.contexts c c')

include hd h

theorem visitScoped {p p' : Entity} (hp : M.entities p p') {es es' : List Entity}
    (he : List.Forall₂ M.entities es es') :
    S.pieces (Walk.visitScoped d p c es) (Walk.visitScoped d' p' c' es') := by
  induction he with
  | nil => exact S.pure ()
  | cons he _ ih => exact S.bind (S.setParent he hp) fun _ => S.bind (hd.entity he h) fun _ => ih

theorem visitEach {ns ns' : List Node} (hn : List.Forall₂ M.nodes ns ns') :
    S.pieces (Walk.visitEach d c ns) (Walk.visitEach d' c' ns') :=
  hd.visitEach (S.pure ()) S.bind h hn

/-! ## Nodes -/

variable {n n' : Node} (hn : M.nodes n n')

include hn

section BuiltIn

variable (hb : n.IsBuiltIn)

include hb

theorem runStep {step : Step} (hs : step.Comes n) :
    S.pieces (w.runStep d n c step) (w'.runStep d' n' c' step) := by
  have visited {i : Nat} (hi : i ∈ step.visited) := M.visited hn hb hs hi
  cases step with
  | visit i =>
    exact S.requireChild (visited List.mem_cons_self) (.inl ⟨hn, hb⟩) fun hm =>
      S.bind (hd.node hm h) fun _ => S.pure _
  | visitLocal i =>
    exact S.derive (.localScope hn hb) h fun hi =>
      S.requireChild (visited List.mem_cons_self) (.inl ⟨hn, hb⟩) fun hm =>
        S.bind (hd.node hm hi) fun _ => S.pure _
  | visitProtected i j =>
    exact S.requireChild (visited List.mem_cons_self) (.inl ⟨hn, hb⟩) fun body =>
      S.requireChild (M.cleanup hn hb hs) (.inl ⟨hn, hb⟩) fun cleanup =>
        S.derive (.unwind cleanup) h fun hi => S.bind (hd.node body hi) fun _ => S.pure _
  | between point => exact S.bind (S.callNode _ hn h) fun _ => S.pure _
  | assign i j =>
    obtain ⟨hk, rfl⟩ := hs.target rfl
    exact S.requireChild (M.assigned hn hk) (.inl ⟨hn, hb⟩) fun target =>
      S.requireChild (visited List.mem_cons_self) (.inl ⟨hn, hb⟩) fun rhs =>
        S.bind (hd.node rhs h) fun _ => hd.target ⟨target, rhs, hn⟩ h

theorem runPlan {steps : List Step} (hs : ∀ step ∈ steps, step.Comes n) :
    S.pieces (w.runPlan d n c steps) (w'.runPlan d' n' c' steps) := by
  induction steps with
  | nil => exact S.pure _
  | cons step steps ih =>
    obtain ⟨first, later⟩ := List.forall_mem_cons.1 hs
    refine S.bind (S.runStep hd h hn hb first) fun answer => ?_
    cases answer with
    | proceed => exact ih later
    | handled => exact S.pure _

theorem runBuiltIn : S.pieces (w.runBuiltIn d n c) (w'.runBuiltIn d' n' c') := by
  obtain ⟨kind, count⟩ := M.builtIn hn hb
  unfold Walker.runBuiltIn
  rw [← kind, ← count]
  split
  · exact S.fail (M.malformed (.inl ⟨hn, hb⟩) _)
  · rename_i hp
    refine S.bind (S.callNode _ hn h) fun answer => ?_
    cases answer with
    | handled => exact S.pure _
    | proceed =>
      refine S.bind (S.runPlan hd h hn hb (Node.plan_comes hp)) fun answer => ?_
      cases answer with
      | handled => exact S.pure _
      | proceed => exact S.bind (S.callNode _ hn h) fun _ => S.pure _

end BuiltIn

theorem runNode : S.pieces (w.runNode d n c) (w'.runNode d' n' c') := by
  rcases n.custom_or_builtIn with ⟨kind, hk⟩ | hb
  · rw [Walker.runNode_custom hk]
    exact S.customNode hd hn hk h
  · rw [Walker.runNode_builtIn hb,
      Walker.runNode_builtIn fun kind hk => hb kind ((M.builtIn hn hb).1.trans hk)]
    exact S.runBuiltIn hd h hn hb

theorem visitScopedUnder (answer : Answer) :
    S.pieces (w.visitScopedUnder d n answer c) (w'.visitScopedUnder d' n' answer c') := by
  unfold Walker.visitScopedUnder
  rw [S.rescans, ← M.node hn]
  split
  · exact S.visitScoped hd h (S.top h) (M.scopedUnder (S.top h) _)
  · exact S.pure ()

theorem visitNodeIn : S.pieces (w.visitNodeIn d n c) (w'.visitNodeIn d' n' c') := by
  refine S.bind (S.callNode _ hn h) fun answer => ?_
  cases answer with
  | handled => exact S.pure ()
  | proceed =>
    exact S.bind (S.checkArity (.inl hn)) fun _ => S.bind (S.runNode hd h hn) fun answer =>
      S.bind (S.visitScopedUnder hd h hn answer) fun _ =>
        S.bind (S.callNode _ hn h) fun _ => S.pure ()

omit hn

/-! ## Assignment targets -/

variable {a a' : Assignment} (ha : M.Assignments a a')

include ha

omit hd in
theorem runTarget {inside : Walk σ Answer} {inside' : Walk σ' Answer}
    (hi : S.pieces inside inside') :
    S.pieces (w.runTarget a c inside) (w'.runTarget a' c' inside') := by
  refine S.bind (S.callTarget _ ha h) fun answer => ?_
  cases answer with
  | handled => exact S.pure _
  | proceed =>
    refine S.bind hi fun answer => ?_
    cases answer with
    | handled => exact S.pure _
    | proceed => exact S.bind (S.callTarget _ ha h) fun _ => S.pure _

theorem dispatchIn : S.pieces (w.dispatchIn d a c) (w'.dispatchIn d' a' c') := by
  have target := ha.target
  unfold Walker.dispatchIn
  rw [← (M.target target).1]
  split
  · rename_i hk
    refine S.bind (S.checkArity (.inr target)) fun _ => S.runTarget h ha ?_
    exact S.requireChild (M.base target (.inl hk)) (.inr target) fun hm =>
      S.bind (hd.node hm h) fun _ => S.bind (S.visitEach hd h (M.indices target hk)) fun _ =>
        S.pure _
  · rename_i hk
    refine S.bind (S.checkArity (.inr target)) fun _ => S.runTarget h ha ?_
    exact S.requireChild (M.base target (.inr hk)) (.inr target) fun hm =>
      S.bind (hd.node hm h) fun _ => S.pure _
  · rename_i hk
    refine S.runTarget h ha ?_
    have last := M.last target hk
    revert last
    cases a.target.lastChild? <;> cases a'.target.lastChild? <;> intro last <;> cases last
    · exact S.fail (M.malformed (.inr target) _)
    · rename_i hm
      refine hd.target ?_ h
      exact ⟨hm, ha.rhs, ha.assign⟩
  · exact S.runTarget h ha (S.pure _)
  · exact S.customTarget hd ha h

omit ha

/-! ## Entities -/

variable {e e' : Entity} (he : M.entities e e')

include he

theorem runContainer {derivation derivation' : Derivation}
    (hv : M.Derivations derivation derivation') (hk : e.kind.isCode = false) :
    S.pieces (w.runContainer d e c derivation) (w'.runContainer d' e' c' derivation') := by
  refine S.derive hv h fun hi => S.bind (S.callEntity _ he h (.some hi)) fun answer => ?_
  cases answer with
  | handled => exact S.pure ()
  | proceed =>
    exact S.bind (S.visitScoped hd hi he (M.allScoped he hk)) fun _ =>
      S.bind (S.callEntity _ he h (.some hi)) fun _ => S.pure ()

theorem runCode :
    S.pieces (w.runCode d e c) (w'.runCode d' e' c') := by
  have body : List.Forall₂ M.nodes e.body.toList e'.body.toList := by
    have body := M.body he
    revert body
    cases e.body <;> cases e'.body <;> intro body <;> cases body
    · exact .nil
    · exact .cons ‹_› .nil
  refine S.derive (.code he) h fun hi => S.bind (S.callEntity _ he h (.some hi)) fun answer => ?_
  cases answer with
  | handled => exact S.pure ()
  | proceed =>
    exact S.bind (S.visitEach hd hi body) fun _ =>
      S.bind (S.visitScoped hd hi he (M.scopedUnder he _)) fun _ =>
        S.bind (S.callEntity _ he h (.some hi)) fun _ => S.pure ()

omit hd in
theorem runField : S.pieces (w.runField e c) (w'.runField e' c') := by
  refine S.bind (S.callEntity _ he h .none) fun answer => ?_
  cases answer with
  | handled => exact S.pure ()
  | proceed => exact S.bind (S.callEntity _ he h .none) fun _ => S.pure ()

theorem runEntity : S.pieces (w.runEntity d e c) (w'.runEntity d' e' c') := by
  unfold Walker.runEntity
  rw [← (M.entity he).2]
  split
  · rename_i hk
    exact S.runContainer hd h he (.file he) (hk ▸ rfl)
  · rename_i hk
    exact S.runContainer hd h he (.type he) (hk ▸ rfl)
  · exact S.runCode hd h he
  · exact S.runCode hd h he
  · exact S.runField h he
  · exact S.customEntity hd he ‹_› h

theorem visitEntityIn : S.pieces (w.visitEntityIn d e c) (w'.visitEntityIn d' e' c') := by
  refine S.bind (S.callEntity _ he h .none) fun answer => ?_
  cases answer with
  | handled => exact S.pure ()
  | proceed =>
    exact S.bind (S.runEntity hd h he) fun _ =>
      S.bind (S.callEntity _ he h .none) fun _ => S.pure ()

end Layer

/-- If a walk without depth is beside one of some depth, a walk of any depth is beside one that is
deeper by that much. -/
theorem descent_add (more : Nat)
    (hout : Descent.Coupled M S.contexts S.pieces (w.descent 0) (w'.descent more))
    (depth : Nat) :
    Descent.Coupled M S.contexts S.pieces (w.descent depth) (w'.descent (more + depth)) := by
  induction depth with
  | zero => exact hout
  | succ depth ih =>
    exact ⟨fun he _ _ h => S.visitEntityIn ih h he, fun hn _ _ h => S.visitNodeIn ih h hn,
      fun ha _ _ h => S.dispatchIn ih h ha⟩

/-- Walks of any depth are related. -/
theorem descent (depth : Nat) :
    Descent.Coupled M S.contexts S.pieces (w.descent depth) (w'.descent depth) := by
  have none : Descent.Coupled M S.contexts S.pieces (w.descent 0) (w'.descent 0) :=
    ⟨fun _ _ _ _ => S.outOfDepth, fun _ _ _ _ => S.outOfDepth, fun _ _ _ _ => S.outOfDepth⟩
  have related := S.descent_add 0 none depth
  rwa [Nat.zero_add] at related

end Coupling

end SyntaxWalk
