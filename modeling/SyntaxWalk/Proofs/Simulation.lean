import SyntaxWalk.Proofs.Correspondence

/-!
# Walks of one tree beside each other

Two walkers may be told apart by their visitors, their handlers or their options, and the pieces of
their walks may yet be related in some way, under contexts that are related. A `Simulation` is what
has to be shown of such a relation when both walk the same tree; then the walks are related at every
depth (`Simulation.descent`).
-/

namespace SyntaxWalk

variable {σ σ' C C' : Type}

/-- The operations of two layers are related. -/
structure Descent.Related (contexts : C → C' → Prop)
    (pieces : ∀ {α : Type}, Walk σ α → Walk σ' α → Prop) (d : Descent σ C) (d' : Descent σ' C') :
    Prop where
  entity (e) {c c'} (h : contexts c c') : pieces (d.entity e c) (d'.entity e c')
  node (n) {c c'} (h : contexts c c') : pieces (d.node n c) (d'.node n c')
  target (a) {c c'} (h : contexts c c') : pieces (d.target a c) (d'.target a c')

/-- A relation between the pieces of two walks which the single operations keep to, and which holds
of what is put together from related pieces. -/
structure Simulation (w : Walker σ C) (w' : Walker σ' C') where
  contexts : C → C' → Prop
  pieces : ∀ {α : Type}, Walk σ α → Walk σ' α → Prop
  rescans : w.options.rescanNodeScopes = w'.options.rescanNodeScopes
  top {c c'} (h : contexts c c') : w.visitor.top c = w'.visitor.top c'
  pure {α : Type} (a : α) : pieces (pure a) (pure a)
  fail {α : Type} (e) : pieces (Walk.fail e : Walk σ α) (Walk.fail e)
  outOfDepth {α : Type} : pieces (throw .outOfDepth : Walk σ α) (throw .outOfDepth)
  bind {α β : Type} {x : Walk σ α} {y : Walk σ' α} {f : α → Walk σ β} {g : α → Walk σ' β}
    (h : pieces x y) (hf : ∀ a, pieces (f a) (g a)) : pieces (x >>= f) (y >>= g)
  /-- What is derived from related contexts is related in all that follows. -/
  derive {α : Type} (d) {c c'} (h : contexts c c') {f : C → Walk σ α} {g : C' → Walk σ' α}
    (hf : ∀ {i i'}, contexts i i' → pieces (f i) (g i')) :
    pieces (w.derive d c >>= f) (w'.derive d c' >>= g)
  setParent (child parent) : pieces (Walk.setParent child parent) (Walk.setParent child parent)
  callEntity (hook e) {c c'} (h : contexts c c') {i i'} (hi : Option.Rel contexts i i') :
    pieces (w.callEntity hook e c i) (w'.callEntity hook e c' i')
  callNode (hook n) {c c'} (h : contexts c c') :
    pieces (w.callNode hook n c) (w'.callNode hook n c')
  callTarget (hook a) {c c'} (h : contexts c c') :
    pieces (w.callTarget hook a c) (w'.callTarget hook a c')
  checkArity (n) : pieces (w.checkArity n) (w'.checkArity n)
  customEntity {d d'} (hd : Descent.Related contexts pieces d d') {e kind}
    (hk : e.kind = .custom kind) {c c'} (h : contexts c c') :
    pieces (w.runCustomEntity d e kind c) (w'.runCustomEntity d' e kind c')
  customNode {d d'} (hd : Descent.Related contexts pieces d d') {n kind}
    (hk : n.kind = .custom kind) {c c'} (h : contexts c c') :
    pieces (w.runCustomNode d n kind c) (w'.runCustomNode d' n kind c')
  customTarget {d d'} (hd : Descent.Related contexts pieces d d') (a) {c c'}
    (h : contexts c c') : pieces (w.runCustomTarget d a c) (w'.runCustomTarget d' a c')

namespace Descent

variable {contexts : C → C' → Prop} {pieces : ∀ {α : Type}, Walk σ α → Walk σ' α → Prop}
  {d : Descent σ C} {d' : Descent σ' C'}

theorem Related.corresponds (hd : Descent.Related contexts pieces d d') :
    Descent.Corresponds Likeness.same contexts pieces d d' where
  entity he _ _ h := he ▸ hd.entity _ h
  node hn _ _ h := hn ▸ hd.node _ h
  target ha _ _ h := ha.eq ▸ hd.target _ h

theorem Corresponds.related (hd : Descent.Corresponds Likeness.same contexts pieces d d') :
    Descent.Related contexts pieces d d' where
  entity _ _ _ h := hd.entity rfl h
  node _ _ _ h := hd.node rfl h
  target _ _ _ h := hd.target ⟨rfl, rfl, rfl⟩ h

end Descent

namespace Simulation

variable {w : Walker σ C} {w' : Walker σ' C'} (S : Simulation w w')

/-- A simulation is about trees that are the same. -/
def correspondence : Correspondence Likeness.same w w' where
  contexts := S.contexts
  pieces := S.pieces
  rescans := S.rescans
  top := S.top
  pure := S.pure
  fail h := h ▸ S.fail _
  outOfDepth := S.outOfDepth
  bind := S.bind
  derive hd _ _ h _ _ hf := hd.eq ▸ S.derive _ h hf
  setParent he _ _ hp := by
    subst he hp
    exact S.setParent _ _
  callEntity hook _ _ he _ _ h _ _ hi := he ▸ S.callEntity hook _ h hi
  callNode hook _ _ hn _ _ h := hn ▸ S.callNode hook _ h
  callTarget hook _ _ ha _ _ h := ha.eq ▸ S.callTarget hook _ h
  checkArity h := by
    obtain rfl : _ = _ := h.elim id id
    exact S.checkArity _
  customEntity hd _ _ he _ hk _ _ h := he ▸ S.customEntity hd.related hk h
  customNode hd _ _ hn _ hk _ _ h := hn ▸ S.customNode hd.related hk h
  customTarget hd _ _ ha _ _ h := ha.eq ▸ S.customTarget hd.related _ h

/-- A walk of any depth is beside one that is deeper by `more`, if a walk without depth is. -/
theorem descent_add (more : Nat)
    (hout : Descent.Related S.contexts S.pieces (w.descent 0) (w'.descent more)) (depth : Nat) :
    Descent.Related S.contexts S.pieces (w.descent depth) (w'.descent (more + depth)) :=
  (S.correspondence.descent_add more hout.corresponds depth).related

/-- Walks of any depth are related. -/
theorem descent (depth : Nat) :
    Descent.Related S.contexts S.pieces (w.descent depth) (w'.descent depth) :=
  (S.correspondence.descent depth).related

end Simulation

end SyntaxWalk
