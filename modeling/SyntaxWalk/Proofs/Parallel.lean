import SyntaxWalk.Proofs.Log

/-!
# Visitors beside each other

Two visitors that take calls about parts that belong together in the same way, and answer them
alike, are led alike through trees that belong together: their walks end alike, and each call is
made beside one that belongs to it (`Visitor.Beside.walks`).
-/

namespace SyntaxWalk

variable {σ σ' C C' α α' : Type}

namespace Likeness

variable (L : Likeness) (contexts : C → C' → Prop) (memories : σ → σ' → Prop)

/-- The same entities have parents, and parents that belong together. -/
def Tables (t t' : ParentTable) : Prop :=
  List.Forall₂ (fun x x' => x.1 = x'.1 ∧ L.entities x.2 x'.2) t.entries t'.entries

inductive Calls : HookCall C → HookCall C' → Prop where
  | entity {hook e e' c c' i i' t t'} (he : L.entities e e') (hc : contexts c c')
      (hi : Option.Rel contexts i i') (ht : L.Tables t t') :
      Calls (.entity hook e c i t) (.entity hook e' c' i' t')
  | node {hook n n' c c'} (hn : L.nodes n n') (hc : contexts c c') :
      Calls (.node hook n c) (.node hook n' c')
  | target {hook a a' c c'} (ha : L.Assignments a a') (hc : contexts c c') :
      Calls (.target hook a c) (.target hook a' c')

inductive Entries : Entry C → Entry C' → Prop where
  | called {call call' answer} (h : L.Calls contexts call call') :
      Entries (.called call answer) (.called call' answer)
  | derived {d d' outer outer' inner inner'} (hd : L.Derivations d d')
      (ho : contexts outer outer') (hi : contexts inner inner') :
      Entries (.derived d outer inner) (.derived d' outer' inner')
  | began : Entries .began .began
  | ended : Entries .ended .ended

/-- The memories and the logs beside them are alike. -/
structure Memories (m : Logged σ C) (m' : Logged σ' C') : Prop where
  memory : memories m.memory m'.memory
  log : List.Forall₂ (L.Entries contexts) m.log m'.log

structure States (s : WalkState σ) (s' : WalkState σ') : Prop where
  memory : memories s.memory s'.memory
  parents : L.Tables s.parents s'.parents

/-- Two walks have ended alike. -/
inductive Results (values : α → α' → Prop) :
    EStateM.Result Stop (WalkState σ) α → EStateM.Result Stop (WalkState σ') α' → Prop where
  | ok {a a' s s'} (ha : values a a') (hs : L.States memories s s') :
      Results values (.ok a s) (.ok a' s')
  | failed {e e' s s'} (he : L.errors e e') (hs : L.States memories s s') :
      Results values (.error (.failed e) s) (.error (.failed e') s')
  | outOfDepth {s s'} (hs : L.States memories s s') :
      Results values (.error .outOfDepth s) (.error .outOfDepth s')

/-- Two pieces of walks end alike, from states that are alike. -/
structure Pieces (values : α → α' → Prop) (x : Walk σ α) (y : Walk σ' α') : Prop where
  run {s s'} (hs : L.States memories s s') : L.Results memories values (x s) (y s')

variable {L contexts memories}

theorem Tables.setParent {t t' : ParentTable} (h : L.Tables t t') {e e' : Entity}
    (he : L.entities e e') {p p' : Entity} (hp : L.entities p p') :
    L.Tables (t.setParent e p) (t'.setParent e' p') := by
  obtain ⟨entries⟩ := t
  obtain ⟨entries'⟩ := t'
  have id := (L.entity he).1
  simp only [Tables, ParentTable.setParent, Table.insert] at h ⊢
  induction h with
  | nil => exact .cons ⟨id, hp⟩ .nil
  | @cons x x' rest rest' hx hr ih =>
    simp only [Table.insertEntry, ← id, ← hx.1]
    cases compare e.id x.1 with
    | lt => exact .cons ⟨rfl, hp⟩ (.cons ⟨rfl, hx.2⟩ hr)
    | eq => exact .cons ⟨rfl, hp⟩ hr
    | gt => exact .cons ⟨rfl, hx.2⟩ (id ▸ ih)

/-- What is looked up in two tables belongs together. -/
theorem Tables.parent? {t t' : ParentTable} (h : L.Tables t t') {e e' : Entity}
    (he : L.entities e e') : Option.Rel L.entities (t.parent? e) (t'.parent? e') := by
  obtain ⟨entries⟩ := t
  obtain ⟨entries'⟩ := t'
  have id := (L.entity he).1
  simp only [Tables, ParentTable.parent?, Table.get?] at h ⊢
  induction h with
  | nil => exact .none
  | @cons x x' rest rest' hx hr ih =>
    obtain ⟨key, value⟩ := hx
    simp only [List.find?_cons, ← id, ← key]
    cases compare e.id x.1 with
    | eq => exact .some value
    | lt | gt => exact id ▸ ih

namespace Pieces

variable {values : α → α' → Prop}

theorem pure {a : α} {a' : α'} (h : values a a') :
    L.Pieces memories values (pure a : Walk σ α) (pure a' : Walk σ' α') :=
  ⟨fun hs => .ok h hs⟩

theorem fail {e e' : Walk.Error} (h : L.errors e e') :
    L.Pieces memories values (Walk.fail e : Walk σ α) (Walk.fail e' : Walk σ' α') :=
  ⟨fun hs => .failed h hs⟩

theorem bind {β β' : Type} {results : β → β' → Prop} {x : Walk σ α} {y : Walk σ' α'}
    {f : α → Walk σ β} {g : α' → Walk σ' β'} (h : L.Pieces memories values x y)
    (hf : ∀ {a a'}, values a a' → L.Pieces memories results (f a) (g a')) :
    L.Pieces memories results (x >>= f) (y >>= g) := by
  refine ⟨fun {s s'} hs => ?_⟩
  have ended := h.run hs
  simp only [Bind.bind, EStateM.bind]
  revert ended
  generalize x s = r, y s' = r'
  intro ended
  cases ended with
  | ok ha ht => exact (hf ha).run ht
  | failed he ht => exact .failed he ht
  | outOfDepth ht => exact .outOfDepth ht

/-- Pieces that never stop. -/
theorem total {x : Walk σ α} {y : Walk σ' α'} (f : WalkState σ → α × WalkState σ)
    (g : WalkState σ' → α' × WalkState σ') (hx : ∀ s, x s = .ok (f s).1 (f s).2)
    (hy : ∀ s, y s = .ok (g s).1 (g s).2)
    (h : ∀ {s s'}, L.States memories s s' →
      values (f s).1 (g s').1 ∧ L.States memories (f s).2 (g s').2) :
    L.Pieces memories values x y := by
  refine ⟨fun {s s'} hs => ?_⟩
  rw [hx, hy]
  exact .ok (h hs).1 (h hs).2

theorem setParent {e e' : Entity} (he : L.entities e e') {p p' : Entity} (hp : L.entities p p') :
    L.Pieces memories Eq (Walk.setParent e p : Walk σ Unit) (Walk.setParent e' p' : Walk σ' Unit) :=
  total (fun s => ((), { s with parents := ParentTable.setParent s.parents e p }))
    (fun s => ((), { s with parents := ParentTable.setParent s.parents e' p' }))
    (fun _ => rfl) (fun _ => rfl) fun hs => ⟨rfl, hs.memory, hs.parents.setParent he hp⟩

theorem whole {d : Descent σ C} {d' : Descent σ' C'} {root root' : Entity} {c : C} {c' : C'}
    (h : L.Pieces memories Eq (d.entity root c) (d'.entity root' c')) :
    L.Pieces memories L.Tables (Walk.whole d root c) (Walk.whole d' root' c') := by
  have start : L.Pieces memories Eq (modify fun s => { s with parents := {} } : Walk σ Unit)
      (modify fun s => { s with parents := {} } : Walk σ' Unit) :=
    total (fun s => ((), { s with parents := {} })) (fun s => ((), { s with parents := {} }))
      (fun _ => rfl) (fun _ => rfl) fun hs => ⟨rfl, hs.memory, .nil⟩
  have handed : L.Pieces memories L.Tables
      (modifyGet fun s => (s.parents, { s with parents := {} }) : Walk σ ParentTable)
      (modifyGet fun s => (s.parents, { s with parents := {} }) : Walk σ' ParentTable) :=
    total (fun s => (s.parents, { s with parents := {} }))
      (fun s => (s.parents, { s with parents := {} }))
      (fun _ => rfl) (fun _ => rfl) fun hs => ⟨hs.parents, hs.memory, .nil⟩
  exact start.bind fun _ => h.bind fun _ => handed

/-- What is so of pieces with logs is so of what they do without, and of the logs. -/
theorem forget {x : Walk (Logged σ C) α} {y : Walk (Logged σ' C') α'} {x' : Walk σ α}
    {y' : Walk σ' α'} (h : L.Pieces (L.Memories contexts memories) values x y)
    (hx : Forgets x x') (hy : Forgets y y') {s : WalkState σ} {s' : WalkState σ'}
    (hs : L.States memories s s') :
    L.Results memories values (x' s) (y' s') ∧
      List.Forall₂ (L.Entries contexts) (x.log s) (y.log s') := by
  have start : L.States (L.Memories contexts memories) s.withLog s'.withLog :=
    ⟨⟨hs.memory, .nil⟩, hs.parents⟩
  have plain {t : WalkState (Logged σ C)} {t' : WalkState (Logged σ' C')}
      (h : L.States (L.Memories contexts memories) t t') : L.States memories t.forget t'.forget :=
    ⟨h.memory.memory, h.parents⟩
  have ended := h.run start
  unfold Walk.log Walk.final
  cases h : x s.withLog <;> cases h' : y s'.withLog <;> rw [h, h'] at ended <;> cases ended
  case ok.ok.ok ha ht =>
    have left : x' s = _ := hx.ok h
    have right : y' s' = _ := hy.ok h'
    rw [left, right]
    exact ⟨.ok ha (plain ht), ht.memory.log⟩
  case error.error.failed he ht =>
    have left : x' s = _ := hx.error h
    have right : y' s' = _ := hy.error h'
    rw [left, right]
    exact ⟨.failed he (plain ht), ht.memory.log⟩
  case error.error.outOfDepth ht =>
    have left : x' s = _ := hx.error h
    have right : y' s' = _ := hy.error h'
    rw [left, right]
    exact ⟨.outOfDepth (plain ht), ht.memory.log⟩

end Pieces

end Likeness

/-- Two visitors derive contexts that are alike, and answer alike, for what belongs together. -/
structure Visitor.Beside (L : Likeness) (contexts : C → C' → Prop) (memories : σ → σ' → Prop)
    (v : Visitor σ C) (v' : Visitor σ' C') : Prop where
  top {c c'} (hc : contexts c c') : L.entities (v.top c) (v'.top c')
  derive {d d'} (hd : L.Derivations d d') {c c'} (hc : contexts c c') {m m'}
    (hm : memories m m') :
    contexts (v.derive d c m).1 (v'.derive d' c' m').1 ∧
      memories (v.derive d c m).2 (v'.derive d' c' m').2
  answer {call call'} (h : L.Calls contexts call call') {m m'} (hm : memories m m') :
    (v.answer call m).1 = (v'.answer call' m').1 ∧
      memories (v.answer call m).2 (v'.answer call' m').2

namespace Visitor.Beside

variable {L : Likeness} {contexts : C → C' → Prop} {memories : σ → σ' → Prop} {v : Visitor σ C}
  {v' : Visitor σ' C'} (h : v.Beside L contexts memories v')

include h

/-- The same visitors beside each other, and with logs. -/
theorem logged : v.logged.Beside L contexts (L.Memories contexts memories) v'.logged where
  top := h.top
  derive hd _ _ hc _ _ hm := by
    obtain ⟨inner, memory⟩ := h.derive hd hc hm.memory
    exact ⟨inner, memory, List.rel_append hm.log (.cons (.derived hd hc inner) .nil)⟩
  answer hcall _ _ hm := by
    obtain ⟨answer, memory⟩ := h.answer hcall hm.memory
    refine ⟨answer, memory, List.rel_append hm.log (.cons ?_ .nil)⟩
    rw [answer]
    exact .called hcall

theorem call_pieces {x x' o o'} {call : HookCall C} {call' : HookCall C'}
    (hc : L.Calls contexts call call') :
    L.Pieces memories Eq ((⟨v, x, o⟩ : Walker σ C).call call)
      ((⟨v', x', o'⟩ : Walker σ' C').call call') :=
  .total (fun s => ((v.answer call s.memory).1, { s with memory := (v.answer call s.memory).2 }))
    (fun s => ((v'.answer call' s.memory).1, { s with memory := (v'.answer call' s.memory).2 }))
    (fun _ => rfl) (fun _ => rfl) fun hs =>
      ⟨(h.answer hc hs.memory).1, (h.answer hc hs.memory).2, hs.parents⟩

theorem derive_pieces {x x' o o'} {d d' : Derivation} (hd : L.Derivations d d') {c : C} {c' : C'}
    (hc : contexts c c') :
    L.Pieces memories contexts ((⟨v, x, o⟩ : Walker σ C).derive d c)
      ((⟨v', x', o'⟩ : Walker σ' C').derive d' c') :=
  .total (fun s => ((v.derive d c s.memory).1, { s with memory := (v.derive d c s.memory).2 }))
    (fun s => ((v'.derive d' c' s.memory).1, { s with memory := (v'.derive d' c' s.memory).2 }))
    (fun _ => rfl) (fun _ => rfl) fun hs =>
      ⟨(h.derive hd hc hs.memory).1, (h.derive hd hc hs.memory).2, hs.parents⟩

omit h in
theorem checkArity_pieces {x x'} {o : Options} {n n' : Node} (hn : L.nodes n n' ∨ L.targets n n') :
    L.Pieces memories Eq ((⟨v, x, o⟩ : Walker σ C).checkArity n)
      ((⟨v', x', o⟩ : Walker σ' C').checkArity n') := by
  have same : n.kind = n'.kind ∧ n.childCount = n'.childCount :=
    hn.elim (fun hn => (L.node hn).2) L.target
  unfold Walker.checkArity
  rw [← same.1, ← same.2]
  split
  · split
    · exact .fail (L.malformed hn _)
    · exact .pure rfl
  · exact .pure rfl

/-- Without handlers, what two visitors are led through corresponds. -/
def correspondence (o : Options) :
    Correspondence L (⟨v, {}, o⟩ : Walker σ C) (⟨v', {}, o⟩ : Walker σ' C') where
  contexts := contexts
  pieces := L.Pieces memories Eq
  rescans := rfl
  top := h.top
  pure _ := .pure rfl
  fail := .fail
  outOfDepth := ⟨fun hs => .outOfDepth hs⟩
  bind hx hf := hx.bind fun {a a'} (ha : a = a') => ha ▸ hf a
  derive hd _ _ hc _ _ hf := (h.derive_pieces hd hc).bind hf
  setParent := .setParent
  callEntity _ _ _ he _ _ hc _ _ hi :=
    ⟨fun hs => (h.call_pieces (.entity he hc hi hs.parents)).run hs⟩
  callNode _ _ _ hn _ _ hc := h.call_pieces (.node hn hc)
  callTarget _ _ _ ha _ _ hc := h.call_pieces (.target ha hc)
  checkArity := checkArity_pieces
  customEntity _ _ _ he _ _ _ _ _ := .fail (L.ofEntity he)
  customNode _ _ _ hn _ _ _ _ _ := .fail (L.ofNode hn)
  customTarget _ _ _ ha _ _ _ := .fail (L.unsupported ha.target ha.assign)

theorem walk_results (o : Options) (depth : Nat) {root root' : Entity}
    (hr : L.entities root root') {c : C} {c' : C'} (hc : contexts c c') :
    L.Pieces memories L.Tables ((⟨v, {}, o⟩ : Walker σ C).walk depth root c)
      ((⟨v', {}, o⟩ : Walker σ' C').walk depth root' c') :=
  .whole (((h.correspondence o).descent depth).entity hr hc)

/-- Walks of trees that belong together end alike and make calls that belong together. -/
theorem walks (o : Options) (depth : Nat) {root root' : Entity} (hr : L.entities root root')
    {c : C} {c' : C'} (hc : contexts c c') {s : WalkState σ} {s' : WalkState σ'}
    (hs : L.States memories s s') :
    let w : Walker σ C := ⟨v, {}, o⟩
    let w' : Walker σ' C' := ⟨v', {}, o⟩
    L.Results memories L.Tables (w.walk depth root c s) (w'.walk depth root' c' s') ∧
      List.Forall₂ (L.Entries contexts) (w.walkLog depth root c s)
        (w'.walkLog depth root' c' s') :=
  (h.logged.walk_results o depth hr hc).forget (Walker.walk_logged ⟨v, {}, o⟩ depth root c)
    (Walker.walk_logged ⟨v', {}, o⟩ depth root' c') hs

end Visitor.Beside

end SyntaxWalk
