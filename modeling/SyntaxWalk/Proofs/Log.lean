import SyntaxWalk.Proofs.Simulation

/-!
# Logs of walks

A log is kept beside the memory of a visitor: every call of a hook with the answer to it, every
context derived, and where handlers begin and end. Visitors and handlers do not see it, so a walk
goes on as it does without a log (`Walker.walk_logged`), and what is said of logs is said of all
walks.
-/

namespace SyntaxWalk

inductive Entry (C : Type) where
  | called (call : HookCall C) (answer : Answer)
  | derived (d : Derivation) (outer inner : C)
  /-- A handler begins, to run until it has ended. -/
  | began
  | ended

structure Logged (σ C : Type) where
  memory : σ
  log : List (Entry C) := []

variable {σ C α β : Type}

/-- Something holds of each entry of a log, given the entries before it. -/
inductive Throughout (P : List α → α → Prop) : List α → Prop where
  | nil : Throughout P []
  | snoc {log x} (h : Throughout P log) (hx : P log x) : Throughout P (log ++ [x])

/-- Where an element of a list with one more at its end can be. -/
theorem append_singleton_eq_append_cons {log before after : List α} {x y : α}
    (h : log ++ [y] = before ++ x :: after) :
    (after = [] ∧ log = before ∧ y = x) ∨
      ∃ after', after = after' ++ [y] ∧ log = before ++ x :: after' := by
  rcases List.eq_nil_or_concat after with rfl | ⟨after, z, rfl⟩
  · obtain ⟨rfl, hx⟩ := List.append_inj' h rfl
    exact .inl ⟨rfl, rfl, List.singleton_inj.1 hx⟩
  · rw [List.concat_eq_append, ← List.cons_append, ← List.append_assoc] at h
    obtain ⟨rfl, hz⟩ := List.append_inj' h rfl
    cases List.singleton_inj.1 hz
    exact .inr ⟨after, List.concat_eq_append, rfl⟩

theorem Throughout.split {P : List α → α → Prop} {log : List α} (h : Throughout P log) :
    ∀ {before x after}, log = before ++ x :: after → P before x := by
  induction h with
  | nil =>
    intro before x after hl
    exact (List.append_ne_nil_of_right_ne_nil before (List.cons_ne_nil x after) hl.symm).elim
  | snoc h hy ih =>
    intro before x after hl
    rcases append_singleton_eq_append_cons hl with ⟨-, rfl, rfl⟩ | ⟨after', -, hl⟩
    · exact hy
    · exact ih hl

def Logged.add (m : Logged σ C) (x : Entry C) : Logged σ C :=
  { m with log := m.log ++ [x] }

def Visitor.logged (v : Visitor σ C) : Visitor (Logged σ C) C where
  top := v.top
  derive d context m :=
    ((v.derive d context m.memory).1,
      ⟨(v.derive d context m.memory).2,
        m.log ++ [.derived d context (v.derive d context m.memory).1]⟩)
  answer call m :=
    ((v.answer call m.memory).1,
      ⟨(v.answer call m.memory).2, m.log ++ [.called call (v.answer call m.memory).1]⟩)

namespace Procedure

/-- The same procedure on the memory inside. -/
def lift : Procedure σ C α → Procedure (Logged σ C) C α
  | .done a => .done a
  | .fail e => .fail e
  | .request r next => .request r fun outcome => (next outcome).lift
  | .walk root context next => .walk root context fun outcome => (next outcome).lift
  | .look next => .look fun v => (next ⟨v.memory.memory, v.parents, v.options, v.extensions⟩).lift
  | .store memory next => .look fun v => .store { v.memory with memory } next.lift

def mark (x : Entry C) : Procedure (Logged σ C) C Unit :=
  .look fun v => .store (v.memory.add x) (.done ())

def logged (p : Procedure σ C α) : Procedure (Logged σ C) C α := do
  mark .began
  let a ← p.lift
  mark .ended
  return a

end Procedure

namespace Table

variable {κ : Type}

def map (f : α → β) (t : Table κ α) : Table κ β :=
  ⟨t.entries.map fun e => (e.1, f e.2)⟩

theorem get?_map [Ord κ] (f : α → β) (t : Table κ α) (k : κ) :
    (t.map f).get? k = (t.get? k).map f := by
  simp only [get?, map, List.find?_map, Option.map_map]
  rfl

theorem keys_map (f : α → β) (t : Table κ α) : (t.map f).keys = t.keys := by
  simp only [keys, map, List.map_map]
  rfl

end Table

def Extensions.logged (x : Extensions σ C) : Extensions (Logged σ C) C where
  entities := x.entities.map fun h e context => (h e context).logged
  nodes := x.nodes.map fun h n context => (h n context).logged
  targets := x.targets.map fun h a context => (h a context).logged

theorem Extensions.names_logged (x : Extensions σ C) : x.logged.names = x.names := by
  simp only [names, logged, Table.keys_map]

/-- The walker with a log. -/
def Walker.logged (w : Walker σ C) : Walker (Logged σ C) C where
  visitor := w.visitor.logged
  extensions := w.extensions.logged
  options := w.options

theorem Walker.logged_extensions {w : Walker σ C} (h : w.extensions = {}) :
    w.logged.extensions = {} := by
  rw [logged, h]
  rfl

/-! ## A log changes nothing -/

def WalkState.forget (s : WalkState (Logged σ C)) : WalkState σ :=
  ⟨s.memory.memory, s.parents⟩

/-- The state with an empty log. -/
def WalkState.withLog (s : WalkState σ) : WalkState (Logged σ C) :=
  ⟨⟨s.memory, []⟩, s.parents⟩

/-- The state at the end, be it reached or the walk stopped. -/
def Walk.final (x : Walk σ α) (s : WalkState σ) : WalkState σ :=
  match x s with
  | .ok _ t | .error _ t => t

/-- Whether a piece of a walk ends without an error. -/
def Walk.succeeds (x : Walk σ α) (s : WalkState σ) : Bool :=
  match x s with
  | .ok _ _ => true
  | .error _ _ => false

theorem Walk.exists_ok {x : Walk σ α} {s : WalkState σ} (h : x.succeeds s = true) :
    ∃ a t, x s = .ok a t := by
  unfold succeeds at h
  cases hx : x s with
  | ok a t => exact ⟨a, t, rfl⟩
  | error stop t =>
    rw [hx] at h
    cases h

/-- What is logged from a state on. -/
def Walk.log (x : Walk (Logged σ C) α) (s : WalkState σ) : List (Entry C) :=
  (x.final s.withLog).memory.log

/-- A piece of a walk with a log does what another does without. -/
structure Forgets (x : Walk (Logged σ C) α) (y : Walk σ α) : Prop where
  ok {s a t} : x s = .ok a t → y s.forget = .ok a t.forget
  error {s stop t} : x s = .error stop t → y s.forget = .error stop t.forget

namespace Forgets

variable {x : Walk (Logged σ C) α} {y : Walk σ α}

theorem of_ok (h : Forgets x y) {s t : WalkState σ} {a : α} (hy : y s = .ok a t) :
    ∃ u, x s.withLog = .ok a u ∧ u.forget = t ∧ x.log s = u.memory.log := by
  unfold Walk.log Walk.final
  cases hx : x s.withLog with
  | ok b u =>
    cases (h.ok hx).symm.trans hy
    exact ⟨u, rfl, rfl, rfl⟩
  | error stop u => cases (h.error hx).symm.trans hy

theorem of_error (h : Forgets x y) {s t : WalkState σ} {stop : Stop} (hy : y s = .error stop t) :
    ∃ u, x s.withLog = .error stop u ∧ u.forget = t ∧ x.log s = u.memory.log := by
  unfold Walk.log Walk.final
  cases hx : x s.withLog with
  | ok b u => cases (h.ok hx).symm.trans hy
  | error stop u =>
    cases (h.error hx).symm.trans hy
    exact ⟨u, rfl, rfl, rfl⟩

/-- What ends in the same way with a log does so without. -/
theorem congr {x' : Walk (Logged σ C) α} {y' : Walk σ α} (h : Forgets x y) (h' : Forgets x' y')
    {s : WalkState σ} (hx : x s.withLog = x' s.withLog) : y s = y' s := by
  cases hs : x' s.withLog with
  | ok a t => exact (h.ok (hx.trans hs)).trans (h'.ok hs).symm
  | error stop t => exact (h.error (hx.trans hs)).trans (h'.error hs).symm

theorem pure {a : α} : Forgets (pure a : Walk (Logged σ C) α) (pure a) := by
  constructor
  · rintro s b t ⟨⟩
    rfl
  · rintro s stop t ⟨⟩

theorem fail {e : Walk.Error} : Forgets (Walk.fail e : Walk (Logged σ C) α) (Walk.fail e) := by
  constructor
  · rintro s b t ⟨⟩
  · rintro s stop t ⟨⟩
    rfl

theorem bind {f : α → Walk (Logged σ C) β} {g : α → Walk σ β} (h : Forgets x y)
    (hf : ∀ a, Forgets (f a) (g a)) : Forgets (x >>= f) (y >>= g) := by
  constructor
  · intro s b u hs
    obtain ⟨a, t, hx, hb⟩ := Walk.bind_eq_ok.1 hs
    exact Walk.bind_eq_ok.2 ⟨a, t.forget, h.ok hx, (hf a).ok hb⟩
  · intro s stop u hs
    rcases Walk.bind_eq_error.1 hs with hx | ⟨a, t, hx, hb⟩
    · exact Walk.bind_eq_error.2 (.inl (h.error hx))
    · exact Walk.bind_eq_error.2 (.inr ⟨a, t.forget, h.ok hx, (hf a).error hb⟩)

/-- Pieces that never stop. -/
theorem total (f : WalkState (Logged σ C) → α × WalkState (Logged σ C))
    (hx : ∀ s, x s = .ok (f s).1 (f s).2) (hy : ∀ s, y s.forget = .ok (f s).1 (f s).2.forget) :
    Forgets x y := by
  constructor
  · intro s a t h
    rw [hx] at h
    cases h
    exact hy s
  · intro s stop t h
    rw [hx] at h
    cases h

theorem attempt (h : Forgets x y) : Forgets (Walk.attempt x) (Walk.attempt y) := by
  constructor
  · intro s outcome t hs
    unfold Walk.attempt at hs ⊢
    cases hx : x s with
    | ok a u =>
      rw [hx] at hs
      cases hs
      rw [h.ok hx]
    | error stop u =>
      rw [hx] at hs
      cases stop with
      | failed e =>
        cases hs
        rw [h.error hx]
      | outOfDepth => cases hs
  · intro s stop t hs
    unfold Walk.attempt at hs ⊢
    cases hx : x s with
    | ok a u =>
      rw [hx] at hs
      cases hs
    | error stop u =>
      rw [hx] at hs
      cases stop with
      | failed e => cases hs
      | outOfDepth =>
        cases hs
        rw [h.error hx]

theorem setParent {child parent : Entity} :
    Forgets (Walk.setParent child parent : Walk (Logged σ C) Unit)
      (Walk.setParent child parent) :=
  .total (fun s => ((), { s with parents := ParentTable.setParent s.parents child parent }))
    (fun _ => rfl) fun _ => rfl

end Forgets

namespace Walker

variable {w : Walker σ C}

theorem call_forgets (c : HookCall C) : Forgets (w.logged.call c) (w.call c) :=
  .total (fun s => ((w.logged.visitor.answer c s.memory).1,
      { s with memory := (w.logged.visitor.answer c s.memory).2 }))
    (fun _ => rfl) fun _ => rfl

theorem callEntity_forgets (hook : EntityHook) (e : Entity) (context : C) (inner : Option C) :
    Forgets (w.logged.callEntity hook e context inner) (w.callEntity hook e context inner) :=
  .total
    (fun s => ((w.logged.visitor.answer (.entity hook e context inner s.parents) s.memory).1,
      { s with
        memory := (w.logged.visitor.answer (.entity hook e context inner s.parents) s.memory).2 }))
    (fun _ => rfl) fun _ => rfl

theorem derive_forgets (d : Derivation) (context : C) :
    Forgets (w.logged.derive d context) (w.derive d context) :=
  .total (fun s => ((w.logged.visitor.derive d context s.memory).1,
      { s with memory := (w.logged.visitor.derive d context s.memory).2 }))
    (fun _ => rfl) fun _ => rfl

theorem checkArity_forgets (n : Node) : Forgets (w.logged.checkArity n) (w.checkArity n) := by
  have options : w.logged.options = w.options := rfl
  rw [checkArity_eq, checkArity_eq, options]
  cases n.refused? w.options with
  | some expected => exact .fail
  | none => exact .pure

/-- The operations of a layer with a log do what those of a layer without do. -/
structure ForgetsBy (d : Descent (Logged σ C) C) (d' : Descent σ C) : Prop where
  entity : ∀ e context, Forgets (d.entity e context) (d'.entity e context)
  node : ∀ n context, Forgets (d.node n context) (d'.node n context)
  target : ∀ a context, Forgets (d.target a context) (d'.target a context)

section Layer

variable {d : Descent (Logged σ C) C} {d' : Descent σ C} (hd : ForgetsBy d d')

include hd

theorem runRequest_forgets (r : Request C) :
    Forgets (w.logged.runRequest d r) (w.runRequest d' r) := by
  cases r with
  | node n context => exact .bind (hd.node n context) fun _ => .pure
  | entity e context => exact .bind (hd.entity e context) fun _ => .pure
  | nested parent e context =>
    exact .bind .setParent fun _ => .bind (hd.entity e context) fun _ => .pure
  | target a context => exact hd.target a context
  | hook c => exact call_forgets c

theorem whole_forgets (root : Entity) (context : C) :
    Forgets (Walk.whole d root context) (Walk.whole d' root context) :=
  .bind (.total (fun s => ((), { s with parents := {} })) (fun _ => rfl) fun _ => rfl) fun _ =>
    .bind (hd.entity root context) fun _ =>
      .total (fun s => (s.parents, { s with parents := {} })) (fun _ => rfl) fun _ => rfl

theorem runProcedure_forgets (p : Procedure σ C α) :
    Forgets (w.logged.runProcedure d p.lift) (w.runProcedure d' p) := by
  induction p with
  | done a => exact .pure
  | fail e => exact .fail
  | request r next ih => exact .bind (runRequest_forgets hd r).attempt ih
  | walk root context next ih => exact .bind (whole_forgets hd root context).attempt ih
  | look next ih =>
    have names : w.logged.extensions.names = w.extensions.names := w.extensions.names_logged
    constructor
    · intro s a t h
      change w.logged.runProcedure d (next ⟨_, _, _, w.logged.extensions.names⟩).lift s = _ at h
      rw [names] at h
      exact (ih _).ok h
    · intro s stop t h
      change w.logged.runProcedure d (next ⟨_, _, _, w.logged.extensions.names⟩).lift s = _ at h
      rw [names] at h
      exact (ih _).error h
  | store memory next ih => exact ⟨fun h => ih.ok h, fun h => ih.error h⟩

omit hd in
theorem runProcedure_bind {w : Walker σ C} {d : Descent σ C} (p : Procedure σ C α)
    (f : α → Procedure σ C β) :
    w.runProcedure d (p >>= f) = w.runProcedure d p >>= fun a => w.runProcedure d (f a) := by
  induction p with
  | done a => rfl
  | fail e => rfl
  | request r next ih =>
    funext s
    change Bind.bind (Walk.attempt (w.runRequest d r))
      (fun outcome => w.runProcedure d (next outcome >>= f)) s = _
    simp only [ih]
    exact congrFun (bind_assoc _ _ _).symm s
  | walk root context next ih =>
    funext s
    change Bind.bind (Walk.attempt (Walk.whole d root context))
      (fun outcome => w.runProcedure d (next outcome >>= f)) s = _
    simp only [ih]
    exact congrFun (bind_assoc _ _ _).symm s
  | look next ih =>
    funext s
    exact congrFun (ih _) s
  | store memory next ih =>
    funext s
    exact congrFun ih _

theorem runProcedure_logged_forgets (p : Procedure σ C α) :
    Forgets (w.logged.runProcedure d p.logged) (w.runProcedure d' p) := by
  have marked (x : Entry C) : Forgets (w.logged.runProcedure d (.mark x)) (pure ()) :=
    .total (fun s => ((), { s with memory := s.memory.add x })) (fun _ => rfl) fun _ => rfl
  have unmarked : w.runProcedure d' p =
      (pure () >>= fun _ => w.runProcedure d' p >>= fun a => pure () >>= fun _ => pure a) := by
    simp only [pure_bind, bind_pure]
  rw [unmarked, Procedure.logged, runProcedure_bind]
  refine .bind (marked _) fun _ => ?_
  rw [runProcedure_bind]
  refine .bind (runProcedure_forgets hd p) fun a => ?_
  rw [runProcedure_bind]
  exact .bind (marked _) fun _ => .pure

end Layer

theorem ForgetsBy.of_related {d : Descent (Logged σ C) C} {d' : Descent σ C}
    (h : Descent.Related Eq Forgets d d') : ForgetsBy d d' :=
  ⟨fun e _ => h.entity e rfl, fun n _ => h.node n rfl, fun a _ => h.target a rfl⟩

/-- What a handler does, and what becomes of its answer. -/
theorem handler_forgets {d : Descent (Logged σ C) C} {d' : Descent σ C}
    (hd : Descent.Related Eq Forgets d d') (p : Procedure σ C Answer) (a : α) (e : Walk.Error) :
    Forgets
      (w.logged.runProcedure d p.logged >>= fun answer =>
        match answer with
        | .handled => pure a
        | .proceed => Walk.fail e)
      (w.runProcedure d' p >>= fun answer =>
        match answer with
        | .handled => pure a
        | .proceed => Walk.fail e) := by
  refine .bind (runProcedure_logged_forgets (.of_related hd) p) fun answer => ?_
  cases answer with
  | proceed => exact .fail
  | handled => exact .pure

/-- A walk with a log is beside the walk without. -/
def logging (w : Walker σ C) : Simulation w.logged w where
  contexts := Eq
  pieces := Forgets
  rescans := rfl
  top h := congrArg w.visitor.top h
  pure _ := .pure
  fail _ := .fail
  outOfDepth {_} := by
    constructor
    · rintro s a t ⟨⟩
    · rintro s stop t ⟨⟩
      rfl
  bind := .bind
  derive d c c' h f g hf := by
    subst h
    exact .bind (derive_forgets d c) fun i => hf rfl
  setParent _ _ := .setParent
  callEntity hook e c c' h i i' hi := by
    subst h
    exact eq_of_optionRel hi ▸ callEntity_forgets hook e c i
  callNode hook n c c' h := h ▸ call_forgets (.node hook n c)
  callTarget hook a c c' h := h ▸ call_forgets (.target hook a c)
  checkArity := checkArity_forgets
  customEntity hd e kind _ c c' h := by
    subst h
    unfold runCustomEntity
    simp only [logged, Extensions.logged, Table.get?_map]
    cases w.extensions.entities.get? kind with
    | none => exact .fail
    | some handler => exact handler_forgets hd _ _ _
  customNode hd n kind _ c c' h := by
    subst h
    unfold runCustomNode
    simp only [logged, Extensions.logged, Table.get?_map]
    cases w.extensions.nodes.get? kind with
    | none => exact .fail
    | some handler => exact handler_forgets hd _ _ _
  customTarget hd a c c' h := by
    subst h
    unfold runCustomTarget
    simp only [logged, Extensions.logged, Table.get?_map]
    cases w.extensions.targets.get? a.target.kind.name with
    | none => exact .fail
    | some handler => exact handler_forgets hd _ _ _

theorem descent_forgets (w : Walker σ C) (depth : Nat) :
    ForgetsBy (w.logged.descent depth) (w.descent depth) :=
  .of_related (w.logging.descent depth)

/-- A walk ends in the same way whether a log is kept or not, and leaves the same behind. -/
theorem walk_logged (w : Walker σ C) (depth : Nat) (root : Entity) (context : C) :
    Forgets (w.logged.walk depth root context) (w.walk depth root context) :=
  whole_forgets (descent_forgets w depth) root context

/-- The log of a whole walk. -/
def walkLog (w : Walker σ C) (depth : Nat) (root : Entity) (context : C) (s : WalkState σ) :
    List (Entry C) :=
  Walk.log (w.logged.walk depth root context) s

/-- A walk that has succeeded has gone through agendas up to the empty one. -/
theorem walk_ok_reaches (w : Walker σ C) (hw : w.extensions = {}) {depth : Nat} {root : Entity}
    {context : C} {s t : WalkState σ} {table : ParentTable}
    (h : w.walk depth root context s = .ok table t) :
    ∃ u, w.logged.Reaches (start root context { memory := s.memory }) ([], u) ∧
      u.memory.log = w.walkLog depth root context s ∧ u.forget = { t with parents := table } := by
  obtain ⟨u, hu, rfl, hlog⟩ := (walk_logged w depth root context).of_ok h
  exact ⟨_, (walk_ok (logged_extensions hw) hu).2, hlog.symm, rfl⟩

/-- However a walk ends, it has gone on through agendas up to there. -/
theorem walk_reaches (w : Walker σ C) (hw : w.extensions = {}) (depth : Nat) (root : Entity)
    (context : C) (s : WalkState σ) :
    ∃ p, w.logged.Reaches (start root context { memory := s.memory }) p ∧
      p.2.memory.log = w.walkLog depth root context s ∧
      p.2.memory.memory = (Walk.final (w.walk depth root context) s).memory := by
  unfold Walk.final
  cases h : w.walk depth root context s with
  | ok table t =>
    obtain ⟨u, reached, hlog, left⟩ := w.walk_ok_reaches hw h
    exact ⟨_, reached, hlog, congrArg WalkState.memory left⟩
  | error stop t =>
    obtain ⟨u, hu, rfl, hlog⟩ := (walk_logged w depth root context).of_error h
    obtain ⟨left, reached, -⟩ := walk_error (logged_extensions hw) hu
    exact ⟨_, reached, hlog.symm, rfl⟩

theorem log_subset_step {w : Walker σ C} {p q : List (Task C) × WalkState (Logged σ C)}
    (h : w.logged.Advances p q) : p.2.memory.log ⊆ q.2.memory.log := by
  cases h with
  | replace | adopt => exact List.Subset.refl _
  | derive | call => exact List.subset_append_left _ _

/-- What has been logged stays in the log. -/
theorem log_subset {w : Walker σ C} {p q : List (Task C) × WalkState (Logged σ C)}
    (h : w.logged.Reaches p q) : p.2.memory.log ⊆ q.2.memory.log :=
  h.keeps (I := fun q => p.2.memory.log ⊆ q.2.memory.log)
    (fun step earlier => List.Subset.trans earlier (log_subset_step step)) (List.Subset.refl _)

end Walker

/-! ## Memories that say what their logs say -/

/-- What a visitor keeps grows with every entry by what the entry says. -/
structure Visitor.Writes (v : Visitor σ C) (kept : σ → List β) (said : Entry C → List β) :
    Prop where
  derive (d context m) :
    kept (v.derive d context m).2 = kept m ++ said (.derived d context (v.derive d context m).1)
  answer (call m) :
    kept (v.answer call m).2 = kept m ++ said (.called call (v.answer call m).1)

namespace Walker

variable {w : Walker σ C} {kept : σ → List β} {said : Entry C → List β}
  (hv : w.visitor.Writes kept said)

include hv

theorem writes_advances {earlier : List β} {p q : List (Task C) × WalkState (Logged σ C)}
    (h : w.logged.Advances p q)
    (hp : kept p.2.memory.memory = earlier ++ p.2.memory.log.flatMap said) :
    kept q.2.memory.memory = earlier ++ q.2.memory.log.flatMap said := by
  have written (log : List (Entry C)) (x : Entry C) :
      (log ++ [x]).flatMap said = log.flatMap said ++ said x := by simp
  cases h with
  | replace | adopt => exact hp
  | @derive task rest s d context tasks h =>
    refine (hv.derive d context s.memory.memory).trans ?_
    rw [hp, List.append_assoc]
    exact congrArg (earlier ++ ·) (written _ _).symm
  | @call task rest s hook tasks skip h =>
    refine (hv.answer hook s.memory.memory).trans ?_
    rw [hp, List.append_assoc]
    exact congrArg (earlier ++ ·) (written _ _).symm

theorem writes_reaches {root : Entity} {context : C} {m : σ}
    {p : List (Task C) × WalkState (Logged σ C)}
    (h : w.logged.Reaches (start root context { memory := m }) p) :
    kept p.2.memory.memory = kept m ++ p.2.memory.log.flatMap said :=
  Reaches.keeps (I := fun p => kept p.2.memory.memory = kept m ++ p.2.memory.log.flatMap said)
    (writes_advances hv) h (List.append_nil _).symm

/-- What a walk has added to what its visitor keeps is what its log says. -/
theorem walk_writes (hw : w.extensions = {}) (depth : Nat) (root : Entity) (context : C)
    (s : WalkState σ) :
    kept (Walk.final (w.walk depth root context) s).memory =
      kept s.memory ++ (w.walkLog depth root context s).flatMap said := by
  obtain ⟨p, reached, hlog, hmemory⟩ := w.walk_reaches hw depth root context s
  rw [← hlog, ← hmemory]
  exact writes_reaches hv reached

end Walker

end SyntaxWalk
