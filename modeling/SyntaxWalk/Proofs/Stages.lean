import SyntaxWalk.Proofs.Log

/-!
# Stages of a visit

What a walker does by itself while it visits a node is to call hooks, to visit children and to visit
nested entities. It goes through these stages one after the other (`Walker.Through`), and when the
visit fails it has done so up to a stage at which it stopped (`Walker.Until`). The log of the visit
is put together from those of the stages, since what a piece of a walk logs does not depend on what
has been logged before it (`Walk.Logs`). `Walker.visit_takes` lists the stages of a visit of a
node, given those of its plan.
-/

namespace SyntaxWalk

variable {σ C α β : Type}

/-! ## What is logged does not depend on the log -/

/-- The state with something in the log already. -/
def WalkState.logging (s : WalkState σ) (log : List (Entry C)) : WalkState (Logged σ C) :=
  ⟨⟨s.memory, log⟩, s.parents⟩

/-- The same end, with a log. -/
def Walk.ended (log : List (Entry C)) :
    EStateM.Result Stop (WalkState σ) α → EStateM.Result Stop (WalkState (Logged σ C)) α
  | .ok a t => .ok a (t.logging log)
  | .error stop t => .error stop (t.logging log)

/-- A piece of a walk with a log does what another does without, and adds the same to any log. -/
structure Walk.Logs (x : Walk (Logged σ C) α) (y : Walk σ α) : Prop where
  run (s before) : x (s.logging before) = ended (before ++ x.log s) (y s)

namespace Walk

variable {x : Walk (Logged σ C) α} {y : Walk σ α} {f : α → Walk (Logged σ C) β}
  {g : α → Walk σ β} {s t : WalkState σ}

theorem log_eq {added : List (Entry C)}
    (h : ∀ before, x (s.logging before) = ended (before ++ added) (y s)) : x.log s = added := by
  have start : x s.withLog = ended added (y s) := h []
  unfold log final
  rw [start]
  cases y s <;> rfl

namespace Logs

theorem of_added (added : WalkState σ → List (Entry C))
    (h : ∀ s before, x (s.logging before) = ended (before ++ added s) (y s)) : Logs x y :=
  ⟨fun s before => by rw [log_eq (h s), h]⟩

theorem pure {a : α} : Logs (pure a : Walk (Logged σ C) α) (pure a) :=
  .of_added (fun _ => []) fun _ before => by rw [List.append_nil]; rfl

theorem throw {stop : Stop} : Logs (MonadExcept.throw stop : Walk (Logged σ C) α) (throw stop) :=
  .of_added (fun _ => []) fun _ before => by rw [List.append_nil]; rfl

/-- What follows a piece of a walk adds to what it has logged. -/
theorem bind_ok (h : Logs x y) {a : α} (hy : y s = .ok a t) (hf : Logs (f a) (g a))
    (before : List (Entry C)) :
    (x >>= f) (s.logging before) = ended (before ++ (x.log s ++ (f a).log t)) ((y >>= g) s) := by
  simp only [Bind.bind, EStateM.bind, h.run, hy, ended, ← List.append_assoc]
  exact hf.run t _

theorem bind_error (h : Logs x y) {stop : Stop} (hy : y s = .error stop t)
    (before : List (Entry C)) :
    (x >>= f) (s.logging before) = ended (before ++ x.log s) ((y >>= g) s) := by
  simp only [Bind.bind, EStateM.bind, h.run, hy, ended]

theorem bind (h : Logs x y) (hf : ∀ {s a t}, y s = .ok a t → Logs (f a) (g a)) :
    Logs (x >>= f) (y >>= g) := by
  refine ⟨fun s before => ?_⟩
  cases hy : y s with
  | ok a t => rw [h.bind_ok hy (hf hy), log_eq (h.bind_ok hy (hf hy))]
  | error stop t =>
    rw [h.bind_error (g := g) hy, log_eq (h.bind_error (g := g) hy)]

/-- Pieces that never stop and add what is said to the log. -/
theorem total (next : WalkState σ → α × WalkState σ) (added : WalkState σ → List (Entry C))
    (hx : ∀ s before,
      x (s.logging before) = .ok (next s).1 ((next s).2.logging (before ++ added s)))
    (hy : ∀ s, y s = .ok (next s).1 (next s).2) : Logs x y :=
  .of_added added fun s before => by rw [hx, hy]; rfl

theorem setParent {child parent : Entity} :
    Logs (Walk.setParent child parent : Walk (Logged σ C) Unit) (Walk.setParent child parent) :=
  .total (fun s => ((), { s with parents := ParentTable.setParent s.parents child parent }))
    (fun _ => []) (fun _ before => by rw [List.append_nil]; rfl) fun _ => rfl

end Logs

end Walk

namespace Walker

variable {w : Walker σ C}

theorem call_logs (call : HookCall C) : Walk.Logs (w.logged.call call) (w.call call) :=
  .total (fun s => ((w.visitor.answer call s.memory).1,
      { s with memory := (w.visitor.answer call s.memory).2 }))
    (fun s => [.called call (w.visitor.answer call s.memory).1]) (fun _ _ => rfl) fun _ => rfl

theorem derive_logs (d : Derivation) (context : C) :
    Walk.Logs (w.logged.derive d context) (w.derive d context) :=
  .total (fun s => ((w.visitor.derive d context s.memory).1,
      { s with memory := (w.visitor.derive d context s.memory).2 }))
    (fun s => [.derived d context (w.visitor.derive d context s.memory).1]) (fun _ _ => rfl)
    fun _ => rfl

theorem checkArity_logs (n : Node) : Walk.Logs (w.logged.checkArity n) (w.checkArity n) := by
  have options : w.logged.options = w.options := rfl
  rw [checkArity_eq, checkArity_eq, options]
  cases n.refused? w.options with
  | some expected => exact .throw
  | none => exact .pure

theorem logged_rescans (w : Walker σ C) :
    w.logged.options.rescanNodeScopes = w.options.rescanNodeScopes :=
  rfl

theorem logged_top (w : Walker σ C) {c c' : C} (h : c = c') :
    w.logged.visitor.top c = w.visitor.top c' :=
  congrArg w.visitor.top h

/-- Without handlers, all that a walker does is logged independently of what has been logged. -/
def logsFreely (w : Walker σ C) (hw : w.extensions = {}) : Simulation w.logged w where
  contexts := Eq
  pieces := Walk.Logs
  rescans := w.logged_rescans
  top := w.logged_top
  pure _ := .pure
  fail _ := .throw
  outOfDepth := .throw
  bind h hf := h.bind fun _ => hf _
  derive d c c' h f g hf := by
    subst h
    exact (derive_logs d c).bind fun _ => hf rfl
  setParent _ _ := .setParent
  callEntity hook e c c' h i i' hi := by
    subst h
    cases eq_of_optionRel hi
    exact .total
      (fun s => ((w.visitor.answer (.entity hook e c i s.parents) s.memory).1,
        { s with memory := (w.visitor.answer (.entity hook e c i s.parents) s.memory).2 }))
      (fun s => [.called (.entity hook e c i s.parents)
        (w.visitor.answer (.entity hook e c i s.parents) s.memory).1])
      (fun _ _ => rfl) fun _ => rfl
  callNode hook n c c' h := h ▸ call_logs (.node hook n c)
  callTarget hook a c c' h := h ▸ call_logs (.target hook a c)
  checkArity := checkArity_logs
  customEntity hd e kind _ c c' h := by
    simp only [runCustomEntity, hw, logged_extensions hw]
    exact .throw
  customNode hd n kind _ c c' h := by
    simp only [runCustomNode, hw, logged_extensions hw]
    exact .throw
  customTarget hd a c c' h := by
    simp only [runCustomTarget, hw, logged_extensions hw]
    exact .throw

end Walker

/-! ## Stages -/

/-- What a visit does by itself, in one go. -/
inductive VisitStage (C : Type) where
  /-- The call of a hook whose answer decides how the visit goes on. -/
  | asked (call : HookCall C) (answer : Answer)
  /-- The call of a hook whose answer has no effect. -/
  | told (call : HookCall C)
  /-- The visit of a child. -/
  | child (n : Node) (i : Nat) (context : C)
  /-- The visit of an entity that is nested in `parent`. -/
  | nested (parent e : Entity) (context : C)

namespace Walker

/-- A walker goes through a stage, from one state to another, and logs something meanwhile. -/
inductive Crosses (w : Walker σ C) :
    VisitStage C → WalkState σ → List (Entry C) → WalkState σ → Prop where
  | asked {call answer s t} (h : w.call call s = .ok answer t) :
      Crosses w (.asked call answer) s [.called call answer] t
  | told {call answer s t} (h : w.call call s = .ok answer t) :
      Crosses w (.told call) s [.called call answer] t
  | child {n i m context depth s t} (hm : n.child? i = some m)
      (h : w.visit depth m context s = .ok () t) :
      Crosses w (.child n i context) s (Walk.log (w.logged.visit depth m context) s) t
  | nested {parent e context depth s t}
      (h : w.visitNested depth parent [e] context s = .ok () t) :
      Crosses w (.nested parent e context) s
        (Walk.log (w.logged.visitNested depth parent [e] context) s) t

/-- A walker stops at a stage. -/
inductive Halts (w : Walker σ C) :
    VisitStage C → WalkState σ → List (Entry C) → Stop → WalkState σ → Prop where
  | missing {n i context s} (h : n.child? i = none) :
      Halts w (.child n i context) s [] (.failed (.missing n i)) s
  | child {n i m context depth s stop t} (hm : n.child? i = some m)
      (h : w.visit depth m context s = .error stop t) :
      Halts w (.child n i context) s (Walk.log (w.logged.visit depth m context) s) stop t
  | nested {parent e context depth s stop t}
      (h : w.visitNested depth parent [e] context s = .error stop t) :
      Halts w (.nested parent e context) s
        (Walk.log (w.logged.visitNested depth parent [e] context) s) stop t

/-- A walker goes through stages one after the other. -/
inductive Through (w : Walker σ C) :
    WalkState σ → List (VisitStage C) → List (Entry C) → WalkState σ → Prop where
  | nil {s} : Through w s [] [] s
  | cons {stage stages s t u log log'} (h : w.Crosses stage s log t)
      (rest : Through w t stages log' u) : Through w s (stage :: stages) (log ++ log') u

/-- A walker goes through stages and then stops, at the `next` stage or, if there is none, by
itself. -/
inductive Until (w : Walker σ C) (s : WalkState σ) (done : List (VisitStage C)) :
    Option (VisitStage C) → List (Entry C) → Stop → WalkState σ → Prop where
  | between {log stop t} (h : w.Through s done log t) : Until w s done none log stop t
  | stage {next log log' stop t u} (h : w.Through s done log t)
      (stops : w.Halts next t log' stop u) : Until w s done (some next) (log ++ log') stop u

variable {w : Walker σ C} {s t u : WalkState σ} {stages stages' done : List (VisitStage C)}
  {log log' : List (Entry C)} {next : Option (VisitStage C)} {stop : Stop}

theorem Crosses.through {stage : VisitStage C} (h : w.Crosses stage s log t) :
    w.Through s [stage] log t :=
  List.append_nil log ▸ .cons h .nil

theorem Through.append (h : w.Through s stages log t) (h' : w.Through t stages' log' u) :
    w.Through s (stages ++ stages') (log ++ log') u := by
  induction h with
  | nil => exact h'
  | cons first _ ih =>
    rw [List.append_assoc]
    exact .cons first (ih h')

theorem Through.until (h : w.Through s stages log t) (h' : w.Until t done next log' stop u) :
    w.Until s (stages ++ done) next (log ++ log') stop u := by
  cases h' with
  | between h' => exact .between (h.append h')
  | stage h' stops =>
    rw [← List.append_assoc]
    exact .stage (h.append h') stops

/-- What a piece of a walk goes through: all the stages when it succeeds, and a part of them, with
the stage at which it stops, when it fails. -/
structure Takes (w : Walker σ C) (x : Walk (Logged σ C) α) (y : Walk σ α)
    (all : α → List (VisitStage C) → Prop)
    (part : List (VisitStage C) → Option (VisitStage C) → Prop) : Prop where
  logs : Walk.Logs x y
  ok {s : WalkState σ} {a : α} {t : WalkState σ} (h : y s = .ok a t) :
    ∃ stages, w.Through s stages (x.log s) t ∧ all a stages
  error {s : WalkState σ} {stop : Stop} {t : WalkState σ} (h : y s = .error stop t) :
    ∃ done next, w.Until s done next (x.log s) stop t ∧ part done next

/-- Stages are broken off at one of them. -/
def BrokenOff (stages done : List (VisitStage C)) (next : Option (VisitStage C)) : Prop :=
  ∃ stage rest, stages = done ++ stage :: rest ∧ next = some stage

namespace Takes

variable {x : Walk (Logged σ C) α} {y : Walk σ α} {f : α → Walk (Logged σ C) β}
  {g : α → Walk σ β} {all : α → List (VisitStage C) → Prop} {all' : β → List (VisitStage C) → Prop}
  {part part' : List (VisitStage C) → Option (VisitStage C) → Prop}

theorem pure {a : α} (h : all a []) : w.Takes (pure a) (pure a) all part where
  logs := .pure
  ok := by
    rintro s _ t ⟨⟩
    exact ⟨[], .nil, h⟩
  error := by
    rintro s stop t ⟨⟩

theorem throw (h : part [] none) (stop : Stop) :
    w.Takes (MonadExcept.throw stop) (MonadExcept.throw stop) all part where
  logs := .throw
  ok := by
    rintro s a t ⟨⟩
  error := by
    rintro s _ t ⟨⟩
    exact ⟨[], none, .between .nil, h⟩

theorem imp {all' : α → List (VisitStage C) → Prop} (h : w.Takes x y all part)
    (ha : ∀ a stages, all a stages → all' a stages)
    (hp : ∀ done next, part done next → part' done next) : w.Takes x y all' part' where
  logs := h.logs
  ok hy := by
    obtain ⟨stages, through, gone⟩ := h.ok hy
    exact ⟨stages, through, ha _ stages gone⟩
  error hy := by
    obtain ⟨done, next, stopped, broken⟩ := h.error hy
    exact ⟨done, next, stopped, hp done next broken⟩

theorem bind (h : w.Takes x y all part)
    (hf : ∀ a stages, all a stages → w.Takes (f a) (g a) (fun b rest => all' b (stages ++ rest))
      fun done next => part' (stages ++ done) next)
    (hp : ∀ done next, part done next → part' done next) :
    w.Takes (x >>= f) (y >>= g) all' part' where
  logs := h.logs.bind fun hy => by
    obtain ⟨stages, -, gone⟩ := h.ok hy
    exact (hf _ stages gone).logs
  ok := by
    intro s b u hb
    obtain ⟨a, t, hy, hg⟩ := Walk.bind_eq_ok.1 hb
    obtain ⟨stages, through, gone⟩ := h.ok hy
    have later := hf a stages gone
    obtain ⟨rest, onward, gone'⟩ := later.ok hg
    rw [Walk.log_eq (h.logs.bind_ok hy later.logs)]
    exact ⟨stages ++ rest, through.append onward, gone'⟩
  error := by
    intro s stop u hb
    rcases Walk.bind_eq_error.1 hb with hy | ⟨a, t, hy, hg⟩
    · rw [Walk.log_eq (h.logs.bind_error (g := g) hy)]
      obtain ⟨done, next, stopped, broken⟩ := h.error hy
      exact ⟨done, next, stopped, hp done next broken⟩
    · obtain ⟨stages, through, gone⟩ := h.ok hy
      have later := hf a stages gone
      obtain ⟨done, next, stopped, broken⟩ := later.error hg
      rw [Walk.log_eq (h.logs.bind_ok hy later.logs)]
      exact ⟨stages ++ done, next, through.until stopped, broken⟩

/-- The stages of a hook call, whose answer is `answer`. -/
theorem asked (call : HookCall C) :
    w.Takes (w.logged.call call) (w.call call) (fun answer stages => stages = [.asked call answer])
      part where
  logs := call_logs call
  ok := by
    rintro s answer t ⟨⟩
    exact ⟨_, Crosses.through (.asked rfl), rfl⟩
  error := by
    rintro s stop t ⟨⟩

/-- The stage of a hook call whose answer has no effect on what follows. -/
theorem told (call : HookCall C) (b : β) :
    w.Takes (w.logged.call call >>= fun _ => Pure.pure b)
      (w.call call >>= fun _ => Pure.pure b)
      (fun b' gone => b' = b ∧ gone = [.told call]) part where
  logs := (call_logs call).bind fun _ => .pure
  ok := by
    rintro s _ t ⟨⟩
    exact ⟨_, Crosses.through (.told rfl), rfl, rfl⟩
  error := by
    rintro s stop t ⟨⟩

end Takes

/-- A piece of a walk that gives `a` when it succeeds and goes through the same stages whatever the
visitor answers. -/
abbrev Straight (w : Walker σ C) (x : Walk (Logged σ C) α) (y : Walk σ α) (a : α)
    (stages : List (VisitStage C)) : Prop :=
  w.Takes x y (fun b gone => b = a ∧ gone = stages) (BrokenOff stages)

theorem BrokenOff.append_left (h : BrokenOff stages' done next) :
    BrokenOff (stages ++ stages') (stages ++ done) next := by
  obtain ⟨stage, rest, rfl, rfl⟩ := h
  exact ⟨stage, rest, (List.append_assoc _ _ _).symm, rfl⟩

theorem BrokenOff.append_right (h : BrokenOff stages done next) :
    BrokenOff (stages ++ stages') done next := by
  obtain ⟨stage, rest, rfl, rfl⟩ := h
  exact ⟨stage, rest ++ stages', by rw [List.append_assoc, List.cons_append], rfl⟩

namespace Straight

variable {x : Walk (Logged σ C) α} {y : Walk σ α} {f : α → Walk (Logged σ C) β}
  {g : α → Walk σ β}

theorem pure {a : α} : w.Straight (pure a) (pure a) a [] :=
  Takes.pure ⟨rfl, rfl⟩

theorem bind {a : α} {b : β} (h : w.Straight x y a stages)
    (hf : w.Straight (f a) (g a) b stages') :
    w.Straight (x >>= f) (y >>= g) b (stages ++ stages') := by
  refine Takes.bind h ?_ fun _ _ => .append_right
  rintro _ _ ⟨rfl, rfl⟩
  exact hf.imp (fun _ _ ⟨hb, hs⟩ => ⟨hb, hs ▸ rfl⟩) fun _ _ => .append_left

theorem giving {a : α} (h : w.Straight x y a stages) (b : β) :
    w.Straight (x >>= fun _ => Pure.pure b) (y >>= fun _ => Pure.pure b) b stages :=
  List.append_nil stages ▸ h.bind .pure

theorem cons {a : α} {b : β} {stage : VisitStage C} (h : w.Straight x y a [stage])
    (hf : w.Straight (f a) (g a) b stages) :
    w.Straight (x >>= f) (y >>= g) b (stage :: stages) :=
  bind h hf

end Straight

/-! ## Stages of the parts of a visit -/

section Parts

variable (hw : w.extensions = {}) (depth : Nat)

include hw

theorem visit_logs (n : Node) (context : C) :
    Walk.Logs (w.logged.visit depth n context) (w.visit depth n context) :=
  ((w.logsFreely hw).descent depth).node n rfl

theorem visitNested_logs (parent : Entity) (es : List Entity) (context : C) :
    Walk.Logs (w.logged.visitNested depth parent es context)
      (w.visitNested depth parent es context) :=
  (w.logsFreely hw).correspondence.visitScoped ((w.logsFreely hw).correspondence.descent depth)
    rfl rfl (List.forall₂_same.2 fun _ _ => rfl)

variable {depth} in
/-- The stage of a child that is there. -/
theorem visit_straight {n m : Node} {i : Nat} (hm : n.child? i = some m) (context : C) :
    w.Straight (w.logged.visit depth m context) (w.visit depth m context) ()
      [.child n i context] where
  logs := visit_logs hw depth m context
  ok h := ⟨_, Crosses.through (.child hm h), rfl, rfl⟩
  error h := ⟨[], _, .stage .nil (.child hm h), _, [], rfl, rfl⟩

/-- The stage of a child that has to be there, before those of what follows. -/
theorem child_straight (n : Node) (i : Nat) (context : C) {x : Walk (Logged σ C) α}
    {y : Walk σ α} {a : α} (h : w.Straight x y a stages) :
    w.Straight (Walk.requireChild n i >>= fun m => w.logged.visit depth m context >>= fun _ => x)
      (Walk.requireChild n i >>= fun m => w.visit depth m context >>= fun _ => y) a
      (.child n i context :: stages) := by
  rw [Walk.requireChild_eq, Walk.requireChild_eq]
  cases hm : n.child? i with
  | none =>
    refine ⟨.throw, ?_, ?_⟩
    · rintro s a t ⟨⟩
    · rintro s stop t ⟨⟩
      exact ⟨[], _, .stage .nil (.missing hm), _, stages, rfl, rfl⟩
  | some m => exact (visit_straight hw hm context).cons h

/-- Children are visited one after the other. -/
theorem visitChildren_straight (n : Node) (start : Nat) (context : C) :
    w.Straight (w.logged.visitChildren depth n start context)
      (w.visitChildren depth n start context) ()
      ((List.range' start (n.childCount - start)).map (.child n · context)) := by
  obtain ⟨count, hc⟩ : ∃ count, count = n.childCount - start := ⟨_, rfl⟩
  unfold visitChildren
  rw [← hc]
  induction count generalizing start with
  | zero =>
    rw [List.drop_eq_nil_of_le (Nat.le_of_sub_eq_zero hc.symm)]
    exact .pure
  | succ count ih =>
    have there : start < n.children.length := Nat.lt_of_sub_pos (hc ▸ Nat.succ_pos count)
    have first : n.child? start = some n.children[start] := List.getElem?_eq_getElem there
    have later := ih (start + 1) (by omega)
    rw [List.drop_eq_getElem_cons there]
    exact (visit_straight hw first context).cons later

theorem nested_straight (parent e : Entity) (context : C) :
    w.Straight (w.logged.visitNested depth parent [e] context)
      (w.visitNested depth parent [e] context) () [.nested parent e context] where
  logs := visitNested_logs hw depth parent [e] context
  ok h := ⟨_, Crosses.through (.nested h), rfl, rfl⟩
  error h := ⟨[], _, .stage .nil (.nested h), _, [], rfl, rfl⟩

omit hw in
theorem visitNested_cons (w : Walker σ C) (depth : Nat) (parent e : Entity) (es : List Entity)
    (context : C) :
    w.visitNested depth parent (e :: es) context =
      w.visitNested depth parent [e] context >>= fun _ =>
        w.visitNested depth parent es context := by
  simp only [visitNested, Walk.visitScoped, bind_assoc, pure_bind]

/-- Nested entities are visited one after the other. -/
theorem visitNested_straight (parent : Entity) (es : List Entity) (context : C) :
    w.Straight (w.logged.visitNested depth parent es context)
      (w.visitNested depth parent es context) () (es.map (.nested parent · context)) := by
  induction es with
  | nil => exact .pure
  | cons e es ih =>
    rw [visitNested_cons w.logged, visitNested_cons w]
    exact (nested_straight hw depth parent e context).cons ih

/-- The stages of the steps of a plan that visit children or call hooks between them. -/
def stepStages (n : Node) (context : C) : Step → List (VisitStage C)
  | .visit i => [.child n i context]
  | .between point => [.told (.node (.between point) n context)]
  | _ => []

theorem runPlan_straight (n : Node) (context : C) {steps : List Step}
    (hs : ∀ step ∈ steps, step.IsPlain) :
    w.Straight (w.logged.runPlan (w.logged.descent depth) n context steps)
      (w.runPlan (w.descent depth) n context steps) .proceed
      (steps.flatMap (stepStages n context)) := by
  induction steps with
  | nil => exact .pure
  | cons step steps ih =>
    obtain ⟨plain, rest⟩ := List.forall_mem_cons.1 hs
    have first : w.Straight (w.logged.runStep (w.logged.descent depth) n context step)
        (w.runStep (w.descent depth) n context step) .proceed (stepStages n context step) := by
      cases step with
      | visit i => exact child_straight hw depth n i context .pure
      | between point => exact Takes.told _ _
      | _ => exact plain.elim
    exact first.bind (ih rest)

end Parts

/-! ## Visits of nodes -/

/-- The entities that are visited after a node, given what the node was answered. -/
def hoistings (w : Walker σ C) (n : Node) (context : C) (answer : Answer) : List (VisitStage C) :=
  if answer = .proceed ∨ w.options.rescanNodeScopes then
    ((w.visitor.top context).scopedUnder (.node n.id)).map
      (.nested (w.visitor.top context) · context)
  else []

section Visits

variable (n : Node) (context : C)

/-- The stages of a node of a built-in kind, from its `visit` hook to its `leave` hook, given what
its plan gives with which stages. -/
inductive Worked (below : Answer → List (VisitStage C) → Prop) :
    Answer → List (VisitStage C) → Prop where
  | handled : Worked below .handled [.asked (.node .visit n context) .handled]
  | taken {stages : List (VisitStage C)} (h : below .handled stages) :
      Worked below .proceed (.asked (.node .visit n context) .proceed :: stages)
  | left {stages : List (VisitStage C)} (h : below .proceed stages) :
      Worked below .proceed (.asked (.node .visit n context) .proceed ::
        (stages ++ [.told (.node .leave n context)]))

/-- The stages of a visit of a node that succeeds. -/
inductive Visited (w : Walker σ C) (below : Answer → List (VisitStage C) → Prop) :
    List (VisitStage C) → Prop where
  | skipped : Visited w below [.asked (.node .enter n context) .handled]
  | worked {answer} {stages : List (VisitStage C)} (h : Worked n context below answer stages) :
      Visited w below (.asked (.node .enter n context) .proceed ::
        (stages ++ (w.hoistings n context answer ++ [.told (.node .postProcess n context)])))

/-- The stages of a visit of a node that fails, and the one at which it stops. -/
inductive VisitedPartly (w : Walker σ C) (below : Answer → List (VisitStage C) → Prop)
    (part : List (VisitStage C) → Option (VisitStage C) → Prop) :
    List (VisitStage C) → Option (VisitStage C) → Prop where
  | outOfDepth : VisitedPartly w below part [] none
  | refused : VisitedPartly w below part [.asked (.node .enter n context) .proceed] none
  | working {done : List (VisitStage C)} {next : Option (VisitStage C)} (h : part done next) :
      VisitedPartly w below part
        (.asked (.node .enter n context) .proceed :: .asked (.node .visit n context) .proceed ::
          done) next
  | hoisting {answer} {stages done : List (VisitStage C)} {next : Option (VisitStage C)}
      (h : Worked n context below answer stages)
      (hb : BrokenOff (w.hoistings n context answer) done next) :
      VisitedPartly w below part (.asked (.node .enter n context) .proceed :: (stages ++ done)) next

variable {n context} {below : Answer → List (VisitStage C) → Prop}
  {part : List (VisitStage C) → Option (VisitStage C) → Prop}

theorem checkArity_takes (n : Node) (h : part [] none) :
    w.Takes (w.logged.checkArity n) (w.checkArity n) (fun _ stages => stages = []) part := by
  have options : w.logged.options = w.options := rfl
  rw [checkArity_eq, checkArity_eq, options]
  cases n.refused? w.options with
  | some expected => exact .throw h _
  | none => exact .pure rfl

theorem visitScopedUnder_straight (hw : w.extensions = {}) (depth : Nat) (n : Node) (context : C)
    (answer : Answer) :
    w.Straight (w.logged.visitScopedUnder (w.logged.descent depth) n answer context)
      (w.visitScopedUnder (w.descent depth) n answer context) ()
      (w.hoistings n context answer) := by
  have options : w.logged.options = w.options := rfl
  have top : w.logged.visitor.top context = w.visitor.top context := rfl
  rw [visitScopedUnder, visitScopedUnder, hoistings, options, top]
  split
  · exact visitNested_straight hw depth _ _ context
  · exact .pure

section Layer

variable {depth : Nat}
  (hp : ∀ steps, n.kind.plan? n.childCount = some steps →
    w.Takes (w.logged.runPlan (w.logged.descent depth) n context steps)
      (w.runPlan (w.descent depth) n context steps) below part)

include hp

theorem runBuiltIn_takes :
    w.Takes (w.logged.runBuiltIn (w.logged.descent depth) n context)
      (w.runBuiltIn (w.descent depth) n context) (Worked n context below)
      fun done next => VisitedPartly n context w below part
        (.asked (.node .enter n context) .proceed :: done) next := by
  unfold runBuiltIn
  cases hplan : n.kind.plan? n.childCount with
  | none => exact .throw .refused _
  | some steps =>
    refine Takes.bind (.asked _) ?_ fun _ _ => id
    rintro answer _ rfl
    cases answer with
    | handled => exact .pure .handled
    | proceed =>
      refine Takes.bind (hp steps hplan) (fun answer stages hstages => ?_) fun _ _ => .working
      cases answer with
      | handled => exact .pure ((List.append_nil stages).symm ▸ .taken hstages)
      | proceed =>
        refine Takes.imp (Takes.told _ _) ?_ fun _ _ => id
        rintro _ _ ⟨rfl, rfl⟩
        exact .left hstages

theorem runNode_takes (hw : w.extensions = {}) :
    w.Takes (w.logged.runNode (w.logged.descent depth) n context)
      (w.runNode (w.descent depth) n context) (Worked n context below)
      fun done next => VisitedPartly n context w below part
        (.asked (.node .enter n context) .proceed :: done) next := by
  unfold runNode
  split
  · simp only [runCustomNode, hw, logged_extensions hw]
    exact .throw .refused _
  · exact runBuiltIn_takes hp

theorem visitNodeIn_takes (hw : w.extensions = {}) :
    w.Takes (w.logged.visitNodeIn (w.logged.descent depth) n context)
      (w.visitNodeIn (w.descent depth) n context) (fun _ => Visited n context w below)
      (VisitedPartly n context w below part) := by
  refine Takes.bind (.asked _) ?_ fun _ _ => id
  rintro answer _ rfl
  cases answer with
  | handled => exact .pure .skipped
  | proceed =>
    refine Takes.bind (checkArity_takes n .refused) ?_ fun _ _ => id
    rintro _ _ rfl
    refine Takes.bind (runNode_takes hp hw) (fun answer stages worked => ?_) fun _ _ => id
    refine Takes.bind (visitScopedUnder_straight hw depth n context answer) ?_
      fun _ _ => .hoisting worked
    rintro _ _ ⟨-, rfl⟩
    refine Takes.imp (Takes.told _ _) ?_ fun _ _ => id
    rintro _ _ ⟨-, rfl⟩
    exact .worked worked

end Layer

/-- The stages of a visit of a node, given those of its plan. -/
theorem visit_takes (hw : w.extensions = {}) (depth : Nat)
    (hp : ∀ depth steps, n.kind.plan? n.childCount = some steps →
      w.Takes (w.logged.runPlan (w.logged.descent depth) n context steps)
        (w.runPlan (w.descent depth) n context steps) below part) :
    w.Takes (w.logged.visit depth n context) (w.visit depth n context)
      (fun _ => Visited n context w below) (VisitedPartly n context w below part) := by
  cases depth with
  | zero => exact .throw .outOfDepth _
  | succ depth => exact visitNodeIn_takes (hp depth) hw

/-! ## Visits whose first hooks proceed -/

/-- The first two calls of a visit, of which neither is handled. -/
def opening (n : Node) (context : C) : List (VisitStage C) :=
  [.asked (.node .enter n context) .proceed, .asked (.node .visit n context) .proceed]

/-- The stages of a visit after those of its kind. -/
def closing (w : Walker σ C) (n : Node) (context : C) : List (VisitStage C) :=
  w.hoistings n context .proceed ++ [.told (.node .postProcess n context)]

/-- The enter and the visit hook of a node that is visited from a state both answer `proceed`. -/
def Opens (w : Walker σ C) (n : Node) (context : C) (s : WalkState σ) : Prop :=
  ∃ t u, w.call (.node .enter n context) s = .ok .proceed t ∧
    w.call (.node .visit n context) t = .ok .proceed u

/-- An answer is determined by the state in which the hook is called. -/
theorem Through.asked_inv {call : HookCall C} {answer answer' : Answer}
    (h : w.Through s (.asked call answer :: stages) log t) (hc : w.call call s = .ok answer' u) :
    answer = answer' ∧ ∃ log', w.Through u stages log' t := by
  cases h with
  | cons first rest =>
    cases first with
    | asked h =>
      cases h.symm.trans hc
      exact ⟨rfl, _, rest⟩

theorem Visited.opened (h : Visited n context w below stages) (through : w.Through s stages log t)
    (ho : w.Opens n context s) :
    ∃ inner,
      below .handled inner ∧ stages = opening n context ++ (inner ++ w.closing n context) ∨
      below .proceed inner ∧
        stages = opening n context ++
          (inner ++ .told (.node .leave n context) :: w.closing n context) := by
  obtain ⟨_, _, entered, visited⟩ := ho
  cases h with
  | skipped => cases (through.asked_inv entered).1
  | worked h =>
    obtain ⟨-, _, through⟩ := through.asked_inv entered
    cases h with
    | handled => cases (through.asked_inv visited).1
    | taken h => exact ⟨_, .inl ⟨h, rfl⟩⟩
    | left h => exact ⟨_, .inr ⟨h, by simp [opening, closing]⟩⟩

end Visits

end Walker

/-- A walker without handlers whose visitor proceeds at every hook, under contexts that are
entities. -/
def Walker.quiet (checkArity : Bool) : Walker Unit Entity where
  visitor :=
    { top := id
      derive := fun _ context => pure context
      answer := fun _ => pure .proceed }
  options := { checkArity }

end SyntaxWalk
