import SyntaxWalk.Proofs.Course
import SyntaxWalk.Proofs.Indifference

/-!
# Walks of nodes with any number of children

Without the check of numbers of children a plan may be made for a number that the kind does not
accept. It still visits the traversed children that are there, except at two kinds: a declaration
with more than four children and a label with more than two leave out a child that is traversed
(`NodeKind.visited_leftOut`). A walk enters a part of the preorder, and what is missing from it is
what the children that have been left out would have brought up (`entered_walk_ok`).
-/

namespace SyntaxWalk

namespace NodeKind

/-- The traversed children that plans leave out. -/
def leftOut (kind : NodeKind) (count : Nat) : List Nat :=
  match kind with
  | .declStmt => if 4 < count then [3] else []
  | .labelStmt => if 2 < count then [1] else []
  | _ => []

theorem filter_range' (start len count : Nat) :
    (List.range' start len).filter (· < count) = span start (start + len) count := by
  induction len with
  | zero =>
    have none : min (start + 0) count - start = 0 := by omega
    rw [span, none]
    rfl
  | succ len ih =>
    rw [List.range'_concat, List.filter_append, ih, Nat.one_mul]
    unfold span
    by_cases hl : start + len < count
    · have more : min (start + (len + 1)) count - start = len + 1 := by omega
      have less : min (start + len) count - start = len := by omega
      rw [more, less, List.range'_concat, Nat.one_mul]
      simp [hl]
    · have same : min (start + (len + 1)) count = min (start + len) count := by omega
      rw [same]
      simp [hl]

theorem filter_range'_eq (start len : Nat) {stop count : Nat}
    (h : min (start + len) count - start = min stop count - start) :
    (List.range' start len).filter (· < count) = span start stop count := by
  rw [filter_range', span, span, h]

/-- A plan that leaves out nothing visits the traversed children, and further ones only that are not
there. -/
theorem present_visited {kind : NodeKind} {count : Nat} {steps : List Step}
    (hp : kind.plan? count = some steps) (h : kind.leftOut count = []) :
    (steps.flatMap Step.visited).filter (· < count) = kind.traversedChildren count := by
  cases kind with
  | custom => cases hp
  | functionExpr | functionStmt | getCaughtException | thisExpr | superExpr | var | constant
  | gotoStmt | empty | primitive | voidExpr =>
    cases hp
    rfl
  | localScope | arrayLength | objectRef | throwStmt | assertStmt | eachElementGet
  | eachElementHasNext | typeLiteralExpr =>
    cases hp
    exact filter_range' 0 1 count
  | loopStmt | unwind | tryStmt | switchStmt =>
    cases hp
    exact filter_range' 0 2 count
  | binaryExpr =>
    cases hp
    exact filter_range' 1 2 count
  | unaryExpr | cast | instanceOf | assign | assignPreOp | assignPostOp =>
    cases hp
    exact filter_range' 1 1 count
  | blockExpr | blockStmt =>
    cases hp
    rw [visits_visited, List.range_eq_range']
    exact filter_range'_eq _ _ (by omega)
  | newExpr | catchClause =>
    cases hp
    rw [visits_visited]
    exact filter_range'_eq _ _ (by omega)
  | call | arrayRef =>
    cases hp
    rw [List.flatMap_cons, visits_visited, List.filter_append]
    exact congrArg₂ (· ++ ·) (filter_range' 0 1 count) (filter_range'_eq _ _ (by omega))
  | objectLiteral =>
    cases hp
    rw [List.flatMap_cons, fieldKeys, pairs_visited]
    exact filter_range'_eq 0 (2 * (count / 2) + 1) (by omega)
  | arrayLiteral =>
    cases hp
    rw [List.flatMap_append, elements_visited]
    exact filter_range'_eq 0 (count - 1 + 1) (by omega)
  | ifGoto =>
    simp only [plan?] at hp
    split_ifs at hp with h₁ h₃ <;> cases hp
    · subst h₁
      rfl
    · subst h₃
      rfl
  | returnStmt =>
    cases hp
    split_ifs
    · exact filter_range' 0 1 count
    · exact filter_range'_eq 0 0 (by omega)
  | ifStmt | ifExpr =>
    cases hp
    split_ifs
    · exact filter_range' 0 3 count
    · exact filter_range'_eq 0 2 (by omega)
  | declStmt =>
    have most : ¬ 4 < count := fun hc => by simp [leftOut, hc] at h
    cases hp
    split_ifs
    · exact filter_range' 3 1 count
    · exact filter_range'_eq 3 0 (by omega)
  | labelStmt =>
    have most : ¬ 2 < count := fun hc => by simp [leftOut, hc] at h
    cases hp
    split_ifs
    · exact filter_range' 0 2 count
    · exact filter_range'_eq 0 1 (by omega)

/-- Besides the children that are left out, a plan visits those traversed children that are
there. -/
theorem visited_leftOut {kind : NodeKind} {count : Nat} {steps : List Step}
    (hp : kind.plan? count = some steps) :
    (steps.flatMap Step.visited).filter (· < count) ++ kind.leftOut count =
      kind.traversedChildren count := by
  by_cases h : kind.leftOut count = []
  · rw [h, List.append_nil, present_visited hp h]
  · cases kind with
    | declStmt =>
      have hc : 4 < count := by
        by_contra hc
        simp [leftOut, hc] at h
      have absent : count ≠ 4 := by omega
      have most : min 4 count - 3 = 1 := by omega
      simp only [plan?, absent, if_false] at hp
      cases hp
      rw [leftOut, if_pos hc, traversedChildren, span, most]
      rfl
    | labelStmt =>
      have hc : 2 < count := by
        by_contra hc
        simp [leftOut, hc] at h
      have absent : count ≠ 2 := by omega
      have most : min 2 count - 0 = 2 := by omega
      simp only [plan?, absent, if_false] at hp
      cases hp
      have there : 0 < count := by omega
      rw [leftOut, if_pos hc, traversedChildren, span, most]
      simp [Step.visited, there]
      rfl
    | _ => exact absurd rfl h

/-- A plan whose children are all there visits the traversed children, in their order, but for those
that are left out. -/
theorem visited_append_leftOut {kind : NodeKind} {count : Nat} {steps : List Step}
    (hp : kind.plan? count = some steps) (hs : ∀ step ∈ steps, ∀ i ∈ step.needs, i < count) :
    steps.flatMap Step.visited ++ kind.leftOut count = kind.traversedChildren count := by
  have needed (step : Step) : step.visited ⊆ step.needs := by
    cases step <;> simp [Step.visited, Step.needs]
  have present : (steps.flatMap Step.visited).filter (· < count) = steps.flatMap Step.visited := by
    refine List.filter_eq_self.2 fun i hi => ?_
    obtain ⟨step, hstep, hi⟩ := List.mem_flatMap.1 hi
    exact decide_eq_true (hs step hstep i (needed step hi))
  rw [← visited_leftOut hp, present]

end NodeKind

namespace Course

variable {β : Type} {v : Course β}

/-- Only children that are there tell anything. -/
theorem flatMap_child_present (top : Entity) (n : Node) (is : List Nat) :
    is.flatMap (v.child top n) = (is.filter (· < n.childCount)).flatMap (v.child top n) := by
  induction is with
  | nil => rfl
  | cons i is ih =>
    rw [List.flatMap_cons, ih, List.filter_cons]
    by_cases hi : i < n.childCount
    · simp [hi]
    · have absent := Node.child?_eq_none (Nat.le_of_not_lt hi)
      simp [hi, child_eq, absent]

variable (v) in
/-- What the children of a node tell that are left out. -/
def leftOut (top : Entity) (n : Node) : List β :=
  (n.kind.leftOut n.childCount).flatMap (v.child top n)

/-- Whatever the number of children, what lies below a node is told by its plan and by the children
that are left out. -/
theorem plan_leftOut (top : Entity) {n : Node} {steps : List Step}
    (hp : n.kind.plan? n.childCount = some steps) :
    (v.plan top n steps).Sublist (v.interior top n) ∧
      (v.leftOut top n ++ v.plan top n steps).Perm (v.interior top n) := by
  let target := if n.kind.isAssignment then v.childTarget top n 0 else []
  let visited := (steps.flatMap Step.visited).filter (· < n.childCount)
  have planned : v.plan top n steps = visited.flatMap (v.child top n) ++ target := by
    rw [plan, NodeKind.plan_gather_visited hp, flatMap_child_present]
  have whole : v.interior top n = visited.flatMap (v.child top n) ++ v.leftOut top n ++ target := by
    rw [leftOut, ← List.flatMap_append, NodeKind.visited_leftOut hp]
    rfl
  rw [planned, whole]
  refine ⟨(List.sublist_append_left _ _).append (List.Sublist.refl _), ?_⟩
  rw [List.append_assoc]
  exact List.perm_append_comm_assoc ..

variable {σ C : Type}

variable (v) in
/-- What is missing because of a call: what the children of the visited node tell that are left
out. -/
def missed (top : C → Entity) : Entry C → List β
  | .called (.node .visit n context) _ => v.leftOut (top context) n
  | _ => []

variable {w : Walker σ C} {top : C → Entity} {task : Task C} {rest : List (Task C)}
  {s : WalkState (Logged σ C)} {q : List (Task C) × WalkState (Logged σ C)}

/-- A node that is opened has its plan carried out, and then what is scoped to it. -/
theorem advances_openNode (hp : w.visitor.Proceeds) {n : Node} {context : C}
    (h : w.logged.Advances (.openNode n context :: rest, s) q) :
    ∃ steps, n.kind.plan? n.childCount = some steps ∧
      q.1 = .plan n context steps :: (w.hoisted n context ++ rest) ∧
      q.2.memory.log = s.memory.log ++ [.called (.node .visit n context) .proceed] := by
  have move := w.logged.act_move s.parents (.openNode n context)
  cases h with
  | replace h | adopt h | derive h =>
    rw [h] at move
    cases move
  | call h =>
    rw [h] at move
    cases move with
    | @openNode _ _ steps refused plan =>
      have answer : (w.logged.visitor.answer (.node .visit n context) s.memory).1 = .proceed :=
        hp _ s.memory.memory
      refine ⟨steps, plan, ?_, ?_⟩
      · rw [answer]
        rfl
      · exact congrArg (fun a => s.memory.log ++ [.called (.node .visit n context) a]) answer

/-- When a node is opened, what its children tell that are left out is missing from the outlook. -/
theorem outlook_openNode (hp : w.visitor.Proceeds) {n : Node} {context : C}
    (h : w.logged.Advances (.openNode n context :: rest, s) q) :
    (v.leftOut (w.visitor.top context) n ++ v.outlook w.visitor.top q).Perm
        (v.outlook w.visitor.top (.openNode n context :: rest, s)) ∧
      q.2.memory.log.flatMap (v.missed w.visitor.top) =
        s.memory.log.flatMap (v.missed w.visitor.top) ++ v.leftOut (w.visitor.top context) n := by
  obtain ⟨steps, plan, agenda, log⟩ := advances_openNode hp h
  have below := (plan_leftOut (v := v) (w.visitor.top context) plan).2
  have told : v.noted (.called (.node .visit n context) .proceed) = [] := rfl
  have later : q.1.flatMap (v.ahead w.visitor.top) = v.plan (w.visitor.top context) n steps ++
      (v.scopedAt (w.visitor.top context) n ++ rest.flatMap (v.ahead w.visitor.top)) := by
    rw [agenda, List.flatMap_cons, List.flatMap_append, ahead_hoisted]
    rfl
  refine ⟨?_, ?_⟩
  · rw [outlook, outlook, later, log, List.flatMap_append, List.flatMap_singleton, told,
      List.append_nil, List.flatMap_cons, ahead, List.append_assoc (v.interior _ n)]
    refine (List.perm_append_comm_assoc ..).trans (.append_left _ ?_)
    rw [← List.append_assoc]
    exact below.append_right _
  · rw [log, List.flatMap_append, List.flatMap_singleton]
    rfl

/-- Only the visits of nodes that are opened miss anything. -/
theorem missed_advances (h : w.logged.Advances (task :: rest, s) q)
    (ht : ∀ n context, task ≠ .openNode n context) :
    q.2.memory.log.flatMap (v.missed top) = s.memory.log.flatMap (v.missed top) := by
  have move := w.logged.act_move s.parents task
  cases h with
  | replace | adopt => rfl
  | derive => simp [Walker.logged, Visitor.logged, missed]
  | @call _ _ _ hook tasks skip h =>
    rw [h] at move
    have none (answer : Answer) : v.missed top (.called hook answer) = [] := by
      cases move with
      | openNode => exact absurd rfl (ht _ _)
      | _ => rfl
    simp [Walker.logged, Visitor.logged, none]

/-- From step to step, what has been missed, what has been told and what is yet to be told are
together the same. -/
theorem missed_outlook (hp : w.visitor.Proceeds) (hv : w.visitor.NestsFitting .lexical)
    (h : w.logged.Advances (task :: rest, s) q) :
    (q.2.memory.log.flatMap (v.missed w.visitor.top) ++ v.outlook w.visitor.top q).Perm
      (s.memory.log.flatMap (v.missed w.visitor.top) ++
        v.outlook w.visitor.top (task :: rest, s)) := by
  have others (ht : ∀ n context, task ≠ .openNode n context) :
      v.Slack List.Perm .lexical w task :=
    .of_lexical .perm fun same => absurd same (ht _ _)
  cases task with
  | openNode n context =>
    obtain ⟨outlook, missed⟩ := outlook_openNode (v := v) hp h
    rw [missed, List.append_assoc]
    exact outlook.append_left _
  | _ =>
    rw [missed_advances h nofun]
    exact (outlook_advances .perm hp hv h (others nofun)).append_left _

/-- What a walk has missed and what it has told are together its course. -/
theorem walk_missed (hp : w.visitor.Proceeds) (hv : w.visitor.NestsFitting .lexical)
    (hx : w.extensions = {}) {depth : Nat} {root : Entity} {context : C} {s t : WalkState σ}
    {table : ParentTable} (h : w.walk depth root context s = .ok table t) :
    let log := w.walkLog depth root context s
    (log.flatMap (v.missed w.visitor.top) ++ log.flatMap v.noted).Perm (v.ofEntity root) := by
  obtain ⟨u, reached, hlog, -⟩ := w.walk_ok_reaches hx h
  let whole (p : List (Task C) × WalkState (Logged σ C)) : List β :=
    p.2.memory.log.flatMap (v.missed w.visitor.top) ++ v.outlook w.visitor.top p
  have kept : (whole ([], u)).Perm (v.ofEntity root) := by
    have first : whole (Walker.start root context { memory := s.memory }) = v.ofEntity root := by
      simp [whole, outlook, Walker.start, ahead]
    refine reached.keeps (I := fun p => (whole p).Perm (v.ofEntity root)) ?_ (first ▸ .refl _)
    intro p q step earlier
    obtain ⟨agenda, s⟩ := p
    cases agenda with
    | nil => cases step
    | cons task rest => exact (missed_outlook hp hv step).trans earlier
  rw [← hlog]
  simpa [whole, outlook] using kept

end Course

/-- The part of the preorder that is missing because of a call: what is scoped to the nodes below
the children that the visited node leaves out. -/
def Entry.leftOut {C : Type} (top : C → Entity) : Entry C → List Entity
  | .called (.node .visit n context) _ =>
    (n.kind.leftOut n.childCount).flatMap fun i =>
      (n.child? i).toList.flatMap fun m =>
        m.finishOrder.flatMap fun id =>
          ((top context).scopedUnder (.node id)).flatMap Entity.preorder
  | _ => []

theorem Course.missed_entered {C : Type} (top : C → Entity) (x : Entry C) :
    ({ met := fun e => [e] } : Course Entity).missed top x = x.leftOut top := by
  unfold missed Entry.leftOut
  split
  · refine List.flatMap_congr fun i _ => ?_
    rw [child_eq]
    refine List.flatMap_congr fun m _ => ?_
    rw [visit_quiet _ fun _ _ => ⟨rfl, rfl⟩, funext ofEntity_preorder]
  · rfl

variable {σ C : Type}

/-- A walk that succeeds enters a part of the preorder, in its order. The rest is what the children
would have brought up that visited nodes leave out. -/
theorem entered_walk_ok {v : Visitor σ C} (hv : v.Lexical) (hp : v.Proceeds) (o : Options)
    {depth : Nat} {root : Entity} {context : C} {s t : WalkState σ} {table : ParentTable}
    (h : (⟨v, {}, o⟩ : Walker σ C).walk depth root context s = .ok table t) :
    let log := (⟨v, {}, o⟩ : Walker σ C).walkLog depth root context s
    (entered log).Sublist root.preorder ∧
      (log.flatMap (Entry.leftOut v.top) ++ entered log).Perm root.preorder := by
  intro log
  rw [← Course.flatMap_noted_entered, ← Course.ofEntity_preorder]
  refine ⟨?_, ?_⟩
  · exact Course.walk_ok (w := ⟨v, {}, o⟩) .sublist hp hv.nests.fitting rfl h fun _ _ _ =>
      .of_lexical .sublist fun _ _ plan => (Course.plan_leftOut _ plan).1
  · rw [← funext (Course.missed_entered v.top)]
    exact Course.walk_missed (w := ⟨v, {}, o⟩) hp hv.nests.fitting rfl h

/-- A walk by the collector that succeeds, with or without the check of numbers of children,
collects a part of the preorder in its order. It collects all of the preorder if and only if nothing
is scoped to a node below the children that are left out: in declarations with more than four
children and labels with more than two, the only nodes whose plans leave out what is traversed. -/
theorem Collector.unchecked_collects (o : Options) (depth : Nat) (root : Entity)
    (context : ScopeContext) (s : WalkState Memory) :
    (∀ {kind : NodeKind} {count steps}, kind.plan? count = some steps →
      (∀ step ∈ steps, ∀ i ∈ step.needs, i < count) →
      steps.flatMap Step.visited ++ kind.leftOut count = kind.traversedChildren count) ∧
    ∀ {table t}, (⟨visitor, {}, o⟩ : Walker Memory ScopeContext).walk depth root context s =
        .ok table t →
      let log := (⟨visitor, {}, o⟩ : Walker Memory ScopeContext).walkLog depth root context s
      let missing := log.flatMap (Entry.leftOut ScopeContext.top)
      ∃ es, entities t.memory = entities s.memory ++ es ∧ es.Sublist root.preorder ∧
        (missing ++ es).Perm root.preorder ∧ (es = root.preorder ↔ missing = []) := by
  refine ⟨NodeKind.visited_append_leftOut, fun {table t} h => ?_⟩
  intro log missing
  have collected := Collector.walk_entities o depth root context s
  unfold Walk.final at collected
  rw [h] at collected
  obtain ⟨part, together⟩ := entered_walk_ok lexical proceeds o h
  have lengths : missing.length + (SyntaxWalk.entered log).length = root.preorder.length :=
    List.length_append.symm.trans together.length_eq
  refine ⟨_, collected, part, together, fun all => ?_, fun none => ?_⟩
  · rw [all] at lengths
    exact List.eq_nil_of_length_eq_zero (by omega)
  · rw [none] at lengths
    exact part.eq_of_length (by simpa using lengths)

/-- A function whose body is a label, and a field scoped to the second child of the label. -/
def labelledFunction (count : Nat) : Entity :=
  let leaf (i : Nat) : Node := { id := ⟨i + 1⟩, kind := .empty, children := [] }
  { id := ⟨1⟩
    kind := .function
    name := "f"
    body := some { id := ⟨0⟩, kind := .labelStmt, children := (List.range count).map leaf }
    scopes := ⟨[(.node ⟨2⟩, [{ id := ⟨2⟩, kind := .field, name := "g" }])]⟩ }

theorem Collector.unchecked_collects_labelledFunction :
    let w : Walker Memory ScopeContext := ⟨visitor, {}, ⟨true, false⟩⟩
    let s : WalkState Memory := { memory := {} }
    let missing (count : Nat) : List Entity :=
      (w.walkLog 4 (labelledFunction count) ⟨labelledFunction count, 1⟩ s).flatMap
        (Entry.leftOut ScopeContext.top)
    (∃ table t, w.walk 4 (labelledFunction 2) ⟨labelledFunction 2, 1⟩ s = .ok table t ∧
      missing 2 = [] ∧ entities t.memory = (labelledFunction 2).preorder) ∧
    ∃ table t, w.walk 4 (labelledFunction 3) ⟨labelledFunction 3, 1⟩ s = .ok table t ∧
      (missing 3).map (·.name) = ["g"] ∧
      (missing 3 ++ entities t.memory).Perm (labelledFunction 3).preorder := by
  intro w s missing
  have two : ∃ table t, w.walk 4 (labelledFunction 2) ⟨labelledFunction 2, 1⟩ s = .ok table t :=
    Walk.exists_ok (by decide +kernel)
  have three : ∃ table t, w.walk 4 (labelledFunction 3) ⟨labelledFunction 3, 1⟩ s = .ok table t :=
    Walk.exists_ok (by decide +kernel)
  have none : missing 2 = [] := by
    rw [← List.isEmpty_iff]
    decide +kernel
  have some : (missing 3).map (·.name) = ["g"] := by decide +kernel
  obtain ⟨table, t, ok⟩ := two
  obtain ⟨table', t', ok'⟩ := three
  obtain ⟨-, walks⟩ := unchecked_collects ⟨true, false⟩ 4 (labelledFunction 2) _ s
  obtain ⟨es, collected, -, -, all⟩ := walks ok
  obtain ⟨-, walks'⟩ := unchecked_collects ⟨true, false⟩ 4 (labelledFunction 3) _ s
  obtain ⟨es', collected', -, together, -⟩ := walks' ok'
  refine ⟨⟨table, t, ok, none, ?_⟩, table', t', ok', some, ?_⟩
  · exact collected.trans (all.2 none)
  · rw [collected']
    exact together

/-- A label of three children visits only the first of its two traversed ones, and the walk does not
collect the field, though it is in the preorder. -/
theorem Collector.labelledFunction_overlooked :
    (∃ steps, NodeKind.labelStmt.plan? 3 = some steps ∧
      (∀ step ∈ steps, ∀ i ∈ step.needs, i < 3) ∧
      steps.flatMap Step.visited ≠ NodeKind.labelStmt.traversedChildren 3) ∧
    ∃ table t, (⟨visitor, {}, ⟨true, false⟩⟩ : Walker Memory ScopeContext).walk 4
        (labelledFunction 3) ⟨labelledFunction 3, 1⟩ { memory := {} } = .ok table t ∧
      entities t.memory ≠ (labelledFunction 3).preorder := by
  refine ⟨⟨_, rfl, by decide, by decide⟩, _, _, rfl, fun same => ?_⟩
  have names := congrArg (List.map (·.name)) same
  have listed : (labelledFunction 3).preorder.map (·.name) = ["f", "g"] := by decide
  rw [listed] at names
  cases names

end SyntaxWalk
