import SyntaxWalk.Proofs.Coverage

/-!
# When walks succeed

The faults of an entity tree are listed in the order in which a walk comes to them: those of an
entity when it is entered, those of a node before its children, and those of a target after the
right-hand side. A tree has none if and only if it is sound (`Entity.faults_eq_nil`). A walk that
checks numbers of children, and whose visitor takes nothing over, succeeds on the sound trees alone,
and fails on the others with the first of their faults (`Walker.walk_ok_iff_sound`).
-/

namespace SyntaxWalk

namespace Node

def malformation? (n : Node) : Option Walk.Error :=
  match n.kind.arity with
  | some expected => if expected.accepts n.childCount then none else some (.malformed n expected)
  | none => none

/-- What is wrong with a node by itself, or with the number of its children. -/
def ownFaults (n : Node) : List Walk.Error :=
  match n.kind with
  | .custom _ => [.ofNode n]
  | _ => n.malformation?.toList

/-- What is wrong with a target by itself. -/
def targetFaults (t assign : Node) : List Walk.Error :=
  match t.kind with
  | .var => []
  | .arrayRef | .objectRef => t.malformation?.toList
  | .blockExpr => if t.children.isEmpty then [.malformed t (.atLeast 1)] else []
  | _ => [.unsupported t assign]

end Node

namespace Entity

def ownFaults (e : Entity) : List Walk.Error :=
  match e.kind with
  | .custom _ => [.ofEntity e]
  | _ => []

/-- What a walk asks of an entity and the nodes of its body. -/
structure Proper (e : Entity) : Prop where
  builtIn (kind) : e.kind ≠ .custom kind
  body {b} (hk : e.kind.isCode = true) (hb : e.body = some b) {n} (hn : b.Reaches n) : n.Proper

/-- What a walk asks of an entity tree. -/
def Sound (root : Entity) : Prop :=
  ∀ e ∈ root.preorder, e.Proper

end Entity

def Survey.faults : Survey Walk.Error where
  entity := Entity.ownFaults
  node := Node.ownFaults
  target := Node.targetFaults

/-- All faults of an entity tree, in the order of a walk. -/
def Entity.faults (root : Entity) : List Walk.Error :=
  Survey.faults.ofEntity root

/-! ## Sound trees -/

namespace Node

variable {n t : Node}

theorem malformation?_eq_none : n.malformation? = none ↔ n.isWellFormed = true := by
  unfold malformation? isWellFormed
  cases n.kind.arity <;> simp

theorem malformation?_of_refused? {o : Options} {expected : Arity}
    (h : n.refused? o = some expected) : n.malformation? = some (.malformed n expected) := by
  obtain ⟨-, ha, hr⟩ := refused?_eq_some.1 h
  simp only [malformation?, ha, hr, Bool.false_eq_true, if_false]

theorem ownFaults_eq_nil :
    n.ownFaults = [] ↔ (∀ kind, n.kind ≠ .custom kind) ∧ n.isWellFormed = true := by
  unfold ownFaults
  split
  · simp_all
  · rename_i hk
    rw [← malformation?_eq_none, Option.toList_eq_nil_iff]
    exact ⟨fun h => ⟨hk, h⟩, fun h => h.2⟩

theorem targetFaults_eq_nil {a : Node} : t.targetFaults a = [] ↔ t.TakenApart := by
  constructor
  · intro h
    unfold targetFaults at h
    split at h
    · exact .var ‹_›
    · exact .reference (.inl ‹_›) (malformation?_eq_none.1 (Option.toList_eq_nil_iff.1 h))
    · exact .reference (.inr ‹_›) (malformation?_eq_none.1 (Option.toList_eq_nil_iff.1 h))
    · rename_i hk
      cases hl : t.lastChild? with
      | none =>
        rw [List.getLast?_eq_none_iff.1 hl] at h
        cases h
      | some last => exact .block hk hl
    · cases h
  · intro h
    unfold targetFaults
    cases h with
    | var hk => rw [hk]
    | reference hk h =>
      have sound : t.malformation?.toList = [] := by
        rw [malformation?_eq_none.2 h]
        rfl
      rcases hk with hk | hk <;> rw [hk] <;> exact sound
    | block hk hl =>
      rw [hk]
      cases hc : t.children with
      | nil => simp [lastChild?, hc] at hl
      | cons => rfl

theorem StandsFor.unique {u u' : Node} (h : t.StandsFor u) (h' : t.StandsFor u') : u = u' :=
  Option.some.inj (h.2.symm.trans h'.2)

/-- A target can be assigned to if a walk gets past all that it comes to. -/
theorem assignable_iff : t.Assignable ↔ ∀ u, t.TargetChain u → u.TakenApart := by
  constructor
  · rintro ⟨z, hz, hs⟩
    have taken : z.TakenApart := hs.elim .var fun h => .reference h.1 h.2
    have last (k : Node) : ¬ z.StandsFor k := by
      rintro ⟨hb, -⟩
      simp [hb] at hs
    induction hz using Relation.ReflTransGen.head_induction_on with
    | refl =>
      intro u hu
      rcases hu.cases_head with rfl | ⟨k, hk, -⟩
      · exact taken
      · exact (last k hk).elim
    | head hstep _ ih =>
      intro u hu
      rcases hu.cases_head with rfl | ⟨k, hk, hu⟩
      · exact .block hstep.1 hstep.2
      · cases hstep.unique hk
        exact ih u hu
  · induction t using induct with
    | h t ih =>
      intro h
      cases h t .refl with
      | var hk => exact ⟨t, .refl, .inl hk⟩
      | reference hk hw => exact ⟨t, .refl, .inr ⟨hk, hw⟩⟩
      | @block last hk hl =>
        have step : t.StandsFor last := ⟨hk, hl⟩
        obtain ⟨z, hz, hs⟩ := ih last (mem_of_lastChild? hl) fun u hu => h u (.head step hu)
        exact ⟨z, .head step hz, hs⟩

end Node

namespace Survey

theorem faults_whole : faults.Whole :=
  ⟨fun _ => rfl, fun _ => rfl⟩

theorem faults_quiet : faults.Quiet where
  entity {e} h := by
    change e.ownFaults = []
    unfold Entity.ownFaults
    split
    · exact (h _ ‹_›).elim
    · rfl
  node hk h := Node.ownFaults_eq_nil.2 ⟨hk, h⟩
  target h _ := Node.targetFaults_eq_nil.2 h

end Survey

theorem Node.proper_iff {n : Node} : n.Proper ↔ ∀ x, ¬ Survey.faults.NotedAt x n := by
  constructor
  · rintro ⟨builtIn, wellFormed, target⟩ x (h | ⟨hk, ht, hu, h⟩)
    · rw [Survey.faults_quiet.node builtIn wellFormed] at h
      cases h
    · rw [Survey.faults_quiet.target (assignable_iff.1 (target hk _ ht) _ hu)] at h
      cases h
  · intro h
    obtain ⟨builtIn, wellFormed⟩ := ownFaults_eq_nil.1 <|
      List.eq_nil_iff_forall_not_mem.2 fun x hx => h x (.node hx)
    refine ⟨builtIn, wellFormed, fun hk t ht => assignable_iff.2 fun u hu => ?_⟩
    exact targetFaults_eq_nil.1 <|
      List.eq_nil_iff_forall_not_mem.2 fun x hx => h x (.target hk ht hu hx)

theorem Entity.proper_iff {e : Entity} : e.Proper ↔ ∀ x, ¬ Survey.faults.NotedOf x e := by
  constructor
  · rintro ⟨builtIn, body⟩ x (h | h | ⟨hk, hb, hn, h⟩)
    · cases h
    · rw [Survey.faults_quiet.entity builtIn] at h
      cases h
    · exact Node.proper_iff.1 (body hk hb hn) x h
  · intro h
    refine ⟨fun kind hk => ?_, fun hk hb n hn => Node.proper_iff.2 fun x hx => ?_⟩
    · refine h (.ofEntity e) (.entity ?_)
      change _ ∈ e.ownFaults
      rw [ownFaults, hk]
      exact List.mem_singleton_self _
    · exact h x (.body hk hb hn hx)

/-- A tree without faults is a sound one. -/
theorem Entity.faults_eq_nil {root : Entity} : root.faults = [] ↔ root.Sound := by
  rw [faults, List.eq_nil_iff_forall_not_mem]
  constructor
  · intro h e he
    exact proper_iff.2 fun x hx =>
      h x (Survey.faults_whole.mem_ofEntity root |>.2 ⟨e, mem_preorder.1 he, hx⟩)
  · intro h x hx
    obtain ⟨e, hr, hx⟩ := (Survey.faults_whole.mem_ofEntity root).1 hx
    exact proper_iff.1 (h e (mem_preorder.2 hr)) x hx

/-! ## The first fault -/

variable {σ C : Type}

/-- What a task fails with is the first fault ahead of it. -/
theorem Task.Fails.head_faults {task : Task C} {o : Options} {x : Walk.Error}
    (h : task.Fails o x) (hc : o.checkArity = true) (hs : task.Supplied) (top : C → Entity) :
    [x] <+: Survey.faults.ahead top task := by
  have inside (e : Entity) : e.ownFaults <+: Survey.faults.inside e := List.prefix_append _ _
  have visit (n : Node) (context : C) : n.ownFaults <+: Survey.faults.visit (top context) n := by
    rw [Survey.visit_eq, List.append_assoc]
    exact List.prefix_append _ _
  have assign (t a : Node) (context : C) :
      t.targetFaults a <+: Survey.faults.assign (top context) t a := by
    rw [Survey.assign_eq]
    exact List.prefix_append _ _
  cases h with
  | @entity e context kind h =>
    have own : e.ownFaults = [.ofEntity e] := by rw [Entity.ownFaults, h]
    exact own ▸ inside e
  | @node n context kind h =>
    have own : n.ownFaults = [.ofNode n] := by rw [Node.ownFaults, h]
    exact own ▸ visit n context
  | @refused n context expected h =>
    have own : n.ownFaults = [.malformed n expected] := by
      unfold Node.ownFaults
      split
      · rename_i hk
        simp [Node.refused?, hk, NodeKind.arity] at h
      · rw [Node.malformation?_of_refused? h]
        rfl
    exact own ▸ visit n context
  | @refusedTarget a context skip expected hk h =>
    have own : a.target.targetFaults a.assign = [.malformed a.target expected] := by
      have fault := congrArg Option.toList (Node.malformation?_of_refused? h)
      rcases hk with hk | hk <;> rw [Node.targetFaults, hk] <;> exact fault
    exact own ▸ assign a.target a.assign context
  | @unsupported a context skip hk =>
    have own : a.target.targetFaults a.assign = [.unsupported a.target a.assign] := by
      unfold Node.targetFaults
      split <;> simp_all [NodeKind.isTarget]
    exact own ▸ assign a.target a.assign context
  | @emptyBlock a context skip h =>
    have hk : a.target.kind = .blockExpr := hs
    have own : a.target.targetFaults a.assign = [.malformed a.target (.atLeast 1)] := by
      rw [Node.targetFaults, hk, List.getLast?_eq_none_iff.1 h]
      rfl
    exact own ▸ assign a.target a.assign context
  | lacking h => exact (hs.not_lacks hc h).elim

namespace Walker

variable {w : Walker σ C}

theorem follows_faults (hl : w.visitor.Lexical)
    (hp : ∀ call m, (w.visitor.answer call m).1 = .proceed) (hc : w.options.checkArity = true) :
    w.Follows Survey.faults where
  lexical := hl
  answer call m := by
    rw [hp]
    unfold Survey.answer
    split <;> rfl
  rescans h := by cases h
  checks := hc
  quiet := Survey.faults_quiet

/-- A walk succeeds if and only if the tree is sound, and otherwise fails with its first fault. -/
theorem walk_ok_iff_sound (hl : w.visitor.Lexical)
    (hp : ∀ call m, (w.visitor.answer call m).1 = .proceed) (hx : w.extensions = {})
    (hc : w.options.checkArity = true) {depth : Nat} {root : Entity} (hd : root.size ≤ depth)
    (context : C) (s : WalkState σ) :
    ((∃ table t, w.walk depth root context s = .ok table t) ↔ root.Sound) ∧
      ∀ stop t, w.walk depth root context s = .error stop t →
        ∃ x, stop = .failed x ∧ root.faults.head? = some x := by
  have follows := follows_faults hl hp hc
  have unnoted (log : List (Entry C)) : log.flatMap Survey.faults.noted = [] :=
    List.flatMap_eq_nil_iff.2 fun x _ => by
      unfold Survey.noted Survey.told
      split
      · split <;> rfl
      · rfl
  have first (stop : Stop) (t : WalkState σ) (h : w.walk depth root context s = .error stop t) :
      ∃ x, stop = .failed x ∧ root.faults.head? = some x := by
    cases stop with
    | failed x =>
      obtain ⟨task, rest, fails, hs, noted⟩ := follows.walk_failed hx h
      rw [unnoted, List.nil_append] at noted
      obtain ⟨others, ahead⟩ := fails.head_faults hc hs w.visitor.top
      refine ⟨x, rfl, ?_⟩
      rw [Entity.faults, noted, ← ahead]
      rfl
    | outOfDepth => exact (walk_ne_outOfDepth hl hx hd context s t h).elim
  refine ⟨⟨?_, fun sound => ?_⟩, first⟩
  · rintro ⟨table, t, h⟩
    have noted := follows.walk_ok hx h
    rw [unnoted] at noted
    exact Entity.faults_eq_nil.1 noted.symm
  · cases h : w.walk depth root context s with
    | ok table t => exact ⟨table, t, rfl⟩
    | error stop t =>
      obtain ⟨x, -, fault⟩ := first stop t h
      rw [Entity.faults_eq_nil.2 sound] at fault
      cases fault

theorem walk_ok_iff_sound_hoistingFile :
    hoistingFile.size ≤ 6 ∧ hoistingFile.Sound ∧
      ∃ table t, Collector.walker.walk 6 hoistingFile ⟨hoistingFile, 1⟩ { memory := {} } =
        .ok table t := by
  have enough : hoistingFile.size ≤ 6 := by decide
  have sound : hoistingFile.Sound := Entity.faults_eq_nil.1 (by decide +kernel)
  have judged := walk_ok_iff_sound (w := Collector.walker) Collector.lexical
    (fun call m => (Collector.answer_proceed call m).1) rfl rfl enough ⟨hoistingFile, 1⟩
    { memory := {} }
  exact ⟨enough, sound, judged.1.2 sound⟩

end Walker

end SyntaxWalk
