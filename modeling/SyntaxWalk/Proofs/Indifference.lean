import SyntaxWalk.Proofs.Abridged
import SyntaxWalk.Proofs.Parallel
import SyntaxWalk.Proofs.Termination
import SyntaxWalk.Proofs.Thorough

/-!
# Walks that do not depend on their visitors

A walk asks its visitor for the answers to hooks and its contexts for the entity on top, and for
nothing else. Of two visitors that never take over and keep the same entities on top of their
contexts, the walks are the same but for what the visitors remember: they end alike, record the same
parents and call the same hooks in the same order (`walk_indifferent`). A recorder and the collector
are two such visitors.
-/

namespace SyntaxWalk

variable {σ σ' C C' D : Type}

/-- The call under another context. -/
def HookCall.map (f : C → D) : HookCall C → HookCall D
  | .entity hook e context inner parents => .entity hook e (f context) (inner.map f) parents
  | .node hook n context => .node hook n (f context)
  | .target hook a context => .target hook a (f context)

def Entry.map (f : C → D) : Entry C → Entry D
  | .called call answer => .called (call.map f) answer
  | .derived d outer inner => .derived d (f outer) (f inner)
  | .began => .began
  | .ended => .ended

/-- How a walk has ended and the parents that it has left, apart from what its visitor remembers. -/
def Walk.outcome {α : Type} : EStateM.Result Stop (WalkState σ) α → Except Stop α × ParentTable
  | .ok a s => (.ok a, s.parents)
  | .error stop s => (.error stop, s.parents)

/-- From contexts with the same entity on top, two visitors derive contexts with the same entity on
top. -/
def Visitor.AgreesOnTops (v : Visitor σ C) (v' : Visitor σ' C') : Prop :=
  ∀ d c c' m m', v.top c = v'.top c' → v.top (v.derive d c m).1 = v'.top (v'.derive d c' m').1

theorem Visitor.Lexical.agreesOnTops {v : Visitor σ C} {v' : Visitor σ' C'} (h : v.Lexical)
    (h' : v'.Lexical) : v.AgreesOnTops v' := by
  intro d c c' m m' hc
  rw [h, h', hc]

/-! ## The same walk beside itself -/

namespace Likeness

variable {top : C → D} {top' : C' → D}

theorem Tables.eq {t t' : ParentTable} (h : same.Tables t t') : t = t' := by
  obtain ⟨entries⟩ := t
  obtain ⟨entries'⟩ := t'
  have entry : ∀ {x y : EntityId × Entity}, x.1 = y.1 ∧ same.entities x.2 y.2 → x = y :=
    fun h => Prod.ext h.1 h.2
  exact congrArg Table.mk (List.forall₂_eq_eq_eq ▸ List.Forall₂.imp (fun _ _ => entry) h)

theorem Calls.map_eq {call : HookCall C} {call' : HookCall C'}
    (h : same.Calls (fun c c' => top c = top' c') call call') : call.map top = call'.map top' := by
  cases h with
  | entity he hc hi ht =>
    obtain rfl := ht.eq
    obtain rfl := he
    simp only [HookCall.map, hc, map_eq_of_optionRel hi id]
  | node hn hc =>
    obtain rfl := hn
    simp only [HookCall.map, hc]
  | target ha hc =>
    obtain rfl := ha.eq
    simp only [HookCall.map, hc]

theorem Entries.map_eq {x : Entry C} {x' : Entry C'}
    (h : same.Entries (fun c c' => top c = top' c') x x') : x.map top = x'.map top' := by
  cases h with
  | called h => rw [Entry.map, Entry.map, h.map_eq]
  | derived hd ho hi => rw [Entry.map, Entry.map, hd.eq, ho, hi]
  | began | ended => rfl

theorem map_eq_of_entries {log : List (Entry C)} {log' : List (Entry C')}
    (h : List.Forall₂ (same.Entries fun c c' => top c = top' c') log log') :
    log.map (Entry.map top) = log'.map (Entry.map top') := by
  induction h with
  | nil => rfl
  | cons hx _ ih => rw [List.map_cons, List.map_cons, hx.map_eq, ih]

theorem Results.outcome_eq {memories : σ → σ' → Prop}
    {r : EStateM.Result Stop (WalkState σ) ParentTable}
    {r' : EStateM.Result Stop (WalkState σ') ParentTable}
    (h : same.Results memories same.Tables r r') : Walk.outcome r = Walk.outcome r' := by
  cases h with
  | ok ha hs => rw [Walk.outcome, Walk.outcome, Tables.eq ha, hs.parents.eq]
  | failed he hs =>
    obtain rfl := he
    rw [Walk.outcome, Walk.outcome, hs.parents.eq]
  | outOfDepth hs => rw [Walk.outcome, Walk.outcome, hs.parents.eq]

end Likeness

/-- What two visitors remember need not be alike for them to be beside each other. -/
theorem Visitor.AgreesOnTops.beside {v : Visitor σ C} {v' : Visitor σ' C'}
    (h : v.AgreesOnTops v') (hp : v.Proceeds) (hp' : v'.Proceeds) :
    v.Beside .same (fun c c' => v.top c = v'.top c') (fun _ _ => True) v' where
  top hc := hc
  derive hd _ _ hc _ _ _ := ⟨hd.eq ▸ h _ _ _ _ _ hc, trivial⟩
  answer _ _ _ _ := ⟨(hp _ _).trans (hp' _ _).symm, trivial⟩

/-! ## Recorders and the collector -/

/-- A recorder that leaves nothing out never takes over. -/
theorem Recorder.proceeds (config : Config) (hc : config.shortCircuit = [])
    (hs : config.skipped = []) : (visitor config).Proceeds := by
  intro call m
  cases call with
  | target => rfl
  | entity hook e context inner parents =>
    change answerIf _ = _
    simp [hs, answerIf]
  | node hook n context =>
    cases hook with
    | visit | generalVisit =>
      change answerIf _ = _
      simp [hc, answerIf]
    | enter | postProcess =>
      simp only [visitor, answer]
      split <;> rfl
    | _ => rfl

namespace Collector

theorem proceeds : visitor.Proceeds :=
  fun call m => (answer_proceed call m).1

theorem writes : visitor.Writes entities fun x => x.entered?.toList where
  derive d context m := (derive_entities d context m).trans (List.append_nil _).symm
  answer call m := by
    rw [visitor, (answer_proceed call m).2]
    cases call with
    | entity hook => cases hook <;> rfl
    | _ => rfl

/-- What a walk has collected is what its log says was entered. -/
theorem walk_entities (options : Options) (depth : Nat) (root : Entity) (context : ScopeContext)
    (s : WalkState Memory) :
    entities (Walk.final ((⟨visitor, {}, options⟩ : Walker _ _).walk depth root context) s).memory =
      entities s.memory ++
        SyntaxWalk.entered
          ((⟨visitor, {}, options⟩ : Walker _ _).walkLog depth root context s) := by
  rw [SyntaxWalk.entered, List.filterMap_eq_flatMap_toList]
  exact Walker.walk_writes (w := ⟨visitor, {}, options⟩) writes rfl depth root context s

end Collector

theorem entered_map (f : C → D) (log : List (Entry C)) :
    entered (log.map (Entry.map f)) = entered log := by
  rw [entered, List.filterMap_map]
  refine List.filterMap_congr fun x _ => ?_
  cases x with
  | called call answer =>
    cases call with
    | entity hook => cases hook <;> rfl
    | _ => rfl
  | _ => rfl

theorem walks_alike {v : Visitor σ C} {v' : Visitor σ' C'} (hp : v.Proceeds) (hp' : v'.Proceeds)
    (ht : v.AgreesOnTops v') (o : Options) (depth : Nat) (root : Entity) (c : C) (c' : C')
    (hc : v.top c = v'.top c') (s : WalkState σ) (s' : WalkState σ') :
    let w : Walker σ C := ⟨v, {}, o⟩
    let w' : Walker σ' C' := ⟨v', {}, o⟩
    Walk.outcome (w.walk depth root c s) = Walk.outcome (w'.walk depth root c' s') ∧
      (w.walkLog depth root c s).map (Entry.map v.top) =
        (w'.walkLog depth root c' s').map (Entry.map v'.top) := by
  -- Whatever parents a walk finds, it starts with none.
  have start : Likeness.same.States (fun _ _ => True) ({ memory := s.memory } : WalkState σ)
      ({ memory := s'.memory } : WalkState σ') := ⟨trivial, .nil⟩
  obtain ⟨results, entries⟩ :=
    (ht.beside hp hp').walks o depth (rfl : Likeness.same.entities root root) hc start
  exact ⟨results.outcome_eq, Likeness.map_eq_of_entries entries⟩

/-- The events that a recorder adds name, in order, the entities that the collector adds. -/
def NamesCollected (s s' : WalkState Recorder.Memory) (t t' : WalkState Collector.Memory) : Prop :=
  ∃ events es, s'.memory.events.toList = s.memory.events.toList ++ events ∧
    Collector.entities t'.memory = Collector.entities t.memory ++ es ∧
    List.Forall₂ Recorder.Event.Enters (events.filter Recorder.Event.isEntry) es

/-- A recorder that leaves nothing out and the collector, under contexts with the same entity on
top. -/
theorem names_collected (bookkeeping : Bool) (o : Options) (depth : Nat) (root : Entity)
    (c c' : ScopeContext) (hc : c.top = c'.top) (s : WalkState Recorder.Memory)
    (t : WalkState Collector.Memory) :
    NamesCollected s
      (Walk.final ((Recorder.walker { bookkeeping } o).walk depth root c) s) t
      (Walk.final ((⟨Collector.visitor, {}, o⟩ : Walker _ _).walk depth root c') t) := by
  obtain ⟨-, same⟩ := walks_alike (Recorder.proceeds { bookkeeping } rfl rfl)
    Collector.proceeds ((Recorder.lexical _).agreesOnTops Collector.lexical) o depth root c c' hc s
    t
  have entered := congrArg entered same
  rw [entered_map, entered_map] at entered
  refine ⟨_, _, Recorder.walk_events _ o depth root c s,
    Collector.walk_entities o depth root c' t, ?_⟩
  rw [← entered]
  exact Recorder.log_enters _ _

/-- A recorder and the collector have come to the same end: what is recorded names what is
collected, or both have failed with one error. -/
inductive AgreesWithCollector :
    EStateM.Result Stop (WalkState Recorder.Memory) ParentTable →
      Except Stop Collector.Memory → Prop where
  | ok {table s m}
      (h : List.Forall₂ Recorder.Event.Enters
        (s.memory.events.toList.filter Recorder.Event.isEntry) (Collector.entities m)) :
      AgreesWithCollector (.ok table s) (.ok m)
  | failed {e s} : AgreesWithCollector (.error (.failed e) s) (.error (.failed e))

/-- The memory that a walk has left, if it has succeeded, or what it has stopped with. -/
def Walk.left {σ : Type} : EStateM.Result Stop (WalkState σ) ParentTable → Except Stop σ
  | .ok _ s => .ok s.memory
  | .error stop _ => .error stop

theorem collect_eq_left (root : Entity) :
    let start := (ScopeContext.new root).run {}
    Collector.collect root =
      Walk.left
        (Collector.walker.walk root.size root start.1 { memory := { serials := start.2 } }) := by
  change _ = Walk.left (Collector.visitor.walk root.size root ((ScopeContext.new root).run {}).1
    { serials := ((ScopeContext.new root).run {}).2 })
  unfold Collector.collect Walk.left
  generalize (ScopeContext.new root).run {} = start
  cases start with
  | mk context serials =>
    dsimp only
    cases Collector.visitor.walk root.size root context { serials } <;> rfl

/-- Walks by a recorder and by the collector from fresh contexts. The collector is given the size of
the tree for its depth, and more changes nothing. -/
theorem agrees_with_collector (bookkeeping : Bool) (root : Entity) {depth : Nat}
    (hd : root.size ≤ depth) :
    let start := (ScopeContext.new root).run {}
    AgreesWithCollector
      ((Recorder.visitor { bookkeeping }).walk depth root start.1 { serials := start.2 })
      (Collector.collect root) := by
  intro start
  let s : WalkState Recorder.Memory := { memory := { serials := start.2 } }
  let t : WalkState Collector.Memory := { memory := { serials := start.2 } }
  have returns : Collector.walker.Returns (fun w depth => w.walk depth root start.1) root.size t :=
    Walker.walk_returns Collector.lexical.nests rfl (root.allowance_of_size _) t
  obtain ⟨result, _, ends, deeper⟩ := returns
  have least : Collector.walker.walk root.size root start.1 t = result := (deeper _ le_rfl).1
  have deep : Collector.walker.walk depth root start.1 t = result := (deeper depth hd).1
  obtain ⟨alike, -⟩ := walks_alike (Recorder.proceeds { bookkeeping } rfl rfl)
    Collector.proceeds ((Recorder.lexical _).agreesOnTops Collector.lexical) {} depth root
    start.1 start.1 rfl s t
  have names := names_collected bookkeeping {} depth root start.1 start.1 rfl s t
  change Walk.outcome _ = Walk.outcome (Collector.walker.walk depth root start.1 t) at alike
  change NamesCollected s _ t (Walk.final (Collector.walker.walk depth root start.1) t) at names
  change AgreesWithCollector ((Recorder.walker { bookkeeping } {}).walk depth root start.1 s) _
  rw [collect_eq_left, least]
  rw [deep] at alike
  unfold Walk.final at names
  rw [deep] at names
  revert alike names
  generalize (Recorder.walker { bookkeeping } {}).walk depth root start.1 s = r
  intro alike names
  cases result with
  | ok table u =>
    cases r with
    | error stop v => cases alike
    | ok table' v =>
      obtain ⟨events, es, recorded, collected, named⟩ := names
      refine .ok ?_
      simp only [recorded, collected]
      exact named
  | error stop u =>
    cases r with
    | ok table' v => cases alike
    | error stop' v =>
      obtain rfl : stop' = stop := Except.error.inj (congrArg Prod.fst alike)
      cases stop' with
      | failed e => exact .failed
      | outOfDepth => exact (ends u rfl).elim

/-- Two visitors that never take over and agree on what is on top are led through a tree alike: the
walks end alike, with the same parents, and the same calls are made, with the same entities on top.
Recorders that leave nothing out and the collector agree, so that the events name what is
collected. -/
theorem walk_indifferent :
    (∀ {σ σ' C C' : Type} {v : Visitor σ C} {v' : Visitor σ' C'}, v.Proceeds → v'.Proceeds →
      v.AgreesOnTops v' → ∀ (o : Options) (depth : Nat) (root : Entity) (c : C) (c' : C'),
      v.top c = v'.top c' → ∀ (s : WalkState σ) (s' : WalkState σ'),
      let w : Walker σ C := ⟨v, {}, o⟩
      let w' : Walker σ' C' := ⟨v', {}, o⟩
      Walk.outcome (w.walk depth root c s) = Walk.outcome (w'.walk depth root c' s') ∧
        (w.walkLog depth root c s).map (Entry.map v.top) =
          (w'.walkLog depth root c' s').map (Entry.map v'.top)) ∧
    (∀ bookkeeping, (Recorder.visitor { bookkeeping }).Proceeds ∧ Collector.visitor.Proceeds ∧
      (Recorder.visitor { bookkeeping }).AgreesOnTops Collector.visitor) ∧
    (∀ (bookkeeping : Bool) (o : Options) (depth : Nat) (root : Entity) (c c' : ScopeContext),
      c.top = c'.top → ∀ s t, NamesCollected s
        (Walk.final ((Recorder.walker { bookkeeping } o).walk depth root c) s) t
        (Walk.final ((⟨Collector.visitor, {}, o⟩ : Walker _ _).walk depth root c') t)) ∧
    ∀ (bookkeeping : Bool) (root : Entity) {depth : Nat}, root.size ≤ depth →
      let start := (ScopeContext.new root).run {}
      AgreesWithCollector
        ((Recorder.visitor { bookkeeping }).walk depth root start.1 { serials := start.2 })
        (Collector.collect root) :=
  ⟨fun hp hp' ht o depth root c c' hc => walks_alike hp hp' ht o depth root c c' hc,
    fun _ => ⟨Recorder.proceeds _ rfl rfl, Collector.proceeds,
      (Recorder.lexical _).agreesOnTops Collector.lexical⟩,
    fun bookkeeping o depth root c c' hc => names_collected bookkeeping o depth root c c' hc,
    fun bookkeeping root _ hd => agrees_with_collector bookkeeping root hd⟩

theorem walk_indifferent_hoistingFile :
    let w := Recorder.walker {} {}
    let w' := Collector.walker
    let c : ScopeContext := ⟨hoistingFile, 0⟩
    let c' : ScopeContext := ⟨hoistingFile, 5⟩
    let s : WalkState Recorder.Memory := { memory := {} }
    let t : WalkState Collector.Memory := { memory := {} }
    Walk.outcome (w.walk 8 hoistingFile c s) = Walk.outcome (w'.walk 8 hoistingFile c' t) ∧
      (w.walkLog 8 hoistingFile c s).map (Entry.map ScopeContext.top) =
        (w'.walkLog 8 hoistingFile c' t).map (Entry.map ScopeContext.top) ∧
      NamesCollected s (Walk.final (w.walk 8 hoistingFile c) s) t
        (Walk.final (w'.walk 8 hoistingFile c') t) ∧
      hoistingFile.size ≤ 8 ∧
      AgreesWithCollector
        ((Recorder.visitor {}).walk 8 hoistingFile ((ScopeContext.new hoistingFile).run {}).1
          { serials := ((ScopeContext.new hoistingFile).run {}).2 })
        (Collector.collect hoistingFile) := by
  intro w w' c c' s t
  obtain ⟨alike, agrees, named, collected⟩ := walk_indifferent
  obtain ⟨proceeds, proceeds', tops⟩ := agrees false
  have enough : hoistingFile.size ≤ 8 := by decide
  have walks := alike proceeds proceeds' tops {} 8 hoistingFile c c' rfl s t
  exact ⟨walks.1, walks.2, named false {} 8 hoistingFile c c' rfl s t, enough,
    collected false hoistingFile enough⟩

end SyntaxWalk
