import SyntaxWalk.Proofs.Census
import SyntaxWalk.Proofs.Serials

/-!
# The contexts of recorders

A walk by a recorder runs every hook under the context that is in force at its place: for the code
of an entity it comes from the innermost local scope or unwind around it, or from the entity itself.
Derived contexts have ever larger serials, and once the construct that a context was derived for has
been left, neither its serial nor one derived since is seen again (`Recorder.contexts_propagate`).
-/

namespace SyntaxWalk

variable {σ C : Type}

/-- What a hook is called for. -/
def HookCall.subject : HookCall C → Entity ⊕ Node
  | .entity _ e _ _ _ => .inl e
  | .node _ n _ => .inr n
  | .target _ a _ => .inr a.target

def Place.subject : Place → Entity ⊕ Node
  | .entity e => .inl e
  | .node _ n => .inr n

theorem HookCall.subject_place (call : HookCall C) (top : C → Entity) :
    (call.place top).subject = call.subject := by
  cases call <;> rfl

theorem HookCall.place_node {call : HookCall C} {top : C → Entity} {n : Node}
    (h : call.subject = .inr n) : call.place top = .node (top call.context) n := by
  cases call <;> cases h <;> rfl

theorem HookCall.place_entity {call : HookCall C} {top : C → Entity} {e : Entity}
    (h : call.subject = .inl e) : call.place top = .entity e := by
  cases call <;> cases h
  rfl

/-- A call which shows that what a context was derived for has been left. What an unwind protects
has been left when the cleanup code begins. -/
inductive Leaves : Derivation → HookCall C → Prop where
  | entity {d e hook context inner parents} (hd : e.derivation? = some d)
      (h : hook = .leave ∨ hook = .postProcess) :
      Leaves d (.entity hook e context inner parents)
  | localScope {n hook context} (h : hook = .leave ∨ hook = .postProcess) :
      Leaves (.localScope n) (.node hook n context)
  | unwind {cleanup hook context} : Leaves (.unwind cleanup) (.node hook cleanup context)

theorem Leaves.subject {d : Derivation} {call : HookCall C} (h : Leaves d call) (outer : Entity) :
    (d.site outer).subject = call.subject := by
  cases h with
  | entity hd => rw [Walker.site_derivation? hd]; rfl
  | localScope => rfl
  | unwind => rfl

theorem Leaves.ceiling {d : Derivation} {call : HookCall ScopeContext} (h : Leaves d call)
    (answer : Answer) : (Entry.called call answer).ceiling = call.context.serial := by
  cases h with
  | entity _ h => rcases h with rfl | rfl <;> rfl
  | localScope => rfl
  | unwind => rfl

/-! ## One context for each place -/

/-- A derivation is written once. -/
theorem derived_unique {log : List (Entry C)} (h : (deeds log).Nodup) {d : Derivation}
    {outer outer' inner inner' : C} (hd : .derived d outer inner ∈ log)
    (hd' : .derived d outer' inner' ∈ log) : outer = outer' ∧ inner = inner' := by
  rw [deeds, List.filterMap_eq_flatMap_toList] at h
  have deed (o i : C) : d.deed ∈ (Entry.derived d o i).deed?.toList :=
    Option.mem_toList.2 rfl
  have same := eq_of_mem_of_mem h hd hd' (deed outer inner) (deed outer' inner')
  exact Entry.derived.inj same |>.2

section Distinct

variable {root : Entity} {start : C} {log : List (Entry C)} (he : root.DistinctEntities)
  (hn : root.DistinctNodes)

include he hn

theorem Governs.unique_at {p p' : Place} {g g' : Option Derivation} (h : Governs root p g)
    (h' : Governs root p' g') (hp : p.subject = p'.subject) : p = p' ∧ g = g' := by
  have same : p = p' := by
    match p, p' with
    | .entity e, .entity e' => exact congrArg Place.entity (Sum.inl.inj hp)
    | .node e n, .node e' n' =>
      cases Sum.inr.inj hp
      rw [h.owner_unique hn h']
    | .entity e, .node e' n' => cases hp
    | .node e n, .entity e' => cases hp
  subst same
  exact ⟨rfl, h.unique he hn h'⟩

/-- What is for one entity, or for one node, has one context. -/
theorem Placed.unique (hd : (deeds log).Nodup) {p p' : Place} {context context' : C}
    (h : Placed root start log p context) (h' : Placed root start log p' context')
    (hp : p.subject = p'.subject) : context = context' := by
  obtain ⟨g, hg, hs⟩ := h
  obtain ⟨g', hg', hs'⟩ := h'
  obtain ⟨-, rfl⟩ := hg.unique_at he hn hg' hp
  cases g with
  | none => exact hs.trans hs'.symm
  | some d =>
    obtain ⟨outer, hs⟩ := hs
    obtain ⟨outer', hs'⟩ := hs'
    exact (derived_unique hd hs hs').2

end Distinct

namespace Recorder

/-- The events of an entry. -/
def eventsOf (config : Config) : Entry ScopeContext → List Event
  | .called call _ => (answer config call {}).2.events.toList
  | .derived d outer inner => (derive d outer { serials := ⟨inner.serial⟩ }).2.events.toList
  | .began | .ended => []

/-- How the contexts of a walk of `root` from a context `start` are to come about and to show in
the events that it adds to those recorded earlier. A log is split wherever something is said of what
comes before or after an entry. -/
structure Propagates (config : Config) (root : Entity) (start : ScopeContext)
    (log : List (Entry ScopeContext)) (earlier events : List Event) : Prop where
  recorded : events = earlier ++ log.flatMap (eventsOf config)
  serials : ∀ x ∈ log, ∀ event ∈ eventsOf config x, event.context = x.serial
  /-- A node is in the body of the entity on top, and its hooks run under the context that was
  derived for the innermost construct around it. -/
  node {before call answer after n} (h : log = before ++ .called call answer :: after)
    (hn : call.subject = .inr n) :
    ∃ g, Governs root (.node call.context.top n) g ∧ Source start before g call.context ∧
      ∀ e g', Governs root (.node e n) g' → e = call.context.top ∧ g' = g
  entity {before call answer after e} (h : log = before ++ .called call answer :: after)
    (he : call.subject = .inl e) :
    ∃ g, Governs root (.entity e) g ∧ Source start before g call.context ∧
      ∀ g', Governs root (.entity e) g' → g' = g
  once {d outer outer' inner inner'} (h : .derived d outer inner ∈ log)
    (h' : .derived d outer' inner' ∈ log) : outer = outer' ∧ inner = inner'
  same {call call' answer answer'} (h : .called call answer ∈ log)
    (h' : .called call' answer' ∈ log) (hs : call.subject = call'.subject) :
    call.context = call'.context
  fresh {before d outer inner after} (h : log = before ++ .derived d outer inner :: after) :
    start.serial < inner.serial ∧ ∀ x ∈ before, x.serial < inner.serial
  /-- After a construct has been left, its context and those derived since are gone. -/
  left {before d outer inner middle call answer after}
    (h : log = before ++ .derived d outer inner :: middle ++ .called call answer :: after)
    (hl : Leaves d call) : ∀ y ∈ .called call answer :: after, y.serial ≠ inner.serial ∧
      ∀ d' outer' inner', .derived d' outer' inner' ∈ middle → y.serial ≠ inner'.serial

variable {config : Config} {options : Options} {root : Entity} {start : ScopeContext}
  {p q : List (Task ScopeContext) × WalkState (Logged Memory ScopeContext)}

/-! ## Events -/

theorem derive_events (config : Config) (d : Derivation) (outer : ScopeContext) (m : Memory) :
    (derive d outer m).2.events.toList =
      m.events.toList ++ eventsOf config (.derived d outer (derive d outer m).1) := by
  cases d <;> exact Array.toList_push

theorem answer_events (config : Config) (c : HookCall ScopeContext) (m : Memory) :
    (answer config c m).2.events.toList =
      m.events.toList ++ eventsOf config (.called c (answer config c m).1) := by
  cases c with
  | entity | target => exact Array.toList_push
  | node hook n context =>
    cases hook with
    | enter | postProcess =>
      simp only [eventsOf, answer]
      split
      · exact Array.toList_push
      · exact (List.append_nil _).symm
    | _ => exact Array.toList_push

theorem context_of_mem_eventsOf {x : Entry ScopeContext} {event : Event}
    (h : event ∈ eventsOf config x) : event.context = x.serial := by
  cases x with
  | began | ended => cases h
  | derived d outer inner =>
    cases d <;> (cases List.mem_singleton.1 h; rfl)
  | called call answer =>
    cases call with
    | entity | target => cases List.mem_singleton.1 h; rfl
    | node hook n context =>
      cases hook with
      | enter | postProcess =>
        simp only [eventsOf, Recorder.answer] at h
        split at h
        · cases List.mem_singleton.1 h; rfl
        · cases h
      | _ => cases List.mem_singleton.1 h; rfl

theorem writes (config : Config) : (visitor config).Writes (·.events.toList) (eventsOf config) :=
  ⟨derive_events config, answer_events config⟩

/-- What a walk has recorded is what its log says. -/
theorem events_reaches {m : Memory}
    (h : (walker config options).logged.Reaches (Walker.start root start { memory := m }) p) :
    p.2.memory.memory.events.toList =
      m.events.toList ++ p.2.memory.log.flatMap (eventsOf config) :=
  Walker.writes_reaches (w := walker config options) (writes config) h

/-! ## Leaving a construct -/

section Distinct

variable (he : root.DistinctEntities) (hn : root.DistinctNodes)
  (hs : (walker config options).Settled root start p) (hd : (deeds p.2.memory.log).Nodup)
  (hst : Stacked start p)

include hs hst

/-- A context is younger than the one it is derived from. -/
theorem outer_lt {before after : List (Entry ScopeContext)} {d : Derivation}
    {outer inner : ScopeContext} (h : p.2.memory.log = before ++ .derived d outer inner :: after) :
    outer.serial < inner.serial := by
  obtain ⟨begun, young⟩ := hst.fresh.split h d outer inner rfl
  obtain ⟨⟨g, -, source⟩, -⟩ := hs.entries.split h
  cases g with
  | none => exact source ▸ begun
  | some d' =>
    obtain ⟨o, hmem⟩ := source
    exact young _ hmem

include he hn hd

theorem left_behind {before middle after : List (Entry ScopeContext)} {d : Derivation}
    {outer inner : ScopeContext} {call : HookCall ScopeContext} {answer : Answer}
    (h : p.2.memory.log =
      before ++ .derived d outer inner :: middle ++ .called call answer :: after)
    (hl : Leaves d call) {y : Entry ScopeContext} (hy : y ∈ .called call answer :: after) :
    y.serial < inner.serial ∨
      ∀ x ∈ before ++ .derived d outer inner :: middle, x.serial < y.serial := by
  have hcons : p.2.memory.log =
      before ++ .derived d outer inner :: (middle ++ .called call answer :: after) := by
    simp [h]
  have older := outer_lt hs hst hcons
  -- The call is made under the context that the one left has been derived from.
  have same : call.context = outer := by
    have site := (hs.entries.split hcons).1
    have place := hs.entries.split h
    have grown := List.subset_append_left before (.derived d outer inner :: middle)
    refine Placed.unique he hn ?_ place (site.mono grown) ?_
    · rw [h, deeds, List.filterMap_append] at hd
      exact hd.of_append_left
    · rw [HookCall.subject_place, hl.subject]
  have serial : (Entry.called call answer).serial = outer.serial :=
    congrArg ScopeContext.serial same
  rcases List.mem_cons.1 hy with rfl | hy
  · exact .inl (serial ▸ older)
  · rcases (hst.later _ _ _ h).1 y hy with hle | hlt
    · rw [hl.ceiling, same] at hle
      exact .inl (lt_of_le_of_lt hle older)
    · exact .inr fun x hx => hlt x (List.mem_append_left _ hx)

end Distinct

theorem propagates (he : root.DistinctEntities) (hn : root.DistinctNodes) {m : Memory}
    (hf : start.serial < m.serials.next)
    (hr : (walker config options).logged.Reaches (Walker.start root start { memory := m }) p) :
    Propagates config root start p.2.memory.log m.events.toList
      p.2.memory.memory.events.toList := by
  have hs : (walker config options).Settled root start p := Walker.settled (lexical config) hr
  have hd : (deeds p.2.memory.log).Nodup := Walker.derived_once (lexical config) he hn hr
  have hst : Stacked start p := stacked hf hr
  refine ⟨events_reaches hr, ?_, ?_, ?_, ?_, ?_, ?_, ?_⟩
  · exact fun x _ event => context_of_mem_eventsOf
  · intro before call answer after n h hsubject
    obtain ⟨g, hg, source⟩ := hs.entries.split h
    rw [HookCall.place_node hsubject] at hg
    refine ⟨g, hg, source, fun e g' hg' => ?_⟩
    obtain ⟨hp, same⟩ := hg'.unique_at he hn hg rfl
    exact ⟨(Place.node.inj hp).1, same⟩
  · intro before call answer after e h hsubject
    obtain ⟨g, hg, source⟩ := hs.entries.split h
    rw [HookCall.place_entity hsubject] at hg
    exact ⟨g, hg, source, fun g' hg' => hg'.unique he hn hg⟩
  · exact derived_unique hd
  · intro call call' answer answer' h h' hsubject
    refine Placed.unique he hn hd (hs.call_placed h) (hs.call_placed h') ?_
    rw [HookCall.subject_place, HookCall.subject_place, hsubject]
  · exact fun h => hst.fresh.split h _ _ _ rfl
  · intro before d outer inner middle call answer after h hl y hy
    have behind := left_behind he hn hs hd hst h hl hy
    constructor
    · rcases behind with hlt | hgt
      · exact hlt.ne
      · exact (hgt (.derived d outer inner) (by simp)).ne'
    · intro d' outer' inner' hmem
      obtain ⟨first, last, rfl⟩ := List.append_of_mem hmem
      have later : inner.serial < inner'.serial := by
        have h' : p.2.memory.log = (before ++ .derived d outer inner :: first) ++
            .derived d' outer' inner' :: (last ++ .called call answer :: after) := by
          simp [h]
        exact (hst.fresh.split h' _ _ _ rfl).2 (.derived d outer inner) (by simp)
      rcases behind with hlt | hgt
      · exact (hlt.trans later).ne
      · exact (hgt (.derived d' outer' inner') (by simp)).ne'

/-- Contexts are passed on as they should be in a walk from a fresh context, however it ends. -/
def KeepsContexts (config : Config) (options : Options) (depth : Nat) (root : Entity)
    (supply : Supply) (earlier : Array Event) (parents : ParentTable) : Prop :=
  let w := walker config options
  let start := ((ScopeContext.new root).run supply).1
  let memory : Memory := ⟨((ScopeContext.new root).run supply).2, earlier⟩
  let s : WalkState Memory := { memory, parents }
  Propagates config root start (w.walkLog depth root start s) earlier.toList
    (Walk.final (w.walk depth root start) s).memory.events.toList

theorem contexts_propagate {root : Entity} (he : root.DistinctEntities) (hn : root.DistinctNodes)
    (config : Config) (options : Options) (depth : Nat) (supply : Supply) (earlier : Array Event)
    (parents : ParentTable) : KeepsContexts config options depth root supply earlier parents := by
  obtain ⟨p, reached, hlog, hmemory⟩ := (walker config options).walk_reaches rfl depth root
    ((ScopeContext.new root).run supply).1
    { memory := ⟨((ScopeContext.new root).run supply).2, earlier⟩, parents }
  rw [KeepsContexts, ← hlog, ← hmemory]
  exact propagates he hn (Nat.lt_succ_self _) reached

theorem contexts_propagate_hoistingFile :
    hoistingFile.DistinctEntities ∧ hoistingFile.DistinctNodes ∧
      KeepsContexts {} {} 8 hoistingFile {} #[] {} :=
  ⟨by decide, by decide, contexts_propagate (by decide) (by decide) {} {} 8 {} #[] {}⟩

end Recorder

end SyntaxWalk
