import SyntaxWalk.Proofs.Contexts
import SyntaxWalk.Proofs.Coverage

/-!
# Walks that leave things out

A recorder may be set to leave out what is inside entities of some names and below nodes of some
kinds. The entities that its walk enters are the abridgment of the tree: the preorder, except that a
skipped entity stands alone and that a short-circuited node brings in nothing, or only what is
scoped to it if the options ask for that (`Recorder.enters_abridgment`).
-/

namespace SyntaxWalk

/-- The order of entities in which some entities stand for themselves alone and some kinds of nodes
are not gone into. Targets are taken apart whatever their kind. -/
def Survey.abridged (config : Recorder.Config) (rescan : Bool) : Survey Entity where
  met e := [e]
  enters e := !config.skipped.contains e.name
  opens n := !config.shortCircuit.contains n.kind
  rescans := rescan

def Entity.abridgment (root : Entity) (config : Recorder.Config) (rescan : Bool) : List Entity :=
  (Survey.abridged config rescan).ofEntity root

/-- When nothing is left out, the abridgment is the preorder. -/
theorem Entity.abridgment_eq_preorder (root : Entity) {config : Recorder.Config}
    (hs : config.shortCircuit = []) (hk : config.skipped = []) (rescan : Bool) :
    root.abridgment config rescan = root.preorder := by
  refine Survey.ofEntity_preorder ⟨fun e => ?_, fun n => ?_⟩
    ⟨fun _ => rfl, fun _ => rfl, fun _ => rfl, fun _ _ => rfl⟩ root
  · simp [Survey.abridged, hk]
  · simp [Survey.abridged, hs]

/-- The name of a hook that has the same name for all kinds. -/
def HookCall.commonName? {C : Type} : HookCall C → Option String
  | .entity .enter .. => some "enter_entity"
  | .entity .postProcess .. => some "post_process_entity"
  | .node .enter .. => some "enter_node"
  | .node .postProcess .. => some "post_process_node"
  | _ => none

namespace Recorder

variable {config : Config}

/-! ## Entering in events -/

def Event.isEntry (event : Event) : Bool :=
  event.hook == "enter_entity"

/-- An event says that an entity is entered. -/
structure Event.Enters (event : Event) (e : Entity) : Prop where
  hook : event.hook = "enter_entity"
  subject : event.subject = e.name
  kind : event.entityKind = some e.kind

/-- A name that begins differently from those of the hooks of kinds and of derivations. -/
structure Common (name : String) : Prop where
  visit : ¬ "visit".toList <+: name.toList
  leave : ¬ "leave".toList <+: name.toList
  make : ¬ "make".toList <+: name.toList

instance (name : String) : Decidable (Common name) :=
  decidable_of_iff (¬ "visit".toList <+: name.toList ∧ ¬ "leave".toList <+: name.toList ∧
      ¬ "make".toList <+: name.toList)
    ⟨fun h => ⟨h.1, h.2.1, h.2.2⟩, fun h => ⟨h.visit, h.leave, h.make⟩⟩

theorem begins {p q : String} (s : String) (h : p.toList <+: q.toList) :
    p.toList <+: (q ++ s).toList := by
  rw [String.toList_append]
  exact h.trans (List.prefix_append _ _)

theorem hookName_begins (d : Derivation) : "make".toList <+: d.hookName.toList := by
  unfold Derivation.hookName
  split <;> decide

theorem between_begins (point : Between) : "leave".toList <+: point.name.toList := by
  unfold Between.name
  split <;> decide

/-- An event whose hook has a common name is that of a hook with this name. -/
theorem commonName_of_mem_eventsOf {x : Entry ScopeContext} {event : Event}
    (h : event ∈ eventsOf config x) (hc : Common event.hook) :
    ∃ call answer, x = .called call answer ∧ call.commonName? = some event.hook := by
  obtain ⟨visit, leave, make⟩ := hc
  cases x with
  | began | ended => cases h
  | derived d outer inner =>
    have begun := hookName_begins d
    cases d <;> (cases List.mem_singleton.1 h; exact (make begun).elim)
  | called call answer =>
    refine ⟨call, answer, rfl, ?_⟩
    cases call with
    | entity hook e context inner parents =>
      cases List.mem_singleton.1 h
      cases hook with
      | enter | postProcess => rfl
      | visit | generalVisit => exact (visit (begins _ (by decide))).elim
      | leave | generalLeave => exact (leave (begins _ (by decide))).elim
    | target hook a context =>
      cases List.mem_singleton.1 h
      cases hook with
      | visit => exact (visit (begins _ (begins _ (by decide)))).elim
      | leave => exact (leave (begins _ (begins _ (by decide)))).elim
    | node hook n context =>
      cases hook with
      | enter | postProcess =>
        simp only [eventsOf, Recorder.answer] at h
        split at h
        · cases List.mem_singleton.1 h
          rfl
        · cases h
      | visit | generalVisit =>
        cases List.mem_singleton.1 h
        exact (visit List.prefix_rfl).elim
      | leave | generalLeave =>
        cases List.mem_singleton.1 h
        exact (leave List.prefix_rfl).elim
      | between point =>
        cases List.mem_singleton.1 h
        exact (leave (between_begins point)).elim

/-- What is recorded under a common name is recorded for a hook with this name. -/
theorem filter_eq_nil_of_common {name : String} (hc : Common name) {x : Entry ScopeContext}
    (h : ∀ call answer, x = .called call answer → call.commonName? ≠ some name) :
    (eventsOf config x).filter (·.hook == name) = [] := by
  refine List.filter_eq_nil_iff.2 fun event hmem hook => ?_
  obtain rfl : event.hook = name := beq_iff_eq.1 hook
  obtain ⟨call, answer, hx, common⟩ := commonName_of_mem_eventsOf hmem hc
  exact h call answer hx common

/-- The events of an entry say which entity is entered, if one is. -/
theorem eventsOf_enters (config : Config) (x : Entry ScopeContext) :
    List.Forall₂ Event.Enters ((eventsOf config x).filter Event.isEntry) x.entered?.toList := by
  have silent (h : ∀ call answer, x = .called call answer →
      call.commonName? ≠ some "enter_entity") :
      List.Forall₂ Event.Enters ((eventsOf config x).filter Event.isEntry) [] := by
    have none : (eventsOf config x).filter Event.isEntry = [] :=
      filter_eq_nil_of_common (by decide) h
    exact none ▸ .nil
  cases x with
  | began | ended => exact .nil
  | derived d outer inner => exact silent nofun
  | called call answer =>
    cases call with
    | entity hook e context inner parents =>
      cases hook with
      | enter => exact .cons ⟨rfl, rfl, rfl⟩ .nil
      | _ =>
        refine silent ?_
        rintro _ _ ⟨⟩
        simp [HookCall.commonName?]
    | target hook a context =>
      refine silent ?_
      rintro _ _ ⟨⟩
      simp [HookCall.commonName?]
    | node hook n context =>
      refine silent ?_
      rintro _ _ ⟨⟩
      cases hook <;> simp [HookCall.commonName?]

theorem log_enters (config : Config) (log : List (Entry ScopeContext)) :
    List.Forall₂ Event.Enters ((log.flatMap (eventsOf config)).filter Event.isEntry)
      (entered log) := by
  rw [entered, List.filterMap_eq_flatMap_toList]
  induction log with
  | nil => exact .nil
  | cons x log ih =>
    rw [List.flatMap_cons, List.flatMap_cons, List.filter_append]
    exact List.rel_append (eventsOf_enters config x) ih

/-! ## Whole walks -/

theorem follows_abridged (config : Config) (rescan : Bool) :
    (walker config ⟨rescan, true⟩).Follows (Survey.abridged config rescan) where
  lexical := lexical config
  answer call m := by
    have asked (b : Bool) : answerIf b = if !b then .proceed else .handled := by cases b <;> rfl
    cases call with
    | target => rfl
    | entity hook e context inner parents =>
      cases hook with
      | enter => exact asked _
      | _ => rfl
    | node hook n context =>
      cases hook with
      | visit | generalVisit => exact asked _
      | enter | postProcess =>
        simp only [visitor, Recorder.answer]
        split <;> rfl
      | _ => rfl
  rescans _ := rfl
  checks := rfl
  quiet := ⟨fun _ => rfl, fun _ _ => rfl, fun _ _ => rfl⟩

theorem noted_abridged (config : Config) (rescan : Bool) (log : List (Entry ScopeContext)) :
    log.flatMap (Survey.abridged config rescan).noted = entered log := by
  rw [entered, List.filterMap_eq_flatMap_toList]
  refine List.flatMap_congr fun x _ => ?_
  cases x with
  | called call answer =>
    cases call with
    | entity hook => cases hook <;> rfl
    | _ => rfl
  | _ => rfl

theorem walk_events (config : Config) (options : Options) (depth : Nat) (root : Entity)
    (context : ScopeContext) (s : WalkState Memory) :
    (Walk.final ((walker config options).walk depth root context) s).memory.events.toList =
      s.memory.events.toList ++
        ((walker config options).walkLog depth root context s).flatMap (eventsOf config) :=
  Walker.walk_writes (w := walker config options) (writes config) rfl depth root context s

/-- The walk of a recorder enters the entities of the abridgment, from its beginning to where the
walk fails or to its end, and the events that it adds say so. -/
theorem enters_abridgment (config : Config) (rescan : Bool) (depth : Nat) (root : Entity)
    (context : ScopeContext) (s : WalkState Memory) :
    let w := walker config ⟨rescan, true⟩
    let es := entered (w.walkLog depth root context s)
    (∃ events, (Walk.final (w.walk depth root context) s).memory.events.toList =
        s.memory.events.toList ++ events ∧
      List.Forall₂ Event.Enters (events.filter Event.isEntry) es) ∧
    match w.walk depth root context s with
    | .ok _ _ => es = root.abridgment config rescan
    | .error (.failed _) _ => es <+: root.abridgment config rescan
    | .error .outOfDepth _ => depth < root.size := by
  intro w es
  have follows := follows_abridged config rescan
  refine ⟨⟨_, walk_events config ⟨rescan, true⟩ depth root context s, log_enters config _⟩, ?_⟩
  split
  · rename_i h
    exact (noted_abridged config rescan _).symm.trans (follows.walk_ok rfl h)
  · have noted := follows.walkLog_prefix rfl depth root context s
    rwa [noted_abridged] at noted
  · rename_i h
    by_contra hd
    exact Walker.walk_ne_outOfDepth (lexical config) rfl (Nat.le_of_not_lt hd) _ _ _ h

end Recorder

end SyntaxWalk
