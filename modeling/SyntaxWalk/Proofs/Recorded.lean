import SyntaxWalk.Proofs.Contexts
import SyntaxWalk.Proofs.Untraversed

/-!
# Recorders beside each other

What a recorder writes down of a part of a tree depends on what it sees of it (`Recorder.Sees`).
Two recorders of one configuration that are led through trees in which they see the same, under
contexts whose serials go up side by side, write events that agree in all but the texts about the
parts and the serials, and these are related as the parts and the contexts are (`Recorder.beside`).
-/

namespace SyntaxWalk

theorem Likeness.Results.final {σ σ' α α' : Type} {L : Likeness} {memories : σ → σ' → Prop}
    {values : α → α' → Prop} {x : Walk σ α} {y : Walk σ' α'} {s : WalkState σ} {s' : WalkState σ'}
    (h : L.Results memories values (x s) (y s')) :
    L.States memories (x.final s) (y.final s') := by
  unfold Walk.final
  cases hx : x s <;> cases hy : y s' <;> rw [hx, hy] at h <;> cases h <;> assumption

/-- Contexts whose entities on top belong together and whose serials are related. -/
structure ScopeContext.Beside (L : Likeness) (serials : Nat → Nat → Prop) (c c' : ScopeContext) :
    Prop where
  top : L.entities c.top c'.top
  serial : serials c.serial c'.serial

namespace Recorder

/-- Events that agree in all but their subjects and their serials. -/
structure Event.Beside (subjects : String → String → Prop) (serials : Nat → Nat → Prop)
    (x y : Event) : Prop where
  hook : x.hook = y.hook
  subject : subjects x.subject y.subject
  node : x.node = y.node
  entityKind : x.entityKind = y.entityKind
  parent : x.parent = y.parent
  index : x.index = y.index
  order : x.order = y.order
  context : serials x.context y.context

/-- Memories of recorders that have gone on side by side, each from events of its own. -/
structure Memory.Beside (subjects : String → String → Prop) (serials : Nat → Nat → Prop)
    (earlier earlier' : List Event) (m m' : Memory) : Prop where
  next : serials m.serials.next m'.serials.next
  events : ∃ added added', m.events.toList = earlier ++ added ∧
    m'.events.toList = earlier' ++ added' ∧
    List.Forall₂ (Event.Beside subjects serials) added added'

/-- What a recorder sees of parts that belong together is the same, but for the texts about them,
which are related. -/
structure Sees (L : Likeness) (subjects : String → String → Prop) : Prop where
  refl (s) : subjects s s
  name {e e'} (h : L.entities e e') : e.name = e'.name
  describe {n n'} (h : L.nodes n n' ∨ L.targets n n') : subjects n.describe n'.describe
  target {t t'} (h : L.targets t t') : t.id = t'.id

section Beside

variable {L : Likeness} {subjects : String → String → Prop} {serials : Nat → Nat → Prop}
  {earlier earlier' : List Event} {config : Config}

theorem Memory.Beside.append {m m' n n' : Memory} {events events' : List Event}
    (h : Memory.Beside subjects serials earlier earlier' m m')
    (hs : serials n.serials.next n'.serials.next)
    (hn : n.events.toList = m.events.toList ++ events)
    (hn' : n'.events.toList = m'.events.toList ++ events')
    (he : List.Forall₂ (Event.Beside subjects serials) events events') :
    Memory.Beside subjects serials earlier earlier' n n' := by
  obtain ⟨added, added', hm, hm', related⟩ := h.events
  refine ⟨hs, added ++ events, added' ++ events', ?_, ?_, List.rel_append related he⟩
  · rw [hn, hm, List.append_assoc]
  · rw [hn', hm', List.append_assoc]

variable (hL : Sees L subjects)

include hL

theorem subject_beside {d d' : Derivation} (h : L.Derivations d d') :
    d.hookName = d'.hookName ∧ subjects (subject d) (subject d') := by
  cases h with
  | file h | type h | code h =>
    refine ⟨rfl, ?_⟩
    simp only [subject, hL.name h]
    exact hL.refl _
  | localScope h | unwind h => exact ⟨rfl, hL.describe (.inl h)⟩

omit hL in
theorem top_beside {d d' : Derivation} (h : L.Derivations d d') {e e' : Entity}
    (he : L.entities e e') : L.entities (d.top e) (d'.top e') := by
  cases h with
  | file h | type h | code h => exact h
  | localScope | unwind => exact he

omit hL in
theorem answer_beside {call call' : HookCall ScopeContext} {m m' : Memory}
    (hL : ∀ {e e'}, L.entities e e' → e.name = e'.name)
    (h : L.Calls (ScopeContext.Beside L serials) call call') :
    (answer config call m).1 = (answer config call' m').1 := by
  cases h with
  | @entity hook e e' c c' i i' t t' he =>
    change answerIf (hook == .enter && config.skipped.contains e.name) =
      answerIf (hook == .enter && config.skipped.contains e'.name)
    rw [hL he]
  | @node hook n n' c c' hn =>
    have kind := (L.node hn).2.1
    cases hook with
    | visit | generalVisit =>
      change answerIf (config.shortCircuit.contains n.kind) =
        answerIf (config.shortCircuit.contains n'.kind)
      rw [kind]
    | enter | postProcess =>
      simp only [answer]
      split <;> rfl
    | _ => rfl
  | target => rfl

theorem events_beside {call call' : HookCall ScopeContext}
    (h : L.Calls (ScopeContext.Beside L serials) call call') (a : Answer) :
    List.Forall₂ (Event.Beside subjects serials) (eventsOf config (.called call a))
      (eventsOf config (.called call' a)) := by
  cases h with
  | @entity hook e e' c c' i i' t t' he hc hi ht =>
    have kind := (L.entity he).2
    have parent := map_eq_of_optionRel (ht.parent? he) hL.name
    refine .cons ⟨?_, ?_, rfl, congrArg some kind, parent, rfl, rfl, hc.serial⟩ .nil
    · simp only [kind]
    · simp only [hL.name he]
      exact hL.refl _
  | @node hook n n' c c' hn hc =>
    obtain ⟨id, kind, -⟩ := L.node hn
    have written (name : String) (index : Option Nat) : Event.Beside subjects serials
        { hook := name, subject := n.describe, node := some n.id, index, context := c.serial }
        { hook := name, subject := n'.describe, node := some n'.id, index,
          context := c'.serial } :=
      ⟨rfl, hL.describe (.inl hn), congrArg some id, rfl, rfl, rfl, rfl, hc.serial⟩
    cases hook with
    | enter | postProcess =>
      simp only [eventsOf, answer]
      split
      · exact .cons (written _ _) .nil
      · exact .nil
    | _ => exact .cons (written _ _) .nil
  | @target hook a a' c c' ha hc =>
    have order : a.order? = a'.order? := by
      rw [Assignment.order?, Assignment.order?, (L.node ha.assign).2.1]
    have name : hook.name a = hook.name a' := by
      simp only [TargetHook.name, (L.target ha.target).1, order]
    exact .cons ⟨name, hL.describe (.inr ha.target), congrArg some (hL.target ha.target), rfl, rfl,
      rfl, order, hc.serial⟩ .nil

/-- Recorders are beside each other in trees in which they see the same, if the serials go up side
by side. -/
theorem beside (hs : ∀ k k', serials k k' → serials (k + 1) (k' + 1)) :
    (visitor config).Beside L (ScopeContext.Beside L serials)
      (Memory.Beside subjects serials earlier earlier') (visitor config) where
  top hc := hc.top
  derive {d d'} hd c c' hc m m' hm := by
    obtain ⟨hook, subject⟩ := subject_beside hL hd
    have next := hm.next
    simp only [visitor, derive_eq]
    refine ⟨⟨top_beside hd hc.top, next⟩, ?_⟩
    refine hm.append (hs _ _ next) Array.toList_push Array.toList_push (.cons ?_ .nil)
    exact ⟨hook, subject, rfl, rfl, rfl, rfl, rfl, next⟩
  answer {call call'} h m m' hm := by
    refine ⟨answer_beside hL.name h, hm.append ?_ (answer_events config call m)
      (answer_events config call' m') (events_beside hL h _)⟩
    simp only [visitor, answer_serials]
    exact hm.next

/-- Whole walks of recorders beside each other. The parents that they find do not matter. -/
theorem walk_beside (hs : ∀ k k', serials k k' → serials (k + 1) (k' + 1)) (o : Options)
    (depth : Nat) {root root' : Entity} (hr : L.entities root root') {c c' : ScopeContext}
    (hc : ScopeContext.Beside L serials c c') {s s' : WalkState Memory}
    (hm : Memory.Beside subjects serials earlier earlier' s.memory s'.memory) :
    L.Results (Memory.Beside subjects serials earlier earlier') L.Tables
      ((walker config o).walk depth root c s) ((walker config o).walk depth root' c' s') := by
  have start : L.States (Memory.Beside subjects serials earlier earlier')
      ({ memory := s.memory } : WalkState Memory) { memory := s'.memory } := ⟨hm, .nil⟩
  have side : (visitor config).Beside L (ScopeContext.Beside L serials)
      (Memory.Beside subjects serials earlier earlier') (visitor config) := beside hL hs
  have results := (side.walk_results o depth hr hc).run start
  exact results

end Beside

end Recorder

end SyntaxWalk
