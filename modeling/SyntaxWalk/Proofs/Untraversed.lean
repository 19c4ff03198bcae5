import SyntaxWalk.Proofs.Depth
import SyntaxWalk.Proofs.Parallel

/-!
# Children that a walk does not come to

Of a node that is visited a walk comes to the traversed children and to the target of an assignment;
of a target it comes to what its shape says. What stands at the other places does not matter to the
walk, whatever it is, as long as the visitor does not look there (`untraversed_overlooked`).
Only an error that shows a whole assignment shows it.
-/

namespace SyntaxWalk

variable {σ C : Type}

/-- How a walk comes to a node. -/
inductive Node.Role where
  | visited
  | target
  deriving DecidableEq

/-- How a walk comes to a child of a node that it has come to as said; `none` if it does not. -/
def NodeKind.childRole? (kind : NodeKind) (count : Nat) : Node.Role → Nat → Option Node.Role
  | .visited, i =>
    if i ∈ kind.traversedChildren count then some .visited
    else if kind.isAssignment = true ∧ i = 0 then some .target
    else none
  | .target, i =>
    match kind with
    | .arrayRef => if i = 1 then none else some .visited
    | .objectRef => if i = 0 then some .visited else none
    | .blockExpr => if i + 1 = count then some .target else none
    | _ => none

/-- Two nodes are the same but for children that a walk does not come to. -/
inductive Node.Alike : Node.Role → Node → Node → Prop where
  | mk {role n n'} (id : n.id = n'.id) (kind : n.kind = n'.kind) (value : n.value = n'.value)
      (position : n.position = n'.position) (count : n.childCount = n'.childCount)
      (live : ∀ i child m m', n.kind.childRole? n.childCount role i = some child →
        n.child? i = some m → n'.child? i = some m' → Node.Alike child m m') :
      Node.Alike role n n'

/-- Two entities are the same but for children in bodies that a walk does not come to. -/
inductive Entity.Alike : Entity → Entity → Prop where
  | mk {e e'} (id : e.id = e'.id) (kind : e.kind = e'.kind) (name : e.name = e'.name)
      (body : Option.Rel (Node.Alike .visited) e.body e'.body)
      (under : ∀ key, List.Forall₂ Entity.Alike (e.scopedUnder key) (e'.scopedUnder key))
      (all : List.Forall₂ Entity.Alike e.allScoped e'.allScoped) :
      Entity.Alike e e'

/-- Two errors are the same but for how a whole assignment is shown. -/
inductive Walk.Error.Alike : Walk.Error → Walk.Error → Prop where
  | same {e} : Alike e e
  | unsupported {target rendered rendered' position} :
      Alike (.unsupportedAssignment target rendered position)
        (.unsupportedAssignment target rendered' position)

namespace Node.Alike

variable {role : Role} {n n' : Node}

theorem refl (role : Role) (n : Node) : Alike role n n := by
  induction n using Node.induct generalizing role with
  | h n ih =>
    refine .mk rfl rfl rfl rfl rfl fun i child m m' _ hm hm' => ?_
    obtain rfl : m = m' := Option.some.inj (hm.symm.trans hm')
    exact ih m (mem_of_child? hm) child

/-- Whatever is put at a place that a walk does not come to. -/
theorem set {i : Nat} (hi : n.kind.childRole? n.childCount role i = none) (m : Node) :
    Alike role n { n with children := n.children.set i m } := by
  refine .mk rfl rfl rfl rfl List.length_set.symm fun j child a b hj ha hb => ?_
  have other : i ≠ j := by
    rintro rfl
    rw [hi] at hj
    cases hj
  have hb : n.child? j = some b := (List.getElem?_set_ne other).symm.trans hb
  obtain rfl : a = b := Option.some.inj (ha.symm.trans hb)
  exact refl child a

theorem child (h : Alike role n n') {i : Nat} {into : Role}
    (hi : n.kind.childRole? n.childCount role i = some into) :
    Option.Rel (Alike into) (n.child? i) (n'.child? i) := by
  obtain ⟨-, -, -, -, count, live⟩ := h
  have pair := live i into
  rcases Nat.lt_or_ge i n.childCount with hc | hc
  · obtain ⟨m, hm⟩ := exists_child_of_lt hc
    obtain ⟨m', hm'⟩ := exists_child_of_lt (count ▸ hc)
    rw [hm, hm']
    exact .some (pair m m' hi hm hm')
  · rw [child?_eq_none hc, child?_eq_none (count.symm.trans_le hc)]
    exact .none

theorem indices (h : Alike .target n n') (hk : n.kind = .arrayRef) :
    List.Forall₂ (Alike .visited) (n.children.drop 2) (n'.children.drop 2) := by
  obtain ⟨-, -, -, -, count, live⟩ := h
  refine List.forall₂_iff_get.2 ⟨by simp only [List.length_drop]; exact congrArg (· - 2) count, ?_⟩
  intro i hi hi'
  have visited : n.kind.childRole? n.childCount .target (2 + i) = some .visited := by
    rw [hk]
    exact if_neg (by omega)
  refine live (2 + i) .visited _ _ visited ?_ ?_ <;>
    · unfold child?
      rw [← List.getElem?_drop]
      exact List.getElem?_eq_getElem _

theorem lastChild (h : Alike .target n n') (hk : n.kind = .blockExpr) :
    Option.Rel (Alike .target) n.lastChild? n'.lastChild? := by
  have count : n.childCount = n'.childCount := by
    cases h
    assumption
  have last (m : Node) : m.lastChild? = m.child? (m.childCount - 1) :=
    List.getLast?_eq_getElem?
  rw [last, last, ← count]
  rcases Nat.eq_zero_or_pos n.childCount with hc | hc
  · rw [child?_eq_none (by omega), child?_eq_none (by omega)]
    exact .none
  · refine h.child ?_
    rw [hk]
    exact if_pos (by omega)

end Node.Alike

namespace Entity.Alike

theorem refl (e : Entity) : Alike e e := by
  induction e using Entity.induct with
  | h e ih =>
    have body : Option.Rel (Node.Alike .visited) e.body e.body := by
      cases e.body with
      | some n => exact .some (.refl .visited n)
      | none => exact .none
    refine .mk rfl rfl rfl body (fun key => ?_) (List.forall₂_same.2 ih)
    exact List.forall₂_same.2 fun x hx => ih x (mem_allScoped_of_mem_scopedUnder hx)

theorem withBody (e : Entity) {n n' : Node} (h : Node.Alike .visited n n') :
    Alike (e.withBody n) (e.withBody n') :=
  .mk rfl rfl rfl (.some h) (fun _ => List.forall₂_same.2 fun x _ => refl x)
    (List.forall₂_same.2 fun x _ => refl x)

theorem name {e e' : Entity} (h : Alike e e') : e.name = e'.name := by
  cases h
  assumption

end Entity.Alike

/-- Parts belong together that are the same where a walk comes to. -/
def Likeness.live : Likeness where
  entities := Entity.Alike
  nodes := Node.Alike .visited
  targets := Node.Alike .target
  errors := Walk.Error.Alike
  entity := by
    rintro _ _ ⟨id, kind, -, -, -, -⟩
    exact ⟨id, kind⟩
  body := by
    rintro _ _ ⟨-, -, -, body, -, -⟩
    exact body
  scopedUnder := by
    rintro _ _ ⟨-, -, -, -, under, -⟩
    exact under
  allScoped := by
    rintro _ _ ⟨-, -, -, -, -, all⟩ -
    exact all
  node := by
    rintro _ _ ⟨id, kind, -, -, count, -⟩
    exact ⟨id, kind, count⟩
  child h _ hi := h.child (if_pos hi)
  assigned := by
    intro n n' h hk
    have out : 0 ∉ n.kind.traversedChildren n.childCount := by
      intro h0
      cases hkind : n.kind <;> rw [hkind] at hk h0 <;> cases hk
      all_goals exact absurd (NodeKind.mem_span h0).1 (by decide)
    refine h.child ?_
    rw [NodeKind.childRole?, if_neg out, if_pos ⟨hk, rfl⟩]
  target := by
    rintro _ _ ⟨-, kind, -, -, count, -⟩
    exact ⟨kind, count⟩
  base := by
    intro t t' h hk
    refine h.child ?_
    rcases hk with hk | hk <;> rw [hk] <;> rfl
  indices h hk := h.indices hk
  last h hk := h.lastChild hk
  ofEntity := by
    rintro e e' ⟨-, kind, name, -, -, -⟩
    rw [Walk.Error.ofEntity, Walk.Error.ofEntity, kind, name]
    exact .same
  ofNode := by
    rintro n n' ⟨-, kind, -, position, -, -⟩
    rw [Walk.Error.ofNode, Walk.Error.ofNode, kind, position]
    exact .same
  malformed := by
    intro n n' h expected
    have same : n.kind = n'.kind ∧ n.position = n'.position ∧ n.childCount = n'.childCount := by
      rcases h with ⟨-, kind, -, position, count, -⟩ | ⟨-, kind, -, position, count, -⟩ <;>
        exact ⟨kind, position, count⟩
    rw [Walk.Error.malformed, Walk.Error.malformed, same.1, same.2.1, same.2.2]
    exact .same
  unsupported := by
    rintro t t' ⟨-, kind, -, position, -, -⟩ n n' ⟨-, -, -, position', -, -⟩
    rw [Walk.Error.unsupported, Walk.Error.unsupported, kind, position, position']
    exact .unsupported

/-- Two contexts are the same but for the entities on top. -/
structure ScopeContext.Alike (c c' : ScopeContext) : Prop where
  top : c.top.Alike c'.top
  serial : c.serial = c'.serial

/-- A visitor does not look at what a walk does not come to. -/
abbrev Visitor.Overlooks (v : Visitor σ C) (contexts : C → C → Prop) (memories : σ → σ → Prop) :
    Prop :=
  v.Beside Likeness.live contexts memories v

theorem Node.Alike.describe {role : Node.Role} {n n' : Node} (h : Node.Alike role n n') :
    n.describe = n'.describe := by
  obtain ⟨-, kind, value, -, -, -⟩ := h
  rw [Node.describe, Node.describe, kind, value]

theorem Derivation.top_alike {d d' : Derivation} (h : Likeness.live.Derivations d d')
    {e e' : Entity} (he : e.Alike e') : (d.top e).Alike (d'.top e') := by
  cases h with
  | file h | type h | code h => exact h
  | localScope h | unwind h => exact he

namespace Recorder

/-- What the event of a derivation is about. -/
def subject : Derivation → String
  | .file e | .type e | .code e => e.name
  | .localScope n | .unwind n => n.describe

theorem derive_eq (d : Derivation) (context : ScopeContext) (m : Memory) :
    derive d context m = (⟨d.top context.top, m.serials.next⟩,
      { serials := ⟨m.serials.next + 1⟩
        events := m.events.push
          { hook := d.hookName, subject := subject d, context := m.serials.next } }) := by
  cases d <;> rfl

/-- The recorder sees of a node no more than its number, its kind and its payload. -/
theorem overlooks (config : Config) : (visitor config).Overlooks ScopeContext.Alike Eq where
  top hc := hc.top
  derive {d d'} hd c c' hc m m' hm := by
    subst hm
    have subjects : d.hookName = d'.hookName ∧ subject d = subject d' := by
      cases hd with
      | file h | type h | code h => exact ⟨rfl, h.name⟩
      | localScope h | unwind h => exact ⟨rfl, h.describe⟩
    simp only [visitor, derive_eq, subjects.1, subjects.2, and_true]
    exact ⟨Derivation.top_alike hd hc.top, rfl⟩
  answer {call call'} h m m' hm := by
    subst hm
    have same : answer config call = answer config call' := by
      cases h with
      | entity he hc _ ht =>
        have parent := map_eq_of_optionRel (ht.parent? he) Entity.Alike.name
        have kind := (Likeness.live.entity he).2
        simp only [answer, recordEntity, kind, he.name, hc.serial, parent]
      | node hn hc =>
        obtain ⟨id, kind, -⟩ := Likeness.live.node hn
        simp only [answer, recordNode, id, kind, hn.describe, hc.serial]
      | @target hook a a' _ _ ha hc =>
        have kind := (Likeness.live.target ha.target).1
        have assign := (Likeness.live.node ha.assign).2.1
        have order : a.order? = a'.order? := by rw [Assignment.order?, Assignment.order?, assign]
        have name : hook.name a = hook.name a' := by simp only [TargetHook.name, kind, order]
        have id : a.target.id = a'.target.id := by
          cases ha.target
          assumption
        simp only [answer, name, order, id, ha.target.describe, hc.serial]
    exact ⟨congrArg (fun x => (x m).1) same, congrArg (fun x => (x m).2) same⟩

end Recorder

structure Collected.Alike (x x' : Collected) : Prop where
  entity : x.entity.Alike x'.entity
  parent : Option.Rel Entity.Alike x.parent x'.parent

namespace Collector

/-- The same has been collected, but for children that a walk does not come to. -/
structure Memory.Alike (m m' : Memory) : Prop where
  serials : m.serials = m'.serials
  collected : List.Forall₂ Collected.Alike m.collected.toList m'.collected.toList

theorem overlooks : visitor.Overlooks ScopeContext.Alike Memory.Alike where
  top hc := hc.top
  derive {d d'} hd c c' hc m m' hm := by
    have next : m.serials.next = m'.serials.next := congrArg _ hm.serials
    cases hd with
    | file h | type h | code h =>
      have serials : (⟨m.serials.next + 1⟩ : Supply) = ⟨m'.serials.next + 1⟩ := by rw [next]
      exact ⟨⟨h, next⟩, ⟨serials, hm.collected⟩⟩
    | localScope h | unwind h => exact ⟨hc, hm⟩
  answer {call call'} h m m' hm := by
    cases h with
    | node | target => exact ⟨rfl, hm⟩
    | @entity hook e e' c c' i i' t t' he hc hi ht =>
      cases hook with
      | enter =>
        have added : Collected.Alike ⟨e, ParentTable.parent? t e⟩ ⟨e', ParentTable.parent? t' e'⟩ :=
          ⟨he, ht.parent? he⟩
        refine ⟨rfl, hm.serials, ?_⟩
        change List.Forall₂ _ (m.collected.push _).toList (m'.collected.push _).toList
        rw [Array.toList_push, Array.toList_push]
        exact List.rel_append hm.collected (.cons added .nil)
      | _ => exact ⟨rfl, hm⟩

end Collector

/-- What stands where a walk does not come to has no influence on it, if the visitor does not look
there: the walks end alike, with the same error but for how a whole assignment is shown, and make
the same calls under the same contexts. Recorders and the collector do not look there; what a
recorder has written down is the same altogether. -/
theorem untraversed_overlooked :
    (∀ {σ C : Type} {v : Visitor σ C} {contexts : C → C → Prop} {memories : σ → σ → Prop},
      v.Overlooks contexts memories →
      ∀ (o : Options) (depth : Nat) {root root' : Entity}, root.Alike root' →
      ∀ {c c' : C}, contexts c c' →
      ∀ {s s' : WalkState σ}, Likeness.live.States memories s s' →
      let w : Walker σ C := ⟨v, {}, o⟩
      Likeness.live.Results memories Likeness.live.Tables (w.walk depth root c s)
          (w.walk depth root' c' s') ∧
        List.Forall₂ (Likeness.live.Entries contexts) (w.walkLog depth root c s)
          (w.walkLog depth root' c' s')) ∧
    (∀ config, (Recorder.visitor config).Overlooks ScopeContext.Alike Eq) ∧
    Collector.visitor.Overlooks ScopeContext.Alike Collector.Memory.Alike :=
  ⟨fun hv o depth _ _ hr _ _ hc _ _ hs => hv.walks o depth hr hc hs, Recorder.overlooks,
    Collector.overlooks⟩

/-- A function whose body adds two numbers, with anything in place of the operator. -/
def sumWith (operator : Node) : Entity :=
  let one : Node := { id := ⟨2⟩, kind := .constant, children := [], value := some (.int 1) }
  let two : Node := { id := ⟨3⟩, kind := .constant, children := [], value := some (.int 2) }
  let sum : Node := { id := ⟨4⟩, kind := .binaryExpr, children := [operator, one, two] }
  Entity.withBody { id := ⟨1⟩, kind := .function, name := "sum" } sum

theorem sumWith_alike (m m' : Node) : (sumWith m).Alike (sumWith m') :=
  .withBody _ (.set (i := 0) rfl m')

/-- An operator is not looked at: a malformed node of a foreign kind may stand in its place. -/
theorem untraversed_overlooked_sumWith :
    let plus : Node := { id := ⟨1⟩, kind := .constant, children := [], value := some (.str "+") }
    let foreign : Node := { id := ⟨5⟩, kind := .custom "macro", children := [plus] }
    let loop : Node := { id := ⟨6⟩, kind := .loopStmt, children := [foreign] }
    let w : Walker Recorder.Memory ScopeContext := { visitor := Recorder.visitor {} }
    Likeness.live.Results Eq Likeness.live.Tables
        (w.walk 3 (sumWith plus) ⟨sumWith plus, 0⟩ { memory := {} })
        (w.walk 3 (sumWith loop) ⟨sumWith loop, 0⟩ { memory := {} }) ∧
      List.Forall₂ (Likeness.live.Entries ScopeContext.Alike)
        (w.walkLog 3 (sumWith plus) ⟨sumWith plus, 0⟩ { memory := {} })
        (w.walkLog 3 (sumWith loop) ⟨sumWith loop, 0⟩ { memory := {} }) := by
  intro plus foreign loop w
  have alike : (sumWith plus).Alike (sumWith loop) := sumWith_alike plus loop
  have contexts : ScopeContext.Alike ⟨sumWith plus, 0⟩ ⟨sumWith loop, 0⟩ := ⟨alike, rfl⟩
  have states : Likeness.live.States Eq (⟨{}, {}⟩ : WalkState Recorder.Memory) ⟨{}, {}⟩ :=
    ⟨rfl, .nil⟩
  exact untraversed_overlooked.1 (Recorder.overlooks {}) {} 3 alike contexts states

end SyntaxWalk
