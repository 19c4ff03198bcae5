import SyntaxWalk.Proofs.Order
import SyntaxWalk.Proofs.Recorded

/-!
# The order of declarations under different keys

A walk reads the declarations of a function or a script key by key, so it does not matter in which
order the keys were used as long as, under each key, the same was declared in the same order. Trees
are rebound when they differ in such orders only (`Entity.Rebound`). Recorders write down the same
for both, and their preorders list the same entities (`Recorder.walk_of_rebound`).
-/

namespace SyntaxWalk

section Lists

variable {α β : Type} {R : α → α → Prop} {S : β → β → Prop}

theorem forall₂_flatMap {f f' : α → List β} {as as' : List α} (h : List.Forall₂ R as as')
    (hf : ∀ a ∈ as, ∀ a', R a a' → List.Forall₂ S (f a) (f' a')) :
    List.Forall₂ S (as.flatMap f) (as'.flatMap f') := by
  induction h with
  | nil => exact .nil
  | @cons a a' as as' ha _ ih =>
    have first := hf a List.mem_cons_self a' ha
    have rest := ih fun b hb => hf b (List.mem_cons_of_mem a hb)
    exact List.rel_append first rest

theorem forall₂_lookup {key : ScopeKey} {rows rows' : List (ScopeKey × List α)}
    (hkeys : rows.map (·.1) = rows'.map (·.1))
    (h : List.Forall₂ (List.Forall₂ R) (rows.map (·.2)) (rows'.map (·.2))) :
    List.Forall₂ R ((rows.lookup key).getD []) ((rows'.lookup key).getD []) := by
  induction rows generalizing rows' with
  | nil =>
    cases List.map_eq_nil_iff.1 hkeys.symm
    exact .nil
  | cons row rows ih =>
    cases rows' with
    | nil => cases hkeys
    | cons row' rows' =>
      obtain ⟨first, rest⟩ := List.cons.inj hkeys
      have first : row.1 = row'.1 := first
      cases h with
      | cons hrow hrows =>
        rw [List.lookup_cons, List.lookup_cons, ← first]
        cases key == row.1 with
        | true => exact hrow
        | false => exact ih rest hrows

end Lists

namespace Entity

variable {e e' : Entity} {adds : List (ScopeKey × Entity)} {key : ScopeKey}

/-- Declares entities under keys, one after the other. -/
def declareAll (e : Entity) (adds : List (ScopeKey × Entity)) : Entity :=
  adds.foldl (fun e add => e.addScoped add.1 add.2) e

/-- What is declared under one key, in order. -/
def declaredUnder (key : ScopeKey) (adds : List (ScopeKey × Entity)) : List Entity :=
  adds.filterMap fun add => if key = add.1 then some add.2 else none

theorem declaredUnder_cons (key : ScopeKey) (add : ScopeKey × Entity) :
    declaredUnder key (add :: adds) =
      (if key = add.1 then [add.2] else []) ++ declaredUnder key adds := by
  unfold declaredUnder
  rw [List.filterMap_cons]
  split_ifs <;> rfl

theorem declareAll_same (e : Entity) (adds : List (ScopeKey × Entity)) :
    (e.declareAll adds).id = e.id ∧ (e.declareAll adds).kind = e.kind ∧
      (e.declareAll adds).name = e.name ∧ (e.declareAll adds).body = e.body := by
  induction adds generalizing e with
  | nil => exact ⟨rfl, rfl, rfl, rfl⟩
  | cons add adds ih => exact ih (e.addScoped add.1 add.2)

/-- Under a key stands what was declared under it, whatever was declared in between. -/
theorem scopedUnder_declareAll (e : Entity) (adds : List (ScopeKey × Entity)) (key : ScopeKey) :
    (e.declareAll adds).scopedUnder key = e.scopedUnder key ++ declaredUnder key adds := by
  induction adds generalizing e with
  | nil => exact (List.append_nil _).symm
  | cons add adds ih =>
    have added : (e.addScoped add.1 add.2).scopedUnder key =
        e.scopedUnder key ++ if key = add.1 then [add.2] else [] :=
      ScopeTable.under_add e.scopes add.1 key add.2
    have rest := ih (e.addScoped add.1 add.2)
    rwa [added, List.append_assoc, ← declaredUnder_cons] at rest

/-- The scope tables of functions and scripts have been built by declarations that come in the same
order under each key, and whatever is declared is rebound in turn. -/
inductive Rebound : Entity → Entity → Prop where
  | code {e : Entity} {adds adds' : List (ScopeKey × Entity)} (hk : e.kind.isCode = true)
      (hs : e.scopes = {})
      (h : ∀ key, List.Forall₂ Rebound (declaredUnder key adds) (declaredUnder key adds')) :
      Rebound (e.declareAll adds) (e.declareAll adds')
  | within {e e' : Entity}
      (same : e.id = e'.id ∧ e.kind = e'.kind ∧ e.name = e'.name ∧ e.body = e'.body)
      (hkeys : e.scopes.rows.map (·.1) = e'.scopes.rows.map (·.1))
      (h : List.Forall₂ (List.Forall₂ Rebound) (e.scopes.rows.map (·.2))
        (e'.scopes.rows.map (·.2))) :
      Rebound e e'

namespace Rebound

theorem same (h : e.Rebound e') :
    e.id = e'.id ∧ e.kind = e'.kind ∧ e.name = e'.name ∧ e.body = e'.body := by
  cases h with
  | @code e adds adds' =>
    obtain ⟨id, kind, name, body⟩ := e.declareAll_same adds
    obtain ⟨id', kind', name', body'⟩ := e.declareAll_same adds'
    exact ⟨id.trans id'.symm, kind.trans kind'.symm, name.trans name'.symm, body.trans body'.symm⟩
  | within same => exact same

/-- Key by key the same is declared, but for rebinding. -/
theorem scopedUnder (h : e.Rebound e') (key : ScopeKey) :
    List.Forall₂ Rebound (e.scopedUnder key) (e'.scopedUnder key) := by
  cases h with
  | @code e adds adds' _ hs h =>
    have empty : e.scopedUnder key = [] := by rw [Entity.scopedUnder, hs]; rfl
    rw [scopedUnder_declareAll, scopedUnder_declareAll, empty]
    exact h key
  | within _ hkeys h => exact forall₂_lookup hkeys h

/-- As a whole, only a table that is no function's or script's is sure to be the same. -/
theorem allScoped (h : e.Rebound e') (hk : e.kind.isCode = false) :
    List.Forall₂ Rebound e.allScoped e'.allScoped := by
  cases h with
  | @code e adds adds' code =>
    rw [(e.declareAll_same adds).2.1, code] at hk
    cases hk
  | within _ _ h => exact List.rel_flatten h

theorem refl (e : Entity) : e.Rebound e := by
  induction e using Entity.induct with
  | h e ih =>
    have rows : List.Forall₂ (List.Forall₂ Rebound) (e.scopes.rows.map (·.2))
        (e.scopes.rows.map (·.2)) := by
      refine List.forall₂_same.2 fun es hes => List.forall₂_same.2 fun x hx => ih x ?_
      obtain ⟨row, hrow, rfl⟩ := List.mem_map.1 hes
      exact List.mem_flatMap.2 ⟨row, hrow, hx⟩
    exact .within ⟨rfl, rfl, rfl, rfl⟩ rfl rows

/-- The order in which keys are used does not matter when what is declared is the same. -/
theorem declareAll {adds adds' : List (ScopeKey × Entity)} (hk : e.kind.isCode = true)
    (hs : e.scopes = {}) (h : ∀ key, declaredUnder key adds = declaredUnder key adds') :
    (e.declareAll adds).Rebound (e.declareAll adds') :=
  .code hk hs fun key => h key ▸ List.forall₂_same.2 fun x _ => refl x

/-- The preorders of rebound trees list entities that are rebound. -/
theorem preorder (h : e.Rebound e') : List.Forall₂ Rebound e.preorder e'.preorder := by
  induction e using Entity.induct generalizing e' with
  | h e ih =>
    obtain ⟨-, kind, -, body⟩ := h.same
    have below {es es' : List Entity} (hs : es ⊆ e.allScoped) (hr : List.Forall₂ Rebound es es') :
        List.Forall₂ Rebound (es.flatMap Entity.preorder) (es'.flatMap Entity.preorder) :=
      forall₂_flatMap hr fun x hx x' hxx' => ih x (hs hx) hxx'
    have under (key : ScopeKey) :=
      below (fun _ => mem_allScoped_of_mem_scopedUnder) (h.scopedUnder key)
    rw [preorder_eq, preorder_eq, ← kind, ← body]
    refine .cons h ?_
    cases hk : e.kind with
    | file | type => exact below (List.Subset.refl _) (h.allScoped (hk ▸ rfl))
    | function | script =>
      refine List.rel_append (forall₂_flatMap (List.forall₂_same.2 fun _ _ => rfl) ?_)
        (under .global)
      rintro id - _ rfl
      exact under (.node id)
    | field | custom => exact .nil

end Rebound

end Entity

/-- Entities belong together that are rebound, and all else with itself alone. -/
def Likeness.rebound : Likeness where
  entities := Entity.Rebound
  nodes := Eq
  targets := Eq
  errors := Eq
  entity h := ⟨h.same.1, h.same.2.1⟩
  body h := h.same.2.2.2 ▸ optionRel_refl _
  scopedUnder := Entity.Rebound.scopedUnder
  allScoped := Entity.Rebound.allScoped
  node := same.node
  child := same.child
  assigned := same.assigned
  target := same.target
  base := same.base
  indices := same.indices
  last := same.last
  ofEntity h := congrArg₂ Walk.Error.unhandledEntity h.same.2.1 h.same.2.2.1
  ofNode := same.ofNode
  malformed := same.malformed
  unsupported := same.unsupported

/-! ## Whole walks -/

/-- How a walk has ended, with the numbers of the parents that it gives and that it leaves. -/
def Walk.report {σ : Type} : EStateM.Result Stop (WalkState σ) ParentTable →
    Except Stop (List (Nat × Nat)) × List (Nat × Nat)
  | .ok table s => (.ok table.pairs, s.parents.pairs)
  | .error stop s => (.error stop, s.parents.pairs)

theorem Likeness.Tables.pairs_eq {L : Likeness} {t t' : ParentTable} (h : L.Tables t t') :
    t.pairs = t'.pairs := by
  obtain ⟨entries⟩ := t
  obtain ⟨entries'⟩ := t'
  simp only [Tables] at h
  simp only [ParentTable.pairs]
  induction h with
  | nil => rfl
  | cons hx _ ih =>
    obtain ⟨key, parent⟩ := hx
    rw [List.map_cons, List.map_cons, ih, key, (L.entity parent).1]

theorem Likeness.Results.report_eq {σ σ' : Type} {memories : σ → σ' → Prop}
    {r : EStateM.Result Stop (WalkState σ) ParentTable}
    {r' : EStateM.Result Stop (WalkState σ') ParentTable}
    (h : rebound.Results memories rebound.Tables r r') : Walk.report r = Walk.report r' := by
  cases h with
  | ok ha hs => rw [Walk.report, Walk.report, ha.pairs_eq, hs.parents.pairs_eq]
  | @failed e e' s s' he hs =>
    have same : e = e' := he
    rw [Walk.report, Walk.report, same, hs.parents.pairs_eq]
  | outOfDepth hs => rw [Walk.report, Walk.report, hs.parents.pairs_eq]

namespace Recorder

theorem sees_rebound : Sees Likeness.rebound Eq where
  refl _ := rfl
  name h := h.same.2.2.1
  describe h := congrArg Node.describe (h.elim id id)
  target h := congrArg Node.id h

theorem Event.Beside.eq {x y : Event} (h : Beside Eq Eq x y) : x = y := by
  obtain ⟨hook, subject, node, kind, parent, index, order, context⟩ := x
  obtain ⟨rfl, rfl, rfl, rfl, rfl, rfl, rfl, rfl⟩ := h
  rfl

/-- Recorders that have begun with the same events and written the same since are the same. -/
theorem Memory.Beside.eq {earlier : List Event} {m m' : Memory}
    (h : Beside Eq Eq earlier earlier m m') : m = m' := by
  obtain ⟨next, added, added', hm, hm', same⟩ := h
  obtain rfl : added = added' := List.forall₂_eq_eq_eq ▸ same.imp fun _ _ => Event.Beside.eq
  obtain ⟨⟨serial⟩, events⟩ := m
  obtain ⟨⟨serial'⟩, events'⟩ := m'
  obtain rfl : serial = serial' := next
  obtain rfl : events = events' := Array.toList_inj.1 (hm.trans hm'.symm)
  rfl

/-- For a recorder, trees that are rebound are the same: it writes down the same events, and its
walks end in the same way and leave the same parents. Their preorders list the same entities. -/
theorem walk_of_rebound (config : Config) (o : Options) (depth : Nat) {root root' : Entity}
    (hr : root.Rebound root') {c c' : ScopeContext} (ht : c.top.Rebound c'.top)
    (hc : c.serial = c'.serial) {s s' : WalkState Memory} (hm : s.memory = s'.memory) :
    let w := walker config o
    ((w.walk depth root c).final s).memory = ((w.walk depth root' c').final s').memory ∧
      Walk.report (w.walk depth root c s) = Walk.report (w.walk depth root' c' s') ∧
      (root.size ≤ depth → ∀ t, w.walk depth root c s ≠ .error .outOfDepth t) ∧
      List.Forall₂ Entity.Rebound root.preorder root'.preorder ∧
      root.preorder.map (·.id) = root'.preorder.map (·.id) := by
  intro w
  have contexts : ScopeContext.Beside Likeness.rebound Eq c c' := ⟨ht, hc⟩
  have memories : Memory.Beside Eq Eq s.memory.events.toList s.memory.events.toList s.memory
      s'.memory :=
    hm ▸ ⟨rfl, [], [], (List.append_nil _).symm, (List.append_nil _).symm, .nil⟩
  have results : Likeness.rebound.Results _ Likeness.rebound.Tables
      (w.walk depth root c s) (w.walk depth root' c' s') :=
    walk_beside sees_rebound (fun _ _ => congrArg (· + 1)) o depth hr contexts memories
  have listed : List.Forall₂ Eq (root.preorder.map (·.id)) (root'.preorder.map (·.id)) := by
    rw [List.forall₂_map_left_iff, List.forall₂_map_right_iff]
    exact hr.preorder.imp fun _ _ h => h.same.1
  refine ⟨results.final.memory.eq, results.report_eq, fun hd t => ?_, hr.preorder, ?_⟩
  · exact Walker.walk_ne_outOfDepth (lexical config) rfl hd c s t
  · rwa [List.forall₂_eq_eq_eq] at listed

/-- A function around a constant that declares nothing. -/
def constantFunction : Entity :=
  let body : Node := { id := ⟨1⟩, kind := .constant, children := [] }
  { id := ⟨2⟩, kind := .function, name := "f", body := some body }

/-- A file with the function, in which entities are declared one after the other. -/
def declaringFile (adds : List (ScopeKey × Entity)) : Entity :=
  { id := ⟨1⟩
    kind := .file
    name := "file"
    scopes := ⟨[(.global, [constantFunction.declareAll adds])]⟩ }

/-- Whether the global declaration comes first or last does not matter. -/
theorem walk_of_rebound_declaringFile :
    let w := walker {} {}
    let inner : Entity := { id := ⟨3⟩, kind := .field, name := "inner" }
    let outer : Entity := { id := ⟨4⟩, kind := .field, name := "outer" }
    let root := declaringFile [(.global, outer), (.node ⟨1⟩, inner)]
    let root' := declaringFile [(.node ⟨1⟩, inner), (.global, outer)]
    let c : ScopeContext := ⟨root, 0⟩
    let c' : ScopeContext := ⟨root', 0⟩
    let s : WalkState Memory := { memory := {} }
    root.Rebound root' ∧
      ((w.walk 5 root c).final s).memory = ((w.walk 5 root' c').final s).memory ∧
      Walk.report (w.walk 5 root c s) = Walk.report (w.walk 5 root' c' s) ∧
      (∀ t, w.walk 5 root c s ≠ .error .outOfDepth t) ∧
      List.Forall₂ Entity.Rebound root.preorder root'.preorder ∧
      root.preorder.map (·.id) = root'.preorder.map (·.id) := by
  intro w inner outer root root' c c' s
  have order (key : ScopeKey) :
      Entity.declaredUnder key [(.global, outer), (.node ⟨1⟩, inner)] =
        Entity.declaredUnder key [(.node ⟨1⟩, inner), (.global, outer)] := by
    cases key <;> simp [Entity.declaredUnder_cons]
  have function := Entity.Rebound.declareAll (rfl : constantFunction.kind.isCode = true) rfl order
  have rebound : root.Rebound root' :=
    .within ⟨rfl, rfl, rfl, rfl⟩ rfl (.cons (.cons function .nil) .nil)
  have top : c.top.Rebound c'.top := rebound
  obtain ⟨events, ends, deep, listed, ids⟩ :=
    walk_of_rebound {} {} 5 rebound top rfl (rfl : s.memory = s.memory)
  exact ⟨rebound, events, ends, deep (by decide), listed, ids⟩

end Recorder

end SyntaxWalk
