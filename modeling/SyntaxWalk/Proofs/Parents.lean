import Mathlib.Data.List.Perm.Subperm
import SyntaxWalk.Proofs.Places
import SyntaxWalk.Proofs.Tables

/-!
# The parents that a walk records

While a tree of distinct entities is walked, the table of parents holds the declarer of every entity
that has been entered, the root apart, and nothing else. It does so at the moment an entity is
entered, when a walk fails and when it succeeds; the ancestors read off it are the declarers up to
the root.
-/

namespace SyntaxWalk

instance : Std.TransOrd EntityId :=
  inferInstanceAs (Std.TransCmp (compareOn EntityId.val))

/-- `p` is an entity of the tree and declares `e`. -/
def Declares (root p e : Entity) : Prop :=
  p ∈ root.members ∧ e ∈ p.allScoped

/-- The declarers of an entity from its own up to the root. -/
inductive Lineage (root : Entity) : Entity → List Entity → Prop where
  | root : Lineage root root []
  | declared {p e ps} (hp : Declares root p e) (h : Lineage root p ps) : Lineage root e (p :: ps)

/-- The parents that a visitor sees when an entity is entered: none for the root, and otherwise the
one entity of the tree that declares the entity. -/
structure Announced (root e : Entity) (parents : ParentTable) : Prop where
  top : e = root → parents.parent? e = none
  nested : e ≠ root →
    ∃ p, Declares root p e ∧ (∀ q, Declares root q e → q = p) ∧ parents.parent? e = some p

/-- A table has one entry for each of some entities other than the root, with their declarers, and
no other entry. -/
structure Exact (root : Entity) (es : List Entity) (t : ParentTable) : Prop where
  keys : t.keys.Nodup
  entries : ∀ i p,
    (i, p) ∈ t.entries ↔ ∃ e ∈ es, e ≠ root ∧ e.id = i ∧ Declares root p e
  ancestors : ∀ e ∈ es, Lineage root e (t.ancestors e)

/-- In a log, every entity is entered with its declarer as its parent. -/
def AnnouncedAll {C : Type} (root : Entity) (log : List (Entry C)) : Prop :=
  ∀ e context inner parents answer,
    .called (.entity .enter e context inner parents) answer ∈ log → Announced root e parents

namespace Entity

variable {root e p q : Entity}

theorem exists_declarer (he : e ∈ root.members) (hne : e ≠ root) : ∃ p, Declares root p e := by
  rcases List.mem_cons.1 (root.members_perm.mem_iff.1 he) with rfl | h
  · exact (hne rfl).elim
  · obtain ⟨p, hp, hx⟩ := List.mem_flatMap.1 h
    exact ⟨p, hp, hx⟩

theorem DistinctEntities.declares_unique (h : root.DistinctEntities) (hp : Declares root p e)
    (hq : Declares root q e) : q = p :=
  h.declarer_unique hq.1 hp.1 hq.2 hp.2

end Entity

/-! ## Ancestors are lineages -/

section Ancestors

variable {root : Entity} {es : List Entity} {t : ParentTable}

/-- A table in which everything but the root has its declarer as its parent, and the declarers are
there themselves. -/
structure Closed (root : Entity) (es : List Entity) (t : ParentTable) : Prop where
  members : ∀ e ∈ es, e ∈ root.members
  top : t.parent? root = none
  below : ∀ e ∈ es, e ≠ root → ∃ p ∈ es, Declares root p e ∧ t.parent? e = some p

theorem Closed.lineage (h : Closed root es t) {e : Entity} (he : e ∈ es) :
    ∃ chain, Lineage root e chain := by
  by_cases hr : e = root
  · exact ⟨[], hr ▸ .root⟩
  · obtain ⟨p, hp, hd, -⟩ := h.below e he hr
    have smaller := Entity.size_lt_of_mem hd.2
    have bounded := Entity.size_le_of_mem_members hd.1
    obtain ⟨chain, hl⟩ := h.lineage hp
    exact ⟨p :: chain, .declared hd hl⟩
termination_by root.size - e.size

variable (h : Closed root es t) (hd : root.DistinctEntities)

include h hd

theorem Closed.parent {e p : Entity} (he : e ∈ es) (hp : Declares root p e) :
    p ∈ es ∧ t.parent? e = some p := by
  have hr : e ≠ root := by
    rintro rfl
    exact hd.root_not_mem hp.1 hp.2
  obtain ⟨q, hq, hdq, ht⟩ := h.below e he hr
  cases hd.declares_unique hp hdq
  exact ⟨hq, ht⟩

/-- Every lineage is as long as some entries of the table, those of entities that are not smaller
than where the lineage starts. -/
theorem Closed.lineage_keys {e : Entity} {chain : List Entity} (hl : Lineage root e chain)
    (he : e ∈ es) : ∃ below : List Entity, below.length = chain.length ∧
      (below.map (·.id)).Nodup ∧
      ∀ x ∈ below, x ∈ root.members ∧ e.size ≤ x.size ∧ x.id ∈ t.keys := by
  induction hl with
  | root => exact ⟨[], rfl, List.nodup_nil, nofun⟩
  | @declared p e ps hp _ ih =>
    obtain ⟨hmem, ht⟩ := h.parent hd he hp
    obtain ⟨below, hlen, hnodup, hbelow⟩ := ih hmem
    have smaller := Entity.size_lt_of_mem hp.2
    refine ⟨e :: below, congrArg (· + 1) hlen, List.nodup_cons.2 ⟨fun hid => ?_, hnodup⟩, ?_⟩
    · obtain ⟨x, hx, hxe⟩ := List.mem_map.1 hid
      obtain ⟨hxmem, hxsize, -⟩ := hbelow x hx
      cases hd.eq_of_id hxmem (h.members e he) hxe
      omega
    · refine List.forall_mem_cons.2
        ⟨⟨h.members e he, le_rfl, Table.mem_keys_of_get? ht⟩, fun x hx => ?_⟩
      obtain ⟨hxmem, hxsize, hxkey⟩ := hbelow x hx
      exact ⟨hxmem, by omega, hxkey⟩

theorem Closed.length_le {e : Entity} {chain : List Entity} (hl : Lineage root e chain)
    (he : e ∈ es) : chain.length ≤ t.size := by
  obtain ⟨below, hlen, hnodup, hbelow⟩ := h.lineage_keys hd hl he
  have keys : below.map (·.id) ⊆ t.keys := by
    intro i hi
    obtain ⟨x, hx, rfl⟩ := List.mem_map.1 hi
    exact (hbelow x hx).2.2
  have bound := (List.subperm_of_subset hnodup keys).length_le
  rwa [List.length_map, hlen, Table.keys, List.length_map] at bound

/-- With enough fuel the chain is extended by the whole lineage. -/
theorem Closed.extendChain_eq {e : Entity} {chain : List Entity} (hl : Lineage root e chain)
    (he : e ∈ es) {n : Nat} (hn : chain.length ≤ n) (acc : List Entity)
    (hacc : ∀ a ∈ acc, a ∈ root.members ∧ a.size ≤ e.size) :
    t.extendChain n acc (t.parent? e) = chain.reverse ++ acc := by
  induction hl generalizing n acc with
  | root =>
    rw [h.top]
    cases n <;> rfl
  | @declared p e ps hp _ ih =>
    obtain ⟨hmem, ht⟩ := h.parent hd he hp
    obtain ⟨k, rfl⟩ : ∃ k, n = k + 1 := ⟨n - 1, by simp at hn; omega⟩
    have smaller := Entity.size_lt_of_mem hp.2
    have fresh : acc.contains p = false := by
      rw [List.contains_eq_any_beq, List.any_eq_false]
      intro a ha heq
      obtain ⟨hamem, hasize⟩ := hacc a ha
      cases hd.eq_of_id hp.1 hamem (beq_iff_eq.1 heq)
      omega
    rw [ht, ParentTable.extendChain, fresh, if_neg Bool.false_ne_true,
      ih hmem (Nat.le_of_succ_le_succ hn) (p :: acc), List.reverse_cons, List.append_assoc]
    · rfl
    · refine List.forall_mem_cons.2 ⟨⟨hp.1, le_rfl⟩, fun a ha => ?_⟩
      obtain ⟨hamem, hasize⟩ := hacc a ha
      exact ⟨hamem, by omega⟩

theorem Closed.ancestors {e : Entity} (he : e ∈ es) : Lineage root e (t.ancestors e) := by
  obtain ⟨chain, hl⟩ := h.lineage he
  have extended := h.extendChain_eq hd hl he (h.length_le hd hl he) [] nofun
  rw [List.append_nil] at extended
  rw [ParentTable.ancestors, extended, List.reverse_reverse]
  exact hl

end Ancestors

/-! ## What the steps of a walk do to the table -/

variable {σ C : Type}

/-- The entity that a task begins with entering. -/
def Task.enters? : Task C → Option Entity
  | .entity e _ => some e
  | _ => none

/-- Only adoptions lead to tasks that enter an entity, and only those tasks do so. -/
def Act.EntersFor (parents : ParentTable) (task : Task C) : Act C → Prop
  | .fail _ => True
  | .replace tasks => task.enters? = none ∧ ∀ t ∈ tasks, t.enters? = none
  | .adopt child parent tasks =>
    ∃ context, task = .nested parent child context ∧ tasks = [.entity child context]
  | .derive _ _ tasks => task.enters? = none ∧ ∀ inner, ∀ t ∈ tasks inner, t.enters? = none
  | .call hook tasks _ => ∀ answer,
    (Entry.called hook answer).entered? = task.enters? ∧
      (∀ e context inner table, hook = .entity .enter e context inner table → table = parents) ∧
      ∀ t ∈ tasks answer, t.enters? = none

namespace Walker

variable {w : Walker σ C}

theorem contents_enters (e : Entity) (inner : Option C) :
    ∀ t ∈ contents e inner, t.enters? = none := by
  cases inner with
  | none => exact nofun
  | some inner =>
    simp only [contents]
    split
    · simp [Task.enters?, or_imp, forall_and]
    · simp [Task.enters?]

theorem hoisted_enters (n : Node) (context : C) : ∀ t ∈ w.hoisted n context, t.enters? = none := by
  simp [hoisted, Task.enters?]

theorem targetCall_enters {parents : ParentTable} {a : Assignment} {context : C} {skip : Nat}
    {inside : List (Task C)} (h : ∀ t ∈ inside, t.enters? = none) :
    (targetCall a context skip inside).EntersFor parents (.target a context skip) := by
  refine fun answer => ⟨rfl, nofun, forall_onProceed ?_ answer⟩
  exact List.forall_mem_append.2 ⟨h, List.forall_mem_singleton.2 rfl⟩

theorem Move.enters {parents : ParentTable} {task : Task C} {act : Act C}
    (h : w.Move parents task act) : act.EntersFor parents task := by
  cases h with
  | fail => trivial
  | entity =>
    refine fun answer => ⟨rfl, fun _ _ _ _ h => ?_, forall_onProceed (by simp [Task.enters?]) answer⟩
    cases h
    rfl
  | nested => exact ⟨_, rfl, rfl⟩
  | openEntity | planLocal | planProtected => exact ⟨rfl, fun _ => by simp [Task.enters?]⟩
  | openField | planVisit | planAssign | child | lastTarget => exact ⟨rfl, by simp [Task.enters?]⟩
  | holdEntity =>
    refine fun answer => ⟨rfl, by simp, forall_onProceed ?_ answer⟩
    exact List.forall_mem_append.2 ⟨contents_enters _ _, List.forall_mem_singleton.2 rfl⟩
  | leaveEntity | finishEntity | planDone | finishNode | leaveTarget =>
    exact fun answer => ⟨rfl, by simp, List.forall_mem_nil _⟩
  | node => exact fun answer => ⟨rfl, by simp, forall_onProceed (by simp [Task.enters?]) answer⟩
  | openNode =>
    refine fun answer => ⟨rfl, by simp, ?_⟩
    cases answer with
    | proceed => exact List.forall_mem_cons.2 ⟨rfl, hoisted_enters _ _⟩
    | handled =>
      simp only [afterVisit]
      split
      · exact hoisted_enters _ _
      · exact List.forall_mem_nil _
  | planBetween => exact fun answer => ⟨rfl, by simp, List.forall_mem_singleton.2 rfl⟩
  | arrayTarget =>
    exact targetCall_enters (List.forall_mem_cons.2 ⟨rfl, List.forall_mem_map.2 fun _ _ => rfl⟩)
  | objectTarget | blockTarget | varTarget => exact targetCall_enters (by simp [Task.enters?])

/-- The entities that have been entered or are about to be. -/
def known (p : List (Task C) × WalkState (Logged σ C)) : List Entity :=
  entered p.2.memory.log ++ p.1.filterMap Task.enters?

/-- The table holds the declarers of what is known, and has done so whenever an entity was
entered. -/
structure Kept (root : Entity) (p : List (Task C) × WalkState (Logged σ C)) : Prop where
  ascending : p.2.parents.Ascending
  entries : ∀ i q,
    (i, q) ∈ p.2.parents.entries ↔ ∃ e ∈ known p, e ≠ root ∧ e.id = i ∧ Declares root q e
  present : ∀ i q, (i, q) ∈ p.2.parents.entries → q ∈ entered p.2.memory.log
  later : ∀ task ∈ p.1.tail, task.enters? = none
  announced : AnnouncedAll root p.2.memory.log

variable {root : Entity} {start : C} {p q : List (Task C) × WalkState (Logged σ C)}

theorem filterMap_enters {tasks : List (Task C)} (h : ∀ t ∈ tasks, t.enters? = none) :
    tasks.filterMap Task.enters? = [] :=
  List.filterMap_eq_nil_iff.2 h

/-- What is entered is of the tree, and what is to be nested is declared by something entered. -/
structure Rooted (root : Entity) (p : List (Task C) × WalkState (Logged σ C)) : Prop where
  entered : ∀ e ∈ entered p.2.memory.log, e ∈ root.members
  entity {e : Entity} {context : C} (h : .entity e context ∈ p.1) : e ∈ root.members
  nested {parent e : Entity} {context : C} (h : .nested parent e context ∈ p.1) :
    parent ∈ SyntaxWalk.entered p.2.memory.log ∧ e ∈ parent.allScoped

theorem Settled.rooted (hs : w.Settled root start p) : Rooted root p where
  entered _ he := hs.entered_mem he
  entity h := by
    obtain ⟨g, hg, -⟩ := hs.tasks _ h
    exact hg.within
  nested h := (hs.tasks _ h).2

theorem kept_start (root : Entity) (start : C) (memory : σ) :
    Kept root (Walker.start root start { memory } : List (Task C) × WalkState (Logged σ C)) := by
  refine ⟨List.Pairwise.nil, fun i q => ⟨nofun, ?_⟩, nofun, nofun, nofun⟩
  rintro ⟨e, he, hne, -⟩
  cases List.mem_singleton.1 he
  exact (hne rfl).elim

/-- A step that leaves the table alone and goes on to enter nothing. -/
theorem Kept.same {task : Task C} {rest tasks : List (Task C)} {s t : WalkState (Logged σ C)}
    (hp : Kept root (task :: rest, s)) (ht : t.parents = s.parents)
    (hlog : entered t.memory.log = entered s.memory.log ++ task.enters?.toList)
    (htasks : ∀ t ∈ tasks, t.enters? = none)
    (hann : AnnouncedAll root t.memory.log) {rest' : List (Task C)} (hsub : rest' ⊆ rest) :
    Kept root (tasks ++ rest', t) := by
  have later : ∀ t ∈ tasks ++ rest', t.enters? = none :=
    List.forall_mem_append.2 ⟨htasks, fun t h => hp.later t (hsub h)⟩
  have same : known (tasks ++ rest', t) = known (task :: rest, s) := by
    have none_later : rest.filterMap Task.enters? = [] := filterMap_enters hp.later
    simp only [known, hlog, filterMap_enters later, List.filterMap_cons]
    cases task.enters? <;> simp [none_later]
  refine ⟨ht ▸ hp.ascending, ?_, ?_, fun t h => later t (List.mem_of_mem_tail h), hann⟩
  · rw [same, ht]
    exact hp.entries
  · intro i q h
    rw [hlog]
    exact List.mem_append_left _ (hp.present i q (ht ▸ h))

section Distinct

variable (hd : root.DistinctEntities)

include hd

theorem Kept.parent_root (hp : Kept root p) : p.2.parents.parent? root = none := by
  rw [Option.eq_none_iff_forall_ne_some]
  intro q hq
  obtain ⟨e, -, hne, hid, hde⟩ :=
    (hp.entries root.id q).1 ((Table.get?_eq_some_iff hp.ascending.keys_nodup).1 hq)
  exact hne (hd.eq_of_id (Entity.mem_members_allScoped hde.1 hde.2) root.mem_members_self hid)

/-- What is known has its declarer as its parent in the table. -/
theorem Kept.announces (hp : Kept root p) {e : Entity} (he : e ∈ known p)
    (hmem : e ∈ root.members) : Announced root e p.2.parents := by
  constructor
  · rintro rfl
    exact hp.parent_root hd
  · intro hne
    obtain ⟨p', hp'⟩ := Entity.exists_declarer hmem hne
    refine ⟨p', hp', fun q hq => hd.declares_unique hp' hq, ?_⟩
    exact (Table.get?_eq_some_iff hp.ascending.keys_nodup).2
      ((hp.entries e.id p').2 ⟨e, he, hne, rfl, hp'⟩)

theorem Kept.adopt {child parent : Entity} {context : C} {task : Task C} {rest : List (Task C)}
    {s : WalkState (Logged σ C)} (hp : Kept root (task :: rest, s)) (ht : task.enters? = none)
    (hparent : parent ∈ entered s.memory.log) (hdc : Declares root parent child) :
    Kept root (.entity child context :: rest,
      { s with parents := ParentTable.setParent s.parents child parent }) := by
  have keys := hp.ascending.keys_nodup
  have ascending : (ParentTable.setParent s.parents child parent).Ascending :=
    hp.ascending.insert child.id parent
  have hne : child ≠ root := by
    rintro rfl
    exact hd.root_not_mem hdc.1 hdc.2
  have later : rest.filterMap Task.enters? = [] := filterMap_enters hp.later
  have before : known (task :: rest, s) = entered s.memory.log := by
    simp [known, later, ht]
  have after : known (Task.entity child context :: rest,
      { s with parents := ParentTable.setParent s.parents child parent }) =
        entered s.memory.log ++ [child] := by
    simp [known, later, Task.enters?]
  -- An entry of the new table is that of the child, or one of the old table under another key.
  have lookup (i : EntityId) (q : Entity) :
      (i, q) ∈ (ParentTable.setParent s.parents child parent).entries ↔
        if i = child.id then parent = q else (i, q) ∈ s.parents.entries := by
    rw [← Table.get?_eq_some_iff ascending.keys_nodup, ParentTable.setParent, Table.get?_insert]
    split
    · exact Option.some_inj
    · exact Table.get?_eq_some_iff keys
  refine ⟨ascending, fun i q => ?_, fun i q h => ?_, hp.later, hp.announced⟩
  · rw [after, lookup]
    split
    · rename_i hi
      constructor
      · rintro rfl
        exact ⟨child, List.mem_append_right _ (List.mem_singleton_self _), hne, hi.symm, hdc⟩
      · rintro ⟨e, -, -, hid, hde⟩
        cases hd.eq_of_id (Entity.mem_members_allScoped hde.1 hde.2)
          (Entity.mem_members_allScoped hdc.1 hdc.2) (hid.trans hi)
        exact hd.declares_unique hde hdc
    · rename_i hi
      rw [hp.entries, before]
      constructor
      · rintro ⟨e, he, hrest⟩
        exact ⟨e, List.mem_append_left _ he, hrest⟩
      · rintro ⟨e, he, hrest⟩
        rcases List.mem_append.1 he with he | he
        · exact ⟨e, he, hrest⟩
        · cases List.mem_singleton.1 he
          exact (hi hrest.2.1.symm).elim
  · rw [lookup] at h
    split at h
    · exact h ▸ hparent
    · exact hp.present i q h

theorem Kept.step (h : w.logged.Advances p q) (hs : Rooted root p) (hp : Kept root p) :
    Kept root q := by
  cases h with
  | @replace task rest s tasks h =>
    have enters := (w.logged.act_move s.parents task).enters
    rw [h] at enters
    exact hp.same rfl (by simp [enters.1]) enters.2 hp.announced (List.Subset.refl rest)
  | @adopt task rest s child parent tasks h =>
    have enters := (w.logged.act_move s.parents task).enters
    rw [h] at enters
    obtain ⟨context, rfl, rfl⟩ := enters
    obtain ⟨hparent, hc⟩ := hs.nested List.mem_cons_self
    exact hp.adopt hd rfl hparent ⟨hs.entered _ hparent, hc⟩
  | @derive task rest s d context tasks h =>
    have enters := (w.logged.act_move s.parents task).enters
    rw [h] at enters
    refine hp.same ?_ ?_ (enters.2 _) ?_ (List.Subset.refl rest)
    · rfl
    · rw [enters.1]
      exact List.filterMap_append
    · intro e c inner parents answer hmem
      rcases List.mem_append.1 hmem with hmem | hmem
      · exact hp.announced e c inner parents answer hmem
      · cases List.mem_singleton.1 hmem
  | @call task rest s hook tasks skip h =>
    have enters := (w.logged.act_move s.parents task).enters
    rw [h] at enters
    obtain ⟨hentered, htable, htasks⟩ := enters (w.visitor.answer hook s.memory.memory).1
    refine hp.same ?_ ?_ htasks ?_ (List.drop_subset _ _)
    · rfl
    · rw [← hentered]
      exact List.filterMap_append
    · intro e c inner parents answer hmem
      rcases List.mem_append.1 hmem with hmem | hmem
      · exact hp.announced e c inner parents answer hmem
      · cases List.mem_singleton.1 hmem
        cases htable e c inner parents rfl
        have he : e ∈ known (task :: rest, s) := by simp [known, ← hentered, Entry.entered?]
        have first : task.enters? = some e := hentered.symm
        cases task with
        | entity e context =>
          cases first
          exact hp.announces hd he (hs.entity List.mem_cons_self)
        | _ => cases first

theorem kept {memory : σ}
    (hs : ∀ q, w.logged.Reaches (Walker.start root start { memory }) q → Rooted root q)
    (h : w.logged.Reaches (Walker.start root start { memory }) p) : Kept root p := by
  induction h with
  | refl => exact kept_start root start memory
  | tail before step ih => exact ih.step hd step (hs _ before)

/-- When nothing is about to be entered, the table is exact. -/
theorem Kept.exact (hs : Rooted root p) (hp : Kept root p)
    (hn : p.1.filterMap Task.enters? = []) :
    Exact root (entered p.2.memory.log) p.2.parents := by
  have same : known p = entered p.2.memory.log := by rw [known, hn, List.append_nil]
  have closed : Closed root (entered p.2.memory.log) p.2.parents := by
    refine ⟨hs.entered, hp.parent_root hd, fun e he hne => ?_⟩
    obtain ⟨q, hq, -, ht⟩ := (hp.announces hd (same ▸ he) (hs.entered e he)).nested hne
    have entry := (Table.get?_eq_some_iff hp.ascending.keys_nodup).1 ht
    exact ⟨q, hp.present e.id q entry, hq, ht⟩
  exact ⟨hp.ascending.keys_nodup, same ▸ hp.entries, fun e he => closed.ancestors hd he⟩

end Distinct

/-- How a walk of `root` is to keep the parents: each entity is entered with its declarer as its
parent, and at the end the table holds the declarers of what has been entered. The table is given
away by a walk that succeeds, and left in the walker by one that fails. -/
def KeepsParents (w : Walker σ C) (depth : Nat) (root : Entity) (context : C)
    (s : WalkState σ) : Prop :=
  AnnouncedAll root (w.walkLog depth root context s) ∧
    match w.walk depth root context s with
    | .ok table t => t.parents = {} ∧ Exact root (entered (w.walkLog depth root context s)) table
    | .error (.failed _) t => Exact root (entered (w.walkLog depth root context s)) t.parents
    | .error .outOfDepth _ => depth < root.size

theorem keepsParents_of_rooted (hx : w.extensions = {}) (hd : root.DistinctEntities) (depth : Nat)
    (context : C) (s : WalkState σ)
    (hs : ∀ q, w.logged.Reaches (Walker.start root context { memory := s.memory }) q → Rooted root q)
    (hdepth : ∀ t, w.walk depth root context s = .error .outOfDepth t → depth < root.size) :
    w.KeepsParents depth root context s := by
  unfold KeepsParents
  cases h : w.walk depth root context s with
  | ok table t =>
    obtain ⟨u, hr, hlog, left⟩ := w.walk_ok_reaches hx h
    have hk := kept hd hs hr
    have exact := hk.exact hd (hs _ hr) rfl
    have same : u.parents = table := congrArg WalkState.parents left
    rw [← hlog]
    exact ⟨hk.announced, (walk_ok hx h).1, same ▸ exact⟩
  | error stop t =>
    obtain ⟨u, hu, rfl, hlog⟩ := (walk_logged w depth root context).of_error h
    obtain ⟨left, hr, hstop⟩ := walk_error (logged_extensions hx) hu
    have hk := kept hd hs hr
    rw [walkLog, hlog]
    refine ⟨hk.announced, ?_⟩
    cases stop with
    | failed e =>
      obtain ⟨task, rest, rfl, hfail⟩ := hstop
      have idle : task.enters? = none := by
        cases task with
        | entity => cases hfail
        | _ => rfl
      exact hk.exact hd (hs _ hr) (filterMap_enters (List.forall_mem_cons.2 ⟨idle, hk.later⟩))
    | outOfDepth => exact hdepth _ h

theorem keepsParents (hv : w.visitor.Lexical) (hx : w.extensions = {})
    (hd : root.DistinctEntities) (depth : Nat) (context : C) (s : WalkState σ) :
    w.KeepsParents depth root context s := by
  refine keepsParents_of_rooted hx hd depth context s (fun _ hr => (settled hv hr).rooted)
    fun t h => ?_
  by_contra hdepth
  exact walk_ne_outOfDepth hv hx (Nat.le_of_not_lt hdepth) _ _ _ h

end Walker

/-- Recorders and collectors find the declarer of every entity as its parent. -/
theorem parents_exact {root : Entity} (hd : root.DistinctEntities) (options : Options)
    (depth : Nat) (context : ScopeContext) :
    (∀ config s,
        ({ visitor := Recorder.visitor config, options } :
          Walker Recorder.Memory ScopeContext).KeepsParents depth root context s) ∧
      ∀ s, ({ visitor := Collector.visitor, options } :
          Walker Collector.Memory ScopeContext).KeepsParents depth root context s :=
  ⟨fun config => Walker.keepsParents (Recorder.lexical config) rfl hd depth context,
    Walker.keepsParents Collector.lexical rfl hd depth context⟩

theorem parents_exact_hoistingFile :
    hoistingFile.DistinctEntities ∧
      ({ visitor := Recorder.visitor {} } : Walker Recorder.Memory ScopeContext).KeepsParents 6
        hoistingFile ⟨hoistingFile, 1⟩ { memory := {} } :=
  ⟨by decide, (parents_exact (by decide) {} 6 ⟨hoistingFile, 1⟩).1 {} { memory := {} }⟩

end SyntaxWalk
