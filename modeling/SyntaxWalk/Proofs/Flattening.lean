import SyntaxWalk.Proofs.Abridged
import SyntaxWalk.Proofs.Listing
import SyntaxWalk.Proofs.Untraversed

/-!
# What a preorder lists

When the numbers in a tree are all different, its preorder is a flattening of the part of the tree
that a walk opens: each entity stands in it once, after the entity that declares it, and a
declaration stands in it just if its declarer does and opens the key that it is filed under
(`preorder_flattens`). Code opens the keys of the nodes that its body reaches. What is only taken
apart as a target is not reached, nor is what lies under a child that is not come to
(`Node.ComesTo.role_unique`, `Node.ComesTo.not_under`).
-/

namespace SyntaxWalk

section Lists

variable {α β : Type}

/-- An occurrence in a concatenation is an occurrence in one of the lists. -/
theorem flatMap_eq_append_cons {f : α → List β} {l : List α} {before after : List β} {b : β}
    (h : l.flatMap f = before ++ b :: after) :
    ∃ a ∈ l, ∃ first last earlier, f a = first ++ b :: last ∧ before = earlier ++ first := by
  induction l generalizing before with
  | nil => simp at h
  | cons a l ih =>
    rw [List.flatMap_cons] at h
    rcases List.append_eq_append_iff.1 h with ⟨more, rfl, hl⟩ | ⟨more, ha, hl⟩
    · obtain ⟨x, hx, first, last, earlier, hf, rfl⟩ := ih hl
      exact ⟨x, List.mem_cons_of_mem _ hx, first, last, f a ++ earlier, hf,
        (List.append_assoc ..).symm⟩
    · cases more with
      | nil =>
        have rest : l.flatMap f = [] ++ b :: after := hl.symm
        obtain ⟨x, hx, first, last, earlier, hf, he⟩ := ih rest
        refine ⟨x, List.mem_cons_of_mem _ hx, first, last, before ++ earlier, hf, ?_⟩
        rw [List.append_assoc, ← he, List.append_nil]
      | cons y more =>
        obtain ⟨rfl, -⟩ := List.cons.inj hl
        exact ⟨a, List.mem_cons_self, before, more, [], ha, rfl⟩

end Lists

/-! ## How a walk comes to the nodes of a body -/

namespace Node

/-- A visit of a body comes to a node, which is visited itself or taken apart as a target. -/
inductive ComesTo (b : Node) : Role → Node → Prop where
  | body : ComesTo b .visited b
  | child {role n i into m} (h : ComesTo b role n)
      (hi : n.kind.childRole? n.childCount role i = some into) (hm : n.child? i = some m) :
      ComesTo b into m

variable {b n m : Node} {role : Role}

theorem childRole?_visited {i : Nat} (hi : i ∈ n.kind.traversedChildren n.childCount) :
    n.kind.childRole? n.childCount .visited i = some .visited :=
  if_pos hi

theorem childRole?_assigned (hk : n.kind.isAssignment = true) :
    n.kind.childRole? n.childCount .visited 0 = some .target := by
  rw [NodeKind.childRole?, if_neg (NodeKind.zero_notMem_traversedChildren hk), if_pos ⟨hk, rfl⟩]

/-- A child of a target is an operand of it, or what it stands for. -/
theorem childRole?_target {i : Nat} (hi : n.kind.childRole? n.childCount .target i = some role)
    (hm : n.child? i = some m) :
    role = .visited ∧ m ∈ n.operands ∨ role = .target ∧ n.StandsFor m := by
  cases hk : n.kind with
  | arrayRef =>
    rw [hk, NodeKind.childRole?] at hi
    split_ifs at hi with h1
    cases hi
    refine .inl ⟨rfl, ?_⟩
    rw [operands, hk]
    refine List.mem_append.2 ?_
    rcases Nat.eq_zero_or_pos i with rfl | hp
    · exact .inl (Option.mem_toList.2 hm)
    · refine .inr (List.mem_iff_getElem?.2 ⟨i - 2, ?_⟩)
      rw [List.getElem?_drop, Nat.add_sub_cancel' (by omega)]
      exact hm
  | objectRef =>
    rw [hk, NodeKind.childRole?] at hi
    split_ifs at hi with h0
    cases hi
    refine .inl ⟨rfl, ?_⟩
    rw [operands, hk]
    exact Option.mem_toList.2 (h0 ▸ hm)
  | blockExpr =>
    rw [hk, NodeKind.childRole?] at hi
    split_ifs at hi with hl
    cases hi
    have last : n.lastChild? = n.child? (n.childCount - 1) := List.getLast?_eq_getElem?
    exact .inr ⟨rfl, hk, by rw [last, ← hl]; exact hm⟩
  | _ =>
    rw [hk] at hi
    cases hi

namespace ComesTo

theorem mem_subtree (h : b.ComesTo role n) : n ∈ b.subtree := by
  induction h with
  | body => exact b.mem_subtree_self
  | child _ _ hm ih => exact mem_subtree_children ih (mem_of_child? hm)

theorem chain {t u : Node} (h : t.TargetChain u) (ht : b.ComesTo .target t) :
    b.ComesTo .target u := by
  induction h with
  | refl => exact ht
  | @tail p u _ hs ih =>
    have last : p.child? (p.childCount - 1) = some u :=
      List.getLast?_eq_getElem?.symm.trans hs.2
    refine ih.child ?_ last
    have count := lt_of_child? last
    rw [hs.1]
    exact if_pos (by omega)

theorem operand {t : Node} (ht : b.ComesTo .target t) (hm : m ∈ t.operands) :
    b.ComesTo .visited m := by
  unfold operands at hm
  split at hm
  · rename_i hk
    have visited {i : Nat} (hi : i ≠ 1) :
        t.kind.childRole? t.childCount .target i = some .visited := by
      rw [hk]
      exact if_neg hi
    rcases List.mem_append.1 hm with hm | hm
    · exact ht.child (visited Nat.zero_ne_one) (Option.mem_toList.1 hm)
    · obtain ⟨i, hi⟩ := List.mem_iff_getElem?.1 hm
      rw [List.getElem?_drop] at hi
      exact ht.child (visited (by omega)) hi
  · rename_i hk
    have visited : t.kind.childRole? t.childCount .target 0 = some .visited := by
      rw [hk]
      rfl
    exact ht.child visited (Option.mem_toList.1 hm)
  · cases hm

end ComesTo

/-- A node that is come to as a target is at the end of the chain of an assignment. -/
def Assigned (b u : Node) : Prop :=
  ∃ a t, b.Reaches a ∧ a.kind.isAssignment = true ∧ a.child? 0 = some t ∧ t.TargetChain u

theorem ComesTo.reaches_or_assigned (h : b.ComesTo role n) :
    match role with
    | .visited => b.Reaches n
    | .target => b.Assigned n := by
  induction h with
  | body => exact .refl
  | @child role n i into m _ hi hm ih =>
    cases role with
    | visited =>
      rw [NodeKind.childRole?] at hi
      split_ifs at hi with ht ha <;> cases hi
      · exact ih.tail (.child ht hm)
      · exact ⟨n, m, ih, ha.1, ha.2 ▸ hm, .refl⟩
    | target =>
      obtain ⟨a, t, ha, hk, ht, hu⟩ := ih
      rcases childRole?_target hi hm with ⟨rfl, h⟩ | ⟨rfl, h⟩
      · exact ha.tail (.target hk ht hu h)
      · exact ⟨a, t, ha, hk, ht, hu.tail h⟩

/-- The nodes that are reached are those that are visited themselves. -/
theorem reaches_iff_comesTo : b.Reaches n ↔ b.ComesTo .visited n := by
  constructor
  · intro h
    induction h with
    | refl => exact .body
    | tail _ hl ih =>
      cases hl with
      | child hi hm => exact ih.child (childRole?_visited hi) hm
      | target hk ht hu hm => exact (.operand (.chain hu (ih.child (childRole?_assigned hk) ht)) hm)
  · exact fun h => h.reaches_or_assigned

/-! ### In trees with distinct nodes -/

section Distinct

variable {root e : Entity} (h : root.DistinctNodes) (he : e ∈ root.members) (hb : e.body = some b)

include h he hb

/-- A node is come to in one way. -/
theorem ComesTo.role_unique {role' : Role} (hn : b.ComesTo role n) (hn' : b.ComesTo role' n) :
    role = role' := by
  induction hn generalizing role' with
  | body =>
    cases hn' with
    | body => rfl
    | child hp _ hm => exact (h.body_not_mem he hb hp.mem_subtree (mem_of_child? hm)).elim
  | child hp hi hm ih =>
    cases hn' with
    | body => exact (h.body_not_mem he hb hp.mem_subtree (mem_of_child? hm)).elim
    | child hp' hi' hm' =>
      obtain rfl := h.parent_unique he hb hp.mem_subtree hp'.mem_subtree (mem_of_child? hm)
        (mem_of_child? hm')
      obtain rfl := h.index_unique he hb hp.mem_subtree hm hm'
      obtain rfl := ih hp'
      exact Option.some.inj (hi.symm.trans hi')

/-- What lies under a child that is not come to is not come to. -/
theorem ComesTo.not_under {i : Nat} {k : Node} (hn : b.ComesTo role n)
    (hi : n.kind.childRole? n.childCount role i = none) (hk : n.child? i = some k)
    (hm : m ∈ k.subtree) (into : Role) : ¬ b.ComesTo into m := by
  intro hc
  have inside : k ∈ b.subtree := mem_subtree_children hn.mem_subtree (mem_of_child? hk)
  induction hc with
  | body =>
    rcases mem_subtree_iff.1 hm with rfl | ⟨y, hy, hc⟩
    · exact h.body_not_mem he hb hn.mem_subtree (mem_of_child? hk)
    · exact h.body_not_mem he hb (mem_subtree_trans inside hy) hc
  | child hp hi' hm' ih =>
    rcases mem_subtree_iff.1 hm with rfl | ⟨y, hy, hc⟩
    · obtain rfl := h.parent_unique he hb hn.mem_subtree hp.mem_subtree (mem_of_child? hk)
        (mem_of_child? hm')
      obtain rfl := h.index_unique he hb hn.mem_subtree hk hm'
      obtain rfl := hn.role_unique h he hb hp
      rw [hi] at hi'
      cases hi'
    · obtain rfl := h.parent_unique he hb (mem_subtree_trans inside hy) hp.mem_subtree hc
        (mem_of_child? hm')
      exact ih hy

end Distinct

end Node

/-! ## What an entity opens -/

namespace Entity

/-- A walk of an entity comes to what is declared in it: to all that a file or type declares, and of
what a function or script declares to what is filed under the whole of it or under a node that its
body reaches. -/
inductive Opens (e c : Entity) : Prop where
  | container (hk : e.kind = .file ∨ e.kind = .type)
  | global (hk : e.kind = .function ∨ e.kind = .script) (hc : c ∈ e.scopedUnder .global)
  | node {b n} (hk : e.kind = .function ∨ e.kind = .script) (hb : e.body = some b)
      (hn : b.Reaches n) (hc : c ∈ e.scopedUnder (.node n.id))

variable {root e c : Entity}

theorem isCode_iff : e.kind.isCode = true ↔ e.kind = .function ∨ e.kind = .script := by
  cases e.kind <;> simp [EntityKind.isCode]

theorem leads_iff_opens (hc : c ∈ e.allScoped) : e.Leads c ↔ e.Opens c := by
  constructor
  · rintro (⟨hd, hx⟩ | ⟨hk, hb, hn, hx⟩)
    · unfold derivation? at hd
      unfold held at hx
      cases hk : e.kind <;> rw [hk] at hd hx
      case file => exact .container (.inl hk)
      case type => exact .container (.inr hk)
      case function => exact .global (.inl hk) hx
      case script => exact .global (.inr hk) hx
      all_goals cases hd
    · exact .node (isCode_iff.1 hk) hb hn hx
  · rintro (hk | ⟨hk, hx⟩ | ⟨hk, hb, hn, hx⟩)
    · rcases hk with hk | hk
      · exact .held (d := .file e) (by rw [derivation?, hk]) (by rwa [held, hk])
      · exact .held (d := .type e) (by rw [derivation?, hk]) (by rwa [held, hk])
    · have code := isCode_iff.2 hk
      exact .held (derivation?_of_isCode code) (by rwa [held, if_pos code])
    · exact .hoisted (isCode_iff.2 hk) hb hn hx

theorem mem_members_of_mem_preorder (h : c ∈ root.preorder) : c ∈ root.members := by
  have reached := mem_preorder.1 h
  induction reached with
  | refl => exact root.mem_members_self
  | tail hr hl ih => exact mem_members_allScoped (ih (mem_preorder.2 hr)) hl.mem_allScoped

theorem mem_allScoped_of_mem_followers (h : c ∈ e.followers) : c ∈ e.allScoped := by
  revert h
  rw [followers]
  cases e.kind with
  | file | type => exact fun h => h
  | field | custom =>
    intro h
    cases h
  | function | script =>
    intro h
    rcases List.mem_append.1 h with h | h
    · obtain ⟨id, -, h⟩ := List.mem_flatMap.1 h
      exact mem_allScoped_of_mem_scopedUnder h
    · exact mem_allScoped_of_mem_scopedUnder h

/-- Where an entity is listed, something that declares it has been listed before. -/
theorem preorder_declared {before after : List Entity}
    (h : root.preorder = before ++ c :: after) :
    c = root ∨ ∃ p ∈ before, c ∈ p.allScoped := by
  induction root using Entity.induct generalizing before after with
  | h e ih =>
    rw [preorder_followers] at h
    cases before with
    | nil => exact .inl (List.cons.inj h).1.symm
    | cons y before =>
      obtain ⟨rfl, rest⟩ := List.cons.inj h
      obtain ⟨x, hx, first, last, earlier, split, rfl⟩ := flatMap_eq_append_cons rest
      have declared := mem_allScoped_of_mem_followers hx
      refine .inr ?_
      rcases ih x declared split with rfl | ⟨p, hp, hc⟩
      · exact ⟨e, List.mem_cons_self, declared⟩
      · exact ⟨p, List.mem_cons_of_mem _ (List.mem_append_right _ hp), hc⟩

section Distinct

variable (h : root.DistinctEntities) (he : e ∈ root.members) (hc : c ∈ e.allScoped)

include h he hc

/-- An entity is listed after the one that declares it. -/
theorem DistinctEntities.declarer_before {before after : List Entity}
    (hp : root.preorder = before ++ c :: after) : e ∈ before := by
  rcases preorder_declared hp with rfl | ⟨p, hb, hcp⟩
  · exact (h.root_not_mem he hc).elim
  · have listed : p ∈ root.preorder := hp ▸ List.mem_append_left _ hb
    obtain rfl := h.declarer_unique (mem_members_of_mem_preorder listed) he hcp hc
    exact hb

/-- A declaration is listed if its declarer is and opens it. -/
theorem DistinctEntities.mem_preorder_iff : c ∈ root.preorder ↔ e ∈ root.preorder ∧ e.Opens c := by
  rw [mem_preorder, mem_preorder, ← leads_iff_opens hc]
  constructor
  · intro hr
    rcases hr.cases_tail with rfl | ⟨p, hr, hl⟩
    · exact (h.root_not_mem he hc).elim
    · have listed := mem_members_of_mem_preorder (mem_preorder.2 hr)
      obtain rfl := h.declarer_unique listed he hl.mem_allScoped hc
      exact ⟨hr, hl⟩
  · rintro ⟨hr, hl⟩
    exact hr.tail hl

end Distinct

/-- What code declares under a node of some body is opened if its own body reaches that node. -/
theorem DistinctNodes.opens_iff {b n : Node} (he : root.DistinctEntities) (hn : root.DistinctNodes)
    (hm : e ∈ root.members) (hk : e.kind = .function ∨ e.kind = .script) (hb : e.body = some b)
    (hmem : n ∈ root.nodes) (hc : c ∈ e.scopedUnder (.node n.id)) : e.Opens c ↔ b.Reaches n := by
  constructor
  · rintro (hf | ⟨-, hg⟩ | ⟨-, hb', hr, hx⟩)
    · rcases hk with hk | hk <;> rw [hk] at hf <;> rcases hf with hf | hf <;> cases hf
    · cases he.key_unique hm hc hg
    · obtain rfl := Option.some.inj (hb.symm.trans hb')
      have same := ScopeKey.node.inj (he.key_unique hm hc hx)
      have inside := mem_nodes_of_body hm hb hr.mem_subtree
      rwa [hn.eq_of_id hmem inside same]
  · exact fun hr => .node hk hb hr hc

/-- A list of entities flattens what a walk of a tree opens. -/
structure Flattening (root : Entity) (es : List Entity) : Prop where
  once : (es.map (·.id)).Nodup
  first : es.head? = some root
  after {e c : Entity} (he : e ∈ root.members) (hc : c ∈ e.allScoped) {before after}
    (h : es = before ++ c :: after) : e ∈ before
  listed {e c : Entity} (he : e ∈ root.members) (hc : c ∈ e.allScoped) :
    c ∈ es ↔ e ∈ es ∧ e.Opens c

/-- Nodes that a walk of a body does not visit: targets of assignments, what lies under a child that
is not come to, and the nodes of other bodies. -/
inductive LeavesOut (root e : Entity) (b : Node) : Node → Prop where
  | target {t} (h : b.ComesTo .target t) : LeavesOut root e b t
  | under {role n i k m} (h : b.ComesTo role n)
      (hi : n.kind.childRole? n.childCount role i = none) (hk : n.child? i = some k)
      (hm : m ∈ k.subtree) : LeavesOut root e b m
  | elsewhere {q n} (hq : q ∈ root.members) (hne : q ≠ e) (hn : n ∈ q.bodyNodes) :
      LeavesOut root e b n

theorem LeavesOut.not_reaches {b n : Node} (hn : root.DistinctNodes) (hm : e ∈ root.members)
    (hb : e.body = some b) (h : root.LeavesOut e b n) : n ∈ root.nodes ∧ ¬ b.Reaches n := by
  cases h with
  | target h =>
    refine ⟨mem_nodes_of_body hm hb h.mem_subtree, fun hr => ?_⟩
    cases h.role_unique hn hm hb (Node.reaches_iff_comesTo.1 hr)
  | under h hi hk hmem =>
    refine ⟨mem_nodes_of_body hm hb ?_, fun hr => ?_⟩
    · exact Node.mem_subtree_trans
        (Node.mem_subtree_children h.mem_subtree (Node.mem_of_child? hk)) hmem
    · exact h.not_under hn hm hb hi hk hmem .visited (Node.reaches_iff_comesTo.1 hr)
  | @elsewhere q n hq hne hmem =>
    refine ⟨List.mem_flatMap.2 ⟨q, hq, hmem⟩, fun hr => hne ?_⟩
    refine hn.owner_unique hq hm hmem ?_
    rw [bodyNodes, hb, Option.toList_some, List.flatMap_singleton]
    exact hr.mem_subtree

/-- In a tree with distinct numbers the preorder lists what a walk opens, each entity once and after
its declarer. What code declares under a node that its body does not visit is left out. -/
theorem preorder_flattens {root : Entity} (he : root.DistinctEntities) (hn : root.DistinctNodes) :
    root.Flattening root.preorder ∧
    ∀ e ∈ root.members, e.kind = .function ∨ e.kind = .script → ∀ b, e.body = some b →
      ∀ n, root.LeavesOut e b n → ∀ c ∈ e.scopedUnder (.node n.id), c ∉ root.preorder := by
  refine ⟨⟨preorder_nodup he hn, ?_, he.declarer_before, he.mem_preorder_iff⟩, ?_⟩
  · rw [preorder_followers]
    rfl
  · intro e hm hk b hb n hout c hc hlisted
    obtain ⟨hmem, unreached⟩ := hout.not_reaches hn hm hb
    have opened := (he.mem_preorder_iff hm (mem_allScoped_of_mem_scopedUnder hc)).1 hlisted
    exact unreached ((hn.opens_iff he hm hk hb hmem hc).1 opened.2)

end Entity

/-- A function that assigns to a variable, with one function scoped to the variable and one to what
is assigned. -/
def assigningFunction : Entity :=
  let target : Node := { id := ⟨1⟩, kind := .var, children := [], value := some (.str "x") }
  let one : Node := { id := ⟨2⟩, kind := .constant, children := [], value := some (.int 1) }
  let left : Entity := { id := ⟨2⟩, kind := .function, name := "left" }
  let right : Entity := { id := ⟨3⟩, kind := .function, name := "right" }
  { id := ⟨1⟩
    kind := .function
    name := "outer"
    body := some { id := ⟨3⟩, kind := .assign, children := [target, one] }
    scopes := ⟨[(.node ⟨1⟩, [left]), (.node ⟨2⟩, [right])]⟩ }

/-- What is scoped to the target of an assignment is not listed. -/
theorem preorder_flattens_assigningFunction :
    assigningFunction.Flattening assigningFunction.preorder ∧
      (∀ c ∈ assigningFunction.scopedUnder (.node ⟨1⟩), c ∉ assigningFunction.preorder) ∧
      assigningFunction.preorder.map (·.name) = ["outer", "right"] := by
  obtain ⟨flat, out⟩ :=
    Entity.preorder_flattens (by decide : assigningFunction.DistinctEntities) (by decide)
  refine ⟨flat, ?_, by decide⟩
  exact out assigningFunction assigningFunction.mem_members_self (.inl rfl) _ rfl _
    (.target (.child .body (Node.childRole?_assigned rfl) rfl))

end SyntaxWalk
