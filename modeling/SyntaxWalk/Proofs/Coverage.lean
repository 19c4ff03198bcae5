import SyntaxWalk.Proofs.Order
import SyntaxWalk.Proofs.Survey

/-!
# What surveys cover

A survey that passes by nothing covers the entities that the root leads to, and of the body of each
the nodes that it reaches: whatever is noted is noted of one of them (`Survey.mem_ofEntity`). If all
it notes are the entities it meets, the survey is their preorder (`Survey.ofEntity_preorder`).
-/

namespace SyntaxWalk

namespace Node

theorem childOrder_eq (n : Node) (i : Nat) :
    n.childOrder i = (n.child? i).toList.flatMap finishOrder := by
  unfold childOrder
  cases n.child? i with
  | none => rfl
  | some m => exact (List.flatMap_singleton ..).symm

theorem targetOrder_operands (t : Node) :
    t.targetOrder =
      match t.kind with
      | .blockExpr => (t.lastChild?.map targetOrder).getD []
      | _ => t.operands.flatMap finishOrder := by
  rw [targetOrder_eq]
  unfold operands
  cases t.kind <;> simp only [childOrder_eq, List.flatMap_append, List.flatMap_nil]

end Node

namespace Entity

/-- A walk of one entity comes to another directly. -/
inductive Leads : Entity → Entity → Prop where
  | held {e d x} (hd : e.derivation? = some d) (hx : x ∈ e.held) : Leads e x
  | hoisted {e b n x} (hk : e.kind.isCode = true) (hb : e.body = some b) (hn : b.Reaches n)
      (hx : x ∈ e.scopedUnder (.node n.id)) : Leads e x

/-- A walk of one entity comes to another. -/
abbrev Reaches : Entity → Entity → Prop :=
  Relation.ReflTransGen Leads

theorem Leads.mem_allScoped {e x : Entity} (h : e.Leads x) : x ∈ e.allScoped := by
  cases h with
  | held _ hx => exact mem_allScoped_of_mem_held hx
  | hoisted _ _ _ hx => exact mem_allScoped_of_mem_scopedUnder hx

end Entity

namespace Survey

variable {β : Type} {v : Survey β} {x : β} {top : Entity}

/-- The way passes by nothing. -/
structure Whole (v : Survey β) : Prop where
  enters (e) : v.enters e = true
  opens (n) : v.opens n = true

/-- Something is noted of a node, or of what the target of an assignment comes to. -/
inductive NotedAt (v : Survey β) (x : β) (n : Node) : Prop where
  | node (h : x ∈ v.node n)
  | target {t u} (hk : n.kind.isAssignment = true) (ht : n.child? 0 = some t)
      (hu : t.TargetChain u) (h : x ∈ v.target u n)

/-- Something is noted of an entity or in its body. -/
inductive NotedOf (v : Survey β) (x : β) (e : Entity) : Prop where
  | met (h : x ∈ v.met e)
  | entity (h : x ∈ v.entity e)
  | body {b n} (hk : e.kind.isCode = true) (hb : e.body = some b) (hn : b.Reaches n)
      (h : v.NotedAt x n)

/-! ## Nodes -/

theorem mem_child {n : Node} {i : Nat} :
    x ∈ v.child top n i ↔ ∃ m, n.child? i = some m ∧ x ∈ v.visit top m := by
  simp [child_eq]

theorem mem_childTarget {n : Node} {i : Nat} :
    x ∈ v.childTarget top n i ↔ ∃ t, n.child? i = some t ∧ x ∈ v.assign top t n := by
  unfold childTarget
  cases n.child? i <;> simp

theorem mem_assign {t a : Node} :
    x ∈ v.assign top t a ↔
      x ∈ v.target t a ∨ (∃ u, t.StandsFor u ∧ x ∈ v.assign top u a) ∨
        ∃ m ∈ t.operands, x ∈ v.visit top m := by
  rw [assign_eq, List.mem_append]
  by_cases hk : t.kind = .blockExpr
  · cases hl : t.lastChild? <;> simp [Node.StandsFor, Node.operands, hk, hl]
  · simp [Node.StandsFor, hk]

theorem Whole.mem_visit_step (hv : v.Whole) {n : Node} :
    x ∈ v.visit top n ↔
      x ∈ v.node n ∨
        (∃ i ∈ n.kind.traversedChildren n.childCount, ∃ m, n.child? i = some m ∧
          x ∈ v.visit top m) ∨
        (n.kind.isAssignment = true ∧ ∃ t, n.child? 0 = some t ∧ x ∈ v.assign top t n) ∨
        x ∈ v.scopedAt top n.id := by
  rw [visit_eq, hv.opens]
  cases n.kind.isAssignment <;> simp [mem_child, mem_childTarget]

/-- What is noted for a node is noted of the nodes that it reaches, or is scoped to one of them, and
likewise for what the node comes to as a target. -/
theorem Whole.mem_visit_assign (hv : v.Whole) (n : Node) :
    (x ∈ v.visit top n ↔
      ∃ m, n.Reaches m ∧ (v.NotedAt x m ∨ x ∈ v.scopedAt top m.id)) ∧
    ∀ a, x ∈ v.assign top n a ↔
      ∃ u, n.TargetChain u ∧ (x ∈ v.target u a ∨
        ∃ m ∈ u.operands, ∃ k, m.Reaches k ∧ (v.NotedAt x k ∨ x ∈ v.scopedAt top k.id)) := by
  induction n using Node.induct with
  | h n ih =>
    refine ⟨?_, fun a => ?_⟩
    · rw [hv.mem_visit_step]
      constructor
      · rintro (h | ⟨i, hi, m, hm, h⟩ | ⟨hk, t, ht, h⟩ | h)
        · exact ⟨n, .refl, .inl (.node h)⟩
        · obtain ⟨k, hr, h⟩ := (ih m (Node.mem_of_child? hm)).1.1 h
          exact ⟨k, .head (.child hi hm) hr, h⟩
        · obtain ⟨u, hu, h | ⟨m, hm, k, hr, h⟩⟩ := ((ih t (Node.mem_of_child? ht)).2 n).1 h
          · exact ⟨n, .refl, .inl (.target hk ht hu h)⟩
          · exact ⟨k, .head (.target hk ht hu hm) hr, h⟩
        · exact ⟨n, .refl, .inr h⟩
      · rintro ⟨k, hr, h⟩
        rcases hr.cases_head with rfl | ⟨m, hl, hr⟩
        · rcases h with (h | ⟨hk, ht, hu, h⟩) | h
          · exact .inl h
          · exact .inr (.inr (.inl
              ⟨hk, _, ht, ((ih _ (Node.mem_of_child? ht)).2 n).2 ⟨_, hu, .inl h⟩⟩))
          · exact .inr (.inr (.inr h))
        · cases hl with
          | child hi hm =>
            exact .inr (.inl ⟨_, hi, m, hm, (ih m (Node.mem_of_child? hm)).1.2 ⟨k, hr, h⟩⟩)
          | target hk ht hu hm =>
            exact .inr (.inr (.inl ⟨hk, _, ht,
              ((ih _ (Node.mem_of_child? ht)).2 n).2 ⟨_, hu, .inr ⟨m, hm, k, hr, h⟩⟩⟩))
    · rw [mem_assign]
      constructor
      · rintro (h | ⟨u, hs, h⟩ | ⟨m, hm, h⟩)
        · exact ⟨n, .refl, .inl h⟩
        · obtain ⟨t, ht, h⟩ := ((ih u (Node.mem_of_lastChild? hs.2)).2 a).1 h
          exact ⟨t, .head hs ht, h⟩
        · obtain ⟨k, hr, h⟩ := (ih m (Node.mem_of_mem_operands hm)).1.1 h
          exact ⟨n, .refl, .inr ⟨m, hm, k, hr, h⟩⟩
      · rintro ⟨u, hu, h⟩
        rcases hu.cases_head with rfl | ⟨t, hs, hu⟩
        · rcases h with h | ⟨m, hm, k, hr, h⟩
          · exact .inl h
          · exact .inr (.inr ⟨m, hm, (ih m (Node.mem_of_mem_operands hm)).1.2 ⟨k, hr, h⟩⟩)
        · exact .inr (.inl ⟨t, hs,
            ((ih t (Node.mem_of_lastChild? hs.2)).2 a).2 ⟨u, hu, h⟩⟩)

theorem Whole.mem_visit (hv : v.Whole) {n : Node} :
    x ∈ v.visit top n ↔ ∃ m, n.Reaches m ∧ (v.NotedAt x m ∨ x ∈ v.scopedAt top m.id) :=
  (hv.mem_visit_assign n).1

/-! ## Entities -/

theorem mem_contents {e : Entity} :
    x ∈ v.contents top e ↔
      (e.kind.isCode = true ∧ ∃ b, e.body = some b ∧ x ∈ v.visit top b) ∨
        ∃ y ∈ e.held, x ∈ v.ofEntity y := by
  unfold contents Entity.held
  cases e.kind.isCode <;> simp

theorem mem_inside {e : Entity} :
    x ∈ v.inside e ↔ x ∈ v.entity e ∨ ∃ d, e.derivation? = some d ∧ x ∈ v.contents e e := by
  rw [inside, List.mem_append]
  cases e.derivation? <;> simp

theorem Whole.mem_ofEntity_step (hv : v.Whole) {e : Entity} :
    x ∈ v.ofEntity e ↔ v.NotedOf x e ∨ ∃ y, e.Leads y ∧ x ∈ v.ofEntity y := by
  rw [ofEntity_eq, hv.enters, if_pos rfl, List.mem_append, mem_inside]
  constructor
  · rintro (h | h | ⟨d, hd, h⟩)
    · exact .inl (.met h)
    · exact .inl (.entity h)
    · rcases mem_contents.1 h with ⟨hk, b, hb, h⟩ | ⟨y, hy, h⟩
      · obtain ⟨n, hn, h | h⟩ := hv.mem_visit.1 h
        · exact .inl (.body hk hb hn h)
        · obtain ⟨y, hy, h⟩ := List.mem_flatMap.1 h
          exact .inr ⟨y, .hoisted hk hb hn hy, h⟩
      · exact .inr ⟨y, .held hd hy, h⟩
  · rintro ((h | h | ⟨hk, hb, hn, h⟩) | ⟨y, hl, h⟩)
    · exact .inl h
    · exact .inr (.inl h)
    · have visited : x ∈ v.visit e _ := hv.mem_visit.2 ⟨_, hn, .inl h⟩
      exact .inr (.inr ⟨_, Entity.derivation?_of_isCode hk,
        mem_contents.2 (.inl ⟨hk, _, hb, visited⟩)⟩)
    · refine .inr (.inr ?_)
      cases hl with
      | held hd hy => exact ⟨_, hd, mem_contents.2 (.inr ⟨y, hy, h⟩)⟩
      | hoisted hk hb hn hy =>
        have visited : x ∈ v.visit e _ :=
          hv.mem_visit.2 ⟨_, hn, .inr (List.mem_flatMap.2 ⟨y, hy, h⟩)⟩
        exact ⟨_, Entity.derivation?_of_isCode hk, mem_contents.2 (.inl ⟨hk, _, hb, visited⟩)⟩

/-- What is noted for an entity is noted of the entities that it leads to. -/
theorem Whole.mem_ofEntity (hv : v.Whole) (root : Entity) :
    x ∈ v.ofEntity root ↔ ∃ e, root.Reaches e ∧ v.NotedOf x e := by
  induction root using Entity.induct with
  | h root ih =>
    rw [hv.mem_ofEntity_step]
    constructor
    · rintro (h | ⟨y, hl, h⟩)
      · exact ⟨root, .refl, h⟩
      · obtain ⟨e, hr, h⟩ := (ih y hl.mem_allScoped).1 h
        exact ⟨e, .head hl hr, h⟩
    · rintro ⟨e, hr, h⟩
      rcases hr.cases_head with rfl | ⟨y, hl, hr⟩
      · exact .inl h
      · exact .inr ⟨y, hl, (ih y hl.mem_allScoped).2 ⟨e, hr, h⟩⟩

/-! ## The preorder -/

/-- Nothing is noted but the entities that are met. -/
structure Listing (v : Survey Entity) : Prop where
  met (e) : v.met e = [e]
  entity (e) : v.entity e = []
  node (n) : v.node n = []
  target (t assign) : v.target t assign = []

section Preorder

variable {v : Survey Entity} (hv : v.Whole) (hl : v.Listing)

include hv hl

theorem visit_finishOrder (top : Entity) (n : Node) :
    v.visit top n = n.finishOrder.flatMap (v.scopedAt top) ∧
      ∀ a, v.assign top n a = n.targetOrder.flatMap (v.scopedAt top) := by
  induction n using Node.induct with
  | h n ih =>
    have child (i : Nat) : v.child top n i = (n.childOrder i).flatMap (v.scopedAt top) := by
      unfold child Node.childOrder
      cases hm : n.child? i with
      | none => rfl
      | some m => exact (ih m (Node.mem_of_child? hm)).1
    have childTarget (i : Nat) :
        v.childTarget top n i = (n.childTargetOrder i).flatMap (v.scopedAt top) := by
      unfold childTarget Node.childTargetOrder
      cases hm : n.child? i with
      | none => rfl
      | some m => exact (ih m (Node.mem_of_child? hm)).2 n
    have last (a : Node) : (n.lastChild?.map (v.assign top · a)).getD [] =
        ((n.lastChild?.map Node.targetOrder).getD []).flatMap (v.scopedAt top) := by
      cases hm : n.lastChild? with
      | none => rfl
      | some m => exact (ih m (Node.mem_of_lastChild? hm)).2 a
    have operands : n.operands.flatMap (v.visit top) =
        (n.operands.flatMap Node.finishOrder).flatMap (v.scopedAt top) := by
      rw [List.flatMap_assoc]
      exact List.flatMap_congr fun m hm => (ih m (Node.mem_of_mem_operands hm)).1
    refine ⟨?_, fun a => ?_⟩
    · rw [visit_eq, hl.node, hv.opens, Node.finishOrder_eq, if_pos rfl, Bool.true_or, if_pos rfl,
        List.nil_append, List.flatMap_append, List.flatMap_append, List.flatMap_singleton,
        List.flatMap_assoc, List.flatMap_congr fun i _ => child i, childTarget]
      cases n.kind.isAssignment <;> rfl
    · rw [assign_eq, hl.target, Node.targetOrder_operands, List.nil_append]
      cases n.kind with
      | blockExpr => exact last a
      | _ => exact operands

theorem ofEntity_preorder (e : Entity) : v.ofEntity e = e.preorder := by
  induction e using Entity.induct with
  | h e ih =>
    have all : e.allScoped.flatMap v.ofEntity = e.allScoped.flatMap Entity.preorder :=
      List.flatMap_congr ih
    have under (key : ScopeKey) :
        (e.scopedUnder key).flatMap v.ofEntity = (e.scopedUnder key).flatMap Entity.preorder :=
      List.flatMap_congr fun x hx => ih x (Entity.mem_allScoped_of_mem_scopedUnder hx)
    have body : e.body.toList.flatMap (v.visit e) = (e.body.toList.flatMap Node.finishOrder).flatMap
        fun id => (e.scopedUnder (.node id)).flatMap Entity.preorder := by
      rw [List.flatMap_assoc]
      refine List.flatMap_congr fun b _ => ((visit_finishOrder hv hl e b).1).trans ?_
      exact List.flatMap_congr fun id _ => under (.node id)
    rw [ofEntity_eq, hl.met, hv.enters, inside, hl.entity, Entity.preorder_eq]
    cases hk : e.kind <;>
      simp only [Entity.derivation?, contents, EntityKind.isCode, hk, all, under, body] <;> rfl

end Preorder

theorem Listing.eq_of_notedOf {v : Survey Entity} (hl : v.Listing) {x e : Entity}
    (h : v.NotedOf x e) : x = e := by
  rcases h with h | h | ⟨-, -, -, h⟩
  · rw [hl.met] at h
    exact List.mem_singleton.1 h
  · rw [hl.entity] at h
    cases h
  · rcases h with h | ⟨-, -, -, h⟩
    · rw [hl.node] at h
      cases h
    · rw [hl.target] at h
      cases h

end Survey

/-- The entities of the preorder are those that the root leads to. -/
theorem Entity.mem_preorder {root e : Entity} : e ∈ root.preorder ↔ root.Reaches e := by
  let v : Survey Entity := { met := fun e => [e] }
  have whole : v.Whole := ⟨fun _ => rfl, fun _ => rfl⟩
  have listing : v.Listing := ⟨fun _ => rfl, fun _ => rfl, fun _ => rfl, fun _ _ => rfl⟩
  rw [← Survey.ofEntity_preorder whole listing, whole.mem_ofEntity]
  constructor
  · rintro ⟨x, hr, h⟩
    rwa [listing.eq_of_notedOf h]
  · intro hr
    exact ⟨e, hr, .met (List.mem_singleton_self e)⟩

end SyntaxWalk
