import SyntaxWalk.Proofs.Census
import SyntaxWalk.Proofs.Coverage

/-!
# Listings of bodies

A listing goes through a body in the order of a walk and puts something down for each node, before
and after what lies below the node. `Node.startOrder` and `Node.finishOrder` are the listings of
nodes as they are entered and as they are finished. A listing has what it puts down for different
nodes at different places (`Node.listing_subperm`), so that neither order has a node twice if the
nodes of the body are distinct.
-/

namespace SyntaxWalk

variable {α β : Type}

/-- A way to compare lists part by part. -/
structure Compares (R : List β → List β → Prop) : Prop where
  refl (l) : R l l
  trans {l₁ l₂ l₃} (h : R l₁ l₂) (h' : R l₂ l₃) : R l₁ l₃
  append {l₁ l₁' l₂ l₂'} (h : R l₁ l₁') (h' : R l₂ l₂') : R (l₁ ++ l₂) (l₁' ++ l₂')

namespace Compares

theorem eq : Compares (Eq : List β → List β → Prop) :=
  ⟨fun _ => rfl, Eq.trans, fun h h' => h ▸ h' ▸ rfl⟩

theorem sublist : Compares (List.Sublist : List β → List β → Prop) :=
  ⟨List.Sublist.refl, List.Sublist.trans, List.Sublist.append⟩

theorem subperm : Compares (List.Subperm : List β → List β → Prop) :=
  ⟨List.Subperm.refl, List.Subperm.trans, List.Subperm.append⟩

theorem perm : Compares (List.Perm : List β → List β → Prop) :=
  ⟨List.Perm.refl, List.Perm.trans, List.Perm.append⟩

theorem flatMap {R : List β → List β → Prop} (hR : Compares R) {l : List α} {f g : α → List β}
    (h : ∀ a ∈ l, R (f a) (g a)) : R (l.flatMap f) (l.flatMap g) := by
  induction l with
  | nil => exact hR.refl []
  | cons a l ih =>
    obtain ⟨ha, hl⟩ := List.forall_mem_cons.1 h
    exact hR.append ha (ih hl)

end Compares

namespace NodeKind

theorem span_nodup (start stop count : Nat) : (span start stop count).Nodup :=
  List.nodup_range'

theorem traversedChildren_nodup (kind : NodeKind) (count : Nat) :
    (kind.traversedChildren count).Nodup := by
  cases kind with
  | call | arrayRef =>
    refine List.nodup_append.2 ⟨span_nodup .., span_nodup .., fun i hi j hj => ?_⟩
    have := mem_span hi
    have := mem_span hj
    omega
  | ifGoto =>
    simp only [traversedChildren]
    split_ifs <;> decide
  | _ =>
    unfold traversedChildren
    first
    | exact span_nodup ..
    | exact List.nodup_nil

/-- The target of an assignment is not traversed. -/
theorem zero_notMem_traversedChildren {kind : NodeKind} {count : Nat}
    (hk : kind.isAssignment = true) : 0 ∉ kind.traversedChildren count := by
  intro h
  cases kind with
  | assign | assignPreOp | assignPostOp => exact Nat.not_succ_le_zero 0 (mem_span h).1
  | _ => cases hk

/-- No child is come to twice. -/
theorem traversed_nodup (kind : NodeKind) (count : Nat) :
    (kind.traversedChildren count ++ if kind.isAssignment then [0] else []).Nodup := by
  split
  · rename_i hk
    refine (traversedChildren_nodup kind count).append (List.nodup_singleton 0) ?_
    exact List.disjoint_singleton.2 (zero_notMem_traversedChildren hk)
  · rw [List.append_nil]
    exact traversedChildren_nodup kind count

end NodeKind

namespace Node

section Listing

variable (before after : Node → List β)

/-- What is listed below and including a node, when the node is visited itself and when it is the
target of an assignment. -/
def listings : Node → List β × List β :=
  fold fun n below =>
    let visited (i : Nat) : List β := below[i]?.toList.flatMap (·.1)
    let target (o : Option (List β × List β)) : List β := o.toList.flatMap (·.2)
    (before n ++
        ((n.kind.traversedChildren n.childCount).flatMap visited ++
          if n.kind.isAssignment then target below[0]? else []) ++
        after n,
      match n.kind with
      | .arrayRef => visited 0 ++ (below.drop 2).flatMap (·.1)
      | .objectRef => visited 0
      | .blockExpr => target below.getLast?
      | _ => [])

def listing (n : Node) : List β :=
  (n.listings before after).1

def targetListing (t : Node) : List β :=
  (t.listings before after).2

def childListing (n : Node) (i : Nat) : List β :=
  (n.child? i).toList.flatMap (listing before after)

def childTargetListing (n : Node) (i : Nat) : List β :=
  (n.child? i).toList.flatMap (targetListing before after)

/-- What is listed between the beginning and the end of a node. -/
def interior (n : Node) : List β :=
  (n.kind.traversedChildren n.childCount).flatMap (n.childListing before after) ++
    if n.kind.isAssignment then n.childTargetListing before after 0 else []

end Listing

/-- The nodes of a body that a walk enters, in the order it enters them: a node comes before the
children that are traversed, and an assignment before the sub-expressions of its target as well. -/
def startOrder (n : Node) : List NodeId :=
  n.listing (fun m => [m.id]) fun _ => []

variable {before after before' after' : Node → List β}

theorem toList_flatMap_map {γ : Type} (o : Option α) (f : α → γ) (g : γ → List β) :
    (o.map f).toList.flatMap g = o.toList.flatMap fun a => g (f a) := by
  cases o with
  | none => rfl
  | some a => rfl

theorem listing_eq (n : Node) :
    n.listing before after = before n ++ n.interior before after ++ after n := by
  rw [listing, listings, fold_eq]
  simp only [List.getElem?_map, toList_flatMap_map]
  rfl

theorem targetListing_eq (t : Node) :
    t.targetListing before after =
      match t.kind with
      | .blockExpr => t.lastChild?.toList.flatMap (targetListing before after)
      | _ => t.operands.flatMap (listing before after) := by
  rw [targetListing, listings, fold_eq]
  simp only [List.getElem?_map, List.getLast?_map, toList_flatMap_map, ← List.map_drop,
    List.flatMap_map, operands]
  cases t.kind <;> simp only [List.flatMap_append, List.flatMap_nil] <;> rfl

theorem subtree_subset {n m : Node} (h : m ∈ n.children) : m.subtree ⊆ n.subtree := by
  intro k hk
  rw [n.subtree_eq]
  exact List.mem_cons_of_mem _ (List.mem_flatMap.2 ⟨m, h, hk⟩)

/-- Listings compare if they do so at each node, given that they do so below it. -/
theorem listing_compares {R : List β → List β → Prop} (hR : Compares R) (n : Node)
    (h : ∀ m ∈ n.subtree, ∀ {xs xs'}, R xs xs' →
      R (before m ++ xs ++ after m) (before' m ++ xs' ++ after' m)) :
    R (n.listing before after) (n.listing before' after') ∧
      R (n.targetListing before after) (n.targetListing before' after') := by
  induction n using induct with
  | h n ih =>
    have below {m : Node} (hm : m ∈ n.children) := ih m hm fun k hk => h k (subtree_subset hm hk)
    have child (i : Nat) :
        R (n.childListing before after i) (n.childListing before' after' i) :=
      hR.flatMap fun m hm => (below (mem_of_child? (Option.mem_toList.1 hm))).1
    have target (i : Nat) :
        R (n.childTargetListing before after i) (n.childTargetListing before' after' i) :=
      hR.flatMap fun m hm => (below (mem_of_child? (Option.mem_toList.1 hm))).2
    have interior : R (n.interior before after) (n.interior before' after') := by
      refine hR.append (hR.flatMap fun i _ => child i) ?_
      split
      · exact target 0
      · exact hR.refl []
    refine ⟨?_, ?_⟩
    · rw [listing_eq, listing_eq]
      exact h n n.mem_subtree_self interior
    · rw [targetListing_eq, targetListing_eq]
      have operands : R (n.operands.flatMap (listing before after))
          (n.operands.flatMap (listing before' after')) :=
        hR.flatMap fun m hm => (below (mem_of_mem_operands hm)).1
      cases n.kind with
      | blockExpr =>
        exact hR.flatMap fun m hm => (below (mem_of_lastChild? (Option.mem_toList.1 hm))).2
      | _ => exact operands

/-- Listings compare if what they put down for each node does. -/
theorem listing_mono {R : List β → List β → Prop} (hR : Compares R) (n : Node)
    (h : ∀ m ∈ n.subtree, R (before m) (before' m) ∧ R (after m) (after' m)) :
    R (n.listing before after) (n.listing before' after') :=
  (listing_compares hR n fun m hm _ _ inside =>
    hR.append (hR.append (h m hm).1 inside) (h m hm).2).1

/-- What is put down by the numbers of nodes, after what lies below them, is in the order in which
they are finished. -/
theorem listing_finishOrder (h : NodeId → List β) (n : Node) :
    n.listing (fun _ => []) (fun m => h m.id) = n.finishOrder.flatMap h ∧
      n.targetListing (fun _ => []) (fun m => h m.id) = n.targetOrder.flatMap h := by
  induction n using induct with
  | h n ih =>
    have child (i : Nat) :
        n.childListing (fun _ => []) (fun m => h m.id) i = (n.childOrder i).flatMap h := by
      rw [childOrder_eq, List.flatMap_assoc]
      exact List.flatMap_congr fun m hm => (ih m (mem_of_child? (Option.mem_toList.1 hm))).1
    have target (i : Nat) : n.childTargetListing (fun _ => []) (fun m => h m.id) i =
        (n.childTargetOrder i).flatMap h := by
      unfold childTargetListing childTargetOrder
      cases hc : n.child? i with
      | none => rfl
      | some t => exact (List.flatMap_singleton ..).trans (ih t (mem_of_child? hc)).2
    refine ⟨?_, ?_⟩
    · rw [listing_eq, finishOrder_eq, interior, List.flatMap_append, List.flatMap_append,
        List.flatMap_singleton, List.flatMap_assoc, List.flatMap_congr fun i _ => child i,
        target, List.nil_append]
      cases n.kind.isAssignment <;> rfl
    · rw [targetListing_eq, targetOrder_operands]
      cases n.kind with
      | blockExpr =>
        cases hl : n.lastChild? with
        | none => rfl
        | some t => exact (List.flatMap_singleton ..).trans (ih t (mem_of_lastChild? hl)).2
      | _ =>
        rw [List.flatMap_assoc]
        exact List.flatMap_congr fun m hm => (ih m (mem_of_mem_operands hm)).1

theorem finishOrder_eq_listing (n : Node) :
    n.finishOrder = n.listing (fun _ => []) fun m => [m.id] := by
  rw [(listing_finishOrder (fun id => [id]) n).1, List.flatMap_singleton']

/-! ## Each node at one place -/

/-- The operands of a target are some of its children. -/
theorem operands_sublist (t : Node) : t.operands.Sublist t.children := by
  have base : (t.child? 0).toList.Sublist t.children := by
    cases h : t.child? 0 with
    | none => exact List.nil_sublist _
    | some m => exact List.singleton_sublist.2 (mem_of_child? h)
  unfold operands
  cases t.kind with
  | objectRef => exact base
  | arrayRef =>
    unfold child?
    cases t.children with
    | nil => exact List.nil_sublist _
    | cons m ms => exact (List.drop_sublist 1 ms).cons_cons m
  | _ => exact List.nil_sublist _

/-- What is listed is put down for different nodes of the subtree. -/
theorem listing_subperm (before after : Node → List β) (n : Node) :
    (n.listing before after).Subperm (n.subtree.flatMap fun m => before m ++ after m) ∧
      (n.targetListing before after).Subperm
        (n.subtree.flatMap fun m => before m ++ after m) := by
  induction n using induct with
  | h n ih =>
    let all (n : Node) : List β := n.subtree.flatMap fun m => before m ++ after m
    have parts : (n.subtree.flatMap fun m => before m ++ after m) =
        before n ++ after n ++ n.children.flatMap all := by
      rw [subtree_eq, List.flatMap_cons, List.flatMap_assoc]
    have interior : (n.interior before after).Subperm (n.children.flatMap all) := by
      have picked := flatMap_subperm (filterMap_getElem?_subperm n.children
        (NodeKind.traversed_nodup n.kind n.childCount)) all
      refine List.Subperm.trans ?_ picked
      rw [List.filterMap_append, List.flatMap_append, interior]
      refine .append ?_ ?_
      · rw [List.filterMap_eq_flatMap_toList, List.flatMap_assoc]
        refine Compares.subperm.flatMap fun i _ => Compares.subperm.flatMap fun m hm => ?_
        exact (ih m (mem_of_child? (Option.mem_toList.1 hm))).1
      · split
        · rw [List.filterMap_eq_flatMap_toList, List.flatMap_singleton]
          refine Compares.subperm.flatMap fun m hm => ?_
          exact (ih m (mem_of_child? (Option.mem_toList.1 hm))).2
        · exact List.nil_subperm
    refine ⟨?_, ?_⟩
    · have swapped : (before n ++ n.interior before after ++ after n).Perm
          (before n ++ after n ++ n.interior before after) := by
        rw [List.append_assoc, List.append_assoc]
        exact List.perm_append_comm.append_left _
      rw [listing_eq, parts]
      exact swapped.subperm.trans ((List.Subperm.refl _).append interior)
    · have below : (n.targetListing before after).Subperm (n.children.flatMap all) := by
        have operands : (n.operands.flatMap (listing before after)).Subperm
            (n.children.flatMap all) := by
          refine (Compares.subperm.flatMap fun m hm => ?_).trans
            (n.operands_sublist.flatMap all).subperm
          exact (ih m (mem_of_mem_operands hm)).1
        rw [targetListing_eq]
        cases n.kind with
        | blockExpr =>
          cases hl : n.lastChild? with
          | none => exact List.nil_subperm
          | some t =>
            rw [Option.toList_some, List.flatMap_singleton]
            have one := flatMap_subperm
              (List.singleton_sublist.2 (mem_of_lastChild? hl)).subperm all
            rw [List.flatMap_singleton] at one
            exact (ih t (mem_of_lastChild? hl)).2.trans one
        | _ => exact operands
      rw [parts]
      exact below.trans (List.sublist_append_right _ _).subperm

theorem finishOrder_nodup {n : Node} (h : (n.subtree.map (·.id)).Nodup) :
    n.finishOrder.Nodup := by
  rw [List.map_eq_flatMap] at h
  rw [finishOrder_eq_listing]
  exact nodup_of_subperm (listing_subperm (fun _ => []) (fun m => [m.id]) n).1 h

end Node

/-! ## Each entity at one place -/

namespace Entity

/-- The entities that follow an entity in the preorder directly, each with its own followers. -/
def followers (e : Entity) : List Entity :=
  match e.kind with
  | .file | .type => e.allScoped
  | .function | .script =>
    (e.body.toList.flatMap Node.finishOrder).flatMap (fun id => e.scopedUnder (.node id)) ++
      e.scopedUnder .global
  | .field | .custom _ => []

theorem preorder_followers (e : Entity) : e.preorder = e :: e.followers.flatMap preorder := by
  rw [preorder_eq, followers]
  cases e.kind <;> simp only [List.flatMap_append, List.flatMap_assoc, List.flatMap_nil]

theorem followers_subperm {root e : Entity} (hn : root.DistinctNodes) (he : e ∈ root.members) :
    e.followers.Subperm e.allScoped := by
  rw [followers]
  cases e.kind with
  | file | type => exact List.Subperm.refl _
  | field | custom => exact List.nil_subperm
  | function | script =>
    have ids : (e.body.toList.flatMap Node.finishOrder).Nodup := by
      have distinct := hn.body_nodup he
      unfold bodyNodes at distinct
      cases hb : e.body with
      | none => exact List.nodup_nil
      | some b =>
        rw [hb, Option.toList_some, List.flatMap_singleton] at distinct
        rw [Option.toList_some, List.flatMap_singleton]
        exact Node.finishOrder_nodup distinct
    have keys : ((e.body.toList.flatMap Node.finishOrder).map ScopeKey.node ++
        [ScopeKey.global]).Nodup := by
      have nodes := ids.map (f := ScopeKey.node) fun _ _ h => by cases h; rfl
      exact nodes.append (List.nodup_singleton _) (List.disjoint_singleton.2 (by simp))
    have filed := ScopeTable.flatMap_under_subperm e.scopes.rows keys
    rwa [List.flatMap_append, List.flatMap_singleton, List.flatMap_map] at filed

/-- The preorder has no other entities than the members of the tree, each as often at most. -/
theorem preorder_subperm {root e : Entity} (hn : root.DistinctNodes) (he : e ∈ root.members) :
    e.preorder.Subperm e.members := by
  induction e using induct with
  | h e ih =>
    have below : (e.allScoped.flatMap preorder).Subperm (e.allScoped.flatMap members) :=
      Compares.subperm.flatMap fun x hx => ih x hx (mem_members_allScoped he hx)
    rw [preorder_followers, members_eq]
    exact (List.subperm_cons e).2 ((flatMap_subperm (followers_subperm hn he) preorder).trans below)

/-- No entity is in the preorder twice. -/
theorem preorder_nodup {root : Entity} (he : root.DistinctEntities) (hn : root.DistinctNodes) :
    (root.preorder.map (·.id)).Nodup := by
  have listed := flatMap_subperm (preorder_subperm hn root.mem_members_self) fun e => [e.id]
  rw [← List.map_eq_flatMap, ← List.map_eq_flatMap] at listed
  exact nodup_of_subperm listed he

end Entity

end SyntaxWalk
