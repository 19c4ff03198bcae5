import SyntaxWalk.Proofs.Course
import SyntaxWalk.Proofs.Indifference

/-!
# The nodes of bodies in events

A recorder with bookkeeping writes down every node that is entered and finished. The events of one
body stand between those of the bodies that are hoisted in its middle; taken out, they are the
listing of the body, from its root on and each node at one place (`Recorder.records_bodies`).
-/

namespace SyntaxWalk

/-- What has the key of an element of a list whose keys are distinct is the element alone. -/
theorem filter_eq_singleton {α κ : Type} [DecidableEq κ] {f : α → κ} {l : List α} {a : α}
    (h : (l.map f).Nodup) (ha : a ∈ l) : l.filter (fun x => f x == f a) = [a] := by
  obtain ⟨before, after, rfl⟩ := List.append_of_mem ha
  rw [List.map_append, List.map_cons, List.nodup_middle, ← List.map_append] at h
  have others {l' : List α} (hl : l' ⊆ before ++ after) : l'.filter (fun x => f x == f a) = [] := by
    refine List.filter_eq_nil_iff.2 fun x hx same => ?_
    rw [beq_iff_eq] at same
    exact (List.nodup_cons.1 h).1 (same ▸ List.mem_map_of_mem (hl hx))
  rw [List.filter_append, List.filter_cons, beq_self_eq_true, if_pos rfl,
    others (List.subset_append_left _ _), others (List.subset_append_right _ _)]
  rfl

namespace Course

variable {β : Type} {v : Course β} {root e x : Entity} {b : Node}

/-- Where nothing is told below an entity, its own body is listed. -/
theorem ofEntity_own (hk : e.kind.isCode = true) (hb : e.body = some b)
    (h : ∀ x ∈ e.allScoped, v.ofEntity x = []) :
    v.ofEntity e = v.met e ++ b.listing v.begun v.done := by
  have none (key : ScopeKey) : (e.scopedUnder key).flatMap v.ofEntity = [] :=
    List.flatMap_eq_nil_iff.2 fun x hx => h x (Entity.mem_allScoped_of_mem_scopedUnder hx)
  have after : v.after e = v.done := by
    funext n
    rw [Course.after, scopedAt, none, List.nil_append]
  rw [ofEntity_eq, inside, Entity.derivation?_of_isCode hk, contents, if_pos hk, hb, none,
    Option.toList_some, List.flatMap_singleton, List.append_nil, visit, after]

/-- Where nothing is told of an entity itself, its followers are told of. -/
theorem ofEntity_followers (hm : v.met e = [])
    (hv : ∀ n ∈ e.bodyNodes, v.begun n = [] ∧ v.done n = []) :
    v.ofEntity e = e.followers.flatMap v.ofEntity := by
  have body : e.body.toList.flatMap (v.visit e) =
      (e.body.toList.flatMap Node.finishOrder).flatMap fun id =>
        (e.scopedUnder (.node id)).flatMap v.ofEntity := by
    rw [List.flatMap_assoc]
    exact List.flatMap_congr fun b hb =>
      visit_quiet e fun n hn => hv n (List.mem_flatMap.2 ⟨b, hb, hn⟩)
  rw [ofEntity_eq, hm, List.nil_append, Entity.followers, inside, Entity.derivation?]
  cases hk : e.kind <;>
    simp only [contents, hk, EntityKind.isCode, body, List.flatMap_append, List.flatMap_assoc,
      if_true, Bool.false_eq_true, if_false, List.flatMap_nil]

/-- A course that tells of the nodes of one body alone lists this body. -/
theorem ofEntity_body (hd : root.DistinctEntities) (hn : root.DistinctNodes)
    (he : e ∈ root.preorder) (hk : e.kind.isCode = true) (hb : e.body = some b)
    (hm : ∀ x, v.met x = [])
    (hv : ∀ x ∈ root.members, x ≠ e → ∀ n ∈ x.bodyNodes, v.begun n = [] ∧ v.done n = []) :
    v.ofEntity root = b.listing v.begun v.done := by
  -- The body is listed wherever its entity stands in a preorder.
  let listed (es : List Entity) : List β :=
    (es.filter (·.id == e.id)).flatMap fun _ => b.listing v.begun v.done
  have listed_cons (x) (es : List Entity) : listed (x :: es) =
      if x.id = e.id then b.listing v.begun v.done ++ listed es else listed es := by
    simp only [listed, List.filter_cons, beq_iff_eq]
    split <;> rfl
  have member : e ∈ root.members := (Entity.preorder_subperm hn root.mem_members_self).subset he
  have all (x) (hx : x ∈ root.members) : v.ofEntity x = listed x.preorder := by
    induction x using Entity.induct with
    | h x ih =>
      have within (y) (hy : y ∈ x.allScoped) := ih y hy (Entity.mem_members_allScoped hx hy)
      have declared {y} (hy : y ∈ x.followers) : y ∈ x.allScoped :=
        (Entity.followers_subperm hn hx).subset hy
      have below : x.followers.flatMap v.ofEntity =
          listed (x.followers.flatMap Entity.preorder) := by
        rw [List.flatMap_congr fun y hy => within y (declared hy)]
        simp only [listed, List.filter_flatMap, List.flatMap_assoc]
      rw [x.preorder_followers, listed_cons, ← below]
      by_cases same : x.id = e.id
      · obtain rfl : x = e := hd.eq_of_id hx member same
        have away (y) (hy : y ∈ x.allScoped) : v.ofEntity y = [] := by
          have later := Entity.mem_members_allScoped hx hy
          have none : y.preorder.filter (·.id == x.id) = [] := by
            refine List.filter_eq_nil_iff.2 fun z hz found => ?_
            have inside := (Entity.preorder_subperm hn later).subset hz
            obtain rfl : z = x :=
              hd.eq_of_id (Entity.mem_members_trans later inside) hx (beq_iff_eq.1 found)
            exact absurd (Entity.size_le_of_mem_members inside) (Entity.size_lt_of_mem hy).not_ge
          rw [within y hy]
          simp only [listed, none, List.flatMap_nil]
        have nothing : x.followers.flatMap v.ofEntity = [] :=
          List.flatMap_eq_nil_iff.2 fun y hy => away y (declared hy)
        rw [ofEntity_own hk hb away, hm, nothing, if_pos rfl, List.append_nil, List.nil_append]
      · have other : x ≠ e := fun h => same (congrArg _ h)
        rw [ofEntity_followers (hm x) (hv x hx other), if_neg same]
  rw [all root root.mem_members_self]
  simp only [listed, filter_eq_singleton (Entity.preorder_nodup hd hn) he,
    List.flatMap_singleton]

/-- The part of a course that is told of some things only. -/
def only (p : β → Bool) (v : Course β) : Course β where
  met e := (v.met e).filter p
  begun n := (v.begun n).filter p
  done n := (v.done n).filter p

theorem filter_noted {C : Type} (p : β → Bool) (log : List (Entry C)) :
    (log.flatMap v.noted).filter p = log.flatMap (v.only p).noted := by
  rw [List.filter_flatMap]
  refine List.flatMap_congr fun x _ => ?_
  cases x with
  | called call answer =>
    cases call with
    | entity hook | node hook => cases hook <;> rfl
    | target => rfl
  | _ => rfl

/-- Each node has its number told, once, and nothing else is told. -/
structure Numbers (v : Course NodeId) : Prop where
  met (x : Entity) : v.met x = []
  node (n : Node) : v.begun n ++ v.done n = [n.id]

end Course

/-- Numbers of nodes list the bodies of a tree: those from one body are in the order of its listing,
no number is there twice, and none is there but from the listings. -/
structure ListsBodies (root : Entity) (listing : Node → List NodeId) (ids : List NodeId) :
    Prop where
  body {e : Entity} {b : Node} (he : e ∈ root.preorder) (hk : e.kind.isCode = true)
    (hb : e.body = some b) : ids.filter (· ∈ b.subtree.map (·.id)) = listing b
  once : ids.Nodup
  within : ∀ i ∈ ids, ∃ e ∈ root.preorder, e.kind.isCode = true ∧
    ∃ b, e.body = some b ∧ i ∈ listing b

namespace Course.Numbers

variable {v : Course NodeId} {root e : Entity} {b : Node} {ids : List NodeId} (hv : v.Numbers)
  (hn : root.DistinctNodes)

include hv

theorem mem_subtree {i : NodeId} (h : i ∈ v.ofEntity root) :
    ∃ e ∈ root.preorder, e.kind.isCode = true ∧
      ∃ b, e.body = some b ∧ i ∈ b.subtree.map (·.id) := by
  have whole : ({ met := v.met, node := fun n => v.begun n ++ v.done n } : Survey NodeId).Whole :=
    ⟨fun _ => rfl, fun _ => rfl⟩
  obtain ⟨e, reached, noted⟩ := (whole.mem_ofEntity root).1 ((ofEntity_perm root).mem_iff.1 h)
  cases noted with
  | met h =>
    change i ∈ v.met e at h
    rw [hv.met] at h
    cases h
  | entity h => cases h
  | @body b n hk hb reaches h =>
    cases h with
    | target _ _ _ h => cases h
    | node h =>
      change i ∈ v.begun n ++ v.done n at h
      rw [hv.node] at h
      cases List.mem_singleton.1 h
      exact ⟨e, Entity.mem_preorder.2 reached, hk, _, hb,
        List.mem_map_of_mem reaches.mem_subtree⟩

include hn

theorem listing_nodup (he : e ∈ root.members) (hb : e.body = some b) :
    (b.listing v.begun v.done).Nodup := by
  have distinct := hn.body_nodup he
  have parts := (Node.listing_subperm v.begun v.done b).1
  rw [Entity.bodyNodes, hb, Option.toList_some, List.flatMap_singleton] at distinct
  rw [List.flatMap_congr fun n _ => hv.node n, ← List.map_eq_flatMap] at parts
  exact nodup_of_subperm parts distinct

theorem filter_body (hd : root.DistinctEntities) (he : e ∈ root.preorder)
    (hk : e.kind.isCode = true) (hb : e.body = some b) :
    (v.only (· ∈ b.subtree.map (·.id))).ofEntity root = b.listing v.begun v.done := by
  have member : e ∈ root.members := (Entity.preorder_subperm hn root.mem_members_self).subset he
  have own {n : Node} (hin : n ∈ b.subtree) : n ∈ e.bodyNodes :=
    List.mem_flatMap.2 ⟨b, Option.mem_toList.2 hb, hin⟩
  have told {n : Node} {i : NodeId} (hi : i ∈ v.begun n ++ v.done n) : i = n.id := by
    rw [hv.node] at hi
    exact List.mem_singleton.1 hi
  rw [ofEntity_body hd hn he hk hb]
  · refine Node.listing_mono .eq b fun n hin => ?_
    have here (i) (hi : i ∈ v.begun n ++ v.done n) : i ∈ b.subtree.map (·.id) :=
      told hi ▸ List.mem_map_of_mem hin
    exact ⟨List.filter_eq_self.2 fun i hi => decide_eq_true (here i (List.mem_append_left _ hi)),
      List.filter_eq_self.2 fun i hi => decide_eq_true (here i (List.mem_append_right _ hi))⟩
  · intro x
    exact congrArg (List.filter _) (hv.met x)
  · intro x hx other n hin
    have away (i) (hi : i ∈ v.begun n ++ v.done n) : i ∉ b.subtree.map (·.id) := by
      intro inside
      obtain ⟨m, hm, same⟩ := List.mem_map.1 inside
      have node : m = n := hn.eq_of_id (List.mem_flatMap.2 ⟨e, member, own hm⟩)
        (List.mem_flatMap.2 ⟨x, hx, hin⟩) (same.trans (told hi))
      exact other (hn.owner_unique hx member hin (node ▸ own hm))
    exact ⟨List.filter_eq_nil_iff.2 fun i hi h =>
        away i (List.mem_append_left _ hi) (of_decide_eq_true h),
      List.filter_eq_nil_iff.2 fun i hi h =>
        away i (List.mem_append_right _ hi) (of_decide_eq_true h)⟩

/-- What is told of all bodies, and each body by itself taken out of it. -/
theorem listsBodies (hd : root.DistinctEntities) (hall : ids = v.ofEntity root)
    (honly : ∀ p, ids.filter p = (v.only p).ofEntity root) :
    ListsBodies root (Node.listing v.begun v.done) ids := by
  have body {e : Entity} {b : Node} (he : e ∈ root.preorder) (hk : e.kind.isCode = true)
      (hb : e.body = some b) :
      ids.filter (· ∈ b.subtree.map (·.id)) = b.listing v.begun v.done :=
    (honly _).trans (hv.filter_body hn hd he hk hb)
  have within (i) (hi : i ∈ ids) : ∃ e ∈ root.preorder, e.kind.isCode = true ∧
      ∃ b, e.body = some b ∧ i ∈ b.subtree.map (·.id) := hv.mem_subtree (hall ▸ hi)
  refine ⟨body, List.nodup_iff_count_le_one.2 fun i => ?_, fun i hi => ?_⟩
  · by_cases hi : i ∈ ids
    · obtain ⟨e, he, hk, b, hb, inside⟩ := within i hi
      have member := (Entity.preorder_subperm hn root.mem_members_self).subset he
      have counted : (ids.filter (· ∈ b.subtree.map (·.id))).count i = ids.count i :=
        List.count_filter (decide_eq_true inside)
      rw [← counted, body he hk hb]
      exact List.nodup_iff_count_le_one.1 (hv.listing_nodup hn member hb) i
    · rw [List.count_eq_zero_of_not_mem hi]
      exact Nat.zero_le 1
  · obtain ⟨e, he, hk, b, hb, inside⟩ := within i hi
    exact ⟨e, he, hk, b, hb,
      body he hk hb ▸ List.mem_filter.2 ⟨hi, decide_eq_true inside⟩⟩

end Course.Numbers

/-! ## Events of nodes -/

namespace Recorder

/-- The nodes of the events recorded under a hook. -/
def nodesOf (hook : String) (events : List Event) : List NodeId :=
  (events.filter (·.hook == hook)).filterMap (·.node)

theorem nodesOf_flatMap {α : Type} (hook : String) (f : α → List Event) (l : List α) :
    nodesOf hook (l.flatMap f) = l.flatMap fun a => nodesOf hook (f a) := by
  unfold nodesOf
  rw [List.filter_flatMap, List.filterMap_flatMap]

/-- With bookkeeping, a common name has the nodes of its hook recorded under it. -/
theorem nodesOf_eventsOf {name : String} (hc : Common name) (x : Entry ScopeContext) :
    nodesOf name (eventsOf { bookkeeping := true } x) =
      match x with
      | .called (.node hook n context) _ =>
        if (HookCall.node hook n context).commonName? = some name then [n.id] else []
      | _ => [] := by
  have silent (h : ∀ call answer, x = .called call answer → call.commonName? ≠ some name) :
      nodesOf name (eventsOf { bookkeeping := true } x) = [] := by
    rw [nodesOf, filter_eq_nil_of_common hc h, List.filterMap_nil]
  cases x with
  | began | ended => rfl
  | derived d outer inner => exact silent nofun
  | called call answer =>
    cases call with
    | entity hook e context inner parents =>
      refine List.filterMap_eq_nil_iff.2 fun event h => ?_
      cases List.mem_singleton.1 (List.mem_filter.1 h).1
      rfl
    | target hook a context =>
      refine silent ?_
      rintro _ _ ⟨⟩
      exact nofun
    | node hook n context =>
      by_cases h : (HookCall.node hook n context).commonName? = some name
      · cases hook with
        | enter | postProcess =>
          cases h
          rfl
        | _ => cases h
      · simp only [h, if_false]
        refine silent ?_
        rintro _ _ ⟨⟩
        exact h

def entering : Course NodeId where
  begun n := [n.id]

def finishing : Course NodeId where
  done n := [n.id]

theorem entering_numbers : entering.Numbers :=
  ⟨fun _ => rfl, fun _ => rfl⟩

theorem finishing_numbers : finishing.Numbers :=
  ⟨fun _ => rfl, fun _ => rfl⟩

theorem nodesOf_enter (log : List (Entry ScopeContext)) :
    nodesOf "enter_node" (log.flatMap (eventsOf { bookkeeping := true })) =
      log.flatMap entering.noted := by
  rw [nodesOf_flatMap]
  refine List.flatMap_congr fun x _ => (nodesOf_eventsOf (by decide) x).trans ?_
  cases x with
  | called call answer =>
    cases call with
    | entity hook | node hook => cases hook <;> rfl
    | target => rfl
  | _ => rfl

theorem nodesOf_postProcess (log : List (Entry ScopeContext)) :
    nodesOf "post_process_node" (log.flatMap (eventsOf { bookkeeping := true })) =
      log.flatMap finishing.noted := by
  rw [nodesOf_flatMap]
  refine List.flatMap_congr fun x _ => (nodesOf_eventsOf (by decide) x).trans ?_
  cases x with
  | called call answer =>
    cases call with
    | entity hook | node hook => cases hook <;> rfl
    | target => rfl
  | _ => rfl

/-- A recorder with bookkeeping writes down the nodes of every body that it comes to. -/
structure RecordsBodies (root : Entity) (events : List Event) : Prop where
  entities : List.Forall₂ Event.Enters (events.filter Event.isEntry) root.preorder
  entered : ListsBodies root Node.startOrder (nodesOf "enter_node" events)
  finished : ListsBodies root Node.finishOrder (nodesOf "post_process_node" events)

/-- In a walk that succeeds, the nodes of each body of code are entered in the order of the listing
of the body and finished in the order of its nodes, each once, and no others are. -/
theorem records_bodies {root : Entity} (hd : root.DistinctEntities) (hn : root.DistinctNodes)
    {depth : Nat} {context : ScopeContext} {s t : WalkState Memory} {table : ParentTable}
    (h : (walker { bookkeeping := true } {}).walk depth root context s = .ok table t) :
    ∃ events, t.memory.events.toList = s.memory.events.toList ++ events ∧
      RecordsBodies root events := by
  let w := walker { bookkeeping := true } {}
  let log := w.walkLog depth root context s
  have told {β : Type} (v : Course β) : log.flatMap v.noted = v.ofEntity root :=
    Course.walk_ok (w := w) .eq (proceeds _ rfl rfl) (lexical _).nests.fitting rfl h
      fun _ _ _ => .of_lexical .eq fun _ unrefused plan =>
        Course.plan_eq _ (Node.accepts_of_refused? rfl unrefused) plan
  have lists (v : Course NodeId) (hv : v.Numbers) :
      ListsBodies root (Node.listing v.begun v.done) (log.flatMap v.noted) :=
    hv.listsBodies hn hd (told v) fun p => (Course.filter_noted p log).trans (told _)
  have recorded := walk_events { bookkeeping := true } {} depth root context s
  rw [Walk.final, h] at recorded
  refine ⟨_, recorded, ?_, ?_, ?_⟩
  · have entered : SyntaxWalk.entered log = root.preorder := by
      rw [← Course.flatMap_noted_entered, told, Course.ofEntity_preorder]
    exact entered ▸ log_enters { bookkeeping := true } log
  · rw [nodesOf_enter]
    exact lists entering entering_numbers
  · rw [nodesOf_postProcess, funext Node.finishOrder_eq_listing]
    exact lists finishing finishing_numbers

theorem records_bodies_hoistingFile :
    let w := walker { bookkeeping := true } {}
    let s : WalkState Memory := { memory := {} }
    hoistingFile.DistinctEntities ∧ hoistingFile.DistinctNodes ∧
      ∃ table t, w.walk 8 hoistingFile ⟨hoistingFile, 1⟩ s = .ok table t ∧
        ∃ events, t.memory.events.toList = s.memory.events.toList ++ events ∧
          RecordsBodies hoistingFile events := by
  intro w s
  have ok : ∃ table t, w.walk 8 hoistingFile ⟨hoistingFile, 1⟩ s = .ok table t :=
    Walk.exists_ok (by decide +kernel)
  obtain ⟨table, t, ok⟩ := ok
  exact ⟨by decide, by decide, table, t, ok, records_bodies (by decide) (by decide) ok⟩

end Recorder

end SyntaxWalk
