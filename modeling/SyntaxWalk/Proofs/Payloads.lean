import SyntaxWalk.Proofs.Recorded

/-!
# Payloads and positions do not steer a walk

The skeleton of a tree is what is left of it without the payloads and the positions of its nodes.
Walks of trees with one skeleton by recorders of one configuration take the same way: the events
differ in their texts at most, the tables of parents are the same but for payloads and positions,
and both walks succeed or both fail, with the same error but for what it shows of positions and of
source text (`walk_of_skeleton`).
-/

namespace SyntaxWalk

/-! ## Skeletons -/

section Maps

variable {α β : Type} {f : α → β}

theorem optionRel_of_map_eq {a b : Option α} (h : a.map f = b.map f) :
    Option.Rel (fun x y => f x = f y) a b := by
  cases a <;> cases b <;> simp at h
  · exact .none
  · exact .some h

theorem forall₂_of_map_eq {l m : List α} (h : l.map f = m.map f) :
    List.Forall₂ (fun x y => f x = f y) l m := by
  have mapped : List.Forall₂ Eq (l.map f) (m.map f) := by rwa [List.forall₂_eq_eq_eq]
  rwa [List.forall₂_map_left_iff, List.forall₂_map_right_iff] at mapped

end Maps

namespace Node

/-- A node without the payloads and the positions in it. -/
def skeleton : Node → Node :=
  fold fun n children => { id := n.id, kind := n.kind, children }

theorem skeleton_eq_relabel :
    skeleton = relabel fun n => { n with value := none, position := none } :=
  rfl

section Skeleton

variable (n : Node)

@[simp] theorem skeleton_id : n.skeleton.id = n.id := by rw [skeleton_eq_relabel, relabel_eq]

@[simp] theorem skeleton_kind : n.skeleton.kind = n.kind := by
  rw [skeleton_eq_relabel, relabel_eq]

@[simp] theorem skeleton_children : n.skeleton.children = n.children.map skeleton := by
  rw [skeleton_eq_relabel, relabel_children]

@[simp] theorem skeleton_childCount : n.skeleton.childCount = n.childCount := by
  rw [skeleton_eq_relabel, relabel_childCount]

@[simp] theorem skeleton_child? (i : Nat) : n.skeleton.child? i = (n.child? i).map skeleton := by
  rw [skeleton_eq_relabel, relabel_child?]

@[simp] theorem skeleton_lastChild? : n.skeleton.lastChild? = n.lastChild?.map skeleton := by
  rw [skeleton_eq_relabel, relabel_lastChild?]

end Skeleton

theorem same_of_skeleton {n n' : Node} (h : n.skeleton = n'.skeleton) :
    n.id = n'.id ∧ n.kind = n'.kind ∧ n.childCount = n'.childCount :=
  ⟨by simpa using congrArg id h, by simpa using congrArg kind h,
    by simpa using congrArg childCount h⟩

theorem child_of_skeleton {n n' : Node} (h : n.skeleton = n'.skeleton) (i : Nat) :
    Option.Rel (fun m m' => m.skeleton = m'.skeleton) (n.child? i) (n'.child? i) :=
  optionRel_of_map_eq (by simpa using congrArg (child? · i) h)

end Node

namespace Entity

/-- An entity without the payloads and the positions in it. -/
def skeleton : Entity → Entity :=
  fold fun e scopes => { e with body := e.body.map Node.skeleton, scopes }

section Skeleton

variable (e : Entity)

@[simp] theorem skeleton_id : e.skeleton.id = e.id :=
  mapBodies_id Node.skeleton e

@[simp] theorem skeleton_kind : e.skeleton.kind = e.kind :=
  mapBodies_kind Node.skeleton e

@[simp] theorem skeleton_name : e.skeleton.name = e.name :=
  mapBodies_name Node.skeleton e

@[simp] theorem skeleton_body : e.skeleton.body = e.body.map Node.skeleton :=
  mapBodies_body Node.skeleton e

@[simp] theorem skeleton_scopedUnder (key : ScopeKey) :
    e.skeleton.scopedUnder key = (e.scopedUnder key).map skeleton :=
  mapBodies_scopedUnder Node.skeleton e key

@[simp] theorem skeleton_allScoped : e.skeleton.allScoped = e.allScoped.map skeleton :=
  mapBodies_allScoped Node.skeleton e

end Skeleton

end Entity

/-- An error without what it shows of positions and of source text. -/
def Walk.Error.cause : Walk.Error → Walk.Error
  | .unhandledEntity kind name => .unhandledEntity kind name
  | .unhandledNode kind _ => .unhandledNode kind none
  | .malformedNode kind expected found _ => .malformedNode kind expected found none
  | .unsupportedAssignment target _ _ => .unsupportedAssignment target "" none

/-- Parts belong together that have the same skeleton. -/
def Likeness.skeletons : Likeness where
  entities e e' := e.skeleton = e'.skeleton
  nodes n n' := n.skeleton = n'.skeleton
  targets t t' := t.skeleton = t'.skeleton
  errors e e' := e.cause = e'.cause
  entity h := ⟨by simpa using congrArg Entity.id h, by simpa using congrArg Entity.kind h⟩
  body h := optionRel_of_map_eq (by simpa using congrArg Entity.body h)
  scopedUnder h key := forall₂_of_map_eq (by simpa using congrArg (Entity.scopedUnder · key) h)
  allScoped h _ := forall₂_of_map_eq (by simpa using congrArg Entity.allScoped h)
  node := Node.same_of_skeleton
  child h i _ := Node.child_of_skeleton h i
  assigned h _ := Node.child_of_skeleton h 0
  target h := (Node.same_of_skeleton h).2
  base h _ := Node.child_of_skeleton h 0
  indices h _ := by
    refine forall₂_of_map_eq ?_
    simpa [List.map_drop] using congrArg (fun t => t.children.drop 2) h
  last h _ := optionRel_of_map_eq (by simpa using congrArg Node.lastChild? h)
  ofEntity {e e'} h := by
    have kind : e.kind = e'.kind := by simpa using congrArg Entity.kind h
    have name : e.name = e'.name := by simpa using congrArg Entity.name h
    rw [Walk.Error.ofEntity, Walk.Error.ofEntity, kind, name]
  ofNode {n n'} h := by
    obtain ⟨-, kind, -⟩ := Node.same_of_skeleton h
    simp only [Walk.Error.ofNode, Walk.Error.cause, kind]
  malformed {n n'} h expected := by
    obtain ⟨-, kind, count⟩ := Node.same_of_skeleton (h.elim id id)
    simp only [Walk.Error.malformed, Walk.Error.cause, kind, count]
  unsupported {t t'} ht n n' hn := by
    obtain ⟨-, kind, -⟩ := Node.same_of_skeleton ht
    simp only [Walk.Error.unsupported, Walk.Error.cause, kind]

/-! ## Whole walks -/

/-- How a walk has ended and the parents that it has left, without what these show of payloads and
positions. -/
def Walk.outline {σ : Type} : EStateM.Result Stop (WalkState σ) ParentTable →
    Except Stop ParentTable × ParentTable
  | .ok table s => (.ok (table.map Entity.skeleton), s.parents.map Entity.skeleton)
  | .error (.failed e) s => (.error (.failed e.cause), s.parents.map Entity.skeleton)
  | .error .outOfDepth s => (.error .outOfDepth, s.parents.map Entity.skeleton)

theorem Likeness.Tables.skeleton_eq {t t' : ParentTable} (h : skeletons.Tables t t') :
    t.map Entity.skeleton = t'.map Entity.skeleton := by
  obtain ⟨entries⟩ := t
  obtain ⟨entries'⟩ := t'
  refine congrArg Table.mk ?_
  simp only [Tables] at h
  induction h with
  | nil => rfl
  | cons hx _ ih => exact congrArg₂ List.cons (Prod.ext hx.1 hx.2) ih

theorem Likeness.Results.outline_eq {σ σ' : Type} {memories : σ → σ' → Prop}
    {r : EStateM.Result Stop (WalkState σ) ParentTable}
    {r' : EStateM.Result Stop (WalkState σ') ParentTable}
    (h : skeletons.Results memories skeletons.Tables r r') : Walk.outline r = Walk.outline r' := by
  cases h with
  | ok ha hs => rw [Walk.outline, Walk.outline, Tables.skeleton_eq ha, hs.parents.skeleton_eq]
  | @failed e e' s s' he hs =>
    have cause : e.cause = e'.cause := he
    rw [Walk.outline, Walk.outline, cause, hs.parents.skeleton_eq]
  | outOfDepth hs => rw [Walk.outline, Walk.outline, hs.parents.skeleton_eq]

namespace Recorder

/-- Events that differ in their texts at most. -/
abbrev Event.SameButText : Event → Event → Prop :=
  Event.Beside (fun _ _ => True) Eq

theorem sees_skeletons : Sees Likeness.skeletons fun _ _ => True where
  refl _ := trivial
  name h := by simpa using congrArg Entity.name h
  describe _ := trivial
  target h := (Node.same_of_skeleton h).1

/-- Recorders of one configuration are led in the same way through trees that differ in payloads and
positions alone. -/
theorem walk_of_skeleton (config : Config) (o : Options) (depth : Nat) {root root' : Entity}
    (hr : root.skeleton = root'.skeleton) {c c' : ScopeContext}
    (ht : c.top.skeleton = c'.top.skeleton) (hc : c.serial = c'.serial)
    {s s' : WalkState Memory} (hs : s.memory.serials = s'.memory.serials) :
    let w := walker config o
    Walk.outline (w.walk depth root c s) = Walk.outline (w.walk depth root' c' s') ∧
      (∃ added added',
        ((w.walk depth root c).final s).memory.events.toList = s.memory.events.toList ++ added ∧
        ((w.walk depth root' c').final s').memory.events.toList =
          s'.memory.events.toList ++ added' ∧
        List.Forall₂ Event.SameButText added added') ∧
      (root.size ≤ depth → ∀ t, w.walk depth root c s ≠ .error .outOfDepth t) := by
  intro w
  have contexts : ScopeContext.Beside Likeness.skeletons Eq c c' := ⟨ht, hc⟩
  have memories : Memory.Beside (fun _ _ => True) Eq s.memory.events.toList
      s'.memory.events.toList s.memory s'.memory :=
    ⟨congrArg Supply.next hs, [], [], (List.append_nil _).symm, (List.append_nil _).symm, .nil⟩
  have results : Likeness.skeletons.Results _ Likeness.skeletons.Tables
      (w.walk depth root c s) (w.walk depth root' c' s') :=
    walk_beside sees_skeletons (fun _ _ => congrArg (· + 1)) o depth hr contexts memories
  refine ⟨results.outline_eq, results.final.memory.events, fun hd t => ?_⟩
  exact Walker.walk_ne_outOfDepth (lexical config) rfl hd c s t

/-- A function whose body is a loop with one child too few, around a constant. -/
def brokenLoop (value : Option Value) (position : Option Position) : Entity :=
  let constant : Node := { id := ⟨1⟩, kind := .constant, children := [], value, position }
  let loop : Node := { id := ⟨2⟩, kind := .loopStmt, children := [constant], position }
  { id := ⟨1⟩, kind := .function, name := "broken", body := some loop }

/-- Both walks fail, each with the position that its tree has. -/
theorem walk_of_skeleton_brokenLoop :
    let w := walker {} {}
    let root := brokenLoop (some (.int 1)) none
    let root' := brokenLoop none (some ⟨1, 2, 3, 4, none⟩)
    let c : ScopeContext := ⟨root, 0⟩
    let c' : ScopeContext := ⟨root', 0⟩
    let s : WalkState Memory := { memory := {} }
    root.skeleton = root'.skeleton ∧ (w.walk 4 root c).succeeds s = false ∧
      Walk.outline (w.walk 4 root c s) = Walk.outline (w.walk 4 root' c' s) ∧
      (∃ added added',
        ((w.walk 4 root c).final s).memory.events.toList = s.memory.events.toList ++ added ∧
        ((w.walk 4 root' c').final s).memory.events.toList = s.memory.events.toList ++ added' ∧
        List.Forall₂ Event.SameButText added added') ∧
      ∀ t, w.walk 4 root c s ≠ .error .outOfDepth t := by
  intro w root root' c c' s
  obtain ⟨ends, events, deep⟩ :=
    walk_of_skeleton {} {} 4 (rfl : root.skeleton = root'.skeleton) (rfl : c.top.skeleton = _) rfl
      (rfl : s.memory.serials = _)
  exact ⟨rfl, by decide, ends, events, deep (by decide)⟩

end Recorder

end SyntaxWalk
