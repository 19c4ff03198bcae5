import SyntaxWalk.Proofs.Stages

/-!
# Literals and the hooks of their parts

Between its first child and its end, a literal is visited part by part: a pair of an object literal
is its key and its value, and a part of an array literal is one element. After the children of a
part the hook of the part is called. A visit that succeeds does so for all parts in their order. A
visit that fails does so up to the stage at which it stops, and the hooks that it has called are
those of the parts whose children had all been visited (`Walker.literal_initialised`).
-/

namespace SyntaxWalk

variable {σ C : Type}

theorem filterMap_between {α β : Type} {f : α → Option β} {before inner after : List α}
    (hb : ∀ a ∈ before, f a = none) (ha : ∀ a ∈ after, f a = none) :
    (before ++ inner ++ after).filterMap f = inner.filterMap f := by
  rw [List.filterMap_append, List.filterMap_append, List.filterMap_eq_nil_iff.2 hb,
    List.filterMap_eq_nil_iff.2 ha, List.nil_append, List.append_nil]

/-- The children of a part of a literal, and the hook that is called after them. -/
structure LiteralPart where
  children : List Nat
  hook : Between

/-- The parts of a literal with `count` children. -/
def NodeKind.parts (kind : NodeKind) (count : Nat) : List LiteralPart :=
  match kind with
  | .objectLiteral => (fieldKeys count).map fun key => ⟨[key, key + 1], .fieldInit key⟩
  | .arrayLiteral => (List.range' 1 (count - 1)).map fun i => ⟨[i], .initElement i⟩
  | _ => []

/-- Whether nodes of the kind are taken apart into parts. -/
def NodeKind.IsLiteral (kind : NodeKind) : Prop :=
  kind = .objectLiteral ∨ kind = .arrayLiteral

namespace VisitStage

/-- The hook of a part of a literal, if the stage is the call of one; these have an index. -/
def init? : VisitStage C → Option Between
  | .told (.node (.between point) _ _) => if point.index?.isSome then some point else none
  | _ => none

/-- The child that is visited at a stage. -/
def child? : VisitStage C → Option Nat
  | .child _ i _ => some i
  | _ => none

variable {call : HookCall C} {answer : Answer} {n : Node} {context : C} {i : Nat}

@[simp] theorem init?_asked : (VisitStage.asked call answer).init? = none := rfl

@[simp] theorem init?_child : (VisitStage.child n i context).init? = none := rfl

@[simp] theorem child?_asked : (VisitStage.asked call answer).child? = none := rfl

@[simp] theorem child?_told : (VisitStage.told call).child? = none := rfl

@[simp] theorem child?_child : (VisitStage.child n i context).child? = some i := rfl

end VisitStage

namespace LiteralPart

/-- The steps that a part has in the plan of its literal. -/
def steps (part : LiteralPart) : List Step :=
  part.children.map .visit ++ [.between part.hook]

def stages (n : Node) (context : C) (part : LiteralPart) : List (VisitStage C) :=
  part.children.map (.child n · context) ++ [.told (.node (.between part.hook) n context)]

/-- All children of a part are among those that have been visited. -/
def isComplete (visited : List Nat) (part : LiteralPart) : Bool :=
  part.children.all (visited.contains ·)

end LiteralPart

namespace NodeKind

/-- The steps of a literal before its parts. -/
def literalHead : NodeKind → List Step
  | .arrayLiteral => [.visit 0, .between .arrayObject]
  | _ => [.visit 0]

theorem plan_literal {kind : NodeKind} (hk : kind.IsLiteral) (count : Nat) :
    kind.plan? count =
      some (kind.literalHead ++ (kind.parts count).flatMap LiteralPart.steps) := by
  rcases hk with rfl | rfl <;>
    simp [plan?, literalHead, parts, LiteralPart.steps, List.flatMap_map]

theorem parts_nodup {kind : NodeKind} (hk : kind.IsLiteral) (count : Nat) :
    (0 :: (kind.parts count).flatMap (·.children)).Nodup := by
  have steps (part : LiteralPart) : part.steps.flatMap Step.children = part.children := by
    simp [LiteralPart.steps, Step.children, Step.visited, List.flatMap_map]
  have head : kind.literalHead.flatMap Step.children = [0] := by
    rcases hk with rfl | rfl <;> rfl
  have nodup := plan_nodup (plan_literal hk count)
  rwa [List.flatMap_append, List.flatMap_assoc, List.flatMap_congr fun part _ => steps part,
    head] at nodup

end NodeKind

/-! ## Parts that have been visited -/

section Cut

variable {n : Node} {context : C} {part : LiteralPart} {parts : List LiteralPart}
  {done rest : List (VisitStage C)} {visited : List Nat} {i : Nat}

/-- Nothing, or stages of which the first is the visit of a child. -/
def BeginsWithChild (stages : List (VisitStage C)) : Prop :=
  ∀ stage ∈ stages.head?, ∃ i, stage.child? = some i

namespace LiteralPart

/-- A part has a child and a hook with an index. -/
structure Proper (part : LiteralPart) : Prop where
  nonempty : part.children ≠ []
  index : part.hook.index?.isSome = true

theorem stages_child? : (part.stages n context).filterMap VisitStage.child? = part.children := by
  simp [stages, List.filterMap_map, Function.comp_def]

theorem stages_init? (h : part.Proper) :
    (part.stages n context).filterMap VisitStage.init? = [part.hook] := by
  simp [stages, VisitStage.init?, List.filterMap_map, Function.comp_def, h.index]

theorem isComplete_of_subset (h : part.children ⊆ visited) : part.isComplete visited = true := by
  simpa [isComplete] using fun i hi => h hi

theorem isComplete_eq_false (hi : i ∈ part.children) (hv : i ∉ visited) :
    part.isComplete visited = false := by
  simpa [isComplete] using ⟨i, hi, hv⟩

/-- No hook is called before the last child of a part. -/
theorem init?_of_cut {stage : VisitStage C} (hi : stage.child? = some i)
    (cut : part.stages n context = done ++ stage :: rest) :
    done.filterMap VisitStage.init? = [] := by
  rcases List.append_eq_append_iff.1 cut with ⟨more, -, last⟩ | ⟨more, children, -⟩
  · cases more with
    | nil =>
      obtain ⟨rfl, -⟩ := List.cons.inj last
      cases hi
    | cons x more => simp at last
  · have none : (done ++ more).filterMap VisitStage.init? = [] := by
      rw [← children]
      simp [List.filterMap_map, Function.comp_def]
    rw [List.filterMap_append] at none
    exact (List.append_eq_nil_iff.1 none).1

end LiteralPart

/-- Up to a child of a part, the hooks that are called are those of the parts before it. -/
theorem inits_of_cut (proper : ∀ part ∈ parts, part.Proper)
    (nodup : (visited ++ parts.flatMap (·.children)).Nodup)
    (cut : parts.flatMap (LiteralPart.stages n context) = done ++ rest)
    (hr : BeginsWithChild rest) :
    done.filterMap VisitStage.init? =
      (parts.filter fun part => part.isComplete (visited ++ done.filterMap VisitStage.child?)).map
        (·.hook) := by
  induction parts generalizing done visited with
  | nil =>
    obtain ⟨rfl, rfl⟩ := List.append_eq_nil_iff.1 cut.symm
    rfl
  | cons part parts ih =>
    obtain ⟨first, later⟩ := List.forall_mem_cons.1 proper
    rw [List.flatMap_cons] at cut nodup
    have completed {more : List (VisitStage C)} (hd : done = part.stages n context ++ more)
        (hm : parts.flatMap (LiteralPart.stages n context) = more ++ rest) :
        done.filterMap VisitStage.init? =
          ((part :: parts).filter fun part =>
            part.isComplete (visited ++ done.filterMap VisitStage.child?)).map (·.hook) := by
      have children : visited ++ done.filterMap VisitStage.child? =
          visited ++ part.children ++ more.filterMap VisitStage.child? := by
        rw [hd, List.filterMap_append, LiteralPart.stages_child?, List.append_assoc]
      have complete : part.isComplete
          (visited ++ part.children ++ more.filterMap VisitStage.child?) = true :=
        LiteralPart.isComplete_of_subset fun i hi =>
          List.mem_append_left _ (List.mem_append_right _ hi)
      have others := ih later (by rwa [List.append_assoc]) hm
      rw [children, List.filter_cons_of_pos complete, List.map_cons, ← others, hd,
        List.filterMap_append, LiteralPart.stages_init? first]
      rfl
    -- Otherwise the stages end within the first part, at one of its children.
    rcases List.append_eq_append_iff.1 cut with ⟨more, hd, hm⟩ | ⟨left, hleft, rfl⟩
    · exact completed hd hm
    · cases left with
      | nil => exact completed (by rw [hleft, List.append_nil, List.append_nil]) rfl
      | cons stage left =>
        obtain ⟨i, hi⟩ := hr stage rfl
        have listed : (part.stages n context).filterMap VisitStage.child? = part.children :=
          LiteralPart.stages_child?
        have children : part.children =
            done.filterMap VisitStage.child? ++ i :: left.filterMap VisitStage.child? := by
          rw [← listed, hleft, List.filterMap_append, List.filterMap_cons_some hi]
        have apart : List.Disjoint (visited ++ done.filterMap VisitStage.child?)
            (i :: (left.filterMap VisitStage.child? ++ parts.flatMap (·.children))) := by
          refine List.disjoint_of_nodup_append ?_
          simpa [children] using nodup
        have incomplete : ∀ p ∈ part :: parts,
            p.isComplete (visited ++ done.filterMap VisitStage.child?) = false := by
          refine List.forall_mem_cons.2 ⟨?_, fun p hp => ?_⟩
          · exact LiteralPart.isComplete_eq_false (children ▸ List.mem_append_right _
              List.mem_cons_self) fun h => apart h List.mem_cons_self
          · obtain ⟨x, hx⟩ := List.exists_mem_of_ne_nil _ (later p hp).nonempty
            refine LiteralPart.isComplete_eq_false hx fun h => apart h ?_
            exact List.mem_cons_of_mem _
              (List.mem_append_right _ (List.mem_flatMap.2 ⟨p, hp, hx⟩))
        rw [LiteralPart.init?_of_cut hi hleft,
          List.filter_eq_nil_iff.2 fun p hp => Bool.eq_false_iff.1 (incomplete p hp)]
        rfl

end Cut

/-! ## Visits of literals -/

theorem NodeKind.parts_proper {kind : NodeKind} {count : Nat} :
    ∀ part ∈ kind.parts count, part.Proper := by
  intro part hp
  unfold parts at hp
  split at hp
  · obtain ⟨key, -, rfl⟩ := List.mem_map.1 hp
    exact ⟨nofun, rfl⟩
  · obtain ⟨i, -, rfl⟩ := List.mem_map.1 hp
    exact ⟨nofun, rfl⟩
  · cases hp

/-- The stages of a literal between its `visit` and its `leave` hook. -/
def Node.literalStages (n : Node) (context : C) : List (VisitStage C) :=
  n.kind.literalHead.flatMap (Walker.stepStages n context) ++
    (n.kind.parts n.childCount).flatMap (LiteralPart.stages n context)

namespace Walker

variable {w : Walker σ C} {n : Node} {context : C} {s t : WalkState σ}
  {done : List (VisitStage C)} {next : Option (VisitStage C)} {log : List (Entry C)} {stop : Stop}

theorem stages_of_plan_literal {steps : List Step} (hk : n.kind.IsLiteral)
    (hp : n.kind.plan? n.childCount = some steps) :
    steps.flatMap (stepStages n context) = n.literalStages context := by
  have part (part : LiteralPart) :
      part.steps.flatMap (stepStages n context) = part.stages n context := by
    rw [LiteralPart.steps, List.flatMap_append, List.flatMap_map, LiteralPart.stages,
      List.map_eq_flatMap]
    rfl
  cases (NodeKind.plan_literal hk _).symm.trans hp
  rw [List.flatMap_append, List.flatMap_assoc, List.flatMap_congr fun p _ => part p]
  rfl

/-- All the stages of a visit of a literal that its enter hook lets proceed, given the answer of its
`visit` hook. -/
def literalVisit (w : Walker σ C) (n : Node) (context : C) : Answer → List (VisitStage C)
  | .proceed =>
    opening n context ++ n.literalStages context ++
      .told (.node .leave n context) :: w.closing n context
  | .handled =>
    [.asked (.node .enter n context) .proceed, .asked (.node .visit n context) .handled] ++
      (w.hoistings n context .handled ++ [.told (.node .postProcess n context)])

/-- The stages of a literal, up to the one at which its visit stops. -/
theorem literal_takes (hw : w.extensions = {}) (depth : Nat) (hk : n.kind.IsLiteral)
    (context : C) :
    w.Takes (w.logged.visit depth n context) (w.visit depth n context)
      (fun _ => Visited n context w fun answer gone =>
        answer = .proceed ∧ gone = n.literalStages context)
      (VisitedPartly n context w
        (fun answer gone => answer = .proceed ∧ gone = n.literalStages context)
        (BrokenOff (n.literalStages context))) := by
  refine visit_takes hw depth fun depth steps hp => ?_
  have plain : ∀ step ∈ steps, step.IsPlain := by
    cases NodeKind.plan_shape hp with
    | plain _ _ _ plain => exact plain
    | localScope h | unwind h => rcases hk with hk | hk <;> cases h.symm.trans hk
    | assign h => rcases hk with hk | hk <;> rw [hk] at h <;> cases h
  rw [← stages_of_plan_literal hk hp]
  exact runPlan_straight hw depth n context plain

/-- A visit of a literal that fails stops at one of its stages, or by itself before its `visit`
hook. -/
theorem literal_brokenOff
    (h : VisitedPartly n context w
      (fun answer gone => answer = .proceed ∧ gone = n.literalStages context)
      (BrokenOff (n.literalStages context)) done next) :
    (∃ answer, BrokenOff (w.literalVisit n context answer) done next) ∨
      next = none ∧ done <+: [.asked (.node .enter n context) .proceed] := by
  cases h with
  | outOfDepth => exact .inr ⟨rfl, List.nil_prefix⟩
  | refused => exact .inr ⟨rfl, List.prefix_rfl⟩
  | working hb => exact .inl ⟨.proceed, hb.append_left.append_right⟩
  | @hoisting answer _ hoisted _ worked hb =>
    have ended : BrokenOff (w.hoistings n context answer ++ [.told (.node .postProcess n context)])
        hoisted next :=
      hb.append_right
    cases worked with
    | handled => exact .inl ⟨.handled, ended.append_left⟩
    | taken h => cases h.1
    | left h =>
      obtain ⟨-, rfl⟩ := h
      have left : BrokenOff ([.told (.node .leave n context)] ++ w.closing n context)
          ([.told (.node .leave n context)] ++ hoisted) next :=
        ended.append_left
      have whole : BrokenOff (w.literalVisit n context .proceed)
          (opening n context ++ n.literalStages context ++
            ([.told (.node .leave n context)] ++ hoisted)) next :=
        left.append_left
      exact .inl ⟨.proceed, by simpa [opening] using whole⟩

/-- A stage that is neither the visit of a child nor the call of the hook of a part. -/
def Aside (stage : VisitStage C) : Prop :=
  stage.init? = none ∧ stage.child? = none

theorem hoistings_aside {answer : Answer}
    (h : BrokenOff (w.hoistings n context answer) done next) : ∀ stage ∈ done, Aside stage := by
  obtain ⟨_, rest, split, -⟩ := h
  intro stage hs
  have listed : stage ∈ w.hoistings n context answer := split ▸ List.mem_append_left _ hs
  unfold hoistings at listed
  split at listed
  · obtain ⟨e, -, rfl⟩ := List.mem_map.1 listed
    exact ⟨rfl, rfl⟩
  · cases listed

/-- The stages of a literal are visits of children and calls of hooks. -/
theorem mem_literalStages {stage : VisitStage C} (h : stage ∈ n.literalStages context) :
    (∃ i, stage = .child n i context) ∨ ∃ call, stage = .told call := by
  rcases List.mem_append.1 h with h | h
  · obtain ⟨step, -, h⟩ := List.mem_flatMap.1 h
    cases step with
    | visit i => exact .inl ⟨i, List.mem_singleton.1 h⟩
    | between point => exact .inr ⟨_, List.mem_singleton.1 h⟩
    | _ => cases h
  · obtain ⟨part, -, h⟩ := List.mem_flatMap.1 h
    rcases List.mem_append.1 h with h | h
    · obtain ⟨i, -, rfl⟩ := List.mem_map.1 h
      exact .inl ⟨i, rfl⟩
    · exact .inr ⟨_, List.mem_singleton.1 h⟩

/-- A walker that stops at a stage of a literal stops at one of its children. -/
theorem child_of_halts {stage : VisitStage C} (hm : stage ∈ n.literalStages context)
    (h : w.Halts stage s log stop t) : ∃ i, stage.child? = some i := by
  rcases mem_literalStages hm with ⟨i, rfl⟩ | ⟨call, rfl⟩
  · exact ⟨i, rfl⟩
  · cases h

theorem literalStages_of_object (hk : n.kind = .objectLiteral) :
    n.literalStages context =
      .child n 0 context ::
        (n.kind.parts n.childCount).flatMap (LiteralPart.stages n context) := by
  rw [Node.literalStages, hk]
  rfl

theorem literalStages_of_array (hk : n.kind = .arrayLiteral) :
    n.literalStages context =
      .child n 0 context :: .told (.node (.between .arrayObject) n context) ::
        (n.kind.parts n.childCount).flatMap (LiteralPart.stages n context) := by
  rw [Node.literalStages, hk]
  rfl

theorem literalStages_begin (hk : n.kind.IsLiteral) :
    BeginsWithChild (n.literalStages context) := by
  unfold Node.literalStages
  rcases hk with hk | hk <;> rw [hk] <;> rintro stage ⟨⟩ <;> exact ⟨0, rfl⟩

/-- What a visit that fails has done of the stages of a literal. -/
theorem literal_cut (hk : n.kind.IsLiteral)
    (h : VisitedPartly n context w
      (fun answer gone => answer = .proceed ∧ gone = n.literalStages context)
      (BrokenOff (n.literalStages context)) done next)
    (stopped : w.Until s done next log stop t) :
    ∃ before inner after rest, done = before ++ inner ++ after ∧
      (∀ stage ∈ before, Aside stage) ∧ (∀ stage ∈ after, Aside stage) ∧
      n.literalStages context = inner ++ rest ∧ BeginsWithChild rest := by
  have begin : BeginsWithChild (n.literalStages context) := literalStages_begin hk
  cases h with
  | outOfDepth => exact ⟨[], [], [], _, rfl, nofun, nofun, rfl, begin⟩
  | refused => exact ⟨[_], [], [], _, rfl, by simp [Aside], nofun, rfl, begin⟩
  | working hb =>
    obtain ⟨stage, rest, split, rfl⟩ := hb
    cases stopped with
    | stage _ halts =>
      have child := child_of_halts (split ▸ List.mem_append_right _ List.mem_cons_self) halts
      refine ⟨[_, _], _, [], _, (List.append_nil _).symm, by simp [Aside], nofun, split, ?_⟩
      rintro _ ⟨⟩
      exact child
  | @hoisting _ _ hoisted _ worked hb =>
    have aside := hoistings_aside hb
    cases worked with
    | handled => exact ⟨[_, _], [], _, _, rfl, by simp [Aside], aside, rfl, begin⟩
    | taken h => cases h.1
    | left h =>
      obtain ⟨-, rfl⟩ := h
      refine ⟨opening n context, n.literalStages context, .told (.node .leave n context) :: hoisted,
        [], by simp [opening], by simp [opening, Aside], ?_, (List.append_nil _).symm, nofun⟩
      exact List.forall_mem_cons.2 ⟨⟨rfl, rfl⟩, aside⟩

/-- The hooks of parts that are called are those of the parts that are complete. -/
theorem inits_of_literal_cut {inner rest : List (VisitStage C)} (hk : n.kind.IsLiteral)
    (split : n.literalStages context = inner ++ rest) (hr : BeginsWithChild rest) :
    inner.filterMap VisitStage.init? =
      ((n.kind.parts n.childCount).filter (·.isComplete (inner.filterMap VisitStage.child?))).map
        (·.hook) := by
  have afterHead (head inner : List (VisitStage C)) (hi : head.filterMap VisitStage.init? = [])
      (hc : head.filterMap VisitStage.child? = [0])
      (hs : (n.kind.parts n.childCount).flatMap (LiteralPart.stages n context) = inner ++ rest) :
      (head ++ inner).filterMap VisitStage.init? =
        ((n.kind.parts n.childCount).filter
          (·.isComplete ((head ++ inner).filterMap VisitStage.child?))).map (·.hook) := by
    rw [List.filterMap_append, List.filterMap_append, hi, hc]
    exact inits_of_cut NodeKind.parts_proper (NodeKind.parts_nodup hk _) hs hr
  cases inner with
  | nil =>
    have none : (n.kind.parts n.childCount).filter (·.isComplete []) = [] := by
      refine List.filter_eq_nil_iff.2 fun part hp => Bool.eq_false_iff.1 ?_
      obtain ⟨i, hi⟩ := List.exists_mem_of_ne_nil _ (NodeKind.parts_proper part hp).nonempty
      exact LiteralPart.isComplete_eq_false hi List.not_mem_nil
    rw [List.filterMap_nil, List.filterMap_nil, none]
    rfl
  | cons first inner =>
    rcases hk with hk | hk
    · rw [literalStages_of_object hk] at split
      obtain ⟨rfl, hs⟩ := List.cons.inj split
      exact afterHead [_] inner rfl rfl hs
    · rw [literalStages_of_array hk] at split
      obtain ⟨rfl, hs⟩ := List.cons.inj split
      cases inner with
      | nil =>
        -- The hook after the first child would have to be the visit of another.
        obtain rfl : _ = rest := hs
        obtain ⟨i, hi⟩ := hr _ rfl
        cases hi
      | cons second inner =>
        obtain ⟨rfl, hparts⟩ := List.cons.inj hs
        exact afterHead [_, _] inner rfl rfl hparts

theorem literalStages_objectLiteral (hk : n.kind = .objectLiteral) :
    n.literalStages context =
      .child n 0 context :: (List.range (n.childCount / 2)).flatMap fun j =>
        [.child n (2 * j + 1) context, .child n (2 * j + 2) context,
          .told (.node (.between (.fieldInit (2 * j + 1))) n context)] := by
  have keys : NodeKind.fieldKeys n.childCount =
      (List.range (n.childCount / 2)).map (2 * · + 1) := by
    refine List.ext_getElem ?_ fun i _ _ => ?_
    · simp [NodeKind.fieldKeys]
    · simp [NodeKind.fieldKeys, Nat.add_comm 1]
  rw [literalStages_of_object hk, hk, NodeKind.parts, keys, List.map_map, List.flatMap_map]
  rfl

theorem literalStages_arrayLiteral (hk : n.kind = .arrayLiteral) :
    n.literalStages context =
      .child n 0 context :: .told (.node (.between .arrayObject) n context) ::
        (List.range (n.childCount - 1)).flatMap fun j =>
          [.child n (j + 1) context,
            .told (.node (.between (.initElement (j + 1))) n context)] := by
  have elements : List.range' 1 (n.childCount - 1) =
      (List.range (n.childCount - 1)).map (· + 1) := by
    simp only [List.range'_eq_map_range, Nat.add_comm 1]
  rw [literalStages_of_array hk, hk, NodeKind.parts, elements, List.map_map, List.flatMap_map]
  rfl

/-- A literal whose visit goes beyond its first hooks and succeeds is gone through part by part: the
first child, and then for each part its children and its hook. When the visit of a literal fails, it
has gone through these stages up to the one at which it stops; if it stops by itself, it does so
before its `visit` hook. The hooks that it has called are those of the parts whose children it had
all visited, and no others. -/
theorem literal_initialised (w : Walker σ C) (hw : w.extensions = {}) (depth : Nat) (n : Node)
    (context : C) (s : WalkState σ) :
    let log := Walk.log (w.logged.visit depth n context) s
    (∀ t, w.visit depth n context s = .ok () t → w.Opens n context s →
      (∀ k, n.kind = .objectLiteral → n.childCount = 1 + 2 * k →
        w.Through s (opening n context ++
          (.child n 0 context :: (List.range k).flatMap fun j =>
            [.child n (2 * j + 1) context, .child n (2 * j + 2) context,
              .told (.node (.between (.fieldInit (2 * j + 1))) n context)]) ++
          .told (.node .leave n context) :: w.closing n context) log t) ∧
      (∀ m, n.kind = .arrayLiteral → n.childCount = 1 + m →
        w.Through s (opening n context ++
          (.child n 0 context :: .told (.node (.between .arrayObject) n context) ::
            (List.range m).flatMap fun j =>
              [.child n (j + 1) context,
                .told (.node (.between (.initElement (j + 1))) n context)]) ++
          .told (.node .leave n context) :: w.closing n context) log t)) ∧
    (∀ stop t, w.visit depth n context s = .error stop t → n.kind.IsLiteral →
      ∃ done next, w.Until s done next log stop t ∧
        ((∃ answer, BrokenOff (w.literalVisit n context answer) done next) ∨
          next = none ∧ done <+: [.asked (.node .enter n context) .proceed]) ∧
        done.filterMap VisitStage.init? =
          ((n.kind.parts n.childCount).filter (·.isComplete (done.filterMap VisitStage.child?))).map
            (·.hook)) := by
  intro log
  refine ⟨fun t ht opened => ?_, fun stop t ht hk => ?_⟩
  · have whole (hk : n.kind.IsLiteral) : w.Through s (opening n context ++
        n.literalStages context ++ .told (.node .leave n context) :: w.closing n context)
        log t := by
      obtain ⟨stages, through, visited⟩ := (literal_takes hw depth hk context).ok ht
      obtain ⟨_, ⟨⟨⟨⟩, -⟩, -⟩ | ⟨⟨-, rfl⟩, rfl⟩⟩ := visited.opened through opened
      rwa [← List.append_assoc] at through
    refine ⟨fun k hk hc => ?_, fun m hk hc => ?_⟩
    · have pairs : n.childCount / 2 = k := by omega
      rw [← pairs, ← literalStages_objectLiteral hk]
      exact whole (.inl hk)
    · have elements : n.childCount - 1 = m := by omega
      rw [← elements, ← literalStages_arrayLiteral hk]
      exact whole (.inr hk)
  · obtain ⟨done, next, stopped, partly⟩ := (literal_takes hw depth hk context).error ht
    obtain ⟨before, inner, after, rest, rfl, hb, ha, split, hr⟩ := literal_cut hk partly stopped
    refine ⟨_, next, stopped, literal_brokenOff partly, ?_⟩
    have inits : (before ++ inner ++ after).filterMap VisitStage.init? =
        inner.filterMap VisitStage.init? :=
      filterMap_between (fun stage h => (hb stage h).1) fun stage h => (ha stage h).1
    have children : (before ++ inner ++ after).filterMap VisitStage.child? =
        inner.filterMap VisitStage.child? :=
      filterMap_between (fun stage h => (hb stage h).2) fun stage h => (ha stage h).2
    rw [inits, children]
    exact inits_of_literal_cut hk split hr

/-- A literal of constants with the given numbers. -/
def literalOf (kind : NodeKind) (numbers : List Nat) : Node :=
  let constant (i : Nat) : Node := { id := ⟨i⟩, kind := .constant, children := [] }
  { id := ⟨0⟩, kind, children := numbers.map constant }

def pairLiteral : Node :=
  literalOf .objectLiteral [1, 2, 3]

def elementLiteral : Node :=
  literalOf .arrayLiteral [1, 2]

/-- An object literal with a pair and a key without a value. -/
def danglingLiteral : Node :=
  literalOf .objectLiteral [1, 2, 3, 4]

/-- The key without a value is visited as well, but only the pair before it is complete. -/
theorem literal_initialised_literalOf :
    (quiet true).Through ⟨(), {}⟩ (opening pairLiteral hoistingFile ++
      [.child pairLiteral 0 hoistingFile, .child pairLiteral 1 hoistingFile,
        .child pairLiteral 2 hoistingFile,
        .told (.node (.between (.fieldInit 1)) pairLiteral hoistingFile)] ++
      .told (.node .leave pairLiteral hoistingFile) ::
        (quiet true).closing pairLiteral hoistingFile)
      (Walk.log ((quiet true).logged.visit 2 pairLiteral hoistingFile) ⟨(), {}⟩) ⟨(), {}⟩ ∧
    (quiet true).Through ⟨(), {}⟩ (opening elementLiteral hoistingFile ++
      [.child elementLiteral 0 hoistingFile,
        .told (.node (.between .arrayObject) elementLiteral hoistingFile),
        .child elementLiteral 1 hoistingFile,
        .told (.node (.between (.initElement 1)) elementLiteral hoistingFile)] ++
      .told (.node .leave elementLiteral hoistingFile) ::
        (quiet true).closing elementLiteral hoistingFile)
      (Walk.log ((quiet true).logged.visit 2 elementLiteral hoistingFile) ⟨(), {}⟩) ⟨(), {}⟩ ∧
    ∃ done next, (quiet false).Until ⟨(), {}⟩ done next
        (Walk.log ((quiet false).logged.visit 2 danglingLiteral hoistingFile) ⟨(), {}⟩)
        (.failed (.missing danglingLiteral 4)) ⟨(), {}⟩ ∧
      ((∃ answer, BrokenOff ((quiet false).literalVisit danglingLiteral hoistingFile answer) done
          next) ∨
        next = none ∧ done <+: [.asked (.node .enter danglingLiteral hoistingFile) .proceed]) ∧
      done.filterMap VisitStage.init? =
        ((NodeKind.parts .objectLiteral 4).filter
          (·.isComplete (done.filterMap VisitStage.child?))).map (·.hook) := by
  have paired : (quiet true).visit 2 pairLiteral hoistingFile ⟨(), {}⟩ = .ok () ⟨(), {}⟩ := rfl
  have listed : (quiet true).visit 2 elementLiteral hoistingFile ⟨(), {}⟩ = .ok () ⟨(), {}⟩ := rfl
  have fails : (quiet false).visit 2 danglingLiteral hoistingFile ⟨(), {}⟩ =
      .error (.failed (.missing danglingLiteral 4)) ⟨(), {}⟩ := rfl
  have pair := (literal_initialised (quiet true) rfl 2 _ _ _).1 _ paired ⟨_, _, rfl, rfl⟩
  have element := (literal_initialised (quiet true) rfl 2 _ _ _).1 _ listed ⟨_, _, rfl, rfl⟩
  have dangling := (literal_initialised (quiet false) rfl 2 _ _ _).2 _ _ fails (.inl rfl)
  exact ⟨pair.1 1 rfl rfl, element.2 1 rfl rfl, dangling⟩

end Walker

end SyntaxWalk
