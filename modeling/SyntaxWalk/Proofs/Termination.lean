import SyntaxWalk.Proofs.Order
import SyntaxWalk.Proofs.Outlast

/-!
# Walks that return

A walk returns if more depth changes nothing about it from some depth on: it ends in one way, after
the same calls (`Walker.Returns`). Contexts that put each entity on top of what is inside it make
every operation return, whatever the scope tables say, and the order of the entities can be computed
by the recursion that follows a walk (`lexical_returns`).
-/

namespace SyntaxWalk

variable {σ C α : Type}

namespace Walker

/-- From some depth on an operation ends in one way, after finitely many calls that are the same,
and not for want of depth. -/
def Returns (w : Walker σ C) (operation : ∀ {σ : Type}, Walker σ C → (depth : Nat) → Walk σ α)
    (least : Nat) (s : WalkState σ) : Prop :=
  ∃ result calls, (∀ t, result ≠ .error .outOfDepth t) ∧
    ∀ depth, least ≤ depth →
      operation w depth s = result ∧ Walk.log (operation w.logged depth) s = calls

variable {w : Walker σ C} {operation : ∀ {σ : Type}, Walker σ C → (depth : Nat) → Walk σ α}

/-- What has depth enough once returns. -/
theorem Returns.of_ends {least : Nat} {P : α → Prop} (h : (operation w least).Ends P)
    (deeper : ∀ more, Walk.Outlasts (· = .outOfDepth) (fun _ => False) (operation w.logged least)
      (operation w.logged (more + least)))
    (forgets : ∀ depth, Forgets (operation w.logged depth) (operation w depth))
    (s : WalkState σ) : w.Returns operation least s := by
  have ends (t) : operation w least s ≠ .error .outOfDepth t := fun hs => h.error hs rfl
  refine ⟨operation w least s, Walk.log (operation w.logged least) s, ends, fun depth hd => ?_⟩
  obtain ⟨more, rfl⟩ : ∃ more, depth = more + least := ⟨depth - least, by omega⟩
  exact (deeper more).same (forgets least) (forgets (more + least)) ends

theorem walk_returns {into : Nesting} (hv : w.visitor.Nests into) (hw : w.extensions = {})
    {least : Nat} {root : Entity} {context : C}
    (h : (allowance into least).entity root (w.visitor.top context)) (s : WalkState σ) :
    w.Returns (fun w depth => w.walk depth root context) least s :=
  .of_ends (walk_ends hv hw h)
    (fun more => whole_outlasts (w.descent_deeper more least) root context)
    (fun depth => w.walk_logged depth root context) s

theorem visitEntity_returns {into : Nesting} (hv : w.visitor.Nests into) (hw : w.extensions = {})
    {least : Nat} {e : Entity} {context : C}
    (h : (allowance into least).entity e (w.visitor.top context)) (s : WalkState σ) :
    w.Returns (fun w depth => w.visitEntity depth e context) least s :=
  .of_ends ((descent_within hv hw least).entity h)
    (fun more => (w.descent_deeper more least).entity e rfl)
    (fun depth => (w.descent_forgets depth).entity e context) s

theorem visit_returns {into : Nesting} (hv : w.visitor.Nests into) (hw : w.extensions = {})
    {least : Nat} {n : Node} {context : C}
    (h : (allowance into least).node n (w.visitor.top context)) (s : WalkState σ) :
    w.Returns (fun w depth => w.visit depth n context) least s :=
  .of_ends ((descent_within hv hw least).node h)
    (fun more => (w.descent_deeper more least).node n rfl)
    (fun depth => (w.descent_forgets depth).node n context) s

end Walker

/-! ## The order of entities as a recursion along a walk -/

/-- What a function gives for each element, put together; none if it fails for one. -/
def flattenEach {α β : Type} (f : α → Option (List β)) (as : List α) : Option (List β) :=
  (as.mapM f).map List.flatten

theorem flattenEach_eq_some {α β : Type} {f : α → Option (List β)} {g : α → List β} {as : List α}
    (h : ∀ a ∈ as, f a = some (g a)) : flattenEach f as = some (as.flatMap g) := by
  induction as with
  | nil => rfl
  | cons a as ih =>
    obtain ⟨ha, has⟩ := List.forall_mem_cons.1 h
    have rest := ih has
    obtain ⟨bs, hbs, flat⟩ := Option.map_eq_some_iff.1 rest
    simp [flattenEach, ha, hbs, flat]

mutual

/-- The order of entities as a recursion that goes where a walk goes, none if it has to go deeper
than it may. -/
def Entity.flatten : (depth : Nat) → Entity → Option (List Entity)
  | 0, _ => none
  | depth + 1, e =>
    (match e.kind with
      | .file | .type => flattenEach (Entity.flatten depth) e.allScoped
      | .function | .script => do
        let body ← flattenEach (Node.flatten depth e) e.body.toList
        let declared ← flattenEach (Entity.flatten depth) (e.scopedUnder .global)
        return body ++ declared
      | .field | .custom _ => some []).map (e :: ·)

/-- The entities that a visit of a node brings up, with `top` on top. -/
def Node.flatten : (depth : Nat) → (top : Entity) → Node → Option (List Entity)
  | 0, _, _ => none
  | depth + 1, top, n => do
    let below ← flattenEach (Node.flatten depth top)
      ((n.kind.traversedChildren n.childCount).filterMap n.child?)
    let assigned ← flattenEach (Node.flattenTarget depth top)
      (if n.kind.isAssignment then (n.child? 0).toList else [])
    let hoisted ← flattenEach (Entity.flatten depth) (top.scopedUnder (.node n.id))
    return below ++ assigned ++ hoisted

def Node.flattenTarget : (depth : Nat) → (top : Entity) → Node → Option (List Entity)
  | 0, _, _ => none
  | depth + 1, top, t =>
    match t.kind with
    | .arrayRef =>
      flattenEach (Node.flatten depth top) ((t.child? 0).toList ++ t.children.drop 2)
    | .objectRef => flattenEach (Node.flatten depth top) (t.child? 0).toList
    | .blockExpr => flattenEach (Node.flattenTarget depth top) t.lastChild?.toList
    | _ => some []

end

theorem flatMap_filterMap {α β γ : Type} (f : α → Option β) (g : β → List γ) (as : List α) :
    (as.filterMap f).flatMap g = as.flatMap fun a => ((f a).map g).getD [] := by
  induction as with
  | nil => rfl
  | cons a as ih =>
    rw [List.filterMap_cons, List.flatMap_cons]
    cases f a with
    | none => exact ih
    | some b => exact congrArg (g b ++ ·) ih

open Collector (brought brought_append)

/-- What is brought up by a node that may be missing. -/
theorem brought_getD (top : Entity) (order : Node → List NodeId) (m : Option Node) :
    brought top ((m.map order).getD []) = m.toList.flatMap fun n => brought top (order n) := by
  cases m with
  | none => rfl
  | some n => exact (List.flatMap_singleton _ _).symm

section Flatten

variable {depth : Nat}
  (he : ∀ e top, (allowance .lexical depth).entity e top → e.flatten depth = some e.preorder)
  (hn : ∀ n top, (allowance .lexical depth).node n top →
    n.flatten depth top = some (brought top n.finishOrder))
  (ht : ∀ t top, (allowance .lexical depth).target t top →
    t.flattenTarget depth top = some (brought top t.targetOrder))

include hn in
/-- Traversed children bring up what their orders say. -/
theorem flattenEach_traversed {n : Node} {top : Entity}
    (h : ∀ i m, i ∈ n.kind.traversedChildren n.childCount → n.child? i = some m →
      (allowance .lexical depth).node m top) :
    flattenEach (Node.flatten depth top)
        ((n.kind.traversedChildren n.childCount).filterMap n.child?) =
      some (brought top ((n.kind.traversedChildren n.childCount).flatMap n.childOrder)) := by
  have each : flattenEach (Node.flatten depth top)
      ((n.kind.traversedChildren n.childCount).filterMap n.child?) =
      some (((n.kind.traversedChildren n.childCount).filterMap n.child?).flatMap fun m =>
        brought top m.finishOrder) :=
    flattenEach_eq_some fun m hm => by
      obtain ⟨i, hi, hm⟩ := List.mem_filterMap.1 hm
      exact hn m top (h i m hi hm)
  rw [each, flatMap_filterMap, brought, List.flatMap_assoc]
  refine congrArg some (List.flatMap_congr fun i _ => ?_)
  unfold Node.childOrder
  cases n.child? i <;> rfl

include he hn in
theorem Entity.flatten_succ {e top : Entity}
    (h : (allowance .lexical (depth + 1)).entity e top) :
    e.flatten (depth + 1) = some e.preorder := by
  obtain ⟨held, body⟩ := h
  have declared (es) (h : ∀ x ∈ es, (allowance .lexical depth).entity x e) :
      flattenEach (Entity.flatten depth) es = some (es.flatMap Entity.preorder) :=
    flattenEach_eq_some fun x hx => he x e (h x hx)
  unfold Entity.flatten
  rw [Entity.preorder_eq]
  cases hk : e.kind with
  | file | type =>
    have held := held _ (by rw [Entity.derivation?, hk]) e rfl
    rw [Entity.held, hk] at held
    exact congrArg (·.map (e :: ·)) (declared _ held)
  | function | script =>
    have code : e.kind.isCode = true := hk ▸ rfl
    have held := held _ (Entity.derivation?_of_isCode code) e rfl
    rw [Entity.held, if_pos code] at held
    have body := flattenEach_eq_some fun n hb => hn n e (body code e rfl n (Option.mem_toList.1 hb))
    simp [body, declared _ held, brought, List.flatMap_assoc]
  | field | custom => rfl

include he hn ht in
theorem Node.flatten_succ {n : Node} {top : Entity}
    (h : (allowance .lexical (depth + 1)).node n top) :
    n.flatten (depth + 1) top = some (brought top n.finishOrder) := by
  obtain ⟨children, assigned, hoisted⟩ := h
  have below := flattenEach_traversed hn children
  have assigned : flattenEach (Node.flattenTarget depth top)
      (if n.kind.isAssignment then (n.child? 0).toList else []) =
      some (brought top (if n.kind.isAssignment then n.childTargetOrder 0 else [])) := by
    split
    · rename_i hk
      rw [Node.childTargetOrder, brought_getD]
      exact flattenEach_eq_some fun t hc => ht t top (assigned hk t (Option.mem_toList.1 hc))
    · rfl
  have hoisted := flattenEach_eq_some fun x hx => he x top (hoisted x hx)
  simp [Node.flatten, below, assigned, hoisted, Node.finishOrder_eq, brought]

include hn ht in
theorem Node.flattenTarget_succ {t : Node} {top : Entity}
    (h : (allowance .lexical (depth + 1)).target t top) :
    t.flattenTarget (depth + 1) top = some (brought top t.targetOrder) := by
  obtain ⟨operands, last⟩ := h
  have visited := flattenEach_eq_some fun m hm => hn m top (operands m hm)
  unfold Node.operands at visited
  unfold Node.flattenTarget
  rw [Node.targetOrder_eq]
  cases hk : t.kind
  case arrayRef =>
    rw [hk] at visited
    simp only [brought_append, Node.childOrder, brought_getD]
    rw [visited, List.flatMap_append, brought, List.flatMap_assoc]
    rfl
  case objectRef =>
    rw [hk] at visited
    simp only [Node.childOrder, brought_getD]
    exact visited
  case blockExpr =>
    simp only
    rw [brought_getD]
    exact flattenEach_eq_some fun u hu => ht u top (last u ⟨hk, Option.mem_toList.1 hu⟩)
  all_goals rfl

end Flatten

/-- The recursion along a walk gives the order of the entities where the depth is enough. -/
theorem flatten_eq_some (depth : Nat) :
    (∀ e top, (allowance .lexical depth).entity e top → e.flatten depth = some e.preorder) ∧
      (∀ n top, (allowance .lexical depth).node n top →
        n.flatten depth top = some (brought top n.finishOrder)) ∧
      (∀ t top, (allowance .lexical depth).target t top →
        t.flattenTarget depth top = some (brought top t.targetOrder)) := by
  induction depth with
  | zero => exact ⟨fun _ _ => False.elim, fun _ _ => False.elim, fun _ _ => False.elim⟩
  | succ depth ih =>
    obtain ⟨entity, node, target⟩ := ih
    exact ⟨fun _ _ => Entity.flatten_succ entity node,
      fun _ _ => Node.flatten_succ entity node target,
      fun _ _ => Node.flattenTarget_succ node target⟩

/-- Where each entity is on top of what is inside it, as the recorder and the collector have it, all
operations return, under whatever context they start and whatever scope tables there are; the size
of what they are about is depth enough, with what the entity on top declares for a node. The order
of the entities is computed by the recursion along a walk in the same depth. -/
theorem lexical_returns :
    (∀ {σ C : Type} (v : Visitor σ C), v.Lexical → ∀ (o : Options) (context : C)
      (s : WalkState σ),
      let w : Walker σ C := ⟨v, {}, o⟩
      (∀ root, w.Returns (fun w depth => w.walk depth root context) root.size s) ∧
      (∀ e, w.Returns (fun w depth => w.visitEntity depth e context) e.size s) ∧
      ∀ n, w.Returns (fun w depth => w.visit depth n context)
        (n.size + (v.top context).scopeSize) s) ∧
    (∀ config, (Recorder.visitor config).Lexical) ∧ Collector.visitor.Lexical ∧
    ∀ (root : Entity) (depth : Nat), root.size ≤ depth →
      root.flatten depth = some root.preorder := by
  refine ⟨fun v hv o context s => ⟨fun root => ?_, fun e => ?_, fun n => ?_⟩, Recorder.lexical,
    Collector.lexical, fun root depth hd => ?_⟩
  · exact Walker.walk_returns hv.nests rfl (root.allowance_of_size _) s
  · exact Walker.visitEntity_returns hv.nests rfl (e.allowance_of_size _) s
  · exact Walker.visit_returns hv.nests rfl (n.allowance_of_size _) s
  · have enough := (allowance_covers .lexical hd).entity (root.allowance_of_size root)
    exact (flatten_eq_some depth).1 root root enough

end SyntaxWalk
