import Mathlib.Data.Set.Finite.List
import SyntaxWalk.Proofs.Termination
import SyntaxWalk.Proofs.Thorough

/-!
# Walks with one entity on top throughout

A visitor whose derived contexts are copies leaves the entity on top that was there first. Whatever
body a walk is in, what is scoped to a node is then looked up in the table of the root, and a table
that scopes an entity to a node of the entity's own body makes the walk come to the entity inside
itself, over and over (`reentrant_endless`). A depth is enough for a tree if and only if no entity
comes up inside itself (`Entity.unrepeated_iff`), and then all such walks return (`kept_returns`).
-/

namespace SyntaxWalk

open Relation

/-- What is on top of a context stays on top of what is derived from it, as it does in a copy. -/
def Visitor.KeepsTop {σ C : Type} (v : Visitor σ C) : Prop :=
  ∀ d context m, v.top (v.derive d context m).1 = v.top context

theorem Visitor.KeepsTop.nests {σ C : Type} {v : Visitor σ C} (h : v.KeepsTop) :
    v.Nests Nesting.kept := by
  intro d context m
  rw [h]
  cases d <;> exact rfl

/-! ## What comes up inside an entity -/

namespace Entity

/-- With `top` on top throughout, a walk of one entity comes to another directly. -/
inductive LeadsUnder (top : Entity) : Entity → Entity → Prop where
  | held {e d x} (hd : e.derivation? = some d) (hx : x ∈ e.held) : LeadsUnder top e x
  | brought {e b x} (hk : e.kind.isCode = true) (hb : e.body = some b) (hx : b.BringsUp top x) :
      LeadsUnder top e x

/-- With the root on top throughout, no entity that a walk comes to comes up inside itself. -/
def Unrepeated (root : Entity) : Prop :=
  ∀ e, ReflTransGen root.LeadsUnder root e → ¬ TransGen root.LeadsUnder e e

/-- All that an entity scopes to nodes is scoped to nodes of its own body. -/
def ScopesOwnNodes (e : Entity) : Prop :=
  ∀ id x, x ∈ e.scopedUnder (.node id) → ∃ n ∈ e.bodyNodes, n.id = id

variable {root e x : Entity} {depth : Nat}

theorem LeadsUnder.mem_members (h : root.LeadsUnder e x) (he : e ∈ root.members) :
    x ∈ root.members := by
  cases h with
  | held _ hx => exact mem_members_allScoped he (mem_allScoped_of_mem_held hx)
  | brought _ _ hx =>
    obtain ⟨n, -, hx⟩ := hx
    exact mem_members_allScoped root.mem_members_self (mem_allScoped_of_mem_scopedUnder hx)

theorem mem_members_of_leads (h : ReflTransGen root.LeadsUnder root e) : e ∈ root.members := by
  induction h with
  | refl => exact root.mem_members_self
  | tail _ leads ih => exact leads.mem_members ih

/-- What holds of an entity when it holds of all that comes up directly inside it holds of the root,
if no entity comes up inside itself. -/
theorem Unrepeated.induct (h : root.Unrepeated) {P : Entity → Prop}
    (step : ∀ e, (∀ x, root.LeadsUnder e x → P x) → P e) : P root := by
  -- What the walk comes to is finite, and coming up inside is a strict order on it.
  let Reached := { e : Entity // ReflTransGen root.LeadsUnder root e }
  let inside (a b : Reached) : Prop := TransGen root.LeadsUnder b.1 a.1
  have finite : Finite Reached :=
    Set.Finite.subset root.members.finite_toSet fun _ => mem_members_of_leads
  have : IsTrans Reached inside := ⟨fun _ _ _ hab hbc => hbc.trans hab⟩
  have : Std.Irrefl inside := ⟨fun a => h a.1 a.2⟩
  have wf : WellFounded inside := Finite.wellFounded_of_trans_of_irrefl inside
  have all (a : Reached) : P a.1 := by
    induction a using wf.induction with
    | h a ih => exact step a.1 fun x hx => ih ⟨x, a.2.tail hx⟩ (.single hx)
  exact all ⟨root, .refl⟩

/-- Depths that are enough for each of some entities make a depth that is enough for all. -/
theorem exists_allowance_forall {into : Nesting} {top : Entity} {P : Entity → Prop}
    {es : List Entity} (h : ∀ x ∈ es, P x → ∃ depth, (allowance into depth).entity x top) :
    ∃ depth, ∀ x ∈ es, P x → (allowance into depth).entity x top := by
  induction es with
  | nil => exact ⟨0, nofun⟩
  | cons e es ih =>
    obtain ⟨he, hes⟩ := List.forall_mem_cons.1 h
    obtain ⟨rest, enough⟩ := ih hes
    by_cases hP : P e
    · obtain ⟨first, hfirst⟩ := he hP
      refine ⟨max first rest, List.forall_mem_cons.2 ⟨fun _ => ?_, fun x hx hp => ?_⟩⟩
      · exact (allowance_covers into (Nat.le_max_left _ _)).entity hfirst
      · exact (allowance_covers into (Nat.le_max_right _ _)).entity (enough x hx hp)
    · exact ⟨rest, List.forall_mem_cons.2 ⟨fun hp => (hP hp).elim, enough⟩⟩

theorem LeadsUnder.allowance (h : root.LeadsUnder e x)
    (he : (allowance .kept (depth + 1)).entity e root) :
    (allowance .kept depth).entity x root := by
  cases h with
  | held hd hx => exact he.1 _ hd _ rfl x hx
  | brought hk hb hx => exact allowance_brought hx (he.2 hk _ rfl _ hb)

theorem allowance_of_leads (h : ReflTransGen root.LeadsUnder e x)
    (he : (allowance .kept depth).entity e root) : (allowance .kept depth).entity x root := by
  induction h with
  | refl => exact he
  | tail _ leads ih =>
    cases depth with
    | zero => exact ih.elim
    | succ depth => exact (allowance_covers .kept depth.le_succ).entity (leads.allowance ih)

/-- What comes up inside itself would need less depth than it needs. -/
theorem not_leads_self_of_allowance (he : (allowance .kept depth).entity e root) :
    ¬ TransGen root.LeadsUnder e e := by
  induction depth with
  | zero => exact he.elim
  | succ depth ih =>
    intro again
    obtain ⟨x, leads, back⟩ := TransGen.head'_iff.1 again
    exact ih (allowance_of_leads back (leads.allowance he)) again

/-- Some depth is enough for a tree if and only if no entity comes up inside itself. -/
theorem unrepeated_iff :
    root.Unrepeated ↔ ∃ depth, (allowance .kept depth).entity root root := by
  constructor
  · intro h
    refine h.induct (P := fun e => ∃ depth, (allowance .kept depth).entity e root)
      fun e ih => ?_
    have each (x) (_ : x ∈ e.allScoped ++ root.allScoped) (hx : root.LeadsUnder e x) := ih x hx
    obtain ⟨depth, inside⟩ := exists_allowance_forall each
    have enough : (allowance .kept
        (1 + (e.body.map Node.size).getD 0 + depth)).entity e root := by
      refine allowance_of_inside (fun d hd inner hi x hx => ?_) fun hk inner hi b hb x hx => ?_
      · obtain rfl : inner = root := hi
        exact inside x (List.mem_append_left _ (mem_allScoped_of_mem_held hx)) (.held hd hx)
      · obtain rfl : inner = root := hi
        have ⟨_, _, hs⟩ := hx
        exact inside x (List.mem_append_right _ (mem_allScoped_of_mem_scopedUnder hs))
          (.brought hk hb hx)
    exact ⟨_, enough⟩
  · rintro ⟨depth, h⟩ e reached
    exact not_leads_self_of_allowance (allowance_of_leads reached h)

/-- If the root scopes things to its own nodes alone, what comes up inside an entity is declared by
it: the root is the only entity whose body brings anything up. -/
theorem ScopesOwnNodes.declared (h : root.ScopesOwnNodes) (hn : root.DistinctNodes)
    (he : e ∈ root.members) (leads : root.LeadsUnder e x) : x ∈ e.allScoped := by
  cases leads with
  | held _ hx => exact mem_allScoped_of_mem_held hx
  | brought _ hb hx =>
    obtain ⟨n, reaches, hx⟩ := hx
    obtain ⟨m, own, same⟩ := h n.id x hx
    have here : n ∈ e.bodyNodes := by
      rw [bodyNodes, hb]
      exact List.mem_flatMap.2 ⟨_, List.mem_singleton_self _, reaches.mem_subtree⟩
    have hr := root.mem_members_self
    obtain rfl : m = n := hn.eq_of_id (List.mem_flatMap.2 ⟨root, hr, own⟩)
      (List.mem_flatMap.2 ⟨e, he, here⟩) same
    obtain rfl : e = root := hn.owner_unique he hr here own
    exact mem_allScoped_of_mem_scopedUnder hx

theorem ScopesOwnNodes.allowance_size (h : root.ScopesOwnNodes) (hn : root.DistinctNodes) :
    (allowance .kept root.size).entity root root := by
  have all (e : Entity) (he : e ∈ root.members) : (allowance .kept e.size).entity e root := by
    induction e using induct with
    | h e ih =>
      have inside (x) (leads : root.LeadsUnder e x) :
          (allowance .kept e.scopeSize).entity x root := by
        have hx := h.declared hn he leads
        exact (allowance_covers .kept (size_le_scopeSize hx)).entity
          (ih x hx (mem_members_allScoped he hx))
      rw [e.size_eq]
      refine allowance_of_inside (fun _ hd inner hi x hx => ?_) fun hk inner hi _ hb x hx => ?_
      · obtain rfl : inner = root := hi
        exact inside x (.held hd hx)
      · obtain rfl : inner = root := hi
        exact inside x (.brought hk hb hx)
  exact all root root.mem_members_self

end Entity

/-! ## Walks that return -/

/-- With so much depth every walk of a tree without handlers returns, under contexts that keep the
root on top. -/
def Entity.ReturnsKept (root : Entity) (least : Nat) : Prop :=
  ∀ {σ C : Type} (v : Visitor σ C), v.KeepsTop → ∀ (o : Options) (context : C),
    v.top context = root → ∀ s : WalkState σ,
      (⟨v, {}, o⟩ : Walker σ C).Returns (fun w depth => w.walk depth root context) least s

theorem Entity.returnsKept_of_allowance {root : Entity} {least : Nat}
    (h : (allowance .kept least).entity root root) : root.ReturnsKept least := by
  intro σ C v hv o context ht s
  refine Walker.walk_returns hv.nests rfl ?_ s
  change (allowance .kept least).entity root (v.top context)
  rw [ht]
  exact h

/-- If no entity comes up inside itself, every walk under contexts that keep the root on top
returns. The condition is no stronger than it has to be: where a walk takes no way around anything,
has the numbers of children checked and succeeds, no entity comes up inside itself. None does if the
root scopes things to its own nodes alone, and then the size of the tree is depth enough. -/
theorem kept_returns (root : Entity) :
    (root.Unrepeated → ∃ least, root.ReturnsKept least) ∧
    (∀ {σ C : Type} (v : Visitor σ C), v.KeepsTop → v.Proceeds →
      ∀ (o : Options) (context : C), o.checkArity = true → v.top context = root →
        ∀ {depth s table t},
          (⟨v, {}, o⟩ : Walker σ C).walk depth root context s = .ok table t → root.Unrepeated) ∧
    (root.DistinctNodes → root.ScopesOwnNodes → root.Unrepeated ∧ root.ReturnsKept root.size) := by
  refine ⟨fun h => ?_, fun {_ _} v hv hp o context hc ht {_ _ _ _} hs => ?_, fun hn h => ?_⟩
  · obtain ⟨least, enough⟩ := Entity.unrepeated_iff.1 h
    exact ⟨least, Entity.returnsKept_of_allowance enough⟩
  · have enough := Walker.allowance_of_walk_ok (w := ⟨v, {}, o⟩) hv.nests hp rfl hc hs
    change (allowance .kept _).entity root (v.top context) at enough
    rw [ht] at enough
    exact Entity.unrepeated_iff.2 ⟨_, enough⟩
  · have enough := h.allowance_size hn
    exact ⟨Entity.unrepeated_iff.2 ⟨_, enough⟩, Entity.returnsKept_of_allowance enough⟩

/-- A walker whose contexts are entities and all of them copies; it takes nothing over. -/
def copyingWalker : Walker Unit Entity where
  visitor :=
    { top := id
      derive := fun _ context => pure context
      answer := fun _ => pure .proceed }

theorem copyingWalker_keepsTop : copyingWalker.visitor.KeepsTop :=
  fun _ _ _ => rfl

theorem copyingWalker_proceeds : copyingWalker.visitor.Proceeds :=
  fun _ _ => rfl

/-- A function with a statement and, scoped to the statement, another function. -/
def nestedFunction : Entity :=
  let inner : Entity :=
    { id := ⟨2⟩
      kind := .function
      name := "inner"
      body := some { id := ⟨2⟩, kind := .empty, children := [] } }
  { id := ⟨1⟩
    kind := .function
    name := "outer"
    body := some { id := ⟨1⟩, kind := .empty, children := [] }
    scopes := ⟨[(.node ⟨1⟩, [inner])]⟩ }

theorem kept_returns_nestedFunction :
    nestedFunction.DistinctNodes ∧ nestedFunction.ScopesOwnNodes ∧
      copyingWalker.visitor.KeepsTop ∧ copyingWalker.visitor.Proceeds ∧
      (∃ table t, copyingWalker.walk 4 nestedFunction nestedFunction { memory := () } =
        .ok table t) ∧
      nestedFunction.Unrepeated ∧ (∃ least, nestedFunction.ReturnsKept least) ∧
      ∀ s, copyingWalker.Returns
        (fun w depth => w.walk depth nestedFunction nestedFunction) 4 s := by
  have distinct : nestedFunction.DistinctNodes := by decide
  have own : nestedFunction.ScopesOwnNodes := by
    intro i x hx
    obtain ⟨xs, hr, hx⟩ := ScopeTable.exists_row_of_mem_under hx
    cases List.mem_singleton.1 hr
    exact ⟨_, List.mem_singleton_self _, rfl⟩
  obtain ⟨returns, succeeds, sized⟩ := kept_returns nestedFunction
  have walks := (sized distinct own).2 copyingWalker.visitor copyingWalker_keepsTop {}
    nestedFunction rfl
  have run : ∃ table t, copyingWalker.walk 4 nestedFunction nestedFunction { memory := () } =
      .ok table t := ⟨_, _, rfl⟩
  have ⟨_, _, ok⟩ := run
  have unrepeated : nestedFunction.Unrepeated := succeeds copyingWalker.visitor
    copyingWalker_keepsTop copyingWalker_proceeds {} nestedFunction rfl rfl ok
  exact ⟨distinct, own, copyingWalker_keepsTop, copyingWalker_proceeds, run, unrepeated,
    returns unrepeated, walks⟩

/-! ## A walk that does not return -/

namespace Walk

variable {σ C α β : Type} {n k l : Nat} {x : Walk (Logged σ C) α} {f : α → Walk (Logged σ C) β}
  {a : α} {b : β}

/-- A piece of a walk always ends with the same value, and has made so many entries then. -/
def Passes (k : Nat) (a : α) (x : Walk (Logged σ C) α) : Prop :=
  ∀ s, ∃ t, x s = .ok a t ∧ s.memory.log.length + k ≤ t.memory.log.length

/-- A piece of a walk runs out of depth, and has made so many entries then. -/
def Exhausts (n : Nat) (x : Walk (Logged σ C) α) : Prop :=
  ∀ s, ∃ t, x s = .error .outOfDepth t ∧ s.memory.log.length + n ≤ t.memory.log.length

theorem Passes.pure : Passes 0 a (pure a : Walk (Logged σ C) α) :=
  fun s => ⟨s, rfl, Nat.le_refl _⟩

theorem Passes.bind (hx : Passes k a x) (hf : Passes l b (f a)) : Passes (l + k) b (x >>= f) := by
  intro s
  obtain ⟨t, hs, ht⟩ := hx s
  obtain ⟨u, hu, hl⟩ := hf t
  exact ⟨u, Walk.bind_eq_ok.2 ⟨a, t, hs, hu⟩, by omega⟩

theorem Exhausts.outOfDepth : Exhausts 0 (throw .outOfDepth : Walk (Logged σ C) α) :=
  fun s => ⟨s, rfl, Nat.le_refl _⟩

theorem Exhausts.mono (hx : Exhausts (n + k) x) : Exhausts n x := by
  intro s
  obtain ⟨t, hs, ht⟩ := hx s
  exact ⟨t, hs, by omega⟩

theorem Exhausts.bind (hx : Exhausts n x) : Exhausts n (x >>= f) := by
  intro s
  obtain ⟨t, hs, ht⟩ := hx s
  exact ⟨t, Walk.bind_eq_error.2 (.inl hs), ht⟩

theorem Passes.exhausts (hx : Passes k a x) (hf : Exhausts n (f a)) :
    Exhausts (n + k) (x >>= f) := by
  intro s
  obtain ⟨t, hs, ht⟩ := hx s
  obtain ⟨u, hu, hn⟩ := hf t
  exact ⟨u, Walk.bind_eq_error.2 (.inr ⟨a, t, hs, hu⟩), by omega⟩

end Walk

namespace copyingWalker

theorem call_passes (c : HookCall Entity) :
    (copyingWalker.logged.call c).Passes 1 .proceed := by
  intro s
  refine ⟨⟨⟨(), s.memory.log ++ [.called c .proceed]⟩, s.parents⟩, rfl, ?_⟩
  simp

theorem derive_passes (d : Derivation) (context : Entity) :
    (copyingWalker.logged.derive d context).Passes 1 context := by
  intro s
  refine ⟨⟨⟨(), s.memory.log ++ [.derived d context context]⟩, s.parents⟩, rfl, ?_⟩
  simp

theorem callEntity_passes (hook : EntityHook) (e context : Entity) (inner : Option Entity) :
    (copyingWalker.logged.callEntity hook e context inner).Passes 1 .proceed :=
  fun s => call_passes _ s

theorem setParent_passes {child parent : Entity} :
    (Walk.setParent child parent : Walk (Logged Unit Entity) Unit).Passes 0 () :=
  fun _ => ⟨_, rfl, Nat.le_refl _⟩

end copyingWalker

/-- A statement. -/
def reentrantStatement : Node :=
  { id := ⟨1⟩, kind := .empty, children := [] }

/-- A function with the statement for its body. -/
def reentrantFunction : Entity :=
  { id := ⟨2⟩, kind := .function, name := "g", body := some reentrantStatement }

/-- A file that scopes the function to the function's own statement. -/
def reentrantFile : Entity :=
  { id := ⟨1⟩, kind := .file, name := "r", scopes := ⟨[(.node ⟨1⟩, [reentrantFunction])]⟩ }

/-- The function comes up inside itself once for every two layers, with the calls of its hooks. -/
theorem reentrant_exhausts (depth : Nat) :
    ((copyingWalker.logged.descent depth).entity reentrantFunction reentrantFile).Exhausts depth ∧
      ((copyingWalker.logged.descent depth).node reentrantStatement reentrantFile).Exhausts
        depth := by
  induction depth with
  | zero => exact ⟨.outOfDepth, .outOfDepth⟩
  | succ depth ih =>
    obtain ⟨function, statement⟩ := ih
    -- Entering costs an entry on either side, which pays for the layer; the rest is let go.
    refine ⟨?_, ?_⟩
    · refine (copyingWalker.callEntity_passes _ _ _ _).exhausts <| .bind <| .mono (k := 2) ?_
      exact (copyingWalker.derive_passes _ _).exhausts <|
        (copyingWalker.callEntity_passes _ _ _ _).exhausts <| .bind <| .bind statement
    · have arity : (copyingWalker.logged.checkArity reentrantStatement).Passes 0 () :=
        Walk.Passes.pure
      have inside : (copyingWalker.logged.runNode (copyingWalker.logged.descent depth)
          reentrantStatement reentrantFile).Passes 2 .proceed :=
        (copyingWalker.call_passes _).bind <| Walk.Passes.pure.bind <|
          (copyingWalker.call_passes _).bind .pure
      refine (copyingWalker.call_passes _).exhausts <| arity.exhausts <| .mono (k := 2) ?_
      exact inside.exhausts <| .bind <| copyingWalker.setParent_passes.exhausts <| .bind function

theorem reentrant_walk_exhausts (depth : Nat) :
    (copyingWalker.logged.walk depth reentrantFile reentrantFile).Exhausts depth := by
  have start : (modify fun s => { s with parents := {} } :
      Walk (Logged Unit Entity) Unit).Passes 0 () :=
    fun _ => ⟨_, rfl, Nat.le_refl _⟩
  refine start.exhausts (.bind ?_)
  cases depth with
  | zero => exact .outOfDepth
  | succ depth =>
    obtain ⟨function, -⟩ := reentrant_exhausts depth
    refine (copyingWalker.callEntity_passes _ _ _ _).exhausts <| .bind <| .mono (k := 2) ?_
    exact (copyingWalker.derive_passes _ _).exhausts <|
      (copyingWalker.callEntity_passes _ _ _ _).exhausts <| .bind <|
        copyingWalker.setParent_passes.exhausts <| .bind function

/-- Under copied contexts a walk of this file, which builders make, calls hooks without end. -/
theorem reentrant_endless :
    ((Node.leaf .empty).run {}).1 = reentrantStatement ∧
      ((do
          let file ← Entity.new .file "r"
          let function ← Entity.new .function "g"
          return file.addScoped (.node reentrantStatement.id)
            (function.withBody reentrantStatement) : StateM Supply Entity).run {}).1 =
        reentrantFile ∧
      reentrantFile.DistinctEntities ∧ reentrantFile.DistinctNodes ∧
      (∀ d context m, copyingWalker.visitor.derive d context m = (context, m)) ∧
      copyingWalker.visitor.Proceeds ∧ copyingWalker.visitor.top reentrantFile = reentrantFile ∧
      (∀ depth s, depth ≤ (copyingWalker.walkLog depth reentrantFile reentrantFile s).length) ∧
      ∀ least s, ¬ copyingWalker.Returns
        (fun w depth => w.walk depth reentrantFile reentrantFile) least s := by
  have stops (depth) (s) : ∃ t,
      copyingWalker.walk depth reentrantFile reentrantFile s = .error .outOfDepth t ∧
        depth ≤ (copyingWalker.walkLog depth reentrantFile reentrantFile s).length := by
    obtain ⟨t, ht, entries⟩ := reentrant_walk_exhausts depth s.withLog
    refine ⟨t.forget, (copyingWalker.walk_logged depth reentrantFile reentrantFile).error ht, ?_⟩
    simpa [Walker.walkLog, Walk.log, Walk.final, ht] using (Nat.le_add_left _ _).trans entries
  refine ⟨rfl, rfl, by decide, by decide, fun _ _ _ => rfl, copyingWalker_proceeds, rfl,
    fun depth s => ?_, ?_⟩
  · obtain ⟨_, -, entries⟩ := stops depth s
    exact entries
  · rintro least s ⟨result, calls, ends, deeper⟩
    obtain ⟨t, run, -⟩ := stops least s
    exact ends t ((deeper least (Nat.le_refl _)).1.symm.trans run)

end SyntaxWalk
