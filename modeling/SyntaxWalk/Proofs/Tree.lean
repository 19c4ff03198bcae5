import Mathlib.Data.List.Perm.Basic
import Mathlib.Data.List.Nodup
import Mathlib.Data.List.Pairwise
import SyntaxWalk.Entity.Size

/-!
# Trees of entities and nodes

The members of an entity tree and the nodes of its bodies, listed without regard to a walk. When
their numbers are all different, what declares an entity and what a node is a child of are
determined by the entity and the node (`declarer_unique`, `parent_unique`).

What is made of a tree part by part is a fold; `Node.relabel` and `Entity.mapBodies` are those that
leave the shape of a tree as it is.
-/

namespace SyntaxWalk

section Lists

variable {α β : Type} {f t : α → List α}

theorem flatMap_cons_perm (l : List α) (f : α → β) (g : α → List β) :
    (l.flatMap fun a => f a :: g a).Perm (l.map f ++ l.flatMap g) := by
  rw [List.map_eq_flatMap]
  exact (List.flatMap_append_perm l (fun a => [f a]) g).symm

/-- If a tree is listed as its top and what lies below, it is a permutation of its top and all that
is directly below something of it. -/
theorem perm_flatMap_below {a : α} (ht : ∀ a, t a = a :: (f a).flatMap t)
    (ih : ∀ b ∈ f a, (t b).Perm (b :: (t b).flatMap f)) : (t a).Perm (a :: (t a).flatMap f) := by
  have below := flatMap_cons_perm (f a) id fun b => (t b).flatMap f
  rw [List.map_id] at below
  rw [ht a, List.flatMap_cons, List.flatMap_assoc]
  exact ((List.Perm.flatMap_left (f a) ih).trans below).cons a

theorem eq_of_mem_of_mem {f : α → List β} {l : List α} (h : (l.flatMap f).Nodup) {a a' : α}
    (ha : a ∈ l) (ha' : a' ∈ l) {b : β} (hb : b ∈ f a) (hb' : b ∈ f a') : a = a' := by
  by_contra hne
  have disjoint := (List.nodup_flatMap.1 h).2
  have : Std.Symm (Function.onFun List.Disjoint f) := ⟨fun _ _ h => List.disjoint_symm h⟩
  exact disjoint.forall ha ha' hne hb hb'

end Lists

namespace ScopeTable

variable {α : Type} {t : ScopeTable α} {k : ScopeKey} {a : α}

theorem exists_row_of_mem_under (h : a ∈ t.under k) : ∃ as, (k, as) ∈ t.rows ∧ a ∈ as := by
  unfold under at h
  cases hl : t.rows.lookup k with
  | none => simp [hl] at h
  | some as =>
    obtain ⟨before, after, hr, -⟩ := List.lookup_eq_some_iff.1 hl
    exact ⟨as, by simp [hr], by simpa [hl] using h⟩

theorem mem_all_of_mem_under (h : a ∈ t.under k) : a ∈ t.all := by
  obtain ⟨as, hr, ha⟩ := exists_row_of_mem_under h
  exact List.mem_flatMap.2 ⟨(k, as), hr, ha⟩

/-- In a table without repetitions nothing is filed under two keys. -/
theorem key_unique (h : t.all.Nodup) {k' : ScopeKey} (ha : a ∈ t.under k)
    (ha' : a ∈ t.under k') : k = k' := by
  obtain ⟨as, hr, ha⟩ := exists_row_of_mem_under ha
  obtain ⟨as', hr', ha'⟩ := exists_row_of_mem_under ha'
  exact congrArg Prod.fst (eq_of_mem_of_mem h hr hr' ha ha')

/-- Everything in its place, replaced. -/
def map {β : Type} (f : α → β) (t : ScopeTable α) : ScopeTable β :=
  ⟨t.rows.map fun row => (row.1, row.2.map f)⟩

theorem under_map {β : Type} (f : α → β) (t : ScopeTable α) (k : ScopeKey) :
    (t.map f).under k = (t.under k).map f := by
  obtain ⟨rows⟩ := t
  simp only [under, map]
  induction rows with
  | nil => rfl
  | cons row rows ih =>
    rw [List.map_cons, List.lookup_cons, List.lookup_cons]
    cases k == row.1 with
    | true => rfl
    | false => exact ih

theorem all_map {β : Type} (f : α → β) (t : ScopeTable α) : (t.map f).all = t.all.map f := by
  simp only [all, map, List.flatMap_map, List.map_flatMap]

end ScopeTable

namespace Node

theorem size_eq (n : Node) : n.size = 1 + sizeEach n.children := by
  obtain ⟨id, kind, children, value, position⟩ := n
  rw [size]

theorem size_le_sizeEach {n : Node} {ns : List Node} (h : n ∈ ns) : n.size ≤ sizeEach ns := by
  induction ns with
  | nil => cases h
  | cons m ms ih =>
    rw [sizeEach]
    rcases List.mem_cons.1 h with rfl | h
    · omega
    · have := ih h
      omega

theorem size_lt_of_mem {n m : Node} (h : m ∈ n.children) : m.size < n.size := by
  have := size_le_sizeEach h
  rw [n.size_eq]
  omega

theorem mem_of_child? {n m : Node} {i : Nat} (h : n.child? i = some m) : m ∈ n.children :=
  List.mem_of_getElem? h

theorem mem_of_lastChild? {n m : Node} (h : n.lastChild? = some m) : m ∈ n.children :=
  List.mem_of_getLast? h

/-- What holds of a node when it holds of its children holds of all nodes. -/
theorem induct {P : Node → Prop} (h : ∀ n, (∀ m ∈ n.children, P m) → P n) (n : Node) : P n :=
  h n fun m hm => have := size_lt_of_mem hm; induct h m
termination_by n.size

mutual

/-- A node with all nodes below it. -/
def subtree : Node → List Node
  | ⟨id, kind, children, value, position⟩ =>
    ⟨id, kind, children, value, position⟩ :: subtreeEach children

def subtreeEach : List Node → List Node
  | [] => []
  | n :: ns => subtree n ++ subtreeEach ns

end

theorem subtree_eq (n : Node) : n.subtree = n :: n.children.flatMap subtree := by
  have each (ns : List Node) : subtreeEach ns = ns.flatMap subtree := by
    induction ns with
    | nil => rfl
    | cons m ms ih => rw [subtreeEach, ih, List.flatMap_cons]
  obtain ⟨id, kind, children, value, position⟩ := n
  rw [subtree, each]

theorem mem_subtree_self (n : Node) : n ∈ n.subtree := by
  rw [subtree_eq]
  exact List.mem_cons_self

theorem subtree_perm (n : Node) : n.subtree.Perm (n :: n.subtree.flatMap children) := by
  induction n using induct with
  | h n ih => exact perm_flatMap_below subtree_eq ih

theorem mem_subtree_children {n m k : Node} (hm : m ∈ n.subtree) (hk : k ∈ m.children) :
    k ∈ n.subtree :=
  n.subtree_perm.mem_iff.2 (List.mem_cons_of_mem _ (List.mem_flatMap.2 ⟨m, hm, hk⟩))

theorem mem_subtree_iff {n m : Node} :
    m ∈ n.subtree ↔ m = n ∨ ∃ k ∈ n.subtree, m ∈ k.children := by
  rw [n.subtree_perm.mem_iff, List.mem_cons, List.mem_flatMap]

theorem mem_subtree_trans {n m k : Node} (hm : m ∈ n.subtree) (hk : k ∈ m.subtree) :
    k ∈ n.subtree := by
  induction m using induct with
  | h m ih =>
    rw [subtree_eq] at hk
    rcases List.mem_cons.1 hk with rfl | hk
    · exact hm
    · obtain ⟨y, hy, hk⟩ := List.mem_flatMap.1 hk
      exact ih y hy (mem_subtree_children hm hy) hk

end Node

namespace Entity

/-- How much is declared in the scope table of an entity. -/
def scopeSize (e : Entity) : Nat :=
  sizeRows e.scopes.rows

theorem size_eq (e : Entity) : e.size = 1 + (e.body.map Node.size).getD 0 + e.scopeSize := by
  obtain ⟨id, kind, name, body, ⟨rows⟩⟩ := e
  rw [size, scopeSize]

theorem size_le_sizeEach {e : Entity} {es : List Entity} (h : e ∈ es) :
    e.size ≤ sizeEach es := by
  induction es with
  | nil => cases h
  | cons x xs ih =>
    rw [sizeEach]
    rcases List.mem_cons.1 h with rfl | h
    · omega
    · have := ih h
      omega

theorem size_le_scopeSize {e x : Entity} (h : x ∈ e.allScoped) : x.size ≤ e.scopeSize := by
  have rows (rows : List (ScopeKey × List Entity)) (h : x ∈ rows.flatMap (·.2)) :
      x.size ≤ sizeRows rows := by
    induction rows with
    | nil => cases h
    | cons row rows ih =>
      rw [sizeRows]
      rcases List.mem_append.1 (List.flatMap_cons ▸ h) with h | h
      · have := size_le_sizeEach h
        omega
      · have := ih h
        omega
  exact rows e.scopes.rows h

theorem size_lt_of_mem {e x : Entity} (h : x ∈ e.allScoped) : x.size < e.size := by
  have := size_le_scopeSize h
  rw [e.size_eq]
  omega

theorem mem_allScoped_of_mem_scopedUnder {e x : Entity} {k : ScopeKey}
    (h : x ∈ e.scopedUnder k) : x ∈ e.allScoped :=
  ScopeTable.mem_all_of_mem_under h

/-- What holds of an entity when it holds of all it declares holds of all entities. -/
theorem induct {P : Entity → Prop} (h : ∀ e, (∀ x ∈ e.allScoped, P x) → P e) (e : Entity) : P e :=
  h e fun x hx => have := size_lt_of_mem hx; induct h x
termination_by e.size

mutual

/-- An entity with all entities declared in it, under whatever key. -/
def members : Entity → List Entity
  | ⟨id, kind, name, body, ⟨rows⟩⟩ => ⟨id, kind, name, body, ⟨rows⟩⟩ :: membersRows rows

def membersRows : List (ScopeKey × List Entity) → List Entity
  | [] => []
  | (_, es) :: rows => membersEach es ++ membersRows rows

def membersEach : List Entity → List Entity
  | [] => []
  | e :: es => members e ++ membersEach es

end

theorem members_eq (e : Entity) : e.members = e :: e.allScoped.flatMap members := by
  have each (es : List Entity) : membersEach es = es.flatMap members := by
    induction es with
    | nil => rfl
    | cons x xs ih => rw [membersEach, ih, List.flatMap_cons]
  have rows (rows : List (ScopeKey × List Entity)) :
      membersRows rows = (rows.flatMap (·.2)).flatMap members := by
    induction rows with
    | nil => rfl
    | cons row rows ih => rw [membersRows, ih, each, List.flatMap_cons, List.flatMap_append]
  obtain ⟨id, kind, name, body, ⟨table⟩⟩ := e
  rw [members, rows]
  rfl

theorem members_perm (e : Entity) : e.members.Perm (e :: e.members.flatMap allScoped) := by
  induction e using induct with
  | h e ih => exact perm_flatMap_below members_eq ih

theorem mem_members_self (e : Entity) : e ∈ e.members := by
  rw [members_eq]
  exact List.mem_cons_self

theorem mem_members_allScoped {e p x : Entity} (hp : p ∈ e.members) (hx : x ∈ p.allScoped) :
    x ∈ e.members :=
  e.members_perm.mem_iff.2 (List.mem_cons_of_mem _ (List.mem_flatMap.2 ⟨p, hp, hx⟩))

theorem mem_members_trans {root e x : Entity} (he : e ∈ root.members) (hx : x ∈ e.members) :
    x ∈ root.members := by
  induction e using induct with
  | h e ih =>
    rw [members_eq] at hx
    rcases List.mem_cons.1 hx with rfl | h
    · exact he
    · obtain ⟨y, hy, hxy⟩ := List.mem_flatMap.1 h
      exact ih y hy (mem_members_allScoped he hy) hxy

theorem size_le_of_mem_members {root e : Entity} (he : e ∈ root.members) :
    e.size ≤ root.size := by
  induction root using induct with
  | h root ih =>
    rw [members_eq] at he
    rcases List.mem_cons.1 he with rfl | h
    · exact Nat.le_refl _
    · obtain ⟨x, hx, hex⟩ := List.mem_flatMap.1 h
      exact Nat.le_trans (ih x hx hex) (Nat.le_of_lt (size_lt_of_mem hx))

/-- The nodes of the body. -/
def bodyNodes (e : Entity) : List Node :=
  e.body.toList.flatMap Node.subtree

/-- The nodes of all bodies of an entity tree. -/
def nodes (e : Entity) : List Node :=
  e.members.flatMap bodyNodes

theorem mem_nodes_of_body {root e : Entity} {b n : Node} (he : e ∈ root.members)
    (hb : e.body = some b) (hn : n ∈ b.subtree) : n ∈ root.nodes := by
  refine List.mem_flatMap.2 ⟨e, he, ?_⟩
  rw [bodyNodes, hb, Option.toList_some, List.flatMap_singleton]
  exact hn

theorem nodes_subset {e x : Entity} (h : x ∈ e.allScoped) : x.nodes ⊆ e.nodes := by
  intro n hn
  obtain ⟨y, hy, hn⟩ := List.mem_flatMap.1 hn
  have member := mem_members_trans (mem_members_allScoped e.mem_members_self h) hy
  exact List.mem_flatMap.2 ⟨y, member, hn⟩

theorem mem_nodes_children {e : Entity} {n m : Node} (hn : n ∈ e.nodes) (hm : m ∈ n.children) :
    m ∈ e.nodes := by
  obtain ⟨x, hx, hn⟩ := List.mem_flatMap.1 hn
  obtain ⟨b, hb, hn⟩ := List.mem_flatMap.1 hn
  exact mem_nodes_of_body hx (Option.mem_toList.1 hb) (Node.mem_subtree_children hn hm)

/-! ## Trees with distinct entities -/

section Distinct

variable {root e x p q : Entity}

/-- No two entities of a tree have the same number. -/
def DistinctEntities (root : Entity) : Prop :=
  (root.members.map (·.id)).Nodup

/-- No two nodes of the bodies in a tree have the same number. -/
def DistinctNodes (root : Entity) : Prop :=
  (root.nodes.map (·.id)).Nodup

instance (root : Entity) : Decidable root.DistinctEntities :=
  inferInstanceAs (Decidable (List.Nodup _))

instance (root : Entity) : Decidable root.DistinctNodes :=
  inferInstanceAs (Decidable (List.Nodup _))

namespace DistinctEntities

theorem eq_of_id (h : root.DistinctEntities) (he : e ∈ root.members) (hx : x ∈ root.members)
    (hid : e.id = x.id) : e = x :=
  List.inj_on_of_nodup_map h he hx hid

theorem nodup (h : root.DistinctEntities) : (root :: root.members.flatMap allScoped).Nodup :=
  root.members_perm.nodup_iff.1 (h.of_map _)

theorem declarer_unique (h : root.DistinctEntities) (hp : p ∈ root.members)
    (hq : q ∈ root.members) (hxp : x ∈ p.allScoped) (hxq : x ∈ q.allScoped) : p = q :=
  eq_of_mem_of_mem (List.nodup_cons.1 h.nodup).2 hp hq hxp hxq

theorem root_not_mem (h : root.DistinctEntities) (hp : p ∈ root.members) :
    root ∉ p.allScoped :=
  fun hr => (List.nodup_cons.1 h.nodup).1 (List.mem_flatMap.2 ⟨p, hp, hr⟩)

theorem key_unique (h : root.DistinctEntities) (hp : p ∈ root.members) {k k' : ScopeKey}
    (hx : x ∈ p.scopedUnder k) (hx' : x ∈ p.scopedUnder k') : k = k' :=
  ScopeTable.key_unique ((List.nodup_flatMap.1 (List.nodup_cons.1 h.nodup).2).1 p hp) hx hx'

end DistinctEntities

/-! ## Trees with distinct nodes -/

namespace DistinctNodes

variable {n m k : Node}

theorem nodup (h : root.DistinctNodes) : (root.members.flatMap bodyNodes).Nodup :=
  h.of_map _

theorem eq_of_id (h : root.DistinctNodes) (hn : n ∈ root.nodes) (hm : m ∈ root.nodes)
    (hid : n.id = m.id) : n = m :=
  List.inj_on_of_nodup_map h hn hm hid

theorem body_nodup (h : root.DistinctNodes) (he : e ∈ root.members) :
    (e.bodyNodes.map (·.id)).Nodup := by
  unfold DistinctNodes nodes at h
  rw [List.map_flatMap] at h
  exact (List.nodup_flatMap.1 h).1 e he

theorem owner_unique (h : root.DistinctNodes) (hp : p ∈ root.members) (hq : q ∈ root.members)
    (hnp : n ∈ p.bodyNodes) (hnq : n ∈ q.bodyNodes) : p = q :=
  eq_of_mem_of_mem h.nodup hp hq hnp hnq

theorem subtree_nodup (h : root.DistinctNodes) (he : e ∈ root.members) (hb : e.body = some n) :
    (n :: n.subtree.flatMap Node.children).Nodup := by
  have body := (List.nodup_flatMap.1 h.nodup).1 e he
  rw [bodyNodes, hb, Option.toList_some, List.flatMap_singleton] at body
  exact n.subtree_perm.nodup_iff.1 body

/-- Within a body, the node that a node is a child of is determined. -/
theorem parent_unique (h : root.DistinctNodes) (he : e ∈ root.members) {b : Node}
    (hb : e.body = some b) (hn : n ∈ b.subtree) (hm : m ∈ b.subtree) (hkn : k ∈ n.children)
    (hkm : k ∈ m.children) : n = m :=
  eq_of_mem_of_mem (List.nodup_cons.1 (h.subtree_nodup he hb)).2 hn hm hkn hkm

theorem body_not_mem (h : root.DistinctNodes) (he : e ∈ root.members) {b : Node}
    (hb : e.body = some b) (hn : n ∈ b.subtree) : b ∉ n.children :=
  fun hc => (List.nodup_cons.1 (h.subtree_nodup he hb)).1 (List.mem_flatMap.2 ⟨n, hn, hc⟩)

/-- A node is a child at one place only. -/
theorem index_unique (h : root.DistinctNodes) (he : e ∈ root.members) {b : Node}
    (hb : e.body = some b) (hn : n ∈ b.subtree) {i j : Nat} (hi : n.child? i = some k)
    (hj : n.child? j = some k) : i = j := by
  have children := (List.nodup_flatMap.1 (List.nodup_cons.1 (h.subtree_nodup he hb)).2).1 n hn
  exact (List.getElem?_inj (List.getElem?_eq_some_iff.1 hi).1 children).1 (hi.trans hj.symm)

end DistinctNodes

end Distinct

end Entity

/-! ## Folds -/

namespace Node

variable {γ : Type} (f : Node → List γ → γ)

mutual

/-- What is made of a node from what is made of its children. -/
def fold : Node → γ
  | ⟨id, kind, children, value, position⟩ =>
    f ⟨id, kind, children, value, position⟩ (foldEach children)

def foldEach : List Node → List γ
  | [] => []
  | n :: ns => fold n :: foldEach ns

end

theorem fold_eq (n : Node) : n.fold f = f n (n.children.map (fold f)) := by
  have each (ns : List Node) : foldEach f ns = ns.map (fold f) := by
    induction ns with
    | nil => rfl
    | cons m ms ih => rw [foldEach, ih, List.map_cons]
  obtain ⟨id, kind, children, value, position⟩ := n
  rw [fold, each]

/-- A node with all nodes in it changed, each above what becomes of its children. -/
def relabel (g : Node → Node) : Node → Node :=
  fold fun n children => { g n with children }

section Relabel

variable (g : Node → Node) (n : Node)

theorem relabel_eq : n.relabel g = { g n with children := n.children.map (relabel g) } :=
  fold_eq _ n

@[simp] theorem relabel_children : (n.relabel g).children = n.children.map (relabel g) := by
  rw [relabel_eq]

@[simp] theorem relabel_childCount : (n.relabel g).childCount = n.childCount := by
  simp [childCount]

@[simp] theorem relabel_child? (i : Nat) :
    (n.relabel g).child? i = (n.child? i).map (relabel g) := by
  simp [child?]

@[simp] theorem relabel_lastChild? : (n.relabel g).lastChild? = n.lastChild?.map (relabel g) := by
  simp [lastChild?]

theorem relabel_size : (n.relabel g).size = n.size := by
  induction n using induct with
  | h n ih =>
    have each (ns : List Node) (h : ∀ m ∈ ns, (m.relabel g).size = m.size) :
        sizeEach (ns.map (relabel g)) = sizeEach ns := by
      induction ns with
      | nil => rfl
      | cons m ms ih =>
        obtain ⟨hm, hms⟩ := List.forall_mem_cons.1 h
        rw [List.map_cons, sizeEach, sizeEach, hm, ih hms]
    rw [size_eq, size_eq, relabel_children, each _ ih]

end Relabel

end Node

namespace Entity

variable {γ : Type} (f : Entity → ScopeTable γ → γ)

mutual

/-- What is made of an entity from what is made of all it declares. -/
def fold : Entity → γ
  | ⟨id, kind, name, body, ⟨rows⟩⟩ => f ⟨id, kind, name, body, ⟨rows⟩⟩ ⟨foldRows rows⟩

def foldRows : List (ScopeKey × List Entity) → List (ScopeKey × List γ)
  | [] => []
  | (key, es) :: rows => (key, foldEach es) :: foldRows rows

def foldEach : List Entity → List γ
  | [] => []
  | e :: es => fold e :: foldEach es

end

theorem fold_eq (e : Entity) : e.fold f = f e (e.scopes.map (fold f)) := by
  have each (es : List Entity) : foldEach f es = es.map (fold f) := by
    induction es with
    | nil => rfl
    | cons x xs ih => rw [foldEach, ih, List.map_cons]
  have table (rows : List (ScopeKey × List Entity)) :
      foldRows f rows = rows.map fun row => (row.1, row.2.map (fold f)) := by
    induction rows with
    | nil => rfl
    | cons row rows ih => rw [foldRows, each, ih, List.map_cons]
  obtain ⟨id, kind, name, body, ⟨rows⟩⟩ := e
  rw [fold, table]
  rfl

/-- An entity with all bodies in it changed. -/
def mapBodies (g : Node → Node) : Entity → Entity :=
  fold fun e scopes => { e with body := e.body.map g, scopes }

section MapBodies

variable (g : Node → Node) (e : Entity)

theorem mapBodies_eq :
    e.mapBodies g = { e with body := e.body.map g, scopes := e.scopes.map (mapBodies g) } :=
  fold_eq _ e

@[simp] theorem mapBodies_id : (e.mapBodies g).id = e.id := by rw [mapBodies_eq]

@[simp] theorem mapBodies_kind : (e.mapBodies g).kind = e.kind := by rw [mapBodies_eq]

@[simp] theorem mapBodies_name : (e.mapBodies g).name = e.name := by rw [mapBodies_eq]

@[simp] theorem mapBodies_body : (e.mapBodies g).body = e.body.map g := by rw [mapBodies_eq]

@[simp] theorem mapBodies_scopedUnder (key : ScopeKey) :
    (e.mapBodies g).scopedUnder key = (e.scopedUnder key).map (mapBodies g) := by
  rw [mapBodies_eq]
  exact ScopeTable.under_map (mapBodies g) e.scopes key

@[simp] theorem mapBodies_allScoped :
    (e.mapBodies g).allScoped = e.allScoped.map (mapBodies g) := by
  rw [mapBodies_eq]
  exact ScopeTable.all_map (mapBodies g) e.scopes

variable {g}

theorem mapBodies_size (hg : ∀ n, (g n).size = n.size) : (e.mapBodies g).size = e.size := by
  induction e using induct with
  | h e ih =>
    have each (es : List Entity) (h : ∀ x ∈ es, (x.mapBodies g).size = x.size) :
        sizeEach (es.map (mapBodies g)) = sizeEach es := by
      induction es with
      | nil => rfl
      | cons x xs ih =>
        obtain ⟨hx, hxs⟩ := List.forall_mem_cons.1 h
        rw [List.map_cons, sizeEach, sizeEach, hx, ih hxs]
    have table (rows : List (ScopeKey × List Entity))
        (h : ∀ x ∈ rows.flatMap (·.2), (x.mapBodies g).size = x.size) :
        sizeRows (rows.map fun row => (row.1, row.2.map (mapBodies g))) = sizeRows rows := by
      induction rows with
      | nil => rfl
      | cons row rows ih =>
        rw [List.flatMap_cons] at h
        obtain ⟨hrow, hrows⟩ := List.forall_mem_append.1 h
        rw [List.map_cons, sizeRows, sizeRows, each _ hrow, ih hrows]
    have body : ((e.mapBodies g).body.map Node.size).getD 0 = (e.body.map Node.size).getD 0 := by
      rw [mapBodies_body]
      cases e.body with
      | none => rfl
      | some n => exact hg n
    have scopes : (e.mapBodies g).scopeSize = e.scopeSize := by
      rw [scopeSize, mapBodies_eq]
      exact table e.scopes.rows ih
    rw [size_eq, size_eq, body, scopes]

end MapBodies

end Entity

/-- A file with a function, and in the local scope of its body the declaration of another one. -/
def hoistingFile : Entity :=
  let block : Node := { id := ⟨2⟩, kind := .blockStmt, children := [] }
  let inner : Entity := { id := ⟨3⟩, kind := .function, name := "inner" }
  let outer : Entity :=
    { id := ⟨2⟩
      kind := .function
      name := "outer"
      body := some { id := ⟨1⟩, kind := .localScope, children := [block] }
      scopes := ⟨[(.node ⟨2⟩, [inner])]⟩ }
  { id := ⟨1⟩, kind := .file, name := "file", scopes := ⟨[(.global, [outer])]⟩ }

end SyntaxWalk
