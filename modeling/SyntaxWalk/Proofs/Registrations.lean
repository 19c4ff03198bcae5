import SyntaxWalk.Proofs.ByteOrder
import SyntaxWalk.Proofs.Quoting
import SyntaxWalk.Proofs.Tables
import SyntaxWalk.Walk.Extension

/-!
# Handlers as they are registered

Registrations for entities, nodes and assignment targets may come in any order and under any names.
Each of the three tables is filled by the registrations made in it and by no other
(`Extensions.registered_eq`); so what is found, what is listed, and the tables as a whole depend on
the last registration under each name alone (`Extensions.registered_canonical`). The names are shown
as three lists of quoted texts, which can be read off from what is shown
(`ExtensionNames.render_injective`).
-/

namespace SyntaxWalk

/-! ## The text of the names -/

namespace ExtensionNames

open Text.Quoted

variable {xs ys : List String} {r s : List Char}

theorem render_eq (names : ExtensionNames) :
    names.render =
      "Extensions \x7b entities: [" ++ ", ".intercalate (names.entities.map quote) ++
      "], nodes: [" ++ ", ".intercalate (names.nodes.map quote) ++
      "], assign_targets: [" ++ ", ".intercalate (names.targets.map quote) ++
      "] \x7d" := by
  have opening : "Extensions \x7b entities: [" = "Extensions \x7b entities: " ++ "[" := by decide
  have nodes : "], nodes: [" = "]" ++ ", nodes: " ++ "[" := by decide
  have targets : "], assign_targets: [" = "]" ++ ", assign_targets: " ++ "[" := by decide
  have closing : "] \x7d" = "]" ++ " \x7d" := by decide
  unfold render renderList
  simp only [opening, nodes, targets, closing, String.append_assoc]

/-- The names of a list as they stand between its brackets. -/
def items (xs : List String) : List Char :=
  (", ".intercalate (xs.map quote)).toList

/-- What follows a name in a list with the names `xs` after it. -/
def following (xs : List String) (r : List Char) : List Char :=
  if xs = [] then ']' :: r else ',' :: ' ' :: (items xs ++ ']' :: r)

theorem items_cons (x : String) (xs : List String) (r : List Char) :
    items (x :: xs) ++ ']' :: r = '"' :: (encode x.toList ++ '"' :: following xs r) := by
  cases xs with
  | nil => simp [items, following, quote]
  | cons y ys => simp [items, following, quote]

/-- The names of a list are known from the front of a text, and so is what comes after the list. -/
theorem items_append_injective (h : items xs ++ ']' :: r = items ys ++ ']' :: s) :
    xs = ys ∧ r = s := by
  induction xs generalizing ys with
  | nil =>
    cases ys with
    | nil => exact ⟨rfl, (List.cons.inj h).2⟩
    | cons y ys =>
      rw [items_cons] at h
      cases h
  | cons x xs ih =>
    cases ys with
    | nil =>
      rw [items_cons] at h
      cases h
    | cons y ys =>
      rw [items_cons, items_cons] at h
      obtain ⟨name, rest⟩ := encode_append_injective (List.cons.inj h).2
      obtain rfl : x = y := String.toList_inj.1 name
      unfold following at rest
      split_ifs at rest with hx hy hy
      · exact ⟨by rw [hx, hy], (List.cons.inj rest).2⟩
      · cases rest
      · cases rest
      · obtain ⟨rfl, rfl⟩ := ih (List.cons.inj (List.cons.inj rest).2).2
        exact ⟨rfl, rfl⟩

theorem renderList_append_injective
    (h : (renderList xs).toList ++ r = (renderList ys).toList ++ s) : xs = ys ∧ r = s := by
  refine items_append_injective ?_
  simpa [renderList, items] using h

/-- The three lists are known from their text. -/
theorem render_injective {names names' : ExtensionNames} (h : names.render = names'.render) :
    names = names' := by
  have chars := congrArg String.toList h
  unfold render at chars
  simp only [String.toList_append, List.append_assoc] at chars
  obtain ⟨entities, chars⟩ := renderList_append_injective (List.append_cancel_left chars)
  obtain ⟨nodes, chars⟩ := renderList_append_injective (List.append_cancel_left chars)
  obtain ⟨targets, -⟩ := renderList_append_injective (List.append_cancel_left chars)
  rw [mk.injEq]
  exact ⟨entities, nodes, targets⟩

end ExtensionNames

/-! ## Registrations -/

/-- A handler with the name of the kind that it is registered under. -/
inductive Registration (σ C : Type) where
  | entity (kind : String) (handler : EntityHandler σ C)
  | node (kind : String) (handler : NodeHandler σ C)
  | target (kind : String) (handler : TargetHandler σ C)

namespace Registration

variable {σ C : Type}

def entity? : Registration σ C → Option (String × EntityHandler σ C)
  | .entity kind handler => some (kind, handler)
  | _ => none

def node? : Registration σ C → Option (String × NodeHandler σ C)
  | .node kind handler => some (kind, handler)
  | _ => none

def target? : Registration σ C → Option (String × TargetHandler σ C)
  | .target kind handler => some (kind, handler)
  | _ => none

/-- The last handler that is registered under a name. -/
def lastUnder {α : Type} (kind : String) (rs : List (String × α)) : Option α :=
  ((rs.filter fun r => r.1 == kind).map (·.2)).getLast?

/-- The names hold each name of a registration once, in the order of their bytes. -/
structure ListedBy {α : Type} (names : List String) (rs : List (String × α)) : Prop where
  mem_iff : ∀ kind, kind ∈ names ↔ kind ∈ rs.map (·.1)
  ascending : names.Pairwise fun a b => Text.bytes a < Text.bytes b

theorem get?_filled {α : Type} (rs : List (String × α)) (kind : String) :
    (Table.filled rs).get? kind = lastUnder kind rs :=
  Table.get?_filled rs kind

theorem listedBy_filled {α : Type} (rs : List (String × α)) :
    ListedBy (Table.filled rs).keys rs where
  mem_iff := Table.mem_keys_filled rs
  ascending := (Table.filled_ascending rs).imp fun {a b} h =>
    (Text.lt_iff_bytes a b).1 (compareOfLessAndEq_eq_lt.1 h)

/-- There is one such list of names. -/
theorem ListedBy.unique {α : Type} {names names' : List String} {rs : List (String × α)}
    (h : ListedBy names rs) (h' : ListedBy names' rs) : names = names' := by
  have nodup {names : List String} (h : ListedBy names rs) : names.Nodup := by
    refine h.ascending.imp ?_
    rintro name _ less rfl
    exact List.lt_irrefl _ less
  have same : names.Perm names' :=
    (List.perm_ext_iff_of_nodup (nodup h) (nodup h')).2 fun kind =>
      (h.mem_iff kind).trans (h'.mem_iff kind).symm
  exact same.eq_of_pairwise (fun _ _ _ _ less greater => absurd greater (List.lt_asymm less))
    h.ascending h'.ascending

theorem keys_filled_eq_nil {α : Type} {rs : List (String × α)} :
    (Table.filled rs).keys = [] ↔ rs = [] := by
  rw [List.eq_nil_iff_forall_not_mem]
  simp only [Table.mem_keys_filled, ← List.eq_nil_iff_forall_not_mem, List.map_eq_nil_iff]

/-- In each table the same handler, or none, is registered last under each name. -/
def EndAlike (rs ss : List (Registration σ C)) : Prop :=
  ∀ kind, lastUnder kind (rs.filterMap entity?) = lastUnder kind (ss.filterMap entity?) ∧
    lastUnder kind (rs.filterMap node?) = lastUnder kind (ss.filterMap node?) ∧
    lastUnder kind (rs.filterMap target?) = lastUnder kind (ss.filterMap target?)

end Registration

namespace Extensions

open Registration

variable {σ C : Type}

def register (x : Extensions σ C) : Registration σ C → Extensions σ C
  | .entity kind handler => x.withEntity kind handler
  | .node kind handler => x.withNode kind handler
  | .target kind handler => x.withTarget kind handler

/-- The tables after registrations, one after the other. -/
def registered (rs : List (Registration σ C)) : Extensions σ C :=
  rs.foldl register {}

theorem registered_append_singleton (rs : List (Registration σ C)) (r : Registration σ C) :
    registered (rs ++ [r]) = (registered rs).register r :=
  List.foldl_append

/-- A registration fills its own table and leaves the two others as they are. -/
theorem registered_eq (rs : List (Registration σ C)) :
    registered rs = { entities := .filled (rs.filterMap entity?)
                      nodes := .filled (rs.filterMap node?)
                      targets := .filled (rs.filterMap target?) } := by
  induction rs using List.reverseRecOn with
  | nil => rfl
  | append_singleton rs r ih =>
    rw [registered_append_singleton, ih]
    simp only [List.filterMap_append]
    cases r <;>
      simp [register, withEntity, withNode, withTarget, List.filterMap_cons, entity?, node?,
        target?, Table.filled_append_singleton]

theorem registered_isEmpty_iff (rs : List (Registration σ C)) :
    (registered rs).names.isEmpty ↔ rs = [] := by
  rw [registered_eq]
  simp only [names, ExtensionNames.isEmpty, Bool.and_eq_true, List.isEmpty_iff, keys_filled_eq_nil,
    List.filterMap_eq_nil_iff]
  constructor
  · rintro ⟨⟨entities, nodes⟩, targets⟩
    refine List.eq_nil_iff_forall_not_mem.2 fun r hr => ?_
    cases r with
    | entity kind handler => exact Option.some_ne_none _ (entities _ hr)
    | node kind handler => exact Option.some_ne_none _ (nodes _ hr)
    | target kind handler => exact Option.some_ne_none _ (targets _ hr)
  · rintro rfl
    exact ⟨⟨nofun, nofun⟩, nofun⟩

theorem get?_registered (rs : List (Registration σ C)) (kind : String) :
    (registered rs).entities.get? kind = lastUnder kind (rs.filterMap entity?) ∧
      (registered rs).nodes.get? kind = lastUnder kind (rs.filterMap node?) ∧
      (registered rs).targets.get? kind = lastUnder kind (rs.filterMap target?) := by
  rw [registered_eq]
  exact ⟨get?_filled .., get?_filled .., get?_filled ..⟩

theorem listedBy_registered (rs : List (Registration σ C)) :
    ListedBy (registered rs).names.entities (rs.filterMap entity?) ∧
      ListedBy (registered rs).names.nodes (rs.filterMap node?) ∧
      ListedBy (registered rs).names.targets (rs.filterMap target?) := by
  rw [registered_eq]
  exact ⟨listedBy_filled _, listedBy_filled _, listedBy_filled _⟩

theorem endAlike_iff (ss rs : List (Registration σ C)) :
    EndAlike ss rs ↔ registered ss = registered rs := by
  refine ⟨fun h => ?_, fun h kind => ?_⟩
  · simp only [registered_eq, mk.injEq]
    refine ⟨?_, ?_, ?_⟩ <;>
      refine (Table.filled_ascending _).ext (Table.filled_ascending _) fun kind => ?_
    · simpa only [get?_filled] using (h kind).1
    · simpa only [get?_filled] using (h kind).2.1
    · simpa only [get?_filled] using (h kind).2.2
  · obtain ⟨entities, nodes, targets⟩ := get?_registered ss kind
    rw [← entities, ← nodes, ← targets, h]
    exact get?_registered rs kind

/-- The text tells which names are registered in which table, and nothing else. -/
theorem render_eq_iff_listedBy (rs : List (Registration σ C)) (names : ExtensionNames) :
    names.render = (registered rs).names.render ↔
      ListedBy names.entities (rs.filterMap entity?) ∧
        ListedBy names.nodes (rs.filterMap node?) ∧
        ListedBy names.targets (rs.filterMap target?) := by
  have listed := listedBy_registered rs
  refine ⟨fun h => ?_, fun ⟨entities, nodes, targets⟩ => ?_⟩
  · rwa [ExtensionNames.render_injective h]
  · have same : names = (registered rs).names := by
      rw [ExtensionNames.mk.injEq]
      exact ⟨entities.unique listed.1, nodes.unique listed.2.1, targets.unique listed.2.2⟩
    rw [same]

/-- The last registration in a table under a name is found there; each list of names holds the names
registered in its table, once and in the order of their bytes; and two sequences of registrations
make the same tables if and only if they end alike. The text of the names is made up of the three
lists and shows them as they are: any other names have another text. -/
theorem registered_canonical (rs : List (Registration σ C)) :
    let x := registered rs
    (∀ kind, x.entities.get? kind = lastUnder kind (rs.filterMap entity?) ∧
      x.nodes.get? kind = lastUnder kind (rs.filterMap node?) ∧
      x.targets.get? kind = lastUnder kind (rs.filterMap target?)) ∧
    ListedBy x.names.entities (rs.filterMap entity?) ∧
    ListedBy x.names.nodes (rs.filterMap node?) ∧
    ListedBy x.names.targets (rs.filterMap target?) ∧
    (x.names.isEmpty ↔ rs = []) ∧
    x.copy = x ∧
    (∀ ss, EndAlike ss rs ↔ registered ss = x) ∧
    x.names.render =
      "Extensions \x7b entities: [" ++ ", ".intercalate (x.names.entities.map Text.Quoted.quote) ++
      "], nodes: [" ++ ", ".intercalate (x.names.nodes.map Text.Quoted.quote) ++
      "], assign_targets: [" ++ ", ".intercalate (x.names.targets.map Text.Quoted.quote) ++
      "] \x7d" ∧
    (∀ names : ExtensionNames, names.render = x.names.render ↔
      ListedBy names.entities (rs.filterMap entity?) ∧
      ListedBy names.nodes (rs.filterMap node?) ∧
      ListedBy names.targets (rs.filterMap target?)) ∧
    (∀ ss, EndAlike ss rs → (registered ss).names.render = x.names.render) ∧
    x.copy.names.render = x.names.render := by
  intro x
  obtain ⟨entities, nodes, targets⟩ := listedBy_registered rs
  exact ⟨get?_registered rs, entities, nodes, targets, registered_isEmpty_iff rs, rfl,
    fun ss => endAlike_iff ss rs, x.names.render_eq, render_eq_iff_listedBy rs,
    fun ss h => congrArg (·.names.render) ((endAlike_iff ss rs).1 h), rfl⟩

/-- A name may stand in several tables, and in each of them it stands once. -/
example (h : NodeHandler σ C) (k : TargetHandler σ C) :
    (registered [.node "b" h, .target "b" k, .node "a" h, .node "b" h]).names =
      ⟨[], ["a", "b"], ["b"]⟩ := by
  rfl

end Extensions

end SyntaxWalk
