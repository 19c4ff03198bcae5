import Mathlib.Data.List.Induction
import SyntaxWalk.Proofs.Rebound

/-!
# What scope tables hold

A scope table that has been filled by declarations holds one row for each key that was used, in the
order of first use, and in it what was declared under that key, in the order of the declarations.
Read as a whole, it is a rearrangement of all that was declared (`Entity.scopes_declareAll`).
-/

namespace SyntaxWalk

theorem eraseDups_append_singleton {α : Type} [DecidableEq α] (as : List α) (a : α) :
    (as ++ [a]).eraseDups = as.eraseDups ++ if a ∈ as then [] else [a] := by
  rw [List.eraseDups_append]
  split_ifs with h <;> simp [List.removeAll, h, List.eraseDups_cons]

theorem nodup_eraseDups {α : Type} [DecidableEq α] (as : List α) : as.eraseDups.Nodup := by
  induction as using List.reverseRecOn with
  | nil => exact List.nodup_nil
  | append_singleton as a ih =>
    rw [eraseDups_append_singleton]
    split_ifs with h
    · rwa [List.append_nil]
    · refine List.nodup_append.2 ⟨ih, List.nodup_singleton a, fun b hb c hc => ?_⟩
      rintro rfl
      exact h (List.mem_singleton.1 hc ▸ List.mem_eraseDups.1 hb)

namespace ScopeTable

variable {α : Type}

/-- The keys of the rows, in their order. -/
def keys (t : ScopeTable α) : List ScopeKey :=
  t.rows.map (·.1)

theorem keys_addTo (key : ScopeKey) (a : α) (rows : List (ScopeKey × List α)) :
    (addTo key a rows).map (·.1) =
      rows.map (·.1) ++ if key ∈ rows.map (·.1) then [] else [key] := by
  fun_induction addTo key a rows with
  | case1 => rfl
  | case2 as rows => simp
  | case3 k as rows hk ih =>
    rw [List.map_cons, ih, List.map_cons, List.cons_append]
    simp only [List.mem_cons, Ne.symm hk, false_or]

theorem keys_add (t : ScopeTable α) (key : ScopeKey) (a : α) :
    (t.add key a).keys = t.keys ++ if key ∈ t.keys then [] else [key] :=
  keys_addTo key a t.rows

/-- What is added comes into one row and leaves all else in its place. -/
theorem all_add (t : ScopeTable α) (key : ScopeKey) (a : α) :
    (t.add key a).all.Perm (t.all ++ [a]) := by
  obtain ⟨rows⟩ := t
  simp only [add, all]
  fun_induction addTo key a rows with
  | case1 => rfl
  | case2 as rows =>
    simp only [List.flatMap_cons, List.append_assoc]
    exact List.perm_append_comm.append_left as
  | case3 k as rows hk ih =>
    simp only [List.flatMap_cons, List.append_assoc]
    exact ih.append_left as

/-- A table with a row for each key is known from its keys and what is under them. -/
theorem rows_eq {t : ScopeTable α} (h : t.keys.Nodup) :
    t.rows = t.keys.map fun key => (key, t.under key) := by
  obtain ⟨rows⟩ := t
  simp only [keys, under] at h ⊢
  induction rows with
  | nil => rfl
  | cons row rows ih =>
    obtain ⟨key, as⟩ := row
    obtain ⟨hkey, hrows⟩ := List.nodup_cons.1 h
    rw [List.map_cons, List.map_cons, List.lookup_cons_self, Option.getD_some]
    refine congrArg _ ((ih hrows).trans (List.map_congr_left fun k hk => ?_))
    have hne : k ≠ key := fun he => hkey (he ▸ hk)
    rw [List.lookup_cons, beq_false_of_ne hne]

end ScopeTable

namespace Entity

variable {e : Entity}

/-- The table of an entity that has declared `adds`, and nothing else, one after the other. -/
structure Holds (e : Entity) (adds : List (ScopeKey × Entity)) : Prop where
  distinct : e.scopes.keys.Nodup
  occupied : ∀ row ∈ e.scopes.rows, row.2 ≠ []
  keys : e.scopes.keys = (adds.map (·.1)).eraseDups
  under : ∀ key, e.scopedUnder key = declaredUnder key adds
  unused : ∀ key ∉ adds.map (·.1), e.scopedUnder key = []
  all : e.allScoped = e.scopes.rows.flatMap (·.2)
  rearranged : e.allScoped.Perm (adds.map (·.2))
  ordered : ∀ key, declaredUnder key adds <:+: e.allScoped

theorem declaredUnder_eq_nil {key : ScopeKey} {adds : List (ScopeKey × Entity)} :
    declaredUnder key adds = [] ↔ key ∉ adds.map (·.1) := by
  induction adds with
  | nil => simp [declaredUnder]
  | cons add adds ih =>
    rw [declaredUnder_cons, List.append_eq_nil_iff, ih, List.map_cons, List.mem_cons, not_or]
    split_ifs with h <;> simp [h]

theorem declareAll_append_singleton (e : Entity) (adds : List (ScopeKey × Entity))
    (add : ScopeKey × Entity) :
    e.declareAll (adds ++ [add]) = (e.declareAll adds).addScoped add.1 add.2 :=
  List.foldl_append

section Undeclared

variable (he : e.scopes = {}) (adds : List (ScopeKey × Entity))

include he

theorem keys_declareAll : (e.declareAll adds).scopes.keys = (adds.map (·.1)).eraseDups := by
  induction adds using List.reverseRecOn with
  | nil => rw [declareAll, List.foldl_nil, he]; rfl
  | append_singleton adds add ih =>
    rw [declareAll_append_singleton, addScoped, ScopeTable.keys_add, ih, List.map_append,
      List.map_singleton, eraseDups_append_singleton]
    simp only [List.mem_eraseDups]

theorem allScoped_declareAll : (e.declareAll adds).allScoped.Perm (adds.map (·.2)) := by
  induction adds using List.reverseRecOn with
  | nil => rw [declareAll, List.foldl_nil, allScoped, he]; rfl
  | append_singleton adds add ih =>
    rw [declareAll_append_singleton, List.map_append]
    exact (ScopeTable.all_add ..).trans (ih.append_right _)

theorem under_declareAll (key : ScopeKey) :
    (e.declareAll adds).scopedUnder key = declaredUnder key adds := by
  have empty : e.scopedUnder key = [] := by rw [scopedUnder, he]; rfl
  rw [scopedUnder_declareAll, empty, List.nil_append]

/-- The table in full: a row for each key that was used, in the order of first use. -/
theorem rows_declareAll :
    (e.declareAll adds).scopes.rows =
      (adds.map (·.1)).eraseDups.map fun key => (key, declaredUnder key adds) := by
  have keys := keys_declareAll he adds
  rw [ScopeTable.rows_eq (keys ▸ nodup_eraseDups _), keys]
  exact List.map_congr_left fun key _ => congrArg _ (under_declareAll he adds key)

theorem holds_declareAll : (e.declareAll adds).Holds adds := by
  have keys := keys_declareAll he adds
  have rows := rows_declareAll he adds
  refine ⟨keys ▸ nodup_eraseDups _, fun row hrow => ?_, keys, under_declareAll he adds,
    fun key hkey => ?_, rfl, allScoped_declareAll he adds, fun key => ?_⟩
  · rw [rows] at hrow
    obtain ⟨key, hkey, rfl⟩ := List.mem_map.1 hrow
    exact fun h => declaredUnder_eq_nil.1 h (List.mem_eraseDups.1 hkey)
  · rw [under_declareAll he, declaredUnder_eq_nil.2 hkey]
  · by_cases hkey : key ∈ adds.map (·.1)
    · rw [allScoped, ScopeTable.all, rows, List.flatMap_map]
      exact List.infix_of_mem_flatten (List.mem_map_of_mem (List.mem_eraseDups.2 hkey))
    · rw [declaredUnder_eq_nil.2 hkey]
      exact List.nil_infix

end Undeclared

/-- The table of a new entity holds what is declared, whatever the keys and their order. -/
theorem scopes_declareAll (kind : EntityKind) (name : String) (supply : Supply)
    (adds : List (ScopeKey × Entity)) :
    (((Entity.new kind name).run supply).1.declareAll adds).Holds adds :=
  holds_declareAll rfl adds

end Entity

end SyntaxWalk
