import Mathlib.Data.List.Induction
import Mathlib.Data.List.Nodup
import Mathlib.Data.List.Perm.Basic
import SyntaxWalk.Table

/-!
# Tables as they are filled

A table that is filled entry by entry has its keys in strictly ascending order, and under each key
the last entry that was made for it (`Table.get?_filled`). A table with ascending keys is known from
what is found in it (`Table.Ascending.ext`), so neither the order of the entries nor those that have
been replaced can be told from it.
-/

namespace SyntaxWalk

namespace Table

variable {κ α : Type} [Ord κ] {t : Table κ α}

/-- The keys of a table are in strictly ascending order. -/
def Ascending (t : Table κ α) : Prop :=
  t.keys.Pairwise fun k l => compare k l = .lt

theorem Ascending.keys_nodup [Std.ReflOrd κ] (h : t.Ascending) : t.keys.Nodup := by
  refine List.Pairwise.imp (fun {k l} hlt => ?_) h
  rintro rfl
  rw [Std.ReflOrd.compare_self] at hlt
  cases hlt

theorem mem_keys_insertEntry (k : κ) (a : α) (entries : List (κ × α)) {j : κ}
    (hj : j ∈ (insertEntry k a entries).map (·.1)) : j = k ∨ j ∈ entries.map (·.1) := by
  fun_induction insertEntry k a entries with
  | case1 => simpa using hj
  | case2 l b rest h => simpa using hj
  | case3 l b rest h =>
    rcases List.mem_cons.1 hj with hj | hj
    · exact .inl hj
    · exact .inr (List.mem_cons_of_mem _ hj)
  | case4 l b rest h ih =>
    rcases List.mem_cons.1 hj with hj | hj
    · exact .inr (hj ▸ List.mem_cons_self)
    · exact (ih hj).imp_right (List.mem_cons_of_mem _)

theorem Ascending.insert [Std.LawfulEqOrd κ] [Std.TransOrd κ] (h : t.Ascending) (k : κ) (a : α) :
    (t.insert k a).Ascending := by
  obtain ⟨entries⟩ := t
  simp only [Ascending, keys, Table.insert] at h ⊢
  fun_induction insertEntry k a entries with
  | case1 => exact List.pairwise_singleton _ _
  | case2 l b rest hlt =>
    refine List.pairwise_cons.2 ⟨fun j hj => ?_, h⟩
    rcases List.mem_cons.1 hj with rfl | hj
    · exact hlt
    · exact Std.TransCmp.lt_trans hlt (List.rel_of_pairwise_cons h hj)
  | case3 l b rest heq =>
    cases Std.LawfulEqOrd.eq_of_compare heq
    exact h
  | case4 l b rest hgt ih =>
    obtain ⟨hl, hrest⟩ := List.pairwise_cons.1 h
    refine List.pairwise_cons.2 ⟨fun j hj => ?_, ih hrest⟩
    rcases mem_keys_insertEntry k a rest hj with rfl | hj
    · exact Std.OrientedCmp.lt_of_gt hgt
    · exact hl j hj

theorem mem_keys_of_get? [Std.LawfulEqOrd κ] {k : κ} {a : α} (h : t.get? k = some a) :
    k ∈ t.keys := by
  obtain ⟨entry, hentry, -⟩ := Option.map_eq_some_iff.1 h
  have keyed := List.find?_some hentry
  rw [Std.LawfulEqOrd.eq_of_compare (beq_iff_eq.1 keyed)]
  exact List.mem_map.2 ⟨entry, List.mem_of_find?_eq_some hentry, rfl⟩

theorem get?_eq_some_iff [Std.LawfulEqOrd κ] (h : t.keys.Nodup) {k : κ} {a : α} :
    t.get? k = some a ↔ (k, a) ∈ t.entries := by
  obtain ⟨entries⟩ := t
  simp only [keys, get?] at h ⊢
  induction entries with
  | nil => simp
  | cons e rest ih =>
    obtain ⟨l, b⟩ := e
    obtain ⟨hl, hrest⟩ := List.nodup_cons.1 h
    rw [List.find?_cons]
    by_cases hk : k = l
    · subst hk
      have absent : (k, a) ∉ rest := fun hmem => hl (List.mem_map.2 ⟨(k, a), hmem, rfl⟩)
      simp only [Std.ReflOrd.compare_self, beq_self_eq_true, Option.map_some, List.mem_cons,
        Prod.mk.injEq, true_and, absent, or_false, Option.some.injEq]
      exact eq_comm
    · have hne : (compare k l == .eq) = false :=
        beq_false_of_ne fun heq => hk (Std.LawfulEqOrd.eq_of_compare heq)
      simp only [hne, ih hrest, List.mem_cons, Prod.mk.injEq, hk, false_and, false_or]

theorem mem_keys_iff [Std.LawfulEqOrd κ] (h : t.keys.Nodup) {k : κ} :
    k ∈ t.keys ↔ ∃ a, t.get? k = some a := by
  constructor
  · intro hk
    obtain ⟨⟨k, a⟩, hmem, rfl⟩ := List.mem_map.1 hk
    exact ⟨a, (get?_eq_some_iff h).2 hmem⟩
  · rintro ⟨a, ha⟩
    exact mem_keys_of_get? ha

/-- Tables with ascending keys in which the same is found are the same. -/
theorem Ascending.ext [Std.LawfulEqOrd κ] [Std.TransOrd κ] {u : Table κ α} (ht : t.Ascending)
    (hu : u.Ascending) (h : ∀ k, t.get? k = u.get? k) : t = u := by
  have same (e : κ × α) : e ∈ t.entries ↔ e ∈ u.entries := by
    rw [← get?_eq_some_iff ht.keys_nodup, ← get?_eq_some_iff hu.keys_nodup, h]
  have perm : t.entries.Perm u.entries :=
    (List.perm_ext_iff_of_nodup ht.keys_nodup.of_map hu.keys_nodup.of_map).2 same
  have sorted {t : Table κ α} (h : t.Ascending) :
      t.entries.Pairwise fun e f => compare e.1 f.1 = .lt :=
    List.pairwise_map.1 h
  obtain ⟨entries⟩ := t
  obtain ⟨entries'⟩ := u
  refine congrArg Table.mk (perm.eq_of_pairwise (fun e f _ _ hef hfe => ?_) (sorted ht) (sorted hu))
  exact absurd (Ordering.isLE_of_eq_lt hfe) (Std.OrientedCmp.not_isLE_of_lt hef)

/-- The table after entries have been made, one after the other. -/
def filled (entries : List (κ × α)) : Table κ α :=
  entries.foldl (fun t e => t.insert e.1 e.2) {}

theorem filled_append_singleton (entries : List (κ × α)) (e : κ × α) :
    filled (entries ++ [e]) = (filled entries).insert e.1 e.2 :=
  List.foldl_append

variable [Std.LawfulEqOrd κ] [Std.TransOrd κ]

theorem filled_ascending (entries : List (κ × α)) : (filled entries).Ascending := by
  induction entries using List.reverseRecOn with
  | nil => exact .nil
  | append_singleton entries e ih =>
    rw [filled_append_singleton]
    exact ih.insert e.1 e.2

variable [DecidableEq κ]

/-- The last entry that was made for a key counts. -/
theorem get?_filled (entries : List (κ × α)) (k : κ) :
    (filled entries).get? k = ((entries.filter fun e => e.1 == k).map (·.2)).getLast? := by
  induction entries using List.reverseRecOn with
  | nil => rfl
  | append_singleton entries e ih =>
    rw [filled_append_singleton, get?_insert, List.filter_append]
    by_cases h : k = e.1
    · simp [h]
    · simp [h, Ne.symm h, ih]

theorem mem_keys_filled (entries : List (κ × α)) (k : κ) :
    k ∈ (filled entries).keys ↔ k ∈ entries.map (·.1) := by
  rw [mem_keys_iff (filled_ascending entries).keys_nodup, get?_filled, ← Option.isSome_iff_exists,
    List.getLast?_isSome]
  simp

end Table

end SyntaxWalk
