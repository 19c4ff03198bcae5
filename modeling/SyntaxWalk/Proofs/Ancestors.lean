import Mathlib.Data.Finset.Card
import Mathlib.Data.List.Chain
import SyntaxWalk.Proofs.Parents

/-!
# Ancestors in any table of parents

A table of parents may be filled in any order. Parents may be replaced, an entity may be its own
parent, and the parents may run in a circle, through the entity that is asked about or beside it.
The ancestors are found all the same: the climb from parent to parent ends, without a bound, in just
one chain (`ParentTable.Climbs`), which is as `ParentTable.Ancestry` says.
-/

namespace SyntaxWalk

theorem Entity.contains_iff {es : List Entity} {p : Entity} :
    es.contains p = true ↔ p.id ∈ es.map (·.id) := by
  rw [List.contains_eq_any_beq, List.any_eq_true, List.mem_map]
  exact exists_congr fun a => and_congr_right fun _ => (beq_iff_eq (α := EntityId)).trans eq_comm

namespace ParentTable

/-! ## What has been recorded -/

/-- The table after parents have been recorded, one after the other. A record is a child with its
parent. -/
def recorded (records : List (Entity × Entity)) : ParentTable :=
  records.foldl (fun t r => t.setParent r.1 r.2) {}

theorem recorded_eq (records : List (Entity × Entity)) :
    recorded records = Table.filled (records.map fun r => (r.1.id, r.2)) := by
  rw [Table.filled, List.foldl_map]
  rfl

/-- The last parent that has been recorded for an entity counts. -/
theorem get?_recorded (records : List (Entity × Entity)) (i : EntityId) :
    (recorded records).get? i = ((records.filter fun r => r.1.id == i).map (·.2)).getLast? := by
  rw [recorded_eq, Table.get?_filled, List.filter_map, List.map_map]
  rfl

theorem size_recorded (records : List (Entity × Entity)) :
    (recorded records).size = (records.map (·.1.id)).toFinset.card := by
  have nodup : (recorded records).keys.Nodup := by
    rw [recorded_eq]
    exact (Table.filled_ascending _).keys_nodup
  have same : (recorded records).keys.toFinset = (records.map (·.1.id)).toFinset := by
    ext i
    rw [List.mem_toFinset, List.mem_toFinset, recorded_eq, Table.mem_keys_filled, List.map_map]
    rfl
  have size : (recorded records).size = (recorded records).keys.length := (List.length_map ..).symm
  rw [size, ← List.toFinset_card_of_nodup nodup, same]

/-! ## Climbing -/

/-- What is met on the way up from `next` when nothing is met twice: the climb ends where there is
no parent, or one that has been `seen`. -/
inductive Climbs (t : ParentTable) :
    (seen : List Entity) → (next : Option Entity) → (chain : List Entity) → Prop where
  | top {seen} : t.Climbs seen none []
  | again {seen p} (h : p.id ∈ seen.map (·.id)) : t.Climbs seen (some p) []
  | up {seen p chain} (h : p.id ∉ seen.map (·.id))
      (above : t.Climbs (p :: seen) (t.parent? p) chain) : t.Climbs seen (some p) (p :: chain)

/-- The chain of parents of `e`, innermost first, which goes on until there is no parent or one that
is in the chain. -/
structure Ancestry (t : ParentTable) (e : Entity) (chain : List Entity) : Prop where
  distinct : (chain.map (·.id)).Nodup
  length_le : chain.length ≤ t.size
  first : chain.head? = t.parent? e
  next : chain.IsChain fun p q => t.parent? p = some q
  stops : ∀ p ∈ chain.getLast?, ∀ q ∈ t.parent? p, q.id ∈ chain.map (·.id)

variable {t : ParentTable} {seen chain chain' : List Entity} {next : Option Entity}
  {e p q : Entity}

/-- Different entities that have been met are parents in the table, each in an entry of its own. -/
structure Met (t : ParentTable) (seen : List Entity) : Prop where
  distinct : (seen.map (·.id)).Nodup
  parents : ∀ p ∈ seen, p ∈ t.entries.map (·.2)

theorem mem_entries_of_parent? (h : t.parent? e = some p) : p ∈ t.entries.map (·.2) := by
  obtain ⟨entry, hentry, rfl⟩ := Option.map_eq_some_iff.1 h
  exact List.mem_map_of_mem (List.mem_of_find?_eq_some hentry)

namespace Met

theorem cons (h : t.Met seen) (hp : p ∈ t.entries.map (·.2)) (fresh : p.id ∉ seen.map (·.id)) :
    t.Met (p :: seen) :=
  ⟨List.nodup_cons.2 ⟨fresh, h.distinct⟩, List.forall_mem_cons.2 ⟨hp, h.parents⟩⟩

theorem length_le (h : t.Met seen) : seen.length ≤ t.size := by
  have parents : seen.map (·.id) ⊆ (t.entries.map (·.2)).map (·.id) :=
    List.map_subset _ h.parents
  simpa [Table.size] using (List.subperm_of_subset h.distinct parents).length_le

/-- A climb that may still go up as often as there are entries to spare ends by itself. -/
theorem climbs (h : t.Met seen) (hnext : ∀ p ∈ next, p ∈ t.entries.map (·.2)) {n : Nat}
    (hn : t.size ≤ n + seen.length) :
    ∃ chain, t.extendChain n seen next = chain.reverse ++ seen ∧ t.Climbs seen next chain := by
  fun_induction extendChain t n seen next with
  | case1 seen next =>
    refine ⟨[], rfl, ?_⟩
    cases next with
    | none => exact .top
    | some p =>
      refine .again ?_
      by_contra fresh
      have longer := (h.cons (hnext p rfl) fresh).length_le
      rw [List.length_cons] at longer
      omega
  | case2 => exact ⟨[], rfl, .top⟩
  | case3 n seen p hp => exact ⟨[], rfl, .again (Entity.contains_iff.1 hp)⟩
  | case4 n seen p hp ih =>
    have fresh : p.id ∉ seen.map (·.id) := fun hmem => hp (Entity.contains_iff.2 hmem)
    obtain ⟨chain, hchain, above⟩ := ih (h.cons (hnext p rfl) fresh)
      (fun q hq => mem_entries_of_parent? hq) (by rw [List.length_cons]; omega)
    refine ⟨p :: chain, ?_, .up fresh above⟩
    rw [hchain, List.reverse_cons, List.append_assoc, List.singleton_append]

end Met

/-- The bound that the ancestors are computed with never cuts a climb short. -/
theorem climbs_ancestors (t : ParentTable) (e : Entity) :
    t.Climbs [] (t.parent? e) (t.ancestors e) := by
  have nothing : t.Met [] := ⟨List.nodup_nil, nofun⟩
  have known : ∀ p ∈ t.parent? e, p ∈ t.entries.map (·.2) := fun p hp => mem_entries_of_parent? hp
  obtain ⟨chain, hchain, climbs⟩ := nothing.climbs known (Nat.le_add_right t.size _)
  rw [ancestors, hchain, List.append_nil, List.reverse_reverse]
  exact climbs

namespace Climbs

theorem unique (h : t.Climbs seen next chain) (h' : t.Climbs seen next chain') :
    chain = chain' := by
  induction h generalizing chain' with
  | top =>
    cases h'
    rfl
  | again h =>
    cases h' with
    | again => rfl
    | up fresh => exact absurd h fresh
  | up fresh above ih =>
    cases h' with
    | again h => exact absurd h fresh
    | up _ above' => exact congrArg _ (ih above')

theorem head?_eq (h : t.Climbs seen next chain) (hs : seen = [] ∨ chain ≠ []) :
    chain.head? = next := by
  cases h with
  | top | up => rfl
  | again h =>
    obtain rfl := hs.resolve_right (absurd rfl)
    cases h

theorem distinct (h : t.Climbs seen next chain) :
    (chain.map (·.id)).Nodup ∧ ∀ p ∈ chain, p.id ∉ seen.map (·.id) := by
  induction h with
  | top | again => exact ⟨List.nodup_nil, nofun⟩
  | @up seen p chain fresh above ih =>
    obtain ⟨nodup, new⟩ := ih
    refine ⟨List.nodup_cons.2 ⟨fun hmem => ?_, nodup⟩, List.forall_mem_cons.2 ⟨fresh, ?_⟩⟩
    · obtain ⟨q, hq, hid⟩ := List.mem_map.1 hmem
      exact new q hq (hid ▸ List.mem_cons_self)
    · exact fun q hq hmem => new q hq (List.mem_cons_of_mem _ hmem)

theorem linked (h : t.Climbs seen next chain) :
    chain.IsChain fun p q => t.parent? p = some q := by
  induction h with
  | top | again => exact .nil
  | @up seen p chain fresh above ih =>
    refine List.isChain_cons.2 ⟨fun q hq => ?_, ih⟩
    rw [← above.head?_eq (.inr (List.ne_nil_of_mem (List.mem_of_mem_head? hq)))]
    exact hq

theorem parents (h : t.Climbs seen next chain) (hnext : ∀ p ∈ next, p ∈ t.entries.map (·.2)) :
    ∀ p ∈ chain, p ∈ t.entries.map (·.2) := by
  induction h with
  | top | again => exact nofun
  | up fresh above ih =>
    exact List.forall_mem_cons.2 ⟨hnext _ rfl, ih fun q hq => mem_entries_of_parent? hq⟩

theorem stops (h : t.Climbs seen next chain) :
    ∀ p ∈ chain.getLast?, ∀ q ∈ t.parent? p, q.id ∈ (chain ++ seen).map (·.id) := by
  induction h with
  | top | again => exact nofun
  | @up seen p chain fresh above ih =>
    intro last hlast q hq
    cases chain with
    | nil =>
      obtain rfl : p = last := Option.some.inj hlast
      rw [Option.mem_def.1 hq] at above
      cases above with
      | again h => exact h
    | cons first chain =>
      have hlast : last ∈ (first :: chain).getLast? := by rwa [List.getLast?_cons_cons] at hlast
      have met := ih last hlast q hq
      simp only [List.map_append, List.map_cons, List.mem_append, List.mem_cons] at met ⊢
      tauto

end Climbs

theorem ancestry_ancestors (t : ParentTable) (e : Entity) : t.Ancestry e (t.ancestors e) := by
  have climbs := t.climbs_ancestors e
  have distinct := climbs.distinct.1
  refine ⟨distinct, ?_, ?_, climbs.linked, ?_⟩
  · exact Met.length_le ⟨distinct, climbs.parents fun p hp => mem_entries_of_parent? hp⟩
  · exact climbs.head?_eq (.inl rfl)
  · have stops := climbs.stops
    rwa [List.append_nil] at stops

/-- The last record of an entity counts, and the size is the number of children. However the
parents have been recorded, the climb from an entity ends in its ancestors and in nothing else. -/
theorem ancestors_recorded (records : List (Entity × Entity)) :
    let t := recorded records
    (∀ x, t.parent? x = ((records.filter fun r => r.1 == x).map (·.2)).getLast?) ∧
      t.size = (records.map (·.1.id)).toFinset.card ∧
      ∀ e, (∀ chain, t.Climbs [] (t.parent? e) chain ↔ chain = t.ancestors e) ∧
        t.Ancestry e (t.ancestors e) := by
  intro t
  refine ⟨fun x => get?_recorded records x.id, size_recorded records, fun e => ⟨fun chain => ?_,
    t.ancestry_ancestors e⟩⟩
  constructor
  · exact fun h => h.unique (t.climbs_ancestors e)
  · rintro rfl
    exact t.climbs_ancestors e

/-- In a circle, what is asked about is its own outermost ancestor. -/
example :
    let e : Entity := { id := ⟨1⟩, kind := .function, name := "e" }
    let f : Entity := { id := ⟨2⟩, kind := .function, name := "f" }
    ((recorded [(e, e), (e, f), (f, e)]).ancestors e).map (·.id) = [f.id, e.id] := by
  decide

end ParentTable

end SyntaxWalk
