import SyntaxWalk.Node.Basic

/-!
# Scope tables

What an entity declares is filed under keys: the entity as a whole, or one node of its body. A table
has one row for each key that was used, in the order of first use, and within a row things stand in
the order they were added, as `under_add` says.
-/

namespace SyntaxWalk

inductive ScopeKey where
  | global
  | node (id : NodeId)
  deriving DecidableEq

structure ScopeTable (α : Type) where
  rows : List (ScopeKey × List α) := []

namespace ScopeTable

variable {α : Type}

def addTo (key : ScopeKey) (a : α) : List (ScopeKey × List α) → List (ScopeKey × List α)
  | [] => [(key, [a])]
  | (k, as) :: rows => if k = key then (k, as ++ [a]) :: rows else (k, as) :: addTo key a rows

def add (t : ScopeTable α) (key : ScopeKey) (a : α) : ScopeTable α :=
  ⟨addTo key a t.rows⟩

/-- What was filed under one key. -/
def under (t : ScopeTable α) (key : ScopeKey) : List α :=
  (t.rows.lookup key).getD []

@[grind =]
theorem under_add (t : ScopeTable α) (key k : ScopeKey) (a : α) :
    (t.add key a).under k = t.under k ++ if k = key then [a] else [] := by
  obtain ⟨rows⟩ := t
  simp only [add, under]
  fun_induction addTo key a rows with
  | case1 | case2 =>
    by_cases h : k = key
    · simp [h]
    · simp [List.lookup_cons, beq_false_of_ne h, h]
  | case3 l as rows hl ih =>
    by_cases h : k = l
    · simp [h, hl]
    · simpa [List.lookup_cons, beq_false_of_ne h] using ih

/-- Everything, row by row. -/
def all (t : ScopeTable α) : List α :=
  t.rows.flatMap (·.2)

end ScopeTable

end SyntaxWalk
