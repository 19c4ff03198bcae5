/-!
# Tables in the order of their keys

A finite table is a list of entries with ascending keys, so that two tables with the same content
are equal. `insert` replaces the entry of its key; the order of the keys comes from `compare`, and
`get?_insert` says what is found afterwards.
-/

namespace SyntaxWalk

structure Table (κ α : Type) where
  entries : List (κ × α) := []

namespace Table

variable {κ α : Type} [Ord κ]

def insertEntry (k : κ) (a : α) : List (κ × α) → List (κ × α)
  | [] => [(k, a)]
  | (l, b) :: rest =>
    match compare k l with
    | .lt => (k, a) :: (l, b) :: rest
    | .eq => (k, a) :: rest
    | .gt => (l, b) :: insertEntry k a rest

def insert (t : Table κ α) (k : κ) (a : α) : Table κ α :=
  ⟨insertEntry k a t.entries⟩

def get? (t : Table κ α) (k : κ) : Option α :=
  (t.entries.find? fun e => compare k e.1 == .eq).map (·.2)

@[grind =]
theorem get?_insert [Std.LawfulEqOrd κ] [DecidableEq κ] (t : Table κ α) (k j : κ) (a : α) :
    (t.insert k a).get? j = if j = k then some a else t.get? j := by
  obtain ⟨entries⟩ := t
  simp only [insert, get?]
  fun_induction insertEntry k a entries with
  | case1 => by_cases h : j = k <;> simp [h]
  | case2 l b rest h => by_cases h : j = k <;> simp [h]
  | case3 l b rest h => by_cases hj : j = k <;> simp_all
  | case4 l b rest h ih =>
    by_cases hj : j = l
    · have : l ≠ k := fun e => by simp [e] at h
      simp [hj, this]
    · simpa [hj] using ih

def keys (t : Table κ α) : List κ :=
  t.entries.map (·.1)

def size (t : Table κ α) : Nat :=
  t.entries.length

def isEmpty (t : Table κ α) : Bool :=
  t.entries.isEmpty

end Table

end SyntaxWalk
