import Mathlib.Data.Fin.Tuple.Basic
import SyntaxWalk.Context

/-!
# The identity of contexts

Contexts are made one after the other: anew for an entity, derived from an earlier context, or as a
copy of one. Every step but a copy takes a number of its own, and numbers ascend; so two contexts
are the same just when copies alone lie between them and one step they stem from
(`ScopeContext.History.identity`).
-/

namespace SyntaxWalk.ScopeContext

/-- Steps that make `n` contexts, each from the contexts made before it. -/
inductive History : Nat → Type where
  | start : History 0
  | new {n : Nat} (h : History n) (top : Entity) : History (n + 1)
  | derive {n : Nat} (h : History n) (i : Fin n) : History (n + 1)
  | copy {n : Nat} (h : History n) (i : Fin n) : History (n + 1)

namespace History

variable {n : Nat}

/-- The contexts that the steps make. -/
def run : {n : Nat} → History n → StateM Supply (Fin n → ScopeContext)
  | _, .start => return Fin.elim0
  | _, .new h top => do
    let made ← h.run
    return Fin.snoc made (← ScopeContext.new top)
  | _, .derive h i => do
    let made ← h.run
    return Fin.snoc made (← (made i).derive)
  | _, .copy h i => do
    let made ← h.run
    return Fin.snoc made (made i)

/-- Whether a step makes a context of its own, anew or by derivation. -/
def IsOwn : {n : Nat} → History n → Fin n → Prop
  | _, .start => Fin.elim0
  | _, .new h _ | _, .derive h _ => Fin.snoc h.IsOwn True
  | _, .copy h _ => Fin.snoc h.IsOwn False

/-- The step that a context stems from through copies only. -/
def origin : {n : Nat} → History n → Fin n → Fin n
  | _, .start => Fin.elim0
  | _, .new h _ | _, .derive h _ => Fin.snoc (fun i => (h.origin i).castSucc) (Fin.last _)
  | _, .copy h i => Fin.snoc (fun i => (h.origin i).castSucc) (h.origin i).castSucc

/-- The entity for which the first context of a chain of derivations and copies was made. -/
def root : {n : Nat} → History n → Fin n → Entity
  | _, .start => Fin.elim0
  | _, .new h top => Fin.snoc h.root top
  | _, .derive h i | _, .copy h i => Fin.snoc h.root (h.root i)

/-- What holds of the contexts that a history makes, from the supply `s` to the supply `t`. -/
structure Made (h : History n) (s t : Supply) (made : Fin n → ScopeContext) : Prop where
  supply_le : s.next ≤ t.next ∧ t.next ≤ s.next + n
  top_eq : ∀ i, (made i).top = h.root i
  serial_bounds : ∀ i, s.next ≤ (made i).serial ∧ (made i).serial < t.next
  isOwn_origin : ∀ i, h.IsOwn (h.origin i)
  origin_of_isOwn : ∀ i, h.IsOwn i → h.origin i = i
  made_origin : ∀ i, made (h.origin i) = made i
  ascending : ∀ i j, h.IsOwn i → h.IsOwn j → i < j → (made i).serial < (made j).serial

namespace Made

variable {h : History n} {s t : Supply} {made : Fin n → ScopeContext}

/-- A step of its own takes the next number, which is above all that were taken before. -/
theorem own (m : h.Made s t made) {h' : History (n + 1)} {e : Entity}
    (isOwn : h'.IsOwn = Fin.snoc h.IsOwn True)
    (origin : h'.origin = Fin.snoc (fun i => (h.origin i).castSucc) (Fin.last n))
    (root : h'.root = Fin.snoc h.root e) :
    h'.Made s ⟨t.next + 1⟩ (Fin.snoc made ⟨e, t.next⟩) where
  supply_le := by
    have := m.supply_le
    simp only
    omega
  top_eq i := by
    rw [root]
    cases i using Fin.lastCases with
    | last => simp
    | cast i => simp [m.top_eq i]
  serial_bounds i := by
    have := m.supply_le
    cases i using Fin.lastCases with
    | last =>
      simp
      omega
    | cast i =>
      have := m.serial_bounds i
      simp
      omega
  isOwn_origin i := by
    rw [isOwn, origin]
    cases i using Fin.lastCases with
    | last => simp
    | cast i => simpa using m.isOwn_origin i
  origin_of_isOwn i hi := by
    rw [isOwn] at hi
    rw [origin]
    cases i using Fin.lastCases with
    | last => simp
    | cast i => simpa using m.origin_of_isOwn i (by simpa using hi)
  made_origin i := by
    rw [origin]
    cases i using Fin.lastCases with
    | last => simp
    | cast i => simpa using m.made_origin i
  ascending i j hi hj hij := by
    rw [isOwn] at hi hj
    cases j using Fin.lastCases with
    | last =>
      cases i using Fin.lastCases with
      | last => exact absurd hij (lt_irrefl _)
      | cast i => simpa using (m.serial_bounds i).2
    | cast j =>
      cases i using Fin.lastCases with
      | last => exact absurd hij (not_lt.2 (Fin.le_last _))
      | cast i =>
        simpa using m.ascending i j (by simpa using hi) (by simpa using hj) (by simpa using hij)

/-- A copy takes no number, and stems from where the context it copies stems from. -/
theorem copy (m : h.Made s t made) (i : Fin n) :
    (h.copy i).Made s t (Fin.snoc made (made i)) where
  supply_le := by
    have := m.supply_le
    omega
  top_eq j := by
    cases j using Fin.lastCases with
    | last => simp [root, m.top_eq i]
    | cast j => simp [root, m.top_eq j]
  serial_bounds j := by
    cases j using Fin.lastCases with
    | last => simpa using m.serial_bounds i
    | cast j => simpa using m.serial_bounds j
  isOwn_origin j := by
    cases j using Fin.lastCases with
    | last => simpa [IsOwn, origin] using m.isOwn_origin i
    | cast j => simpa [IsOwn, origin] using m.isOwn_origin j
  origin_of_isOwn j hj := by
    cases j using Fin.lastCases with
    | last => simp [IsOwn] at hj
    | cast j => simpa [origin] using m.origin_of_isOwn j (by simpa [IsOwn] using hj)
  made_origin j := by
    cases j using Fin.lastCases with
    | last => simpa [origin] using m.made_origin i
    | cast j => simpa [origin] using m.made_origin j
  ascending j k hj hk hjk := by
    cases k using Fin.lastCases with
    | last => simp [IsOwn] at hk
    | cast k =>
      cases j using Fin.lastCases with
      | last => simp [IsOwn] at hj
      | cast j =>
        simpa using m.ascending j k (by simpa [IsOwn] using hj) (by simpa [IsOwn] using hk)
          (by simpa using hjk)

/-- Numbers of steps of their own are different, so contexts of one number stem from one step. -/
theorem beq_iff (m : h.Made s t made) (i j : Fin n) :
    (made i == made j) = true ↔ h.origin i = h.origin j := by
  rw [← m.made_origin i, ← m.made_origin j]
  have ascending := m.ascending (h.origin i) (h.origin j) (m.isOwn_origin i) (m.isOwn_origin j)
  have descending := m.ascending (h.origin j) (h.origin i) (m.isOwn_origin j) (m.isOwn_origin i)
  constructor
  · intro same
    have serials : (made (h.origin i)).serial = (made (h.origin j)).serial :=
      beq_iff_eq.1 (Bool.and_eq_true_iff.1 same).2
    rcases lt_trichotomy (h.origin i) (h.origin j) with less | equal | greater
    · exact absurd serials (ascending less).ne
    · exact equal
    · exact absurd serials (descending greater).ne'
  · intro equal
    rw [equal]
    exact Bool.and_eq_true_iff.2 ⟨beq_self_eq_true (made (h.origin j)).top.id, beq_self_eq_true _⟩

end Made

theorem made_run (h : History n) (s : Supply) : h.Made s (h.run s).2 (h.run s).1 := by
  induction h with
  | start => exact ⟨⟨le_rfl, le_rfl⟩, nofun, nofun, nofun, nofun, nofun, nofun⟩
  | new h top ih => exact ih.own rfl rfl rfl
  | derive h i ih =>
    have root : (h.derive i).root = Fin.snoc h.root ((h.run s).1 i).top := by
      rw [ih.top_eq i]
      rfl
    exact ih.own rfl rfl root
  | copy h i ih => exact ih.copy i

/-- Two contexts are the same if and only if copies alone lie between them and one step; the numbers
of steps of their own ascend; the entity on top is the one at the root of the chain; and of `n`
steps each takes a number among the next `n`, so that a word of 64 bits is wide enough as long as
the last of these numbers fits. -/
theorem identity (h : History n) (s : Supply) :
    let made := (h.run s).1
    (∀ i j, (made i == made j) = true ↔ h.origin i = h.origin j) ∧
    (∀ i j, h.IsOwn i → h.IsOwn j → i < j → (made i).serial < (made j).serial) ∧
    (∀ i, (made i).top = h.root i) ∧
    ∀ i, s.next ≤ (made i).serial ∧ (made i).serial < s.next + n := by
  intro made
  have m := h.made_run s
  refine ⟨m.beq_iff, m.ascending, m.top_eq, fun i => ?_⟩
  have width := m.supply_le.2
  obtain ⟨low, high⟩ := m.serial_bounds i
  exact ⟨low, Nat.lt_of_lt_of_le high width⟩

/-- A copy of a copy is the same as what was copied; two derivations from them are not. -/
example :
    let e : Entity := { id := ⟨1⟩, kind := .file, name := "e" }
    let made := ((((((start.new e).copy 0).copy 1).derive 1).derive 2).run {}).1
    (made 0 == made 2) = true ∧ (made 3 == made 4) = false ∧ (made 4).serial = 3 := by
  decide

end History

end SyntaxWalk.ScopeContext
