import SyntaxWalk.Position
import SyntaxWalk.Proofs.ByteOrder

/-!
# The order of positions

Positions are compared part by part, and the first part in which they differ decides. No part is
left out, so positions that compare as equal are equal, and a list of positions has one ordered
rearrangement only (`Position.cmp_total_order`).
-/

namespace SyntaxWalk.Position

/-- The four numbers, in the order in which they are compared. -/
def numbers (p : Position) : List UInt32 :=
  [p.firstLine, p.firstCol, p.lastLine, p.lastCol]

/-- No address comes before any other, and of two addresses the one with the smaller bytes. -/
def UrlBefore : Option String → Option String → Prop
  | none, some _ => True
  | some a, some b => Text.bytes a < Text.bytes b
  | _, none => False

/-- Each position comes before those that follow it, or is equal to them. -/
def Ordered (ps : List Position) : Prop :=
  ps.Pairwise fun p q => (cmp p q).isLE = true

theorem compareUrl_eq_compare (a b : Option String) : compareUrl a b = compare a b := by
  cases a <;> cases b <;> rfl

theorem compareUrl_eq_lt_iff (a b : Option String) : compareUrl a b = .lt ↔ UrlBefore a b := by
  cases a with
  | none => cases b <;> simp [compareUrl, UrlBefore]
  | some a =>
    cases b with
    | none => simp [compareUrl, UrlBefore]
    | some b =>
      rw [compareUrl, UrlBefore, ← Text.lt_iff_bytes]
      exact compareOfLessAndEq_eq_lt

theorem cmp_eq_compareLex : cmp =
    compareLex (compareOn firstLine) (compareLex (compareOn firstCol)
      (compareLex (compareOn lastLine) (compareLex (compareOn lastCol) (compareOn url)))) := by
  funext p q
  simp only [cmp, compareUrl_eq_compare, compareLex, compareOn]

instance : Std.TransCmp cmp := by
  rw [cmp_eq_compareLex]
  infer_instance

theorem cmp_eq_eq_iff (p q : Position) : cmp p q = .eq ↔ p = q := by
  obtain ⟨pfl, pfc, pll, plc, purl⟩ := p
  obtain ⟨qfl, qfc, qll, qlc, qurl⟩ := q
  simp only [cmp, compareUrl_eq_compare, Ordering.then_eq_eq, Std.compare_eq_iff_eq, mk.injEq]

theorem cmp_eq_lt_iff (p q : Position) :
    cmp p q = .lt ↔ p.numbers < q.numbers ∨ p.numbers = q.numbers ∧ UrlBefore p.url q.url := by
  simp only [cmp, numbers, ← compareUrl_eq_lt_iff, Ordering.then_eq_lt, Std.compare_eq_lt,
    Std.compare_eq_iff_eq, List.cons_lt_cons_iff, List.cons.injEq, List.not_lt_nil, and_false,
    or_false, and_true]
  -- What is left is the same choice of a first difference, bracketed in another way.
  simp only [and_or_left, or_assoc, and_assoc]

theorem cmp_isLE_total (p q : Position) : (cmp p q).isLE ∨ (cmp q p).isLE := by
  rcases Decidable.em (cmp p q).isLE with h | h
  · exact .inl h
  · exact .inr (Ordering.isLE_of_eq_lt (Std.OrientedCmp.lt_of_not_isLE h))

theorem ordered_sortOn (ps : List Position) : Ordered (sortOn id ps) := by
  refine List.pairwise_mergeSort (fun p q r => Std.TransCmp.isLE_trans) (fun p q => ?_) ps
  simpa using cmp_isLE_total p q

theorem Ordered.eq_of_perm {ps qs : List Position} (hp : Ordered ps) (hq : Ordered qs)
    (h : ps.Perm qs) : ps = qs := by
  refine List.Perm.eq_of_pairwise (fun p q _ _ hpq hqp => ?_) hp hq h
  exact (cmp_eq_eq_iff p q).1 (Std.OrientedCmp.isLE_antisymm hpq hqp)

/-- Positions are totally ordered by their numbers and then by their addresses, equal ones being the
same; sorting gives the only ordered rearrangement, the same for every rearrangement of a list. -/
theorem cmp_total_order :
    (∀ p q, cmp q p = (cmp p q).swap) ∧
    (∀ p q r, (cmp p q).isLE → (cmp q r).isLE → (cmp p r).isLE) ∧
    (∀ p q, (cmp p q).isLE ∨ (cmp q p).isLE) ∧
    (∀ p q, cmp p q = .eq ↔ p = q) ∧
    (∀ p q, cmp p q = .lt ↔
      p.numbers < q.numbers ∨ p.numbers = q.numbers ∧ UrlBefore p.url q.url) ∧
    ∀ ps, (sortOn id ps).Perm ps ∧ Ordered (sortOn id ps) ∧
      ∀ qs, qs.Perm ps → sortOn id qs = sortOn id ps ∧ (Ordered qs → qs = sortOn id ps) := by
  refine ⟨fun p q => Std.OrientedCmp.eq_swap, fun p q r => Std.TransCmp.isLE_trans, cmp_isLE_total,
    cmp_eq_eq_iff, cmp_eq_lt_iff, fun ps => ?_⟩
  have rearranged (ps : List Position) : (sortOn id ps).Perm ps :=
    List.mergeSort_perm ps _
  refine ⟨rearranged ps, ordered_sortOn ps, fun qs h => ⟨?_, fun hq => ?_⟩⟩
  · have same := ((rearranged qs).trans h).trans (rearranged ps).symm
    exact (ordered_sortOn qs).eq_of_perm (ordered_sortOn ps) same
  · exact hq.eq_of_perm (ordered_sortOn ps) (h.trans (rearranged ps).symm)

/-- Of two addresses the one that goes on is the later one; a position without address is first. -/
example :
    let at₁ (url : Option String) : Position := ⟨1, 1, 1, 2, url⟩
    cmp (at₁ none) (at₁ (some "")) = .lt ∧ cmp (at₁ (some "a")) (at₁ (some "aé")) = .lt ∧
      cmp (at₁ (some "z")) ⟨1, 1, 1, 3, none⟩ = .lt := by
  decide

end SyntaxWalk.Position
