import SyntaxWalk.Proofs.JsonGrammar

/-!
# JSON values between other text

A value of any form and any depth, with blanks wherever they are allowed, is passed over up to its
end (`skipValue_append`), also where it could not be read: a number may be too large, and half of a
surrogate pair may stand alone.
-/

namespace SyntaxWalk.Json

/-! ## The grammar of values -/

/-- A value that is neither an array nor an object. -/
inductive IsScalar : List Char → Prop where
  | null : IsScalar ['n', 'u', 'l', 'l']
  | yes : IsScalar ['t', 'r', 'u', 'e']
  | no : IsScalar ['f', 'a', 'l', 's', 'e']
  | text {body} (h : Text.IsBody body) : IsScalar ('"' :: (body ++ ['"']))
  | negative {cs} (h : Number.IsMagnitude cs) : IsScalar ('-' :: cs)
  | natural {cs} (h : Number.IsMagnitude cs) : IsScalar cs

def Bracket.opening : Bracket → Char
  | .array => '['
  | .object => '\x7b'

def Bracket.closing : Bracket → Char
  | .array => ']'
  | .object => '\x7d'

/-- What stands before an item inside a bracket: in an object, its key with a colon. -/
inductive IsLead : Bracket → List Char → Prop where
  | blank {ws} (h : Blank ws) : IsLead .array ws
  | key {ws body vs us} (hw : Blank ws) (h : Text.IsBody body) (hv : Blank vs) (hu : Blank us) :
      IsLead .object (ws ++ '"' :: (body ++ '"' :: (vs ++ ':' :: us)))

/-- The parts of a text that hold one another: a value, and the items between two brackets. -/
inductive Part where
  | value
  | items (b : Bracket)

inductive IsPart : Part → List Char → Prop where
  | scalar {cs} (h : IsScalar cs) : IsPart .value cs
  | empty {b : Bracket} {ws} (h : Blank ws) : IsPart .value (b.opening :: (ws ++ [b.closing]))
  | full {b : Bracket} {cs} (h : IsPart (.items b) cs) :
      IsPart .value (b.opening :: (cs ++ [b.closing]))
  | last {b lead v ws} (hl : IsLead b lead) (hv : IsPart .value v) (hw : Blank ws) :
      IsPart (.items b) (lead ++ (v ++ ws))
  | more {b lead v ws cs} (hl : IsLead b lead) (hv : IsPart .value v) (hw : Blank ws)
      (h : IsPart (.items b) cs) : IsPart (.items b) (lead ++ (v ++ (ws ++ ',' :: cs)))

def IsValue (cs : List Char) : Prop :=
  IsPart .value cs

variable {b : Bracket} {v ws cs rest lead : List Char} {c : Char}

theorem skipBlank_blank_cons (hw : Blank ws) (hc : isBlank c = false) :
    skipBlank (ws ++ c :: rest) = c :: rest := by
  rw [skipBlank_append hw, skipBlank_eq_self]
  rintro _ ⟨⟩
  exact hc

/-- Blanks and then something that is no part of a number end a number. -/
theorem endsNumber_blank_cons (hw : Blank ws)
    (hc : Number.isDigit c = false ∧ c ≠ '.' ∧ c ≠ 'e' ∧ c ≠ 'E') :
    Number.EndsNumber (ws ++ c :: rest) := by
  cases ws with
  | nil =>
    rintro _ ⟨⟩
    exact hc
  | cons w ws =>
    rintro _ ⟨⟩
    have blank := (Bool.and_eq_true_iff.1 hw).1
    simp only [isBlank, Bool.or_eq_true, beq_iff_eq] at blank
    obtain ((rfl | rfl) | rfl) | rfl := blank <;> decide

theorem isBlank_of_isDigit (h : Number.isDigit c = true) : isBlank c = false := by
  refine Bool.eq_false_iff.2 fun blank => ?_
  simp only [isBlank, Bool.or_eq_true, beq_iff_eq] at blank
  obtain ((rfl | rfl) | rfl) | rfl := blank <;> exact absurd h (by decide)

theorem Number.IsMagnitude.exists_cons (h : Number.IsMagnitude cs) :
    ∃ c tail, cs = c :: tail ∧ Number.isDigit c = true := by
  obtain ⟨hw, -, -⟩ := h
  obtain ⟨c, tail, rfl, hc⟩ := hw.exists_cons
  exact ⟨c, _, rfl, hc⟩

/-- The first character of a value stands neither between values nor at the end of a bracket. -/
theorem IsScalar.exists_cons (h : IsScalar v) :
    ∃ c tail, v = c :: tail ∧ isBlank c = false ∧ c ∉ ['[', '\x7b', ']', '\x7d', ','] := by
  cases h with
  | natural h =>
    obtain ⟨c, tail, rfl, hc⟩ := h.exists_cons
    refine ⟨c, tail, rfl, isBlank_of_isDigit hc, fun mem => ?_⟩
    simp only [List.mem_cons, List.not_mem_nil, or_false] at mem
    obtain rfl | rfl | rfl | rfl | rfl := mem <;> exact absurd hc (by decide)
  | _ => exact ⟨_, _, rfl, by decide⟩

theorem IsValue.exists_cons (h : IsValue v) :
    ∃ c tail, v = c :: tail ∧ isBlank c = false ∧ c ∉ [']', '\x7d', ','] := by
  cases h with
  | scalar h =>
    obtain ⟨c, tail, rfl, blank, hc⟩ := h.exists_cons
    exact ⟨c, tail, rfl, blank, fun mem => hc (List.mem_cons_of_mem _ (List.mem_cons_of_mem _ mem))⟩
  | @empty b => exact ⟨_, _, rfl, by cases b <;> decide⟩
  | @full b => exact ⟨_, _, rfl, by cases b <;> decide⟩

/-! ## Values passed over -/

theorem skipScalar_append (h : IsScalar v) (hr : Number.EndsNumber rest) :
    skipScalar (v ++ rest) = .ok rest := by
  cases h with
  | null => rfl
  | yes => rfl
  | no => rfl
  | text h =>
    rw [List.cons_append, List.append_assoc]
    exact Text.skip_body h rest
  | negative h => exact Number.skip_append h hr
  | natural h =>
    have skipped := Number.skip_append h hr
    obtain ⟨c, tail, rfl, hc⟩ := h.exists_cons
    rw [List.cons_append] at skipped ⊢
    rw [skipScalar]
    · rw [if_pos hc, skipped]
    all_goals
      rintro rfl
      exact absurd hc (by decide)

variable {n : Nat} {stack : List Bracket}

theorem skipFrom_scalar (h : IsScalar v) (hr : Number.EndsNumber rest) :
    skipFrom (n + 2) .value stack (v ++ rest) = skipFrom (n + 1) (.inside true) stack rest := by
  have skipped := skipScalar_append h hr
  obtain ⟨c, tail, rfl, blank, hc⟩ := h.exists_cons
  rw [List.cons_append] at skipped ⊢
  rw [skipFrom, skipBlank_eq_self (by rintro _ ⟨⟩; exact blank)]
  split
  case h_2 heq => exact absurd (by decide) ((List.cons.inj heq).1 ▸ hc)
  case h_3 heq => exact absurd (by decide) ((List.cons.inj heq).1 ▸ hc)
  case h_4 heq =>
    rw [skipped]
    cases stack <;> rfl
  case h_1 heq => cases heq

theorem skipFrom_opening :
    skipFrom (n + 1) .value stack (b.opening :: cs) =
      skipFrom n (.inside false) (b :: stack) cs := by
  cases b <;> rfl

theorem skipFrom_value_blank (hw : Blank ws) (cs : List Char) :
    skipFrom (n + 1) .value stack (ws ++ cs) = skipFrom (n + 1) .value stack cs := by
  simp only [skipFrom, skipBlank_append hw]

theorem skipFrom_inside_blank (hw : Blank ws) (continued : Bool) (cs : List Char) :
    skipFrom (n + 1) (.inside continued) (b :: stack) (ws ++ cs) =
      skipFrom (n + 1) (.inside continued) (b :: stack) cs := by
  simp only [skipFrom, skipBlank_append hw]

theorem skipFrom_closing (hw : Blank ws) (continued : Bool) :
    skipFrom (n + 2) (.inside continued) (b :: stack) (ws ++ b.closing :: rest) =
      skipFrom (n + 1) (.inside true) stack rest := by
  rw [skipFrom_inside_blank hw]
  cases b <;> cases continued <;> cases stack <;> rfl

theorem skipFrom_comma (hw : Blank ws) :
    skipFrom (n + 1) (.inside true) (b :: stack) (ws ++ ',' :: cs) =
      (skipKey b cs).bind (skipFrom n .value (b :: stack)) := by
  rw [skipFrom_inside_blank hw]
  cases b <;> rfl

/-- After a key and its colon, or after a blank in an array, a value is passed over. -/
theorem IsLead.skipKey_bind (h : IsLead b lead) (cs : List Char) :
    (skipKey b (lead ++ cs)).bind (skipFrom (n + 1) .value stack) =
      skipFrom (n + 1) .value stack cs := by
  cases h with
  | blank h => exact skipFrom_value_blank h cs
  | @key ws body vs us hw h hv hu =>
    have colon : afterColon (vs ++ ':' :: (us ++ cs)) = .ok (us ++ cs) := by
      rw [afterColon, skipBlank_blank_cons hv (by decide)]
      rfl
    simp only [skipKey, List.append_assoc, List.cons_append,
      skipBlank_blank_cons hw (c := '"') (by decide), Text.skip_body h]
    rw [Except.bind, colon]
    exact skipFrom_value_blank hu cs

/-- The first item after an opening bracket. -/
theorem IsLead.skipFrom_first (h : IsLead b lead) (hv : IsValue v) :
    skipFrom (n + 2) (.inside false) (b :: stack) (lead ++ (v ++ rest)) =
      skipFrom (n + 1) .value (b :: stack) (v ++ rest) := by
  cases h with
  | blank h =>
    obtain ⟨c, tail, rfl, blank, hc⟩ := hv.exists_cons
    have ink : skipBlank (c :: (tail ++ rest)) = c :: (tail ++ rest) := by
      rw [skipBlank_eq_self]
      rintro _ ⟨⟩
      exact blank
    rw [skipFrom_inside_blank h, List.cons_append]
    conv => lhs; rw [skipFrom.eq_def]
    simp only [ink]
    -- A value begins neither with the closing bracket nor with a comma.
    split
    case h_2 heq _ => exact absurd (by decide) ((List.cons.inj heq).1 ▸ hc)
    case h_6 => rfl
    all_goals contradiction
  | @key ws body vs us hw h hv hu =>
    rw [← (IsLead.key Blank.nil h hv hu).skipKey_bind, List.append_assoc, skipFrom_inside_blank hw]
    rfl

theorem exists_lead (h : IsPart (.items b) cs) :
    ∃ lead v tail, cs = lead ++ (v ++ tail) ∧ IsLead b lead ∧ IsValue v := by
  cases h with
  | last hl hv => exact ⟨_, _, _, rfl, hl, hv⟩
  | more hl hv => exact ⟨_, _, _, rfl, hl, hv⟩

theorem skipFrom_items (h : IsPart (.items b) cs) (rest : List Char) :
    skipFrom (n + 2) (.inside false) (b :: stack) (cs ++ rest) =
      (skipKey b (cs ++ rest)).bind (skipFrom (n + 1) .value (b :: stack)) := by
  obtain ⟨lead, v, tail, rfl, hl, hv⟩ := exists_lead h
  rw [List.append_assoc, List.append_assoc, hl.skipFrom_first hv, hl.skipKey_bind]

/-- How many steps a part takes, and that it is passed over in them. -/
def Skipped : Part → List Char → Prop
  | .value, v => ∃ m ≤ 2 * v.length, ∀ (k : Nat) (stack : List Bracket) (rest : List Char),
      Number.EndsNumber rest → skipFrom (m + k + 1) .value stack (v ++ rest) =
        skipFrom (k + 1) (.inside true) stack rest
  | .items b, cs => ∃ m ≤ 2 * cs.length + 1, ∀ (k : Nat) (stack : List Bracket) (rest : List Char),
      (skipKey b (cs ++ b.closing :: rest)).bind (skipFrom (m + k + 1) .value (b :: stack)) =
        skipFrom (k + 1) (.inside true) stack rest

/-- Each part is passed over, its items one after another. -/
theorem IsPart.skipped {p : Part} (h : IsPart p cs) : Skipped p cs := by
  induction h with
  | scalar h =>
    obtain ⟨c, tail, rfl, -⟩ := h.exists_cons
    refine ⟨1, by simp only [List.length_cons]; omega, fun k stack rest hr => ?_⟩
    rw [Nat.add_comm 1 k]
    exact skipFrom_scalar h hr
  | @empty b ws h =>
    refine ⟨2, by simp only [List.length_cons]; omega, fun k stack rest _ => ?_⟩
    rw [Nat.add_comm 2 k, List.cons_append, List.append_assoc, skipFrom_opening]
    exact skipFrom_closing h false
  | @full b cs h ih =>
    obtain ⟨m, hm, skipped⟩ := ih
    refine ⟨m + 2, by simp only [List.length_cons, List.length_append]; omega,
      fun k stack rest _ => ?_⟩
    rw [← skipped, ← skipFrom_items h, List.cons_append, List.append_assoc, skipFrom_opening,
      Nat.add_right_comm m 2 k]
    rfl
  | @last b lead v ws hl hv hw ih =>
    obtain ⟨m, hm, skipped⟩ := ih
    refine ⟨m + 1, by simp only [List.length_append]; omega, fun k stack rest => ?_⟩
    have ends : Number.EndsNumber (ws ++ b.closing :: rest) :=
      endsNumber_blank_cons hw (by cases b <;> decide)
    have steps : m + 1 + k + 1 = m + (k + 1) + 1 := by omega
    rw [List.append_assoc, List.append_assoc, hl.skipKey_bind, steps, skipped _ _ _ ends,
      skipFrom_closing hw]
  | @more b lead v ws cs hl hv hw h ih ihs =>
    obtain ⟨m, hm, skipped⟩ := ih
    obtain ⟨l, hl', items⟩ := ihs
    refine ⟨m + (l + 1), by simp only [List.length_append, List.length_cons]; omega,
      fun k stack rest => ?_⟩
    have steps : m + (l + 1) + k + 1 = m + (l + k + 1) + 1 := by omega
    rw [← items, steps, List.append_assoc, List.append_assoc, hl.skipKey_bind, List.append_assoc,
      List.cons_append, skipped _ _ _ (endsNumber_blank_cons hw (by decide)), skipFrom_comma hw]

/-- A value is passed over up to its end, whatever blanks stand before it. -/
theorem skipValue_append (hw : Blank ws) (hv : IsValue v) (hr : Number.EndsNumber rest) :
    skipValue (ws ++ (v ++ rest)) = .ok rest := by
  obtain ⟨m, hm, skipped⟩ := IsPart.skipped hv
  obtain ⟨k, hk⟩ : ∃ k, 2 * (ws ++ (v ++ rest)).length + 2 = m + k + 1 :=
    ⟨2 * (ws ++ (v ++ rest)).length + 1 - m, by simp only [List.length_append]; omega⟩
  rw [skipValue, hk, skipFrom_value_blank hw, skipped k [] rest hr]
  rfl

end SyntaxWalk.Json
