import SyntaxWalk.Json.Record
import SyntaxWalk.Proofs.JsonReading

/-!
# The grammar of JSON texts

The grammar is given as relations on texts: the body of a quoted text and what it spells, and
numbers without their sign. Both are passed over up to their end, also where they could not be read
(`Text.skip_body`, `Number.skip_append`), and what becomes of them when they are read does not
depend on what follows (`Text.decode_local`, `Number.read_local`).
-/

namespace SyntaxWalk.Json

open SyntaxWalk.Text

def Blank (cs : List Char) : Prop :=
  cs.all isBlank = true

theorem Blank.nil : Blank [] := rfl

theorem skipBlank_append {ws : List Char} (h : Blank ws) (cs : List Char) :
    skipBlank (ws ++ cs) = skipBlank cs :=
  List.dropWhile_append_of_pos (List.all_eq_true.1 h)

theorem skipBlank_eq_self {cs : List Char} (h : ∀ c ∈ cs.head?, isBlank c = false) :
    skipBlank cs = cs := by
  cases cs with
  | nil => rfl
  | cons c cs => exact List.dropWhile_cons_of_neg (by simp [h c rfl])

/-! ## Texts -/

namespace Text

/-- A character that stands for itself between quotes. -/
structure IsPlain (c : Char) : Prop where
  ne_quote : c ≠ '"'
  ne_backslash : c ≠ '\\'
  ge_space : 0x20 ≤ c.toNat

/-- The letters that may follow a backslash, with what they stand for. -/
def escapes : List (Char × Char) :=
  [('"', '"'), ('\\', '\\'), ('/', '/'), ('b', '\x08'), ('f', '\x0c'), ('n', '\n'), ('r', '\r'),
    ('t', '\t')]

def hexDigits : List (Char × Nat) :=
  "0123456789abcdef".toList.zipIdx ++ "ABCDEF".toList.zipIdx 10

/-- Four hexadecimal digits and their number, a unit of UTF-16. -/
inductive IsUnit : List Char → Nat → Prop where
  | digits {a b c d : Char} {i j k l : Nat} (ha : (a, i) ∈ hexDigits) (hb : (b, j) ∈ hexDigits)
      (hc : (c, k) ∈ hexDigits) (hd : (d, l) ∈ hexDigits) :
      IsUnit [a, b, c, d] (((i * 16 + j) * 16 + k) * 16 + l)

/-- What may stand between the quotes of a text. -/
inductive IsBody : List Char → Prop where
  | nil : IsBody []
  | plain {c body} (h : IsPlain c) (rest : IsBody body) : IsBody (c :: body)
  | escape {l c body} (h : (l, c) ∈ escapes) (rest : IsBody body) : IsBody ('\\' :: l :: body)
  | unit {ds n body} (h : IsUnit ds n) (rest : IsBody body) : IsBody ('\\' :: 'u' :: (ds ++ body))

/-- The body of a quoted text with the characters it stands for. A character beyond 16 bits may be
written as a pair of units; half a pair stands for nothing. -/
inductive Spells : List Char → List Char → Prop where
  | nil : Spells [] []
  | plain {c body s} (h : IsPlain c) (rest : Spells body s) : Spells (c :: body) (c :: s)
  | escape {l c body s} (h : (l, c) ∈ escapes) (rest : Spells body s) :
      Spells ('\\' :: l :: body) (c :: s)
  | unit {ds n body s} (h : IsUnit ds n) (whole : ¬(0xd800 ≤ n ∧ n ≤ 0xdfff))
      (rest : Spells body s) : Spells ('\\' :: 'u' :: (ds ++ body)) (Char.ofNat n :: s)
  | pair {ds es m n body s} (hm : IsUnit ds m) (hn : IsUnit es n)
      (first : 0xd800 ≤ m ∧ m ≤ 0xdbff) (second : 0xdc00 ≤ n ∧ n ≤ 0xdfff)
      (rest : Spells body s) : Spells ('\\' :: 'u' :: (ds ++ '\\' :: 'u' :: (es ++ body)))
        (Char.ofNat (0x10000 + (m - 0xd800) * 0x400 + (n - 0xdc00)) :: s)

variable {c l : Char} {body s ds : List Char} {n : Nat}

theorem unescape?_escapes : ∀ p ∈ escapes, unescape? p.1 = some p.2 := by
  decide

theorem hexDigit?_hexDigits : ∀ p ∈ hexDigits, hexDigit? p.1 = some p.2 := by
  decide

theorem escapes_ne_unit : ∀ p ∈ escapes, p.1 ≠ 'u' := by
  decide

theorem IsUnit.lacksFour_eq_false (h : IsUnit ds n) (cs : List Char) :
    lacksFour (ds ++ cs) = false := by
  cases h
  exact Text.lacksFour_eq_false ..

/-- How decoding goes on after a unit. -/
def resume (cs : List Char) : Except Fault (Char ⊕ Nat) → Scan (List Char)
  | .error f => .error f
  | .ok (.inl x) => push x (decode .plain cs)
  | .ok (.inr first) => decode (.secondBackslash first) cs

/-- The digits of a unit are read as its number. -/
theorem decode_unit (h : IsUnit ds n) (lead : Option Nat) (cs : List Char) :
    decode (.hex 4 0 lead) (ds ++ cs) = resume cs (finishEscape n lead) := by
  have more {c : Char} {d : Nat} (hc : (c, d) ∈ hexDigits) (need acc : Nat) (cs : List Char) :
      decode (.hex (need + 2) acc lead) (c :: cs) =
        decode (.hex (need + 1) (acc * 16 + d) lead) cs := by
    simp [decode, hexDigit?_hexDigits _ hc]
  cases h with
  | digits ha hb hc hd =>
    simp only [List.cons_append, List.nil_append]
    rw [more ha, more hb, more hc, decode, hexDigit?_hexDigits _ hd]
    simp only [Nat.zero_mul, Nat.zero_add, Nat.le_refl, if_true]
    rcases finishEscape _ lead with f | x | first <;> rfl

theorem decode_escape (h : (l, c) ∈ escapes) (cs : List Char) :
    decode .plain ('\\' :: l :: cs) = push c (decode .plain cs) := by
  simp [decode, unescape?_escapes _ h]

theorem decode_code (h : IsUnit ds n) (cs : List Char) :
    decode .plain ('\\' :: 'u' :: (ds ++ cs)) = decode (.hex 4 0 none) (ds ++ cs) := by
  simp [decode, unescape?, h.lacksFour_eq_false]

theorem decode_secondCode (h : IsUnit ds n) (first : Nat) (cs : List Char) :
    decode (.secondBackslash first) ('\\' :: 'u' :: (ds ++ cs)) =
      decode (.hex 4 0 (some first)) (ds ++ cs) := by
  simp [decode, h.lacksFour_eq_false]

theorem decode_plain (h : IsPlain c) (cs : List Char) :
    decode .plain (c :: cs) = push c (decode .plain cs) := by
  rw [decode, if_neg h.ne_quote, if_neg h.ne_backslash, if_neg (Nat.not_lt.2 h.ge_space)]

/-- A body is decoded up to its quote, as what it spells. -/
theorem decode_spells (h : Spells body s) (rest : List Char) :
    decode .plain (body ++ '"' :: rest) = .ok (s, rest) := by
  induction h with
  | nil => rfl
  | plain h _ ih => rw [List.cons_append, decode_plain h, ih]; rfl
  | escape h _ ih => rw [List.cons_append, List.cons_append, decode_escape h, ih]; rfl
  | unit h whole _ ih =>
    rw [List.cons_append, List.cons_append, List.append_assoc, decode_code h, decode_unit h,
      finishEscape, if_neg (by omega), if_neg (by omega), resume, ih]
    rfl
  | pair hm hn first second _ ih =>
    simp only [List.cons_append, List.append_assoc]
    rw [decode_code hm, decode_unit hm, finishEscape, if_neg (by omega), if_pos first, resume,
      decode_secondCode hn, decode_unit hn, finishEscape, if_pos second, resume, ih]
    rfl

theorem skip_unit (h : IsUnit ds n) (cs : List Char) :
    skip (.hex 4) (ds ++ cs) = skip .plain cs := by
  cases h with
  | digits ha hb hc hd =>
    simp [skip, hexDigit?_hexDigits _ ha, hexDigit?_hexDigits _ hb, hexDigit?_hexDigits _ hc,
      hexDigit?_hexDigits _ hd]

/-- A body is passed over up to its quote. -/
theorem skip_body (h : IsBody body) (rest : List Char) :
    skip .plain (body ++ '"' :: rest) = .ok rest := by
  induction h with
  | nil => rfl
  | plain h _ ih =>
    rw [List.cons_append, skip, if_neg h.ne_quote, if_neg h.ne_backslash,
      if_neg (Nat.not_lt.2 h.ge_space), ih]
  | escape h _ ih => simp [skip, unescape?_escapes _ h, ih]
  | unit h _ ih =>
    simp [skip, unescape?, h.lacksFour_eq_false, skip_unit h, ih]

/-- How a body is decoded does not depend on what follows its quote. After the first half of a pair
this holds as well; what comes next is then read in another way. -/
theorem decode_local (h : IsBody body) :
    (∃ o : Except Fault (List Char),
      ∀ rest, decode .plain (body ++ '"' :: rest) = o.map fun s => (s, rest)) ∧
    ∀ first, ∃ o : Except Fault (List Char),
      ∀ rest, decode (.secondBackslash first) (body ++ '"' :: rest) = o.map fun s => (s, rest) := by
  induction h with
  | nil => exact ⟨⟨.ok [], fun _ => rfl⟩, fun _ => ⟨.error .badEscape, fun _ => rfl⟩⟩
  | @plain c body h _ ih =>
    obtain ⟨⟨o, ho⟩, -⟩ := ih
    refine ⟨⟨o.map (c :: ·), fun rest => ?_⟩, fun first => ⟨.error .badEscape, fun rest => ?_⟩⟩
    · rw [List.cons_append, decode_plain h, ho]
      cases o <;> rfl
    · rw [List.cons_append, decode, if_neg h.ne_backslash]
      rfl
  | @escape l c body h _ ih =>
    obtain ⟨⟨o, ho⟩, -⟩ := ih
    refine ⟨⟨o.map (c :: ·), fun rest => ?_⟩, fun first => ⟨.error .badEscape, fun rest => ?_⟩⟩
    · rw [List.cons_append, List.cons_append, decode_escape h, ho]
      cases o <;> rfl
    · rw [List.cons_append, List.cons_append, decode, if_pos rfl, decode,
        if_neg (escapes_ne_unit _ h)]
      rfl
  | @unit ds n body h _ ih =>
    obtain ⟨⟨o, ho⟩, halves⟩ := ih
    have finish (lead : Option Nat) : ∃ o : Except Fault (List Char), ∀ rest,
        decode (.hex 4 0 lead) (ds ++ (body ++ '"' :: rest)) = o.map fun s => (s, rest) := by
      simp only [decode_unit h]
      rcases finishEscape n lead with f | x | first
      · exact ⟨.error f, fun _ => rfl⟩
      · refine ⟨o.map (x :: ·), fun rest => ?_⟩
        rw [resume, ho]
        cases o <;> rfl
      · exact halves first
    simp only [List.cons_append, List.append_assoc, decode_code h, decode_secondCode h]
    exact ⟨finish none, fun first => finish (some first)⟩

end Text

/-! ## Numbers -/

namespace Number

structure IsDigits (ds : List Char) : Prop where
  ne_nil : ds ≠ []
  all : ds.all isDigit = true

/-- The digits before the point; a zero stands alone. -/
structure IsWhole (ds : List Char) : Prop extends IsDigits ds where
  zero_alone : ds.head? = some '0' → ds = ['0']

inductive IsFraction : List Char → Prop where
  | none : IsFraction []
  | some {ds} (h : IsDigits ds) : IsFraction ('.' :: ds)

inductive IsExponent : List Char → Prop where
  | none : IsExponent []
  | some {e sign ds} (he : e = 'e' ∨ e = 'E') (hs : sign = [] ∨ sign = ['+'] ∨ sign = ['-'])
      (h : IsDigits ds) : IsExponent (e :: (sign ++ ds))

/-- A number without its sign. -/
inductive IsMagnitude : List Char → Prop where
  | parts {w f x} (hw : IsWhole w) (hf : IsFraction f) (hx : IsExponent x) :
      IsMagnitude (w ++ (f ++ x))

variable {ds f x cs rest : List Char}

theorem EndsNumber.not_digit (h : EndsNumber rest) : ∀ c ∈ rest.head?, isDigit c = false :=
  fun c hc => (h c hc).1

theorem IsExponent.not_digit (hx : IsExponent x) (h : EndsNumber rest) :
    ∀ c ∈ (x ++ rest).head?, isDigit c = false := by
  cases hx with
  | none => exact h.not_digit
  | some he =>
    rintro c ⟨⟩
    rcases he with rfl | rfl <;> decide

theorem IsFraction.not_digit (hf : IsFraction f) (hx : IsExponent x) (h : EndsNumber rest) :
    ∀ c ∈ (f ++ (x ++ rest)).head?, isDigit c = false := by
  cases hf with
  | none => exact hx.not_digit h
  | some =>
    rintro c ⟨⟩
    decide

/-- Digits are read up to what is no digit. -/
theorem IsDigits.digits_append (hd : IsDigits ds) (h : ∀ c ∈ rest.head?, isDigit c = false) :
    digits (ds ++ rest) = (ds.map fun c => c.toNat - 48, rest) := by
  rw [digits, takeWhile_word hd.all h, dropWhile_word hd.all h]

theorem IsDigits.exists_cons (hd : IsDigits ds) :
    ∃ d es, ds = d :: es ∧ isDigit d = true := by
  obtain ⟨d, es, rfl⟩ := List.exists_cons_of_ne_nil hd.ne_nil
  exact ⟨d, es, rfl, (Bool.and_eq_true_iff.1 hd.all).1⟩

theorem IsDigits.exists_values (hd : IsDigits ds) :
    ∃ v vs, (ds.map fun c => c.toNat - 48) = v :: vs := by
  obtain ⟨d, es, rfl, -⟩ := hd.exists_cons
  exact ⟨_, _, rfl⟩

/-- The digits before the point are accepted: they do not begin with a zero, unless it is all. -/
theorem IsWhole.exists_accepted (hw : IsWhole ds) :
    ∃ v vs, (ds.map fun c => c.toNat - 48) = v :: vs ∧ ¬(v = 0 ∧ vs ≠ []) := by
  obtain ⟨d, es, rfl, hd⟩ := hw.exists_cons
  refine ⟨_, _, rfl, ?_⟩
  rintro ⟨zero, more⟩
  have digit : d = '0' := by
    simp only [isDigit, Bool.and_eq_true, decide_eq_true_eq, Char.le_def] at hd
    exact Char.toNat_inj.1 (Nat.le_antisymm (Nat.sub_eq_zero_iff_le.1 zero) hd.1)
  have alone := hw.zero_alone (congrArg some digit)
  exact more (by rw [(List.cons.inj alone).2]; rfl)

theorem ne_cons_of_isDigit {d c : Char} {es cs : List Char} (hd : isDigit d = true)
    (hc : isDigit c = false) : d :: es ≠ c :: cs := by
  rintro h
  rw [(List.cons.inj h).1, hc] at hd
  exact Bool.false_ne_true hd

theorem skipExponent_append {sign : List Char} (hs : sign = [] ∨ sign = ['+'] ∨ sign = ['-'])
    (hd : IsDigits ds) (h : ∀ c ∈ rest.head?, isDigit c = false) :
    skipExponent (sign ++ (ds ++ rest)) = .ok rest := by
  have read := hd.digits_append h
  obtain ⟨d, es, rfl, digit⟩ := hd.exists_cons
  rcases hs with rfl | rfl | rfl
  · rw [List.nil_append, skipExponent, read]
    · rfl
    · exact fun r => ne_cons_of_isDigit digit (by decide)
    · exact fun r => ne_cons_of_isDigit digit (by decide)
  · rw [List.cons_append, List.nil_append, skipExponent, read]
    rfl
  · rw [List.cons_append, List.nil_append, skipExponent, read]
    rfl

theorem readExponent_append {sign : List Char} (hs : sign = [] ∨ sign = ['+'] ∨ sign = ['-'])
    (hd : IsDigits ds) : ∃ e, ∀ rest : List Char, (∀ c ∈ rest.head?, isDigit c = false) →
      readExponent (sign ++ (ds ++ rest)) = .ok (e, rest) := by
  have read {rest : List Char} (h : ∀ c ∈ rest.head?, isDigit c = false) := hd.digits_append h
  obtain ⟨d, es, rfl, digit⟩ := hd.exists_cons
  let number : Int := value 0 ((d :: es).map fun c => c.toNat - 48)
  rcases hs with rfl | rfl | rfl
  · refine ⟨number, fun rest h => ?_⟩
    rw [List.nil_append, readExponent, read h]
    · rfl
    · exact fun r => ne_cons_of_isDigit digit (by decide)
    · exact fun r => ne_cons_of_isDigit digit (by decide)
  · refine ⟨number, fun rest h => ?_⟩
    rw [List.cons_append, List.nil_append, readExponent, read h]
    rfl
  · refine ⟨-number, fun rest h => ?_⟩
    rw [List.cons_append, List.nil_append, readExponent, read h]
    rfl

/-- A number is passed over, whatever its size. -/
theorem skip_append (h : IsMagnitude cs) (hr : EndsNumber rest) : skip (cs ++ rest) = .ok rest := by
  obtain ⟨hw, hf, hx⟩ := h
  obtain ⟨v, vs, values, accepted⟩ := hw.exists_accepted
  rw [List.append_assoc, List.append_assoc, skip, hw.digits_append (hf.not_digit hx hr), values]
  simp only [if_neg accepted]
  cases hf with
  | none =>
    cases hx with
    | none =>
      rw [List.nil_append, List.nil_append]
      split
      · exact absurd rfl (hr _ rfl).2.1
      · exact absurd rfl (hr _ rfl).2.2.1
      · exact absurd rfl (hr _ rfl).2.2.2
      · rfl
    | some he hs hd =>
      rcases he with rfl | rfl <;>
        simpa [List.append_assoc] using skipExponent_append hs hd hr.not_digit
  | some hf =>
    obtain ⟨u, us, fraction⟩ := hf.exists_values
    have read := hf.digits_append (hx.not_digit hr)
    rw [fraction] at read
    simp only [List.cons_append, read]
    cases hx with
    | none =>
      rw [List.nil_append]
      split
      · rename_i heq
        cases heq
      · rename_i heq
        exact absurd rfl (hr 'e' (by rw [(Prod.mk.inj heq).2]; rfl)).2.2.1
      · rename_i heq
        exact absurd rfl (hr 'E' (by rw [(Prod.mk.inj heq).2]; rfl)).2.2.2
      · rename_i heq
        rw [(Prod.mk.inj heq).2]
    | some he hs hd =>
      rcases he with rfl | rfl <;>
        simpa [List.append_assoc] using skipExponent_append hs hd hr.not_digit

/-- What becomes of an exponent does not depend on what follows it. -/
theorem withExponent_local (hx : IsExponent x) (negative : Bool) (m : Nat) (e : Int) :
    ∃ o : Except Fault Number, ∀ rest, EndsNumber rest →
      withExponent negative m e (x ++ rest) = o.map fun n => (n, rest) := by
  cases hx with
  | none =>
    refine ⟨scaled negative m e, fun rest h => ?_⟩
    rw [List.nil_append, withExponent]
    · exact fun r hr => (h 'e' (by rw [hr]; rfl)).2.2.1 rfl
    · exact fun r hr => (h 'E' (by rw [hr]; rfl)).2.2.2 rfl
  | @some letter sign ds he hs hd =>
    obtain ⟨i, hi⟩ := readExponent_append hs hd
    refine ⟨scaled negative m (e + i), fun rest h => ?_⟩
    rcases he with rfl | rfl <;>
      rw [List.cons_append, List.append_assoc, withExponent, hi rest h.not_digit]

/-- How a number is read does not depend on what follows it. -/
theorem read_local (h : IsMagnitude cs) (negative : Bool) :
    ∃ o : Except Fault Number, ∀ rest, EndsNumber rest →
      read negative (cs ++ rest) = o.map fun n => (n, rest) := by
  obtain @⟨w, f, x, hw, hf, hx⟩ := h
  obtain ⟨v, vs, values, accepted⟩ := hw.exists_accepted
  let m := (absorb 0 (v :: vs)).1
  let e : Nat := vs.length + 1 - (absorb 0 (v :: vs)).2
  have ends {rest : List Char} (hr : EndsNumber rest) :=
    hw.digits_append (hf.not_digit hx hr)
  simp only [List.append_assoc]
  cases hf with
  | none =>
    obtain ⟨o, ho⟩ := withExponent_local hx negative m e
    simp only [List.nil_append] at ends ⊢
    cases hx with
    | none =>
      refine ⟨if e = 0 then .ok (whole negative m) else o, fun rest hr => ?_⟩
      rw [read, ends hr, values]
      simp only [if_neg accepted, List.nil_append]
      split
      · exact absurd rfl (hr _ rfl).2.1
      · exact absurd rfl (hr _ rfl).2.2.1
      · exact absurd rfl (hr _ rfl).2.2.2
      · rw [apply_ite (Except.map _), ← ho rest hr]
        rfl
    | some he hs hd =>
      refine ⟨o, fun rest hr => ?_⟩
      rw [← ho rest hr, read, ends hr, values]
      rcases he with rfl | rfl <;> simp only [if_neg accepted] <;> rfl
  | @some fs hd =>
    obtain ⟨u, us, fraction⟩ := hd.exists_values
    obtain ⟨o, ho⟩ := withExponent_local hx negative (absorb m (u :: us)).1
      ((e : Int) - (absorb m (u :: us)).2)
    refine ⟨o, fun rest hr => ?_⟩
    rw [← ho rest hr, read, ends hr, values]
    simp only [if_neg accepted, List.cons_append, hd.digits_append (hx.not_digit hr), fraction]
    rfl

end Number

end SyntaxWalk.Json
