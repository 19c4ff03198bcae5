import SyntaxWalk.Proofs.Words
import SyntaxWalk.Value

/-!
# What is written as JSON is read back

Each character of a text is escaped on its own, and the reader undoes one escape at a time; so a
quoted text is read up to the quote that closes it (`Text.decode_encode`). The digits of an integer
are read until something else follows (`Number.read_toDigits`), and all of them are used as long as
the number fits into a word. So every payload but a floating point number is read back, as a payload
of its own kind (`Value.parse_render`).
-/

namespace SyntaxWalk

namespace Json

open SyntaxWalk.Text

/-! ## Texts -/

namespace Text

theorem unescape?_shortEscapes : ∀ p ∈ shortEscapes, unescape? p.2 = some p.1 := by
  decide

theorem hexDigit?_digitChar : ∀ d < 16, hexDigit? (Nat.digitChar d) = some d := by
  decide

/-- Four characters are as long as the digits of an escape, or longer. -/
theorem lacksFour_eq_false (a b c d : Char) (cs : List Char) :
    lacksFour (a :: b :: c :: d :: cs) = false := by
  have := a.utf8Size_pos
  have := b.utf8Size_pos
  have := c.utf8Size_pos
  have := d.utf8Size_pos
  simp [lacksFour]
  omega

/-- A written character is read as itself. -/
theorem decode_encodeChar (c : Char) (cs : List Char) :
    decode .plain (encodeChar c ++ cs) = push c (decode .plain cs) := by
  unfold encodeChar
  split
  · rename_i letter h
    obtain ⟨before, after, escapes, -⟩ := List.lookup_eq_some_iff.1 h
    have escape : unescape? letter = some c :=
      unescape?_shortEscapes (c, letter) (by simp [escapes])
    simp [decode, escape]
  · rename_i h
    -- Quotes and backslashes have short escapes, so they are not left to stand for themselves.
    have plain := List.lookup_eq_none_iff.1 h
    split_ifs with hc
    · have zero : hexDigit? '0' = some 0 := by decide
      have first := hexDigit?_digitChar (c.toNat / 16) (by omega)
      have second := hexDigit?_digitChar (c.toNat % 16) (by omega)
      have whole : c.toNat / 16 * 16 + c.toNat % 16 = c.toNat := by omega
      have finished : finishEscape c.toNat none = .ok (.inl c) := by
        rw [finishEscape, if_neg (by omega), if_neg (by omega), Char.ofNat_toNat]
      simp [decode, unescape?, lacksFour_eq_false, zero, first, second, whole, finished]
    · have quote : c ≠ '"' := by
        rintro rfl
        exact absurd plain (by decide)
      have backslash : c ≠ '\\' := by
        rintro rfl
        exact absurd plain (by decide)
      rw [List.singleton_append, decode, if_neg quote, if_neg backslash, if_neg hc]

theorem decode_encode (cs rest : List Char) :
    decode .plain (encode cs ++ '"' :: rest) = .ok (cs, rest) := by
  induction cs with
  | nil => simp [encode, decode]
  | cons c cs ih =>
    rw [encode, List.flatMap_cons, List.append_assoc, decode_encodeChar]
    exact congrArg (push c) ih

theorem read_encode (s : String) (rest : List Char) :
    read (encode s.toList ++ '"' :: rest) = .ok (s, rest) := by
  rw [read, decode_encode, Except.map, String.ofList_toList]

end Text

/-! ## Integers -/

namespace Number

variable {m n : Nat} {ds : List Nat} {rest : List Char}

/-- The number that digits make of `m` when they are written after it. -/
def value (m : Nat) (ds : List Nat) : Nat :=
  ds.foldl (fun m d => m * 10 + d) m

theorem le_value (m : Nat) (ds : List Nat) : m ≤ value m ds := by
  induction ds generalizing m with
  | nil => exact Nat.le_refl m
  | cons d ds ih =>
    have := ih (m * 10 + d)
    rw [value, List.foldl_cons]
    exact Nat.le_trans (by omega) this

/-- As long as the number fits into a word, all its digits are used. -/
theorem absorb_eq (h : value m ds < Nat.pow 2 64) : absorb m ds = (value m ds, ds.length) := by
  induction ds generalizing m with
  | nil => rfl
  | cons d ds ih =>
    have fits := Nat.lt_of_le_of_lt (le_value (m * 10 + d) ds) h
    rw [absorb, if_pos fits, ih h]
    rfl

/-- The digits of a number, first to last. -/
def digitsOf (n : Nat) : List Nat :=
  (Nat.toDigits 10 n).map fun c => c.toNat - 48

theorem value_digitsOf (n : Nat) : value 0 (digitsOf n) = n := by
  have digits := Nat.ofDigitChars_ten_toDigits (n := n)
  rw [Nat.ofDigitChars_eq_foldl] at digits
  simpa [value, digitsOf, List.foldl_map, Nat.mul_comm] using digits

/-- A text that no number goes on into. -/
def EndsNumber (rest : List Char) : Prop :=
  ∀ c ∈ rest.head?, isDigit c = false ∧ c ≠ '.' ∧ c ≠ 'e' ∧ c ≠ 'E'

theorem isDigit_digitChar : ∀ d < 10, isDigit (Nat.digitChar d) = true := by
  decide

theorem all_isDigit_toDigits (n : Nat) : (Nat.toDigits 10 n).all isDigit = true := by
  refine List.all_eq_true.2 fun c hc => ?_
  obtain ⟨d, hd, rfl⟩ := exists_digitChar_of_mem_toDigits (by decide) hc
  exact isDigit_digitChar d hd

theorem digits_toDigits (h : EndsNumber rest) :
    digits (Nat.toDigits 10 n ++ rest) = (digitsOf n, rest) := by
  have all := all_isDigit_toDigits n
  have ends : ∀ c ∈ rest.head?, isDigit c = false := fun c hc => (h c hc).1
  rw [digits, takeWhile_word all ends, dropWhile_word all ends, digitsOf]

theorem digitsOf_zero : digitsOf 0 = [0] := rfl

/-- The first digit of a number of more than one is no zero. -/
theorem not_leading_zero {d : Nat} (hd : digitsOf n = d :: ds) : ¬(d = 0 ∧ ds ≠ []) := by
  rintro ⟨rfl, more⟩
  have positive : 0 < n := by
    refine Nat.pos_of_ne_zero fun h => more ?_
    rw [h, digitsOf_zero] at hd
    exact (List.cons.inj hd).2.symm
  obtain ⟨e, he, cs, hcs⟩ := exists_toDigits_eq_cons (b := 10) (by decide) n
  rw [digitsOf, hcs, List.map_cons] at hd
  have head := head_toDigits_ne_zero (b := 10) (by decide) (by decide) positive
  rw [hcs] at head
  have zero : ∀ e < 10, (Nat.digitChar e).toNat - 48 = 0 → Nat.digitChar e = '0' := by decide
  exact head _ rfl (zero e he (List.cons.inj hd).1)

/-- The digits of a number of one word are read as that number. -/
theorem read_toDigits (negative : Bool) (hn : n < Nat.pow 2 64) (h : EndsNumber rest) :
    read negative (Nat.toDigits 10 n ++ rest) = .ok (whole negative n, rest) := by
  have all := absorb_eq ((value_digitsOf n).symm ▸ hn)
  rw [value_digitsOf] at all
  rw [read, digits_toDigits h]
  cases hds : digitsOf n with
  | nil => exact absurd (List.map_eq_nil_iff.1 hds) Nat.toDigits_ne_nil
  | cons d ds =>
    rw [hds] at all
    simp only [if_neg (not_leading_zero hds), all, List.length_cons, Nat.sub_self]
    -- All digits are used, so only a fraction or an exponent could make it no integer.
    split
    · exact absurd rfl (h _ rfl).2.1
    · exact absurd rfl (h _ rfl).2.2.1
    · exact absurd rfl (h _ rfl).2.2.2
    · rfl

end Number

/-! ## Documents -/

variable {c : Char} {cs rest : List Char} {depth : Nat}

/-- What begins with a digit is read as a number. -/
theorem read_of_isDigit (hc : Number.isDigit c = true) :
    read (depth + 1) (c :: cs) = (Number.read false (c :: cs)).map fun p => (.number p.1, p.2) := by
  have ink : skipBlank (c :: cs) = c :: cs := by
    refine List.dropWhile_cons_of_neg fun blank => ?_
    simp only [isBlank, Bool.or_eq_true, beq_iff_eq] at blank
    obtain ((rfl | rfl) | rfl) | rfl := blank <;> exact absurd hc (by decide)
  rw [read, ink]
  -- Seven characters have a case of their own, and none of them is a digit.
  split
  case h_9 d ds _ _ _ _ _ _ _ h =>
    obtain ⟨rfl, rfl⟩ := List.cons.inj h
    exact if_pos hc
  all_goals
    rename_i h
    cases h <;> exact absurd hc (by decide)

theorem read_natural {n : Nat} (hn : n < Nat.pow 2 64) (h : Number.EndsNumber rest) :
    read (depth + 1) ((integer n).render.toList ++ rest) = .ok (integer n, rest) := by
  change read (depth + 1) (n.repr.toList ++ rest) = _
  rw [Nat.toList_repr]
  obtain ⟨d, hd, cs, hcs⟩ := exists_toDigits_eq_cons (b := 10) (by decide) n
  rw [hcs, List.cons_append, read_of_isDigit (Number.isDigit_digitChar d hd), ← List.cons_append,
    ← hcs, Number.read_toDigits false hn h]
  rfl

/-- The sign is read before the digits; at `-2 ^ 63` the integers end. -/
theorem read_negative {n : Nat} (hn : n < Nat.pow 2 63) (h : Number.EndsNumber rest) :
    read (depth + 1) ((integer (.negSucc n)).render.toList ++ rest) =
      .ok (integer (.negSucc n), rest) := by
  change read (depth + 1) (("-" ++ (n + 1).repr).toList ++ rest) = _
  have word : n + 1 < Nat.pow 2 64 := Nat.lt_of_le_of_lt hn (by decide)
  have integral : Number.whole true (n + 1) = .integer (.negSucc n) :=
    if_neg (not_or.2 ⟨n.succ_ne_zero, Nat.not_lt.2 hn⟩)
  rw [String.toList_append, Nat.toList_repr]
  change (Number.read true (Nat.toDigits 10 (n + 1) ++ rest)).map _ = _
  rw [Number.read_toDigits true word h, integral]
  rfl

theorem read_text (s : String) :
    read (depth + 1) ((text s).render.toList ++ rest) = .ok (text s, rest) := by
  have quoted : (text s).render.toList ++ rest =
      '"' :: (Text.encode s.toList ++ '"' :: rest) := by
    rw [render, Text.quote, String.toList_ofList, List.cons_append, List.cons_append,
      List.append_assoc, List.singleton_append]
  rw [quoted]
  change (Text.read (Text.encode s.toList ++ '"' :: rest)).map _ = _
  rw [Text.read_encode]
  rfl

end Json

namespace Value

variable {v : Value}

theorem ofJson_toJson (hv : ∀ x, v ≠ .float x) : ofJson v.toJson = .ok v := by
  cases v with
  | float x => exact absurd rfl (hv x)
  | int i =>
    have low := i.le_toInt
    have high := i.toInt_lt
    rw [toJson, Json.integer, ofJson, if_pos (by omega), Int64.ofInt_toInt]
  | _ => rfl

/-- The text of a payload is read as its document. -/
theorem read_render (hv : ∀ x, v ≠ .float x) {depth : Nat} {rest : List Char}
    (h : Json.Number.EndsNumber rest) :
    Json.read (depth + 1) (v.render.toList ++ rest) = .ok (v.toJson, rest) := by
  cases v with
  | null => rfl
  | bool b => cases b <;> rfl
  | int i =>
    change Json.read (depth + 1) ((Json.integer i.toInt).render.toList ++ rest) =
      .ok (.integer i.toInt, rest)
    have low := i.le_toInt
    have high := i.toInt_lt
    cases hi : i.toInt with
    | ofNat n =>
      rw [hi, Int.ofNat_eq_natCast] at high
      exact Json.read_natural (by simp only [Nat.pow_eq]; omega) h
    | negSucc n =>
      rw [hi] at low
      exact Json.read_negative (by simp only [Nat.pow_eq]; omega) h
  | float x => exact absurd rfl (hv x)
  | str s => exact Json.read_text s

/-- A payload that is no floating point number is read back from its text, as a payload of the same
kind. -/
theorem parse_render (hv : ∀ x, v ≠ .float x) : parse v.render = .ok v := by
  have whole : Json.read Json.depthLimit (v.render.toList ++ []) = .ok (v.toJson, []) :=
    read_render hv nofun
  rw [List.append_nil] at whole
  simp only [parse, whole, ofJson_toJson hv]
  rfl

/-- A text that reads like a number is no number; its escapes are written and undone. -/
theorem parse_render_escaped :
    (Value.str "-1\n\"\x01ä").render = "\"-1\\n\\\"\\u0001ä\"" ∧
      parse "\"-1\\n\\\"\\u0001ä\"" = .ok (.str "-1\n\"\x01ä") :=
  have written : (Value.str "-1\n\"\x01ä").render = "\"-1\\n\\\"\\u0001ä\"" := by decide
  ⟨written, written ▸ parse_render nofun⟩

end Value

end SyntaxWalk
