import SyntaxWalk.Proofs.Words
import SyntaxWalk.Text.Quoted

/-!
# Quoted text can be told from what follows it

Each character of a quoted text is written in one of three ways (`Quoted.Written`): as a backslash
with a letter, as itself, or as the escape of its code point. No written form begins another one,
and none begins with the quote, so a quoted text is known from the front of any text that it begins
(`Quoted.encode_append_injective`). Which characters have the long escape does not matter.
-/

namespace SyntaxWalk.Text

namespace Quoted

/-- The characters that are escaped by a letter, each with its letter. -/
def letters : List (Char × Char) :=
  [('\x00', '0'), ('\t', 't'), ('\r', 'r'), ('\n', 'n'), ('"', '"'), ('\\', '\\')]

/-- The ways in which a character is written inside of quotes. -/
inductive Written (c : Char) : List Char → Prop where
  | letter {l} (h : (c, l) ∈ letters) : Written c ['\\', l]
  | itself (hq : c ≠ '"') (hb : c ≠ '\\') : Written c [c]
  | codePoint : Written c (codePoint c)

theorem written_encodeChar (c : Char) : Written c (encodeChar c) := by
  unfold encodeChar
  split_ifs with h0 ht hr hn hq hb hp
  · exact .letter (by simp [letters, h0])
  · exact .letter (by simp [letters, ht])
  · exact .letter (by simp [letters, hr])
  · exact .letter (by simp [letters, hn])
  · exact .letter (by simp [letters, hq])
  · exact .letter (by simp [letters, hb])
  · exact .itself hq hb
  · exact .codePoint

theorem letters_injective : ∀ p ∈ letters, ∀ q ∈ letters, p.2 = q.2 → p.1 = q.1 := by
  decide

theorem letter_ne_u : ∀ p ∈ letters, p.2 ≠ 'u' := by
  decide

theorem codePoint_append_injective {c d : Char} {r s : List Char}
    (h : codePoint c ++ r = codePoint d ++ s) : c = d ∧ r = s := by
  have hex {n : Nat} : (Nat.toDigits 16 n).all (· != '\x7d') = true := by
    refine List.all_eq_true.2 fun x hx => bne_iff_ne.2 ?_
    obtain ⟨e, -, rfl⟩ := exists_digitChar_of_mem_toDigits (by decide) hx
    exact Nat.digitChar_ne _ (by decide)
  have ends {t : List Char} : ∀ x ∈ ('\x7d' :: t).head?, (x != '\x7d') = false := by
    rintro x ⟨⟩
    rfl
  simp only [codePoint, List.append_assoc, List.append_cancel_left_eq] at h
  obtain ⟨digits, rest⟩ := word_append_injective hex hex ends ends h
  have number := toDigits_injective (by decide) (by decide) digits
  exact ⟨Char.toNat_inj.1 number, (List.cons.inj rest).2⟩

namespace Written

variable {c d : Char} {w v r s : List Char}

theorem append_injective (hw : Written c w) (hv : Written d v) (h : w ++ r = v ++ s) :
    c = d ∧ r = s := by
  cases hw with
  | @letter l hl =>
    cases hv with
    | @letter k hk =>
      obtain ⟨rfl, rfl⟩ : l = k ∧ r = s := by simpa using h
      exact ⟨letters_injective _ hl _ hk rfl, rfl⟩
    | itself _ hb => exact absurd (List.cons.inj h).1.symm hb
    | codePoint => exact absurd (List.cons.inj (List.cons.inj h).2).1 (letter_ne_u _ hl)
  | itself _ hb =>
    cases hv with
    | letter | codePoint => exact absurd (List.cons.inj h).1 hb
    | itself => exact List.cons.inj h
  | codePoint =>
    cases hv with
    | letter hl => exact absurd (List.cons.inj (List.cons.inj h).2).1.symm (letter_ne_u _ hl)
    | itself _ hb => exact absurd (List.cons.inj h).1.symm hb
    | codePoint => exact codePoint_append_injective h

theorem append_ne_quote (hw : Written c w) : w ++ r ≠ '"' :: s := by
  intro h
  cases hw with
  | letter | codePoint => cases h
  | itself hq => exact hq (List.cons.inj h).1

end Written

/-- A text is known from its quoted form, and so is where that form ends. -/
theorem encode_append_injective {cs ds r s : List Char}
    (h : encode cs ++ '"' :: r = encode ds ++ '"' :: s) : cs = ds ∧ r = s := by
  induction cs generalizing ds with
  | nil =>
    cases ds with
    | nil => exact ⟨rfl, (List.cons.inj h).2⟩
    | cons d ds =>
      rw [encode, encode, List.flatMap_cons, List.append_assoc] at h
      exact absurd h.symm (written_encodeChar d).append_ne_quote
  | cons c cs ih =>
    cases ds with
    | nil =>
      rw [encode, encode, List.flatMap_cons, List.append_assoc] at h
      exact absurd h (written_encodeChar c).append_ne_quote
    | cons d ds =>
      rw [encode, encode, List.flatMap_cons, List.flatMap_cons, List.append_assoc,
        List.append_assoc] at h
      obtain ⟨rfl, after⟩ := (written_encodeChar c).append_injective (written_encodeChar d) h
      obtain ⟨rfl, rest⟩ := ih after
      exact ⟨rfl, rest⟩

end Quoted

end SyntaxWalk.Text
