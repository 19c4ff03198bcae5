import Mathlib.Tactic.SplitIfs

/-!
# Words and numerals in a text

A word of certain characters is known from the front of a text when other characters follow it
(`word_append_injective`). The digits of a number are such words; they determine the number, and the
first one is no zero unless the number is.
-/

namespace SyntaxWalk.Text

section Words

variable {p : Char → Bool} {w v r s : List Char}

theorem takeWhile_word (hw : w.all p = true) (hr : ∀ c ∈ r.head?, p c = false) :
    (w ++ r).takeWhile p = w := by
  rw [List.takeWhile_append_of_pos (List.all_eq_true.1 hw)]
  cases r with
  | nil => exact List.append_nil w
  | cons c r => rw [List.takeWhile_cons_of_neg (by simp [hr c rfl]), List.append_nil]

theorem dropWhile_word (hw : w.all p = true) (hr : ∀ c ∈ r.head?, p c = false) :
    (w ++ r).dropWhile p = r := by
  rw [List.dropWhile_append_of_pos (List.all_eq_true.1 hw)]
  cases r with
  | nil => rfl
  | cons c r => rw [List.dropWhile_cons_of_neg (by simp [hr c rfl])]

/-- Words of characters in `p` that end where other characters begin, or with the text, are known
from the front of the text. -/
theorem word_append_injective (hw : w.all p = true) (hv : v.all p = true)
    (hr : ∀ c ∈ r.head?, p c = false) (hs : ∀ c ∈ s.head?, p c = false) (h : w ++ r = v ++ s) :
    w = v ∧ r = s := by
  obtain rfl : w = v := by rw [← takeWhile_word hw hr, h, takeWhile_word hv hs]
  exact ⟨rfl, List.append_cancel_left h⟩

end Words

section Digits

variable {b m n : Nat}

theorem digitChar_injective :
    ∀ d < 16, ∀ e < 16, Nat.digitChar d = Nat.digitChar e → d = e := by
  decide

theorem exists_digitChar_of_mem_toDigits (hb : 1 < b) {c : Char} (hc : c ∈ Nat.toDigits b n) :
    ∃ d < b, c = Nat.digitChar d := by
  induction n using Nat.strongRecOn with
  | ind n ih =>
    rw [Nat.toDigits_eq_if hb] at hc
    split_ifs at hc with h
    · exact ⟨n, h, List.mem_singleton.1 hc⟩
    · rcases List.mem_append.1 hc with hc | hc
      · exact ih _ (Nat.div_lt_self (by omega) hb) hc
      · exact ⟨n % b, Nat.mod_lt n (by omega), List.mem_singleton.1 hc⟩

theorem exists_toDigits_eq_cons (hb : 1 < b) (n : Nat) :
    ∃ d < b, ∃ cs, Nat.toDigits b n = Nat.digitChar d :: cs := by
  obtain ⟨c, cs, hcs⟩ := List.exists_cons_of_ne_nil (Nat.toDigits_ne_nil (b := b) (n := n))
  obtain ⟨d, hd, rfl⟩ := exists_digitChar_of_mem_toDigits hb (hcs ▸ List.mem_cons_self)
  exact ⟨d, hd, cs, hcs⟩

theorem toDigits_injective (hb : 1 < b) (hb' : b ≤ 16) (h : Nat.toDigits b m = Nat.toDigits b n) :
    m = n := by
  have digit {d e : Nat} (hd : d < b) (he : e < b) (h : Nat.digitChar d = Nat.digitChar e) :
      d = e :=
    digitChar_injective d (by omega) e (by omega) h
  have shorter {d n : Nat} :
      [] ++ [Nat.digitChar d] ≠ Nat.toDigits b (n / b) ++ [Nat.digitChar (n % b)] :=
    fun h => Nat.toDigits_ne_nil (List.append_singleton_inj.1 h).1.symm
  induction m using Nat.strongRecOn generalizing n with
  | ind m ih =>
    rw [Nat.toDigits_eq_if hb, Nat.toDigits_eq_if (n := n) hb] at h
    split_ifs at h with hm hn hn
    · exact digit hm hn (List.singleton_inj.1 h)
    · exact absurd h shorter
    · exact absurd h.symm shorter
    · obtain ⟨front, last⟩ := List.append_singleton_inj.1 h
      have quotient := ih _ (Nat.div_lt_self (by omega) hb) front
      have remainder := digit (Nat.mod_lt m (by omega)) (Nat.mod_lt n (by omega)) last
      rw [← Nat.div_add_mod m b, quotient, remainder, Nat.div_add_mod]

theorem head_toDigits_ne_zero (hb : 1 < b) (hb' : b ≤ 16) (hn : 0 < n) :
    ∀ c ∈ (Nat.toDigits b n).head?, c ≠ '0' := by
  induction n using Nat.strongRecOn with
  | ind n ih =>
    intro c hc
    rw [Nat.toDigits_eq_if hb] at hc
    split_ifs at hc with h
    · obtain rfl := Option.some.inj hc
      exact fun hz => Nat.ne_of_gt hn (digitChar_injective n (by omega) 0 (by decide) hz)
    · have quotient := ih _ (Nat.div_lt_self hn hb) (Nat.div_pos (Nat.le_of_not_lt h) (by omega))
      obtain ⟨d, -, ds, hds⟩ := exists_toDigits_eq_cons hb (n / b)
      rw [hds] at hc quotient
      exact quotient c hc

end Digits

end SyntaxWalk.Text
