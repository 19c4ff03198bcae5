import Mathlib.Tactic.SplitIfs

/-!
# The order of texts is the order of their bytes

Texts are compared by the code points of their characters. Encoding in UTF-8 keeps that order: of
two characters the one with the smaller code point has the smaller bytes, and the difference shows
before either of them ends. So the bytes of two texts are ordered as the texts are
(`lt_iff_bytes`).
-/

namespace SyntaxWalk.Text

/-- The bytes of a text in UTF-8. -/
def bytes (s : String) : List UInt8 :=
  s.toUTF8.data.toList

theorem bytes_eq (s : String) : bytes s = s.toList.flatMap String.utf8EncodeChar := by
  obtain ⟨cs, rfl⟩ := s.exists_eq_ofList
  rw [bytes, String.toUTF8_eq_toByteArray, String.toByteArray_ofList, String.toList_ofList]
  exact List.toList_data_toByteArray

/-- The smaller character comes first, whatever follows the two. -/
theorem utf8EncodeChar_append_lt {c d : Char} (h : c < d) (as bs : List UInt8) :
    String.utf8EncodeChar c ++ as < String.utf8EncodeChar d ++ bs := by
  have less : c.toNat < d.toNat := h
  have valid : d.toNat < 0x110000 := by
    rcases d.valid with low | ⟨-, high⟩
    · exact Nat.lt_trans low (by decide)
    · exact high
  -- Each byte takes the next six bits; said so, the digits of the two can be compared one by one.
  have second (n : Nat) : n / 4096 = n / 64 / 64 := by omega
  have third (n : Nat) : n / 262144 = n / 64 / 64 / 64 := by omega
  unfold String.utf8EncodeChar
  simp only [Char.toNat_val, second, third]
  split_ifs <;>
    simp only [List.cons_append, List.nil_append, List.cons_lt_cons_iff, UInt8.lt_iff_toNat_lt,
      ← UInt8.toNat_inj, UInt8.toNat_ofNat'] <;>
    omega

theorem flatMap_utf8EncodeChar_lt {cs ds : List Char} (h : cs < ds) :
    cs.flatMap String.utf8EncodeChar < ds.flatMap String.utf8EncodeChar := by
  induction h with
  | @nil d ds =>
    obtain ⟨b, bs, hd⟩ := List.exists_cons_of_ne_nil (String.utf8EncodeChar_ne_nil (c := d))
    rw [List.flatMap_cons, hd]
    exact List.Lex.nil
  | rel h => exact utf8EncodeChar_append_lt h _ _
  | cons h ih => exact List.append_left_lt ih

theorem lt_iff_bytes (s t : String) : s < t ↔ bytes s < bytes t := by
  have forth {s t : String} (h : s < t) : bytes s < bytes t := by
    rw [bytes_eq, bytes_eq]
    exact flatMap_utf8EncodeChar_lt h
  refine ⟨forth, fun h => Decidable.byContradiction fun notLess => ?_⟩
  rcases Decidable.em (t < s) with greater | notGreater
  · exact List.lt_asymm (forth greater) h
  · have same := String.le_antisymm (String.not_lt.1 notGreater) (String.not_lt.1 notLess)
    exact absurd h (same ▸ List.lt_irrefl _)

end SyntaxWalk.Text
