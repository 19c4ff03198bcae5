import SyntaxWalk.Proofs.JsonRecords

/-!
# What is written as JSON follows the grammar

An escaped text spells the text it was made from, and the digits of a number are a magnitude. So the
written form of an object whose members are written as values is an object with these members
(`isObject_render`).
-/

namespace SyntaxWalk.Json

open SyntaxWalk.Text

/-! ## Texts -/

namespace Text

theorem mem_escapes_of_shortEscapes : ∀ p ∈ shortEscapes, (p.2, p.1) ∈ escapes := by
  decide

theorem mem_hexDigits : ∀ d < 16, (Nat.digitChar d, d) ∈ hexDigits := by
  decide

theorem spells_encodeChar (c : Char) {body s : List Char} (h : Spells body s) :
    Spells (encodeChar c ++ body) (c :: s) := by
  unfold encodeChar
  split
  · rename_i letter hc
    obtain ⟨before, after, escapes, -⟩ := List.lookup_eq_some_iff.1 hc
    exact .escape (mem_escapes_of_shortEscapes (c, letter) (by simp [escapes])) h
  · rename_i hc
    have plain := List.lookup_eq_none_iff.1 hc
    split_ifs with control
    · have unit : IsUnit ['0', '0', Nat.digitChar (c.toNat / 16), Nat.digitChar (c.toNat % 16)]
          (((0 * 16 + 0) * 16 + c.toNat / 16) * 16 + c.toNat % 16) :=
        .digits (mem_hexDigits 0 (by decide)) (mem_hexDigits 0 (by decide))
          (mem_hexDigits _ (by omega)) (mem_hexDigits _ (by omega))
      have whole : ((0 * 16 + 0) * 16 + c.toNat / 16) * 16 + c.toNat % 16 = c.toNat := by omega
      rw [whole] at unit
      have spelled := Spells.unit unit (by omega) h
      rwa [Char.ofNat_toNat] at spelled
    · refine .plain ⟨?_, ?_, Nat.le_of_not_lt control⟩ h
      · rintro rfl
        exact absurd plain (by decide)
      · rintro rfl
        exact absurd plain (by decide)

theorem spells_encode (s : List Char) : Spells (encode s) s := by
  induction s with
  | nil => exact .nil
  | cons c s ih => exact spells_encodeChar c ih

/-- What spells something is the body of a text. -/
theorem Spells.isBody {body s : List Char} (h : Spells body s) : IsBody body := by
  induction h with
  | nil => exact .nil
  | plain h _ ih => exact .plain h ih
  | escape h _ ih => exact .escape h ih
  | unit h _ _ ih => exact .unit h ih
  | pair hm hn _ _ _ ih => exact .unit hm (.unit hn ih)

theorem toList_quote (s : String) : (quote s).toList = '"' :: (encode s.toList ++ ['"']) := by
  rw [quote, String.toList_ofList, List.cons_append]

end Text

/-! ## Values -/

theorem Number.isMagnitude_toDigits (n : Nat) : IsMagnitude (Nat.toDigits 10 n) := by
  have whole : IsWhole (Nat.toDigits 10 n) := by
    refine ⟨⟨Nat.toDigits_ne_nil, all_isDigit_toDigits n⟩, fun zero => ?_⟩
    obtain rfl | positive := Nat.eq_zero_or_pos n
    · rfl
    · exact absurd rfl (head_toDigits_ne_zero (by decide) (by decide) positive _ zero)
  simpa using IsMagnitude.parts whole .none .none

theorem isValue_natural (n : Nat) : IsValue (integer n).render.toList := by
  change IsValue n.repr.toList
  rw [Nat.toList_repr]
  exact .scalar (.natural (Number.isMagnitude_toDigits n))

theorem isValue_bool (b : Bool) : IsValue (bool b).render.toList := by
  cases b
  · exact .scalar .no
  · exact .scalar .yes

theorem isValue_text (s : String) : IsValue (text s).render.toList := by
  rw [render, Text.toList_quote]
  exact .scalar (.text (Text.spells_encode _).isBody)

/-! ## Objects -/

theorem isMember_render (name : String) {x : Json} (h : IsValue x.render.toList) :
    IsMember (name, x.render.toList) (Text.quote name ++ ":" ++ x.render).toList := by
  have member := IsMember.parts Blank.nil (Text.spells_encode name.toList) Blank.nil Blank.nil h
    Blank.nil
  simpa [Text.toList_quote] using member

variable {fs : List (String × Json)}

theorem isMembers_render (hne : fs ≠ []) (h : ∀ f ∈ fs, IsValue f.2.render.toList) :
    IsMembers (fs.map fun f => (f.1, f.2.render.toList)) (renderFields fs).toList := by
  induction fs with
  | nil => exact absurd rfl hne
  | cons f fs ih =>
    obtain ⟨hf, hfs⟩ := List.forall_mem_cons.1 h
    have first := isMember_render f.1 hf
    cases fs with
    | nil => exact .last first
    | cons g fs =>
      have both := IsMembers.more first (ih (List.cons_ne_nil g fs) hfs)
      simpa [renderFields] using both

/-- What is written as an object is an object with the written members. -/
theorem isObject_render (h : ∀ f ∈ fs, IsValue f.2.render.toList) :
    IsObject (fs.map fun f => (f.1, f.2.render.toList)) (object fs).render.toList := by
  cases fs with
  | nil => exact .empty Blank.nil Blank.nil Blank.nil
  | cons f fs =>
    have whole := IsObject.full Blank.nil (isMembers_render (List.cons_ne_nil f fs) h) Blank.nil
    simpa [render] using whole

end SyntaxWalk.Json
