import SyntaxWalk.Proofs.JsonValues

/-!
# JSON values that are asked for

A reader that asks for a value of one kind makes the same of it wherever the value stands, with
blanks before it and the end of a number after it (`Scans`). Where it refuses the value, this is of
the wrong shape or out of range, or no reader accepts it: its number is too large for a floating
point number, or half of a surrogate pair stands alone.
-/

namespace SyntaxWalk.Json

variable {v ws cs rest : List Char} {c : Char}

/-- What becomes of a value when `scan` asks for it, wherever it stands. Where it is refused, its
shape is wrong, or no reader accepts it. -/
structure Scans {β : Type} (scan : List Char → Scan β) (v : List Char) (o : Except Fault β) :
    Prop where
  anywhere {ws rest : List Char} : Blank ws → Number.EndsNumber rest →
    scan (ws ++ (v ++ rest)) = o.map fun x => (x, rest)
  refused {f : Fault} : o = .error f → f.category = .shape ∨ read depthLimit v = .error f

theorem Scans.alone {β : Type} {scan : List Char → Scan β} {o : Except Fault β}
    (h : Scans scan v o) : scan v = o.map fun x => (x, []) := by
  have ends : Number.EndsNumber [] := nofun
  simpa using h.anywhere Blank.nil ends

theorem read_text_local {body : List Char} (h : Text.IsBody body) :
    ∃ o : Except Fault String,
      (∀ rest, Text.read (body ++ '"' :: rest) = o.map fun s => (s, rest)) ∧
      read depthLimit ('"' :: (body ++ ['"'])) = o.map fun s => (.text s, []) := by
  obtain ⟨⟨o, ho⟩, -⟩ := Text.decode_local h
  have anywhere (rest : List Char) :
      Text.read (body ++ '"' :: rest) = (o.map String.ofList).map fun s => (s, rest) := by
    rw [Text.read, ho]
    cases o <;> rfl
  refine ⟨o.map String.ofList, anywhere, ?_⟩
  change (Text.read (body ++ ['"'])).map _ = _
  rw [anywhere]
  cases o <;> rfl

theorem read_negative_local (h : Number.IsMagnitude cs) :
    ∃ o : Except Fault Number,
      (∀ rest, Number.EndsNumber rest → Number.read true (cs ++ rest) = o.map fun n => (n, rest)) ∧
      read depthLimit ('-' :: cs) = o.map fun n => (.number n, []) := by
  obtain ⟨o, ho⟩ := Number.read_local h true
  refine ⟨o, ho, ?_⟩
  have alone := ho [] nofun
  rw [List.append_nil] at alone
  change (Number.read true cs).map _ = _
  rw [alone]
  cases o <;> rfl

theorem read_natural_local (h : Number.IsMagnitude cs) :
    ∃ o : Except Fault Number,
      (∀ rest, Number.EndsNumber rest → Number.read false (cs ++ rest) = o.map fun n => (n, rest)) ∧
      read depthLimit cs = o.map fun n => (.number n, []) := by
  obtain ⟨o, ho⟩ := Number.read_local h false
  refine ⟨o, ho, ?_⟩
  have alone := ho [] nofun
  rw [List.append_nil] at alone
  obtain ⟨c, tail, rfl, hc⟩ := h.exists_cons
  rw [depthLimit, read_of_isDigit hc, alone]
  cases o <;> rfl

/-- The fault of a value of another kind: what is wrong with it, or its kind. -/
def faultOf {α : Type} : Except Fault α → Fault
  | .error f => f
  | .ok _ => .wrongType

theorem faultOf_map {α β : Type} (o : Except Fault α) (g : α → β) :
    faultOf (o.map g) = faultOf o := by
  cases o <;> rfl

theorem faultOf_refused {α : Type} {o : Except Fault α} {g : α → Json × List Char}
    (h : read depthLimit v = o.map g) :
    (faultOf o).category = .shape ∨ read depthLimit v = .error (faultOf o) := by
  cases o with
  | error f => exact .inr h
  | ok _ => exact .inl rfl

theorem mismatch_text (cs : List Char) : mismatch ('"' :: cs) = faultOf (Text.read cs) := by
  simp only [mismatch]
  cases Text.read cs <;> rfl

theorem mismatch_negative (cs : List Char) :
    mismatch ('-' :: cs) = faultOf (Number.read true cs) := by
  simp only [mismatch]
  cases Number.read true cs <;> rfl

theorem mismatch_of_isDigit (hc : Number.isDigit c = true) (cs : List Char) :
    mismatch (c :: cs) = faultOf (Number.read false (c :: cs)) := by
  rw [mismatch]
  · rw [if_pos hc]
    cases Number.read false (c :: cs) <;> rfl
  all_goals
    rintro rfl
    exact absurd hc (by decide)

/-- A value that is not of the kind that is asked for has the same fault wherever it stands. -/
theorem exists_mismatch (hv : IsValue v) :
    ∃ f, (∀ rest, Number.EndsNumber rest → mismatch (v ++ rest) = f) ∧
      (f.category = .shape ∨ read depthLimit v = .error f) := by
  cases hv with
  | scalar h =>
    cases h with
    | text h =>
      obtain ⟨o, ho, document⟩ := read_text_local h
      refine ⟨faultOf o, fun rest _ => ?_, faultOf_refused document⟩
      rw [List.cons_append, List.append_assoc, mismatch_text]
      exact (congrArg faultOf (ho rest)).trans (faultOf_map o _)
    | negative h =>
      obtain ⟨o, ho, document⟩ := read_negative_local h
      refine ⟨faultOf o, fun rest hr => ?_, faultOf_refused document⟩
      rw [List.cons_append, mismatch_negative, ho rest hr, faultOf_map]
    | natural h =>
      obtain ⟨o, ho, document⟩ := read_natural_local h
      obtain ⟨c, tail, rfl, hc⟩ := h.exists_cons
      refine ⟨faultOf o, fun rest hr => ?_, faultOf_refused document⟩
      rw [List.cons_append, mismatch_of_isDigit hc, ← List.cons_append, ho rest hr, faultOf_map]
    | _ => exact ⟨.wrongType, fun _ _ => rfl, .inl rfl⟩
  | @empty b => exact ⟨.wrongType, fun _ _ => by cases b <;> rfl, .inl rfl⟩
  | @full b => exact ⟨.wrongType, fun _ _ => by cases b <;> rfl, .inl rfl⟩

theorem readBool_blank (hw : Blank ws) (cs : List Char) : readBool (ws ++ cs) = readBool cs := by
  simp only [readBool, skipBlank_append hw]

theorem readUInt32_blank (hw : Blank ws) (cs : List Char) :
    readUInt32 (ws ++ cs) = readUInt32 cs := by
  simp only [readUInt32, skipBlank_append hw]

theorem readText?_blank (hw : Blank ws) (cs : List Char) : readText? (ws ++ cs) = readText? cs := by
  simp only [readText?, skipBlank_append hw]

/-- A value that is of another kind than the one that is asked for. -/
theorem scans_mismatch {β : Type} {scan : List Char → Scan β} (hv : IsValue v)
    (blank : ∀ {ws : List Char}, Blank ws → ∀ cs, scan (ws ++ cs) = scan cs)
    (h : ∀ rest, scan (v ++ rest) = .error (mismatch (v ++ rest))) : ∃ o, Scans scan v o := by
  obtain ⟨f, same, refused⟩ := exists_mismatch hv
  refine ⟨.error f, fun hw hr => ?_, fun hf => ?_⟩
  · rw [blank hw, h, same _ hr]
    rfl
  · cases hf
    exact refused

/-- An unsigned number of 32 bits. -/
def Number.toUInt32 : Number → Except Fault UInt32
  | .integer i => if 0 ≤ i ∧ i < 0x100000000 then .ok i.toNat.toUInt32 else .error .outOfRange
  | .float _ => .error .wrongType

theorem Number.shape_of_toUInt32 {n : Number} {f : Fault} (h : n.toUInt32 = .error f) :
    f.category = .shape := by
  cases n with
  | integer i =>
    rw [toUInt32] at h
    split_ifs at h
    cases h
    rfl
  | float =>
    cases h
    rfl

theorem readUInt32_negative (cs : List Char) :
    readUInt32 ('-' :: cs) =
      (Number.read true cs).bind fun p => p.1.toUInt32.map fun x => (x, p.2) := by
  have ink : skipBlank ('-' :: cs) = '-' :: cs := rfl
  simp only [readUInt32, ink]
  obtain f | ⟨i | x, rest⟩ := Number.read true cs
  · rfl
  · simp only [Except.bind, Number.toUInt32]
    split_ifs <;> rfl
  · rfl

section Digit

variable (hc : Number.isDigit c = true) (cs : List Char)

include hc

theorem skipBlank_of_isDigit : skipBlank (c :: cs) = c :: cs := by
  rw [skipBlank_eq_self]
  rintro _ ⟨⟩
  exact isBlank_of_isDigit hc

theorem readBool_of_isDigit : readBool (c :: cs) = .error (mismatch (c :: cs)) := by
  rw [readBool, skipBlank_of_isDigit hc]
  split
  case h_4 => rfl
  all_goals
    rename_i h
    cases h <;> exact absurd hc (by decide)

theorem readText?_of_isDigit : readText? (c :: cs) = .error (mismatch (c :: cs)) := by
  rw [readText?, skipBlank_of_isDigit hc]
  split
  case h_4 => rfl
  all_goals
    rename_i h
    cases h <;> exact absurd hc (by decide)

theorem readUInt32_of_isDigit :
    readUInt32 (c :: cs) =
      (Number.read false (c :: cs)).bind fun p => p.1.toUInt32.map fun x => (x, p.2) := by
  simp only [readUInt32, skipBlank_of_isDigit hc]
  split
  case h_3 d ds _ h =>
    obtain ⟨rfl, rfl⟩ := List.cons.inj h
    rw [if_pos hc]
    obtain f | ⟨i | x, rest⟩ := Number.read false (c :: cs)
    · rfl
    · simp only [Except.bind, Number.toUInt32]
      split_ifs <;> rfl
    · rfl
  all_goals
    rename_i h
    cases h <;> exact absurd hc (by decide)

end Digit

theorem exists_scans_readBool (hv : IsValue v) : ∃ o, Scans readBool v o := by
  cases hv with
  | scalar h =>
    cases h with
    | yes => exact ⟨.ok true, fun hw _ => by rw [readBool_blank hw]; rfl, nofun⟩
    | no => exact ⟨.ok false, fun hw _ => by rw [readBool_blank hw]; rfl, nofun⟩
    | natural h =>
      refine scans_mismatch (.scalar (.natural h)) readBool_blank fun rest => ?_
      obtain ⟨c, tail, rfl, hc⟩ := h.exists_cons
      exact readBool_of_isDigit hc _
    | _ =>
      exact scans_mismatch (.scalar (by constructor <;> assumption)) readBool_blank fun _ => rfl
  | @empty b _ h => exact scans_mismatch (.empty h) readBool_blank fun _ => by cases b <;> rfl
  | @full b _ h => exact scans_mismatch (.full h) readBool_blank fun _ => by cases b <;> rfl

theorem exists_scans_readText? (hv : IsValue v) : ∃ o, Scans readText? v o := by
  cases hv with
  | scalar h =>
    cases h with
    | null => exact ⟨.ok none, fun hw _ => by rw [readText?_blank hw]; rfl, nofun⟩
    | text h =>
      obtain ⟨o, ho, document⟩ := read_text_local h
      refine ⟨o.map some, fun hw _ => ?_, fun ho => .inr ?_⟩
      · rw [readText?_blank hw, List.cons_append, List.append_assoc]
        exact (congrArg (Except.map _) (ho _)).trans (by cases o <;> rfl)
      · rw [document]
        cases o <;> cases ho
        rfl
    | natural h =>
      refine scans_mismatch (.scalar (.natural h)) readText?_blank fun rest => ?_
      obtain ⟨c, tail, rfl, hc⟩ := h.exists_cons
      exact readText?_of_isDigit hc _
    | _ =>
      exact scans_mismatch (.scalar (by constructor <;> assumption)) readText?_blank fun _ => rfl
  | @empty b _ h => exact scans_mismatch (.empty h) readText?_blank fun _ => by cases b <;> rfl
  | @full b _ h => exact scans_mismatch (.full h) readText?_blank fun _ => by cases b <;> rfl

theorem exists_scans_readUInt32 (hv : IsValue v) : ∃ o, Scans readUInt32 v o := by
  have refused {o : Except Fault Number} {f : Fault}
      (document : read depthLimit v = o.map fun n => (.number n, []))
      (hf : o.bind Number.toUInt32 = .error f) :
      f.category = .shape ∨ read depthLimit v = .error f := by
    cases o with
    | error =>
      cases hf
      exact .inr document
    | ok n => exact .inl (Number.shape_of_toUInt32 hf)
  cases hv with
  | scalar h =>
    cases h with
    | negative h =>
      obtain ⟨o, ho, document⟩ := read_negative_local h
      refine ⟨o.bind Number.toUInt32, fun hw hr => ?_, refused document⟩
      rw [readUInt32_blank hw, List.cons_append, readUInt32_negative, ho _ hr]
      cases o <;> rfl
    | natural h =>
      obtain ⟨o, ho, document⟩ := read_natural_local h
      refine ⟨o.bind Number.toUInt32, fun hw hr => ?_, refused document⟩
      obtain ⟨c, tail, rfl, hc⟩ := h.exists_cons
      rw [readUInt32_blank hw, List.cons_append, readUInt32_of_isDigit hc, ← List.cons_append,
        ho _ hr]
      cases o <;> rfl
    | _ =>
      exact scans_mismatch (.scalar (by constructor <;> assumption)) readUInt32_blank fun _ => rfl
  | @empty b _ h => exact scans_mismatch (.empty h) readUInt32_blank fun _ => by cases b <;> rfl
  | @full b _ h => exact scans_mismatch (.full h) readUInt32_blank fun _ => by cases b <;> rfl

end SyntaxWalk.Json
