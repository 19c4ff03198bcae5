import SyntaxWalk.Options
import SyntaxWalk.Position
import SyntaxWalk.Proofs.JsonWriting

/-!
# Positions and options in JSON

A position and the options of a walk are read from any object that tells their fields, whatever the
order of its members, the blanks between them and the members of other names; an address may be
missing or `null`, and an option that is missing is on. What is written tells the fields, so it is
read back. An object that lacks a number of a position, or has two members of one known name, is
refused (`decodes_objects`); not always for its shape, since the values of the members before may be
ones that no reader accepts (`Position.refusal_beyond_shape`).
-/

namespace SyntaxWalk

open SyntaxWalk.Json

namespace Json

variable {δ β : Type} {s : Slot δ β} {ms : Members} {d : δ} {b : β} {v rest : List Char}

theorem Slot.Held.get_of_missing (h : s.Held ms d) (missing : values s.name ms = []) :
    s.get d = none := by
  cases h with
  | missing _ hd => exact hd
  | only h => rw [missing] at h; cases h

theorem Slot.Held.get_of_only (h : s.Held ms d) (only : values s.name ms = [v])
    (scanned : s.scan v = .ok (b, rest)) : s.get d = some b := by
  cases h with
  | missing h => rw [only] at h; cases h
  | only h hv hd =>
    rw [only] at h
    obtain rfl := List.singleton_inj.1 h
    rw [scanned] at hv
    cases hv
    exact hd

theorem Slot.readable_of_only (only : values s.name ms = [v]) (scanned : s.scan v = .ok (b, rest)) :
    Record.Readable s.field (values s.name ms) :=
  .inr ⟨v, only, fun d => ⟨(s.put d b, rest), by simp [Slot.field, scanned, Except.map]⟩⟩

/-- The values of a slot's name say what it is to hold; where there are none, it is `missing`. -/
def Slot.Says (s : Slot δ β) (vs : List (List Char)) (missing b : β) : Prop :=
  vs = [] ∧ b = missing ∨ ∃ v, vs = [v] ∧ s.scan v = .ok (b, [])

theorem Slot.Says.readable {missing : β} (h : s.Says (values s.name ms) missing b) :
    Record.Readable s.field (values s.name ms) := by
  obtain ⟨none, -⟩ | ⟨v, only, scanned⟩ := h
  · exact .inl none
  · exact Slot.readable_of_only only scanned

theorem Slot.Says.getD_eq {missing : β} (h : s.Says (values s.name ms) missing b)
    (held : s.Held ms d) : (s.get d).getD missing = b := by
  obtain ⟨none, rfl⟩ | ⟨v, only, scanned⟩ := h
  · rw [held.get_of_missing none]
    rfl
  · rw [held.get_of_only only scanned]
    rfl

/-- A field that is read for another slot leaves this one as it is. -/
theorem Slot.get_of_read {γ : Type} {t : Slot δ γ} (same : ∀ d c, s.get (t.put d c) = s.get d)
    {d' : δ} {cs : List Char} (h : t.field.read d cs = .ok (d', rest)) : s.get d' = s.get d := by
  obtain ⟨p, -, hp⟩ := map_eq_ok.1 h
  cases hp
  exact same d p.1

theorem readUInt32_toDigits (n : UInt32) :
    readUInt32 (Nat.toDigits 10 n.toNat) = .ok (n, []) := by
  have ends : Number.EndsNumber [] := nofun
  have fits : n.toNat < Nat.pow 2 64 := Nat.lt_of_lt_of_le n.toNat_lt (by decide)
  have number := Number.read_toDigits false fits ends
  rw [List.append_nil] at number
  obtain ⟨d, hd, cs, hcs⟩ := Text.exists_toDigits_eq_cons (b := 10) (by decide) n.toNat
  rw [hcs] at number ⊢
  have small : (0 : Int) ≤ n.toNat ∧ (n.toNat : Int) < 0x100000000 := by
    have := n.toNat_lt
    omega
  have whole : (Number.whole false n.toNat).toUInt32 = .ok n := by
    rw [Number.whole, if_neg Bool.false_ne_true, Number.toUInt32, if_pos small, Int.toNat_natCast]
    simp
  rw [readUInt32_of_isDigit (Number.isDigit_digitChar d hd), number, Except.bind, whole, Except.map]

theorem readText?_spells {body : List Char} {u : String} (h : Text.Spells body u.toList) :
    readText? ('"' :: (body ++ ['"'])) = .ok (some u, []) := by
  change (Text.read (body ++ ['"'])).map _ = _
  rw [Text.read, Text.decode_spells h, Except.map, String.ofList_toList]
  rfl

end Json

namespace Position

/-! ## Positions -/

/-- A number of a position. -/
def numberSlot (name : String) (get : Draft → Option UInt32) (put : Draft → UInt32 → Draft)
    (get_put : ∀ d n, get (put d n) = some n) : Slot Draft UInt32 :=
  ⟨name, get, put, readUInt32, get_put, exists_scans_readUInt32⟩

def firstLineSlot : Slot Draft UInt32 :=
  numberSlot "first_line" Draft.firstLine (fun d n => { d with firstLine := some n }) fun _ _ => rfl

def firstColSlot : Slot Draft UInt32 :=
  numberSlot "first_col" Draft.firstCol (fun d n => { d with firstCol := some n }) fun _ _ => rfl

def lastLineSlot : Slot Draft UInt32 :=
  numberSlot "last_line" Draft.lastLine (fun d n => { d with lastLine := some n }) fun _ _ => rfl

def lastColSlot : Slot Draft UInt32 :=
  numberSlot "last_col" Draft.lastCol (fun d n => { d with lastCol := some n }) fun _ _ => rfl

def urlSlot : Slot Draft (Option String) where
  name := "url"
  get d := d.url
  put d u := { d with url := some u }
  scan := readText?
  get_put _ _ := rfl
  scans := exists_scans_readText?

theorem forall_fields {P : Json.Field Draft → Prop} : (∀ f ∈ record.fields, P f) ↔
    P firstLineSlot.field ∧ P firstColSlot.field ∧ P lastLineSlot.field ∧ P lastColSlot.field ∧
      P urlSlot.field := by
  have fields : record.fields = [firstLineSlot.field, firstColSlot.field, lastLineSlot.field,
    lastColSlot.field, urlSlot.field] := rfl
  rw [fields]
  simp only [List.forall_mem_cons, List.not_mem_nil, false_implies, implies_true, and_true]

/-- No field changes what another one has read. -/
theorem slots_in : firstLineSlot.In record ∧ firstColSlot.In record ∧ lastLineSlot.In record ∧
    lastColSlot.In record ∧ urlSlot.In record := by
  refine ⟨?_, ?_, ?_, ?_, ?_⟩
  all_goals
    refine ⟨rfl, forall_fields.2 ⟨?_, ?_, ?_, ?_, ?_⟩, rfl⟩
    all_goals
      intro hn _ _ _ _ h
      first | exact absurd rfl hn | exact Slot.get_of_read (fun _ _ => rfl) h

theorem slotted : record.Slotted := by
  obtain ⟨fl, fc, ll, lc, u⟩ := slots_in
  exact forall_fields.2 ⟨⟨_, _, fl, rfl⟩, ⟨_, _, fc, rfl⟩, ⟨_, _, ll, rfl⟩, ⟨_, _, lc, rfl⟩,
    ⟨_, _, u, rfl⟩⟩

/-- What the values of an address may be: none or `null` without one, or a text that spells it. -/
inductive TellsUrl : Option String → List (List Char) → Prop where
  | missing : TellsUrl none []
  | null : TellsUrl none ["null".toList]
  | text {u body} (h : Text.Spells body u.toList) : TellsUrl (some u) ['"' :: (body ++ ['"'])]

/-- The members tell the fields of a position, each number in its digits. -/
structure Told (p : Position) (ms : Members) : Prop where
  firstLine : values "first_line" ms = [Nat.toDigits 10 p.firstLine.toNat]
  firstCol : values "first_col" ms = [Nat.toDigits 10 p.firstCol.toNat]
  lastLine : values "last_line" ms = [Nat.toDigits 10 p.lastLine.toNat]
  lastCol : values "last_col" ms = [Nat.toDigits 10 p.lastCol.toNat]
  url : TellsUrl p.url (values "url" ms)

def Lacks (ms : Members) : Prop :=
  ∃ name ∈ ["first_line", "first_col", "last_line", "last_col"], values name ms = []

variable {p : Position} {ms : Members} {t : String} {d : Draft}

theorem TellsUrl.says {u : Option String} {vs : List (List Char)} (h : TellsUrl u vs) :
    urlSlot.Says vs none u := by
  cases h with
  | missing => exact .inl ⟨rfl, rfl⟩
  | null => exact .inr ⟨_, rfl, rfl⟩
  | text h => exact .inr ⟨_, rfl, readText?_spells h⟩

/-- An object that tells a position is read as this position. -/
theorem parse_of_told (h : IsObject ms t.toList) (told : p.Told ms) : parse t = .ok p := by
  obtain ⟨fl, fc, ll, lc, u⟩ := slots_in
  have readable : ∀ f ∈ record.fields, Record.Readable f (values f.name ms) :=
    forall_fields.2 ⟨Slot.readable_of_only told.firstLine (readUInt32_toDigits _),
      Slot.readable_of_only told.firstCol (readUInt32_toDigits _),
      Slot.readable_of_only told.lastLine (readUInt32_toDigits _),
      Slot.readable_of_only told.lastCol (readUInt32_toDigits _), told.url.says.readable⟩
  obtain ⟨d, read, held⟩ := Record.exists_held_of_readable slotted h readable
  have firstLine : d.firstLine = some p.firstLine :=
    (held fl).get_of_only told.firstLine (readUInt32_toDigits _)
  have firstCol : d.firstCol = some p.firstCol :=
    (held fc).get_of_only told.firstCol (readUInt32_toDigits _)
  have lastLine : d.lastLine = some p.lastLine :=
    (held ll).get_of_only told.lastLine (readUInt32_toDigits _)
  have lastCol : d.lastCol = some p.lastCol :=
    (held lc).get_of_only told.lastCol (readUInt32_toDigits _)
  have url : d.url.getD none = p.url := told.url.says.getD_eq (held u)
  rw [parse, read]
  simp only [record, firstLine, firstCol, lastLine, lastCol, url]

/-- What is written of a position tells it. -/
theorem exists_told_render (p : Position) : ∃ ms, IsObject ms p.render.toList ∧ p.Told ms := by
  have digits (n : UInt32) : (integer n.toNat).render.toList = Nat.toDigits 10 n.toNat :=
    Nat.toList_repr
  obtain ⟨fl, fc, ll, lc, u⟩ := p
  have numbers : ∀ f ∈ [("first_line", integer fl.toNat), ("first_col", integer fc.toNat),
      ("last_line", integer ll.toNat), ("last_col", integer lc.toNat)],
      IsValue f.2.render.toList := by
    simp [isValue_natural]
  cases u with
  | none =>
    refine ⟨_, isObject_render (by simpa using numbers), ?_, ?_, ?_, ?_, .missing⟩
    all_goals simp [values, digits]
  | some u =>
    have url : (Json.text u).render.toList = '"' :: (Text.encode u.toList ++ ['"']) :=
      Text.toList_quote u
    have value : IsValue (Json.text u).render.toList := isValue_text u
    refine ⟨_, isObject_render (by simpa [value] using numbers), ?_, ?_, ?_, ?_, ?_⟩
    · simp [values, digits]
    · simp [values, digits]
    · simp [values, digits]
    · simp [values, digits]
    · simpa [values, url] using TellsUrl.text (Text.spells_encode u.toList)

/-- A draft is finished when all numbers are set. -/
theorem finish_ok (h : record.finish d = .ok p) :
    d.firstLine = some p.firstLine ∧ d.firstCol = some p.firstCol ∧
      d.lastLine = some p.lastLine ∧ d.lastCol = some p.lastCol := by
  simp only [record] at h
  split at h
  · cases h
    exact ⟨‹_›, ‹_›, ‹_›, ‹_›⟩
  all_goals cases h

theorem shape_of_finish {f : Fault} (h : record.finish d = .error f) : f.category = .shape := by
  simp only [record] at h
  split at h <;> cases h
  all_goals rfl

/-- An object that lacks a number, or has two members of one known name, is refused. -/
theorem exists_refused (h : IsObject ms t.toList) (wrong : Lacks ms ∨ record.Repeats ms) :
    ∃ f, parse t = .error f ∧ record.Refused ms f := by
  cases result : parse t with
  | error f => exact ⟨f, rfl, Record.refused_of_ofText slotted shape_of_finish h result⟩
  | ok p =>
    obtain ⟨name, known, missing⟩ | repeats := wrong
    · obtain ⟨d, finished, held⟩ := Record.exists_held_of_ofText slotted h result
      obtain ⟨firstLine, firstCol, lastLine, lastCol⟩ := finish_ok finished
      obtain ⟨fl, fc, ll, lc, -⟩ := slots_in
      simp only [List.mem_cons, List.not_mem_nil, or_false] at known
      obtain rfl | rfl | rfl | rfl := known
      · exact absurd (((held fl).get_of_missing missing).symm.trans firstLine) nofun
      · exact absurd (((held fc).get_of_missing missing).symm.trans firstCol) nofun
      · exact absurd (((held ll).get_of_missing missing).symm.trans lastLine) nofun
      · exact absurd (((held lc).get_of_missing missing).symm.trans lastCol) nofun
    · exact absurd repeats (Record.not_repeats_of_ofText slotted h result)

/-- A number that is too large for any reader is met before the end of the object, where others are
found to be missing; so the fault is not always one of the shape. -/
theorem refusal_beyond_shape :
    ¬∀ (t : String) (ms : Members), IsObject ms t.toList → Lacks ms →
      ∃ f, parse t = .error f ∧ f.category = .shape := by
  intro all
  have value : IsValue "1e999".toList :=
    .scalar (.natural (.parts (w := ['1']) ⟨⟨nofun, rfl⟩, nofun⟩ .none
      (.some (.inl rfl) (.inl rfl) ⟨nofun, rfl⟩)))
  have object : IsObject [("first_line", "1e999".toList)]
      "\x7b\"first_line\":1e999\x7d".toList :=
    .full Blank.nil (.last (.parts Blank.nil (Text.spells_encode "first_line".toList) Blank.nil
      Blank.nil value Blank.nil)) Blank.nil
  obtain ⟨f, refused, shape⟩ := all _ _ object ⟨"first_col", by decide, rfl⟩
  have large : parse "\x7b\"first_line\":1e999\x7d" = .error .numberTooLarge := rfl
  rw [large] at refused
  cases refused
  cases shape

end Position

namespace Options

/-! ## Options -/

/-- An option. -/
def flagSlot (name : String) (get : Draft → Option Bool) (put : Draft → Bool → Draft)
    (get_put : ∀ d on, get (put d on) = some on) : Slot Draft Bool :=
  ⟨name, get, put, readBool, get_put, exists_scans_readBool⟩

def rescanSlot : Slot Draft Bool :=
  flagSlot "rescan_node_scopes" Draft.rescanNodeScopes
    (fun d on => { d with rescanNodeScopes := some on }) fun _ _ => rfl

def aritySlot : Slot Draft Bool :=
  flagSlot "check_arity" Draft.checkArity (fun d on => { d with checkArity := some on }) fun _ _ =>
    rfl

theorem forall_fields {P : Json.Field Draft → Prop} :
    (∀ f ∈ record.fields, P f) ↔ P rescanSlot.field ∧ P aritySlot.field := by
  have fields : record.fields = [rescanSlot.field, aritySlot.field] := rfl
  rw [fields]
  simp only [List.forall_mem_cons, List.not_mem_nil, false_implies, implies_true, and_true]

theorem slots_in : rescanSlot.In record ∧ aritySlot.In record := by
  refine ⟨?_, ?_⟩
  all_goals
    refine ⟨rfl, forall_fields.2 ⟨?_, ?_⟩, rfl⟩
    all_goals
      intro hn _ _ _ _ h
      first | exact absurd rfl hn | exact Slot.get_of_read (fun _ _ => rfl) h

theorem slotted : record.Slotted := by
  obtain ⟨rescan, arity⟩ := slots_in
  exact forall_fields.2 ⟨⟨_, _, rescan, rfl⟩, ⟨_, _, arity, rfl⟩⟩

/-- What the values of an option may be; where there is none, it is on. -/
inductive TellsFlag : Bool → List (List Char) → Prop where
  | missing : TellsFlag true []
  | yes : TellsFlag true ["true".toList]
  | no : TellsFlag false ["false".toList]

structure Told (o : Options) (ms : Members) : Prop where
  rescanNodeScopes : TellsFlag o.rescanNodeScopes (values "rescan_node_scopes" ms)
  checkArity : TellsFlag o.checkArity (values "check_arity" ms)

variable {o : Options} {ms : Members} {t : String} {d : Draft} {b : Bool}

theorem TellsFlag.says {name : String} {get : Draft → Option Bool} {put : Draft → Bool → Draft}
    {get_put : ∀ d on, get (put d on) = some on} {vs : List (List Char)} (h : TellsFlag b vs) :
    (flagSlot name get put get_put).Says vs true b := by
  cases h with
  | missing => exact .inl ⟨rfl, rfl⟩
  | yes => exact .inr ⟨_, rfl, rfl⟩
  | no => exact .inr ⟨_, rfl, rfl⟩

/-- An object that tells the options is read as these options. -/
theorem parse_of_told (h : IsObject ms t.toList) (told : o.Told ms) : parse t = .ok o := by
  obtain ⟨rescan, arity⟩ := slots_in
  have rescanNodeScopes : rescanSlot.Says _ true _ := told.rescanNodeScopes.says
  have checkArity : aritySlot.Says _ true _ := told.checkArity.says
  have readable : ∀ f ∈ record.fields, Record.Readable f (values f.name ms) :=
    forall_fields.2 ⟨rescanNodeScopes.readable, checkArity.readable⟩
  obtain ⟨d, read, held⟩ := Record.exists_held_of_readable slotted h readable
  have on : d.rescanNodeScopes.getD true = o.rescanNodeScopes :=
    rescanNodeScopes.getD_eq (held rescan)
  have on' : d.checkArity.getD true = o.checkArity := checkArity.getD_eq (held arity)
  rw [parse, read]
  simp only [record, on, on']

theorem exists_told_render (o : Options) : ∃ ms, IsObject ms o.render.toList ∧ o.Told ms := by
  have told (b : Bool) : TellsFlag b [(Json.bool b).render.toList] := by
    cases b
    · exact .no
    · exact .yes
  refine ⟨_, isObject_render (by simp [isValue_bool]), ?_, ?_⟩
  · simpa [values] using told o.rescanNodeScopes
  · simpa [values] using told o.checkArity

/-- An object with two members of one known name is refused. -/
theorem exists_refused (h : IsObject ms t.toList) (repeats : record.Repeats ms) :
    ∃ f, parse t = .error f ∧ record.Refused ms f := by
  cases result : parse t with
  | error f => exact ⟨f, rfl, Record.refused_of_ofText slotted nofun h result⟩
  | ok o => exact absurd repeats (Record.not_repeats_of_ofText slotted h result)

end Options

/-- What is written of a position or of the options is read back, and so is every object that tells
them. An object that lacks a number of a position, or repeats a known name, is refused, for its
shape or for the value of a known name that no reader accepts. -/
theorem decodes_objects :
    (∀ p : Position, Position.parse p.render = .ok p) ∧
    (∀ (p : Position) (t : String) (ms : Members), IsObject ms t.toList → p.Told ms →
      Position.parse t = .ok p) ∧
    (∀ (t : String) (ms : Members), IsObject ms t.toList →
      Position.Lacks ms ∨ Position.record.Repeats ms →
        ∃ f, Position.parse t = .error f ∧ Position.record.Refused ms f) ∧
    (∀ o : Options, Options.parse o.render = .ok o) ∧
    (∀ (o : Options) (t : String) (ms : Members), IsObject ms t.toList → o.Told ms →
      Options.parse t = .ok o) ∧
    (∀ (t : String) (ms : Members), IsObject ms t.toList → Options.record.Repeats ms →
      ∃ f, Options.parse t = .error f ∧ Options.record.Refused ms f) := by
  refine ⟨fun p => ?_, fun p t ms h told => Position.parse_of_told h told,
    fun t ms h wrong => Position.exists_refused h wrong, fun o => ?_,
    fun o t ms h told => Options.parse_of_told h told,
    fun t ms h repeats => Options.exists_refused h repeats⟩
  · obtain ⟨ms, object, told⟩ := p.exists_told_render
    exact Position.parse_of_told object told
  · obtain ⟨ms, object, told⟩ := o.exists_told_render
    exact Options.parse_of_told object told

/-- Members in another order, with blanks, and with one that could not be read itself. -/
example : Position.parse (" \x7b\"z\":[\x7b\"a\":1e999\x7d, \"\\ud800\"],\"last_col\":4, " ++
    "\"url\" : null,\"first_line\":1,\"last_line\":3,\"first_col\":2\x7d\n") =
      .ok ⟨1, 2, 3, 4, none⟩ :=
  rfl

end SyntaxWalk
