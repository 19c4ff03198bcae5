import SyntaxWalk.Proofs.JsonScans

/-!
# Records read from objects

The text of an object is described by its members, names with the texts of their values, in any
order and with blanks anywhere. Reading a record from such a text puts one member after another into
the draft (`Record.ofText_object`). A slot of the draft holds the only value of its name, or nothing
where the name is missing (`Record.held_of_fill`); so what it holds does not depend on the order of
the members, nor on members of other names. An object is read when every field can be read
(`Record.exists_held_of_readable`), and refused for the shape of the record or for the value of a
known name (`Record.refused_of_ofText`).
-/

namespace SyntaxWalk.Json

/-! ## The grammar of objects -/

/-- The names of an object's members with the texts of their values. -/
abbrev Members := List (String × List Char)

inductive IsMember : String × List Char → List Char → Prop where
  | parts {name body v ws vs us xs} (hw : Blank ws) (hn : Text.Spells body name.toList)
      (hv : Blank vs) (hu : Blank us) (h : IsValue v) (hx : Blank xs) :
      IsMember (name, v) (ws ++ '"' :: (body ++ '"' :: (vs ++ ':' :: (us ++ (v ++ xs)))))

inductive IsMembers : Members → List Char → Prop where
  | last {m cs} (h : IsMember m cs) : IsMembers [m] cs
  | more {m cs ms ds} (h : IsMember m cs) (hs : IsMembers ms ds) :
      IsMembers (m :: ms) (cs ++ ',' :: ds)

inductive IsObject : Members → List Char → Prop where
  | empty {ws vs us} (hw : Blank ws) (hv : Blank vs) (hu : Blank us) :
      IsObject [] (ws ++ '\x7b' :: (vs ++ '\x7d' :: us))
  | full {ms cs ws us} (hw : Blank ws) (h : IsMembers ms cs) (hu : Blank us) :
      IsObject ms (ws ++ '\x7b' :: (cs ++ '\x7d' :: us))

/-- The values that a name has, first to last. -/
def values (name : String) (ms : Members) : List (List Char) :=
  (ms.filter (·.1 == name)).map (·.2)

variable {ms : Members} {m : String × List Char} {name : String} {cs rest : List Char}

@[simp]
theorem values_cons_self (v : List Char) : values name ((name, v) :: ms) = v :: values name ms := by
  simp [values]

@[simp]
theorem values_cons_of_ne (h : m.1 ≠ name) : values name (m :: ms) = values name ms := by
  simp [values, h]

theorem IsMember.isValue (h : IsMember m cs) : IsValue m.2 := by
  cases h
  assumption

theorem IsMember.exists_quote (h : IsMember m cs) :
    ∃ ws tail, Blank ws ∧ cs = ws ++ '"' :: tail := by
  obtain ⟨hw⟩ := h
  exact ⟨_, _, hw, rfl⟩

theorem IsMembers.isValue (h : IsMembers ms cs) : ∀ m ∈ ms, IsValue m.2 := by
  induction h with
  | last h => exact List.forall_mem_singleton.2 h.isValue
  | more h _ ih => exact List.forall_mem_cons.2 ⟨h.isValue, ih⟩

theorem IsMembers.exists_quote (h : IsMembers ms cs) :
    ∃ ws tail, Blank ws ∧ cs = ws ++ '"' :: tail := by
  cases h with
  | last h => exact h.exists_quote
  | more h =>
    obtain ⟨ws, tail, hw, rfl⟩ := h.exists_quote
    exact ⟨ws, _, hw, List.append_assoc ..⟩

theorem IsMembers.length_le (h : IsMembers ms cs) : ms.length ≤ cs.length := by
  induction h with
  | last h =>
    obtain ⟨ws, tail, -, rfl⟩ := h.exists_quote
    simp only [List.length_append, List.length_cons, List.length_nil]
    omega
  | more h _ ih =>
    simp only [List.length_cons, List.length_append]
    omega

theorem IsObject.isValue (h : IsObject ms cs) : ∀ m ∈ ms, IsValue m.2 := by
  cases h with
  | empty => exact nofun
  | full _ h => exact h.isValue

/-! ## Slots -/

variable {δ α β : Type}

/-- A part of a draft that is read from the value of one name. -/
structure Slot (δ β : Type) where
  name : String
  get : δ → Option β
  put : δ → β → δ
  scan : List Char → Scan β
  get_put (d : δ) (b : β) : get (put d b) = some b
  scans {v : List Char} (hv : IsValue v) : ∃ o, Scans scan v o

namespace Slot

def field (s : Slot δ β) : Field δ where
  name := s.name
  isSet d := (s.get d).isSome
  read d cs := (s.scan cs).map fun p => (s.put d p.1, p.2)

/-- The slot is a field of the record, and no other field changes what it holds. -/
structure In (s : Slot δ β) (r : Record δ α) : Prop where
  found : r.fields.find? (·.name == s.name) = some s.field
  kept : ∀ f ∈ r.fields, f.name ≠ s.name → ∀ {d d' : δ} {cs rest : List Char},
    f.read d cs = .ok (d', rest) → s.get d' = s.get d
  unset : s.get r.draft = none

/-- What a draft holds that was filled with members: the only value of the slot's name. -/
inductive Held (s : Slot δ β) (ms : Members) (d : δ) : Prop where
  | missing (h : values s.name ms = []) (hd : s.get d = none)
  | only {v b rest} (h : values s.name ms = [v]) (hv : s.scan v = .ok (b, rest))
      (hd : s.get d = some b)

end Slot

namespace Record

/-- Every field is a slot. -/
def Slotted (r : Record δ α) : Prop :=
  ∀ f ∈ r.fields, ∃ (β : Type) (s : Slot δ β), s.In r ∧ s.field = f

/-- Puts one member into a draft. -/
def take (r : Record δ α) (d : δ) (m : String × List Char) : Except Fault δ :=
  match r.fields.find? (·.name == m.1) with
  | none => .ok d
  | some f => if f.isSet d then .error (.duplicateField m.1) else (f.read d m.2).map (·.1)

def fill (r : Record δ α) : δ → Members → Except Fault δ
  | d, [] => .ok d
  | d, m :: ms => (r.take d m).bind fun d => fill r d ms

end Record

/-! ## Reading an object -/

theorem readKey?_blank {ws : List Char} (hw : Blank ws) (first : Bool) (cs : List Char) :
    readKey? first (ws ++ cs) = readKey? first cs := by
  simp only [readKey?, skipBlank_append hw]

theorem readKey?_quote (cs : List Char) :
    readKey? true ('"' :: cs) = (Text.read cs).map fun p => (some p.1, p.2) := rfl

/-- After a comma a key is read like the first one. -/
theorem readKey?_comma {ws : List Char} (hw : Blank ws) (cs : List Char) :
    readKey? false (',' :: (ws ++ '"' :: cs)) = readKey? true ('"' :: cs) := by
  have ink : skipBlank (',' :: (ws ++ '"' :: cs)) = ',' :: (ws ++ '"' :: cs) := rfl
  have key : skipBlank (ws ++ '"' :: cs) = '"' :: cs := skipBlank_blank_cons hw (by decide)
  rw [readKey?_quote]
  simp [readKey?, ink, key]

theorem afterColon_blank {ws : List Char} (hw : Blank ws) (cs : List Char) :
    afterColon (ws ++ ':' :: cs) = .ok cs := by
  rw [afterColon, skipBlank_blank_cons hw (by decide)]
  rfl

namespace Record

variable {r : Record δ α} {d d' : δ} {n : Nat}

theorem Slotted.scans (hr : r.Slotted) {f : Field δ} (hf : f ∈ r.fields) (d : δ) {v : List Char}
    (hv : IsValue v) : ∃ o, Scans (f.read d) v o := by
  obtain ⟨β, s, -, rfl⟩ := hr f hf
  obtain ⟨o, anywhere, refused⟩ := s.scans hv
  refine ⟨o.map (s.put d), fun hw hr => ?_, fun h => refused ?_⟩
  · refine (congrArg (Except.map _) (anywhere hw hr)).trans ?_
    cases o <;> rfl
  · cases o <;> cases h
    rfl

theorem Slotted.read_append (hr : r.Slotted) {f : Field δ} (hf : f ∈ r.fields) (d : δ)
    {v us : List Char} (hv : IsValue v) (hu : Blank us) (h : Number.EndsNumber rest) :
    f.read d (us ++ (v ++ rest)) = ((f.read d v).map (·.1)).map fun d => (d, rest) := by
  obtain ⟨o, ho⟩ := hr.scans hf d hv
  rw [ho.anywhere hu h, ho.alone]
  cases o <;> rfl

/-- A member is read into the draft, and then the rest of the object. -/
theorem readMembers_member (hr : r.Slotted) (hm : IsMember m cs) :
    ∃ xs, Blank xs ∧ ∀ (n : Nat) (d : δ) (rest : List Char) {c : Char}, c = ',' ∨ c = '\x7d' →
      r.readMembers (n + 1) true d (cs ++ c :: rest) =
        (r.take d m).bind fun d => r.readMembers n false d (xs ++ c :: rest) := by
  obtain @⟨name, body, v, ws, vs, us, xs, hw, hn, hv, hu, value, hx⟩ := hm
  refine ⟨xs, hx, fun n d rest c hc => ?_⟩
  have key (cs : List Char) : Text.read (body ++ '"' :: cs) = .ok (name, cs) := by
    rw [Text.read, Text.decode_spells hn, Except.map, String.ofList_toList]
  have ends : Number.EndsNumber (xs ++ c :: rest) :=
    endsNumber_blank_cons hx (by rcases hc with rfl | rfl <;> decide)
  simp only [List.append_assoc, List.cons_append]
  rw [readMembers, readKey?_blank hw, readKey?_quote, key, take]
  simp only [Except.map, afterColon_blank hv]
  cases known : r.fields.find? (·.name == name) with
  | none => simp only [Except.bind, skipValue_append hu value ends]
  | some f =>
    have hf := List.mem_of_find?_eq_some known
    by_cases set : f.isSet d
    · simp only [set, if_true, Except.bind]
    · simp only [set, Bool.false_eq_true, if_false, hr.read_append hf d value hu ends]
      rcases f.read d v with e | ⟨d', -⟩ <;> rfl

/-- After a comma the members are read like the first ones. -/
theorem readMembers_comma {xs : List Char} (hx : Blank xs) (h : IsMembers ms cs) :
    r.readMembers n false d (xs ++ ',' :: (cs ++ rest)) = r.readMembers n true d (cs ++ rest) := by
  obtain ⟨ws, tail, hw, rfl⟩ := h.exists_quote
  cases n with
  | zero => rfl
  | succ n =>
    rw [List.append_assoc, List.cons_append, readMembers, readMembers, readKey?_blank hx,
      readKey?_comma hw, readKey?_blank hw]

/-- The members of an object are put into the draft, one after another. -/
theorem readMembers_members (hr : r.Slotted) (h : IsMembers ms cs) (hn : ms.length ≤ n) :
    r.readMembers (n + 1) true d (cs ++ '\x7d' :: rest) = (r.fill d ms).map fun d => (d, rest) := by
  induction h generalizing n d with
  | last hm =>
    obtain ⟨xs, hx, read⟩ := readMembers_member hr hm
    obtain ⟨n, rfl⟩ := Nat.exists_eq_succ_of_ne_zero (Nat.pos_iff_ne_zero.1 hn)
    have closed (d : δ) : r.readMembers (n + 1) false d (xs ++ '\x7d' :: rest) = .ok (d, rest) := by
      rw [readMembers, readKey?_blank hx]
      rfl
    rw [read _ _ _ (.inr rfl), fill]
    simp only [closed, fill]
    cases r.take d _ <;> rfl
  | @more m cs ms ds hm hs ih =>
    obtain ⟨xs, hx, read⟩ := readMembers_member hr hm
    obtain ⟨n, rfl⟩ := Nat.exists_eq_succ_of_ne_zero (Nat.pos_iff_ne_zero.1 (Nat.zero_lt_of_lt hn))
    rw [List.append_assoc, List.cons_append, read _ _ _ (.inl rfl), fill]
    simp only [readMembers_comma hx hs, ih (Nat.le_of_succ_le_succ hn)]
    cases r.take d m <;> rfl

theorem read_members {cs us ws : List Char} (hw : Blank ws)
    (h : r.readMembers (cs.length + 1) true r.draft cs = (r.fill r.draft ms).map fun d => (d, us)) :
    r.read (ws ++ '\x7b' :: cs) = ((r.fill r.draft ms).bind r.finish).map fun a => (a, us) := by
  rw [Record.read, skipBlank_blank_cons hw (by decide)]
  simp only [h]
  cases r.fill r.draft ms <;> rfl

/-- What the text of an object is read as: its members are put into the draft of the record. -/
theorem ofText_object (hr : r.Slotted) {s : String} (h : IsObject ms s.toList) :
    r.ofText s = (r.fill r.draft ms).bind r.finish := by
  have whole : ∃ us, Blank us ∧
      r.read s.toList = ((r.fill r.draft ms).bind r.finish).map fun a => (a, us) := by
    generalize s.toList = cs at h
    cases h with
    | @empty ws vs us hw hv hu =>
      refine ⟨us, hu, read_members hw ?_⟩
      rw [readMembers, readKey?_blank hv]
      rfl
    | @full ms cs ws us hw h hu =>
      refine ⟨us, hu, read_members hw (readMembers_members hr h ?_)⟩
      have := h.length_le
      simp only [List.length_append]
      omega
  obtain ⟨us, hu, read⟩ := whole
  have ended : atEnd us = .ok () := by
    have := skipBlank_append hu []
    rw [List.append_nil] at this
    rw [atEnd, this]
    rfl
  rw [ofText, read]
  cases (r.fill r.draft ms).bind r.finish
  · rfl
  · simp only [Except.map, ended]

end Record

/-! ## What a filled draft holds -/

section Except

variable {ε γ : Type} {o : Except ε β}

theorem map_eq_ok {g : β → γ} {c : γ} : o.map g = .ok c ↔ ∃ b, o = .ok b ∧ g b = c := by
  cases o <;> simp [Except.map]

theorem map_eq_error {g : β → γ} {e : ε} : o.map g = .error e ↔ o = .error e := by
  cases o <;> simp [Except.map]

theorem bind_eq_ok {g : β → Except ε γ} {c : γ} :
    o.bind g = .ok c ↔ ∃ b, o = .ok b ∧ g b = .ok c := by
  cases o <;> simp [Except.bind]

theorem bind_eq_error {g : β → Except ε γ} {e : ε} :
    o.bind g = .error e ↔ o = .error e ∨ ∃ b, o = .ok b ∧ g b = .error e := by
  cases o <;> simp [Except.bind]

end Except

namespace Record

variable {r : Record δ α} {d d' : δ} {s : Slot δ β}

theorem take_unknown (h : ∀ f ∈ r.fields, f.name ≠ m.1) : r.take d m = .ok d := by
  have unknown : r.fields.find? (·.name == m.1) = none := by simpa using h
  rw [take, unknown]

/-- A member of a known name is read unless its field is set. -/
theorem take_known {f : Field δ} (known : r.fields.find? (·.name == m.1) = some f) :
    r.take d m = if f.isSet d then .error (.duplicateField m.1) else (f.read d m.2).map (·.1) := by
  rw [take, known]

/-- A member of another name leaves a slot as it is. -/
theorem get_take_of_ne (hs : s.In r) (hn : m.1 ≠ s.name) (h : r.take d m = .ok d') :
    s.get d' = s.get d := by
  cases known : r.fields.find? (·.name == m.1) with
  | none =>
    rw [take, known] at h
    cases h
    rfl
  | some f =>
    have name : f.name = m.1 := by simpa using List.find?_some known
    rw [take_known known] at h
    split_ifs at h
    obtain ⟨⟨_, rest⟩, read, rfl⟩ := map_eq_ok.1 h
    exact hs.kept f (List.mem_of_find?_eq_some known) (name ▸ hn) read

/-- A member of the slot's name finds it empty and is put into it. -/
theorem get_take_self (hs : s.In r) (hn : m.1 = s.name) (h : r.take d m = .ok d') :
    s.get d = none ∧ ∃ b rest, s.scan m.2 = .ok (b, rest) ∧ s.get d' = some b := by
  rw [take_known (hn ▸ hs.found)] at h
  split_ifs at h with set
  obtain ⟨_, read, rfl⟩ := map_eq_ok.1 h
  obtain ⟨⟨b, rest⟩, scanned, rfl⟩ := map_eq_ok.1 read
  exact ⟨by simpa [Slot.field] using set, b, rest, scanned, s.get_put d b⟩

/-- A slot of a filled draft holds the only value of its name. -/
theorem get_fill (hs : s.In r) (h : r.fill d ms = .ok d') :
    values s.name ms = [] ∧ s.get d' = s.get d ∨
      s.get d = none ∧ ∃ v b rest,
        values s.name ms = [v] ∧ s.scan v = .ok (b, rest) ∧ s.get d' = some b := by
  induction ms generalizing d with
  | nil =>
    cases h
    exact .inl ⟨rfl, rfl⟩
  | cons m ms ih =>
    obtain ⟨e, taken, h⟩ := bind_eq_ok.1 h
    by_cases hn : m.1 = s.name
    · obtain ⟨unset, b, rest, scanned, put⟩ := get_take_self hs hn taken
      obtain ⟨none, same⟩ | ⟨absent, -⟩ := ih h
      · refine .inr ⟨unset, m.2, b, rest, ?_, scanned, same.trans put⟩
        obtain ⟨name, v⟩ := m
        cases hn
        rw [values_cons_self, none]
      · rw [put] at absent
        cases absent
    · rw [values_cons_of_ne hn, ← get_take_of_ne hs hn taken]
      exact ih h

/-- A draft that was filled with members holds what they say. -/
theorem held_of_fill (hs : s.In r) (h : r.fill r.draft ms = .ok d) : s.Held ms d := by
  obtain ⟨none, same⟩ | ⟨-, v, b, rest, only, scanned, put⟩ := get_fill hs h
  · exact .missing none (same.trans hs.unset)
  · exact .only only scanned put

/-- A field can be read from the values of its name: there is none, or the only one is of its
kind. -/
def Readable (f : Field δ) (vs : List (List Char)) : Prop :=
  vs = [] ∨ ∃ v, vs = [v] ∧ ∀ d, ∃ p, f.read d v = .ok p

theorem Slotted.isSet_take (hr : r.Slotted) {f : Field δ} (hf : f ∈ r.fields) (hn : m.1 ≠ f.name)
    (h : r.take d m = .ok d') : f.isSet d' = f.isSet d := by
  obtain ⟨β, s, hs, rfl⟩ := hr f hf
  simp only [Slot.field, get_take_of_ne hs hn h]

/-- A draft is filled when every field can be read and none that is still to come is set. -/
theorem exists_fill (hr : r.Slotted) (h : ∀ f ∈ r.fields, Readable f (values f.name ms))
    (unset : ∀ f ∈ r.fields, values f.name ms ≠ [] → f.isSet d = false) :
    ∃ d', r.fill d ms = .ok d' := by
  induction ms generalizing d with
  | nil => exact ⟨d, rfl⟩
  | cons m ms ih =>
    obtain ⟨name, v⟩ := m
    -- Once the member is taken, its field is done with, and the others are where they were.
    have later {e : δ} (taken : r.take d (name, v) = .ok e)
        (done : ∀ f ∈ r.fields, name = f.name → values f.name ms = []) :
        ∃ d', r.fill d ((name, v) :: ms) = .ok d' := by
      rw [fill, taken]
      refine ih (fun f hf => ?_) fun f hf hne => ?_
      · by_cases hn : name = f.name
        · exact .inl (done f hf hn)
        · simpa [hn] using h f hf
      · have hn : name ≠ f.name := fun hn => hne (done f hf hn)
        rw [hr.isSet_take hf hn taken]
        exact unset f hf (by rwa [values_cons_of_ne hn])
    cases known : r.fields.find? (·.name == name) with
    | none =>
      have other : ∀ f ∈ r.fields, f.name ≠ name := by simpa using known
      exact later (take_unknown other) fun f hf hn => absurd hn.symm (other f hf)
    | some f =>
      have hf := List.mem_of_find?_eq_some known
      obtain rfl : f.name = name := by simpa using List.find?_some known
      obtain none | ⟨v', only, read⟩ := h f hf
      · simp at none
      · rw [values_cons_self, List.cons_eq_cons] at only
        obtain ⟨rfl, done⟩ := only
        obtain ⟨p, hp⟩ := read d
        refine later (e := p.1) ?_ fun g _ hn => hn ▸ done
        rw [take_known known, unset f hf (by simp), if_neg Bool.false_ne_true, hp]
        rfl

/-- Why a record is refused: for its shape, or for the value of a known name that no reader
accepts. -/
def Refused (r : Record δ α) (ms : Members) (f : Fault) : Prop :=
  f.category = .shape ∨
    ∃ m ∈ ms, (∃ g ∈ r.fields, g.name = m.1) ∧ Json.read depthLimit m.2 = .error f

theorem refused_of_fill (hr : r.Slotted) (hv : ∀ m ∈ ms, IsValue m.2) {f : Fault}
    (h : r.fill d ms = .error f) : r.Refused ms f := by
  induction ms generalizing d with
  | nil => cases h
  | cons m ms ih =>
    have ⟨value, hv⟩ := List.forall_mem_cons.1 hv
    obtain taken | ⟨e, -, h⟩ := bind_eq_error.1 h
    · cases known : r.fields.find? (·.name == m.1) with
      | none =>
        rw [take, known] at taken
        cases taken
      | some g =>
        have hg := List.mem_of_find?_eq_some known
        have name : g.name = m.1 := by simpa using List.find?_some known
        rw [take_known known] at taken
        split_ifs at taken
        · cases taken
          exact .inl rfl
        · obtain ⟨o, ho⟩ := hr.scans hg d value
          rw [ho.alone] at taken
          obtain shape | unread := ho.refused (map_eq_error.1 (map_eq_error.1 taken))
          · exact .inl shape
          · exact .inr ⟨m, List.mem_cons_self, ⟨g, hg, name⟩, unread⟩
    · exact (ih hv h).imp_right fun ⟨m, hm, known⟩ => ⟨m, List.mem_cons_of_mem _ hm, known⟩

variable {t : String}

/-- An object is refused for the shape of the record, or for the value of a known name. -/
theorem refused_of_ofText (hr : r.Slotted)
    (finish : ∀ {d f}, r.finish d = .error f → f.category = .shape)
    (h : IsObject ms t.toList) {f : Fault} (hf : r.ofText t = .error f) : r.Refused ms f := by
  rw [ofText_object hr h] at hf
  obtain unfilled | ⟨d, -, unfinished⟩ := bind_eq_error.1 hf
  · exact refused_of_fill hr h.isValue unfilled
  · exact .inl (finish unfinished)

theorem exists_held_of_ofText (hr : r.Slotted) (h : IsObject ms t.toList) {a : α}
    (ha : r.ofText t = .ok a) :
    ∃ d, r.finish d = .ok a ∧ ∀ {β : Type} {s : Slot δ β}, s.In r → s.Held ms d := by
  rw [ofText_object hr h] at ha
  obtain ⟨d, filled, finished⟩ := bind_eq_ok.1 ha
  exact ⟨d, finished, fun hs => held_of_fill hs filled⟩

/-- An object from which every field can be read is read. -/
theorem exists_held_of_readable (hr : r.Slotted) (h : IsObject ms t.toList)
    (readable : ∀ f ∈ r.fields, Readable f (values f.name ms)) :
    ∃ d, r.ofText t = r.finish d ∧ ∀ {β : Type} {s : Slot δ β}, s.In r → s.Held ms d := by
  have unset : ∀ f ∈ r.fields, values f.name ms ≠ [] → f.isSet r.draft = false := by
    intro f hf _
    obtain ⟨β, s, hs, rfl⟩ := hr f hf
    simp [Slot.field, hs.unset]
  obtain ⟨d, filled⟩ := exists_fill hr readable unset
  refine ⟨d, ?_, fun hs => held_of_fill hs filled⟩
  rw [ofText_object hr h, filled]
  rfl

/-- Two members have one known name. -/
def Repeats (r : Record δ α) (ms : Members) : Prop :=
  ∃ f ∈ r.fields, 1 < (values f.name ms).length

theorem not_repeats_of_ofText (hr : r.Slotted) (h : IsObject ms t.toList) {a : α}
    (ha : r.ofText t = .ok a) : ¬r.Repeats ms := by
  rintro ⟨f, hf, many⟩
  obtain ⟨d, -, held⟩ := exists_held_of_ofText hr h ha
  obtain ⟨β, s, hs, rfl⟩ := hr f hf
  cases held hs with
  | missing none =>
    change 1 < (values s.name ms).length at many
    simp [none] at many
  | only only =>
    change 1 < (values s.name ms).length at many
    simp [only] at many

end Record

end SyntaxWalk.Json
