import Mathlib
import SyntaxWalk.Node.Printer
import SyntaxWalk.Proofs.BlockTrees
import SyntaxWalk.Proofs.Quoting

/-!
# Nodes are known from their print

The names of built-in kinds and all payloads but texts are printed as words, which end at the blank
or the parenthesis that follows; a text ends at its closing quote. A payload begins like no child.
So trees of built-in kinds, without floating point numbers, that are printed alike are the same, but
for the numbers and the positions of their nodes (`Node.print_eq_iff`).
-/

namespace SyntaxWalk

namespace Text

def isNumeral (c : Char) : Bool :=
  c.isDigit || c == '-'

/-- Whether a character may stand in the name of a built-in kind or in a payload without quotes. -/
def isWordChar (c : Char) : Bool :=
  c.isAlpha || isNumeral c

/-- A text that no word goes on into. -/
def EndsWord (cs : List Char) : Prop :=
  ∀ c ∈ cs.head?, isWordChar c = false

theorem int_repr_isNumeral (i : Int) : i.repr.toList.all isNumeral = true := by
  have natural (n : Nat) : n.repr.toList.all isNumeral = true := by
    rw [Nat.repr_eq_ofList_toDigits, String.toList_ofList, List.all_eq_true]
    intro c hc
    simp [isNumeral, Nat.isDigit_of_mem_toDigits (by decide) (by decide) hc]
  rw [Int.repr_eq_if]
  split_ifs
  · exact natural _
  · rw [String.toList_append, List.all_append, natural]
    decide

end Text

open Text

/-! ## Kinds -/

namespace NodeKind

variable {k l : NodeKind}

theorem mem_builtIn (h : ∀ name, k ≠ .custom name) : k ∈ builtIn := by
  cases k with
  | custom name => exact absurd rfl (h name)
  | _ => decide

theorem name_isWord : ∀ k ∈ builtIn, k.name.toList.all isWordChar = true := by
  decide

theorem name_injective (hk : k ∈ builtIn) (hl : l ∈ builtIn) (h : k.name = l.name) : k = l :=
  List.inj_on_of_nodup_map (f := name) (by decide) hk hl h

end NodeKind

/-! ## Payloads -/

namespace Value

variable {v w : Value} {r s : List Char}

/-- The payloads that are printed as words. -/
inductive IsWord : Value → Prop where
  | null : IsWord .null
  | bool (b) : IsWord (.bool b)
  | int (i) : IsWord (.int i)

theorem isWord_or_text (hv : ∀ x, v ≠ .float x) : v.IsWord ∨ ∃ t, v = .str t := by
  cases v with
  | null => exact .inl .null
  | bool b => exact .inl (.bool b)
  | int i => exact .inl (.int i)
  | float x => exact absurd rfl (hv x)
  | str t => exact .inr ⟨t, rfl⟩

namespace IsWord

theorem display_isWord (h : v.IsWord) : v.display.toList.all isWordChar = true := by
  cases h with
  | null => decide
  | bool b => cases b <;> decide
  | int i =>
    refine List.all_eq_true.2 fun c hc => ?_
    have numeral := List.all_eq_true.1 (int_repr_isNumeral i.toInt) c hc
    rw [isWordChar, numeral, Bool.or_true]

theorem display_injective (hv : v.IsWord) (hw : w.IsWord) (h : v.display = w.display) : v = w := by
  have numeral (i : Int64) : (Value.int i).display.toList.all isNumeral = true :=
    int_repr_isNumeral i.toInt
  have named : Value.null.display.toList.all isNumeral = false ∧
      ∀ b, (Value.bool b).display.toList.all isNumeral = false := by decide
  cases hv with
  | null =>
    cases hw with
    | null => rfl
    | bool b => revert h; cases b <;> decide
    | int i => simp [h, numeral] at named
  | bool b =>
    cases hw with
    | null => revert h; cases b <;> decide
    | bool c => revert h; cases b <;> cases c <;> decide
    | int i => simpa [h, numeral] using named.2 b
  | int i =>
    cases hw with
    | null => simp [← h, numeral] at named
    | bool b => simpa [← h, numeral] using named.2 b
    | int j => exact congrArg _ (Int64.toInt_inj.1 (Int.repr_inj.1 h))

theorem display_ne_nil (h : v.IsWord) : v.display.toList ≠ [] := by
  cases h with
  | null => decide
  | bool b => cases b <;> decide
  | int i =>
    have digits (n : Nat) : n.repr.toList ≠ [] := by
      rw [Nat.repr_eq_ofList_toDigits, String.toList_ofList]
      exact Nat.toDigits_ne_nil
    change i.toInt.repr.toList ≠ []
    rw [Int.repr_eq_if]
    split_ifs
    · exact digits _
    · rw [String.toList_append]
      exact List.append_ne_nil_of_right_ne_nil _ (digits _)

theorem append_ne_cons (h : v.IsWord) {c : Char} (hc : isWordChar c = false) :
    v.display.toList ++ r ≠ c :: s := by
  have word := h.display_isWord
  cases hd : v.display.toList with
  | nil => exact absurd hd h.display_ne_nil
  | cons d ds =>
    rw [hd, List.all_cons, Bool.and_eq_true] at word
    intro he
    rw [(List.cons.inj he).1, hc] at word
    exact Bool.false_ne_true word.1

end IsWord

theorem toList_display_str (t : String) :
    (Value.str t).display.toList = '"' :: (Quoted.encode t.toList ++ ['"']) :=
  String.toList_ofList

theorem display_append_ne_paren (hv : ∀ x, v ≠ .float x) : v.display.toList ++ r ≠ '(' :: s := by
  rcases isWord_or_text hv with hv | ⟨t, rfl⟩
  · exact hv.append_ne_cons (by decide)
  · rw [toList_display_str]
    exact fun h => absurd (List.cons.inj h).1 (by decide)

/-- A payload is known from its print, and so is where that ends. -/
theorem display_append_injective (hv : ∀ x, v ≠ .float x) (hw : ∀ x, w ≠ .float x)
    (hr : EndsWord r) (hs : EndsWord s) (h : v.display.toList ++ r = w.display.toList ++ s) :
    v = w ∧ r = s := by
  rcases isWord_or_text hv with hv | ⟨t, rfl⟩ <;> rcases isWord_or_text hw with hw | ⟨u, rfl⟩
  · obtain ⟨same, rest⟩ := word_append_injective hv.display_isWord hw.display_isWord hr hs h
    exact ⟨hv.display_injective hw (String.toList_inj.1 same), rest⟩
  · rw [toList_display_str] at h
    exact absurd h (hv.append_ne_cons (by decide))
  · rw [toList_display_str] at h
    exact absurd h.symm (hw.append_ne_cons (by decide))
  · simp only [toList_display_str, List.cons_append, List.append_assoc] at h
    obtain ⟨same, rest⟩ := Quoted.encode_append_injective (List.cons.inj h).2
    exact ⟨congrArg _ (String.toList_inj.1 same), rest⟩

end Value

/-! ## Nodes -/

namespace Node

/-- A tree without the numbers and the positions of its nodes. -/
def bare : Node → Node :=
  relabel fun n => { n with id := ⟨0⟩, position := none }

/-- Trees of built-in kinds without floating point numbers. -/
def Legible (n : Node) : Prop :=
  ∀ m ∈ n.subtree, m.IsBuiltIn ∧ ∀ x, m.value ≠ some (.float x)

variable {n m : Node} {ns ms : List Node} {v w : Option Value} {r s : List Char}

theorem bare_eq (n : Node) :
    n.bare = { id := ⟨0⟩, kind := n.kind, children := n.children.map bare, value := n.value } :=
  relabel_eq _ n

theorem bare_inj :
    n.bare = m.bare ↔
      n.kind = m.kind ∧ n.children.map bare = m.children.map bare ∧ n.value = m.value := by
  rw [bare_eq, bare_eq, Node.mk.injEq]
  simp

theorem Legible.child (h : n.Legible) (hm : m ∈ n.children) : m.Legible :=
  fun _ hk => h _ (mem_subtree_trans (mem_subtree_children n.mem_subtree_self hm) hk)

/-- The payload as it stands after the kind. -/
def printValue (v : Option Value) : List Char :=
  v.elim [] fun v => ' ' :: v.display.toList

def printChildren (ns : List Node) : List Char :=
  ns.flatMap fun n => ' ' :: n.print.toList

theorem toList_print (n : Node) :
    n.print.toList = '(' :: (n.kind.name.toList ++ (printValue n.value ++
      (printChildren n.children ++ [')']))) := by
  have each (ns : List Node) : (printEach ns).toList = printChildren ns := by
    induction ns with
    | nil => rfl
    | cons n ns ih =>
      rw [printEach, String.toList_append, String.toList_append, ih]
      rfl
  obtain ⟨id, kind, children, value, position⟩ := n
  cases value <;>
    simp [print, printValue, each]

theorem endsWord_printChildren : EndsWord (printChildren ns ++ ')' :: r) := by
  cases ns <;> · rintro c ⟨⟩; decide

theorem endsWord_printValue : EndsWord (printValue v ++ (printChildren ns ++ ')' :: r)) := by
  cases v with
  | none => exact endsWord_printChildren
  | some v => rintro c ⟨⟩; decide

/-- After the blank before a child stands a parenthesis, with which no payload begins. -/
theorem printChildren_append_ne {u : Value} (hu : ∀ x, u ≠ .float x) :
    printChildren ns ++ ')' :: r ≠ ' ' :: (u.display.toList ++ s) := by
  cases ns with
  | nil => exact fun h => absurd (List.cons.inj h).1 (by decide)
  | cons n ns =>
    rw [printChildren, List.flatMap_cons, toList_print]
    exact fun h => Value.display_append_ne_paren hu (List.cons.inj h).2.symm

theorem printValue_append_injective (hv : ∀ x, v ≠ some (.float x)) (hw : ∀ x, w ≠ some (.float x))
    (h : printValue v ++ (printChildren ns ++ ')' :: r) =
      printValue w ++ (printChildren ms ++ ')' :: s)) :
    v = w ∧ printChildren ns ++ ')' :: r = printChildren ms ++ ')' :: s := by
  cases v with
  | none =>
    cases w with
    | none => exact ⟨rfl, h⟩
    | some w => exact absurd h (printChildren_append_ne fun x hx => hw x (congrArg some hx))
  | some v =>
    have hv : ∀ x, v ≠ .float x := fun x hx => hv x (congrArg some hx)
    cases w with
    | none => exact absurd h.symm (printChildren_append_ne hv)
    | some w =>
      have hw : ∀ x, w ≠ .float x := fun x hx => hw x (congrArg some hx)
      obtain ⟨rfl, rest⟩ := Value.display_append_injective hv hw endsWord_printChildren
        endsWord_printChildren (List.cons.inj h).2
      exact ⟨rfl, rest⟩

theorem printChildren_append_injective
    (each : ∀ n ∈ ns, ∀ m ∈ ms, ∀ r s, n.print.toList ++ r = m.print.toList ++ s →
      n.bare = m.bare ∧ r = s)
    (h : printChildren ns ++ ')' :: r = printChildren ms ++ ')' :: s) :
    ns.map bare = ms.map bare ∧ r = s := by
  induction ns generalizing ms with
  | nil =>
    cases ms with
    | nil => exact ⟨rfl, (List.cons.inj h).2⟩
    | cons m ms => exact absurd (List.cons.inj h).1 (by decide)
  | cons n ns ih =>
    cases ms with
    | nil => exact absurd (List.cons.inj h).1 (by decide)
    | cons m ms =>
      simp only [printChildren, List.flatMap_cons, List.cons_append, List.append_assoc] at h
      obtain ⟨first, h⟩ :=
        each n List.mem_cons_self m List.mem_cons_self _ _ (List.cons.inj h).2
      obtain ⟨others, rest⟩ := ih (fun n hn m hm => each n (List.mem_cons_of_mem _ hn) m
        (List.mem_cons_of_mem _ hm)) h
      exact ⟨congrArg₂ List.cons first others, rest⟩

/-- A legible tree is known from its print, and so is where that ends. -/
theorem print_append_injective (hn : n.Legible) (hm : m.Legible)
    (h : n.print.toList ++ r = m.print.toList ++ s) : n.bare = m.bare ∧ r = s := by
  induction n using Node.induct generalizing m r s with
  | h n ih =>
    obtain ⟨builtIn, exact⟩ := hn n n.mem_subtree_self
    obtain ⟨builtIn', exact'⟩ := hm m m.mem_subtree_self
    have hk := NodeKind.mem_builtIn builtIn
    have hl := NodeKind.mem_builtIn builtIn'
    simp only [toList_print, List.cons_append, List.append_assoc, List.nil_append] at h
    obtain ⟨name, h⟩ := word_append_injective (NodeKind.name_isWord _ hk)
      (NodeKind.name_isWord _ hl) endsWord_printValue endsWord_printValue (List.cons.inj h).2
    obtain ⟨value, h⟩ := printValue_append_injective exact exact' h
    obtain ⟨children, rest⟩ := printChildren_append_injective
      (fun k hk l hl r s h => ih k hk (hn.child hk) (hm.child hl) h) h
    have kind := NodeKind.name_injective hk hl (String.toList_inj.1 name)
    exact ⟨bare_inj.2 ⟨kind, children, value⟩, rest⟩

theorem print_bare (n : Node) : n.bare.print = n.print := by
  induction n using Node.induct with
  | h n ih =>
    have children : printChildren (n.children.map bare) = printChildren n.children := by
      rw [printChildren, List.flatMap_map]
      exact List.flatMap_congr fun m hm => by rw [ih m hm]
    rw [← String.toList_inj, toList_print, toList_print, bare_eq]
    simp only [children]

/-- Legible trees are printed alike if and only if they are the same, but for the numbers and the
positions of their nodes. -/
theorem print_eq_iff (hn : n.Legible) (hm : m.Legible) : n.print = m.print ↔ n.bare = m.bare := by
  constructor
  · intro h
    exact (print_append_injective (r := []) (s := []) hn hm (by rw [h])).1
  · intro h
    rw [← print_bare n, h, print_bare]

/-- A block of a text and a variable, and a block of one text that looks like both. -/
theorem print_eq_iff_quoted :
    let text (s : String) : Node :=
      { id := ⟨1⟩, kind := .constant, children := [], value := some (.str s) }
    let x : Node := { id := ⟨2⟩, kind := .var, children := [], value := some (.str "x") }
    let two : Node := { id := ⟨3⟩, kind := .blockExpr, children := [text "a", x] }
    let one : Node := { id := ⟨3⟩, kind := .blockExpr, children := [text "a\") (Var \"x"] }
    two.Legible ∧ one.Legible ∧ (two.print = one.print ↔ two.bare = one.bare) ∧
      two.print ≠ one.print := by
  intro text x two one
  have htwo : two.Legible := by
    simp [Legible, subtree_eq, IsBuiltIn, two, text, x]
  have hone : one.Legible := by
    simp [Legible, subtree_eq, IsBuiltIn, one, text]
  have known := print_eq_iff htwo hone
  refine ⟨htwo, hone, known, fun h => ?_⟩
  have counts := congrArg List.length (bare_inj.1 (known.1 h)).2.1
  exact absurd counts (by simp [two, one])

end Node

end SyntaxWalk
