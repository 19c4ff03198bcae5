import SyntaxWalk.Proofs.Places

/-!
# The serials of recorded contexts

A recorder gives each context that it derives a serial larger than all before. On the agenda of its
walk serials never increase from front to back, so once a task under an outer context is reached,
what follows is under that context, a context further out, or one that has yet to be derived.
-/

namespace SyntaxWalk

/-- The serial that an entry is recorded with. -/
def Entry.serial : Entry ScopeContext → Nat
  | .called call _ => call.context.serial
  | .derived _ _ inner => inner.serial
  | .began | .ended => 0

/-- The largest serial of those on hand that the tasks right after an entry may use. -/
def Entry.ceiling : Entry ScopeContext → Nat
  | .called (.entity .visit _ _ (some inner) _) _ => inner.serial
  | x => x.serial

namespace Task

def context {C : Type} : Task C → C
  | entity _ context | nested _ _ context | openEntity _ context | holdEntity _ context _
  | leaveEntity _ context _ | finishEntity _ context | node _ context | openNode _ context
  | plan _ context _ | child _ _ context | finishNode _ context | target _ context _
  | lastTarget _ context _ | leaveTarget _ context => context

def floor (t : Task ScopeContext) : Nat :=
  t.context.serial

def ceiling : Task ScopeContext → Nat
  | holdEntity _ _ (some inner) => inner.serial
  | t => t.floor

end Task

/-- Serials do not increase along some tasks, and each is one of two. -/
structure Descends (lo hi : Nat) (tasks : List (Task ScopeContext)) : Prop where
  sorted : tasks.Pairwise fun t t' => t'.ceiling ≤ t.floor
  serials : ∀ t ∈ tasks, (t.floor = lo ∨ t.floor = hi) ∧ (t.ceiling = lo ∨ t.ceiling = hi) ∧
    t.floor ≤ t.ceiling

/-- An act is under the context of its task, and leads to tasks under it or one derived from it. -/
def Act.Descends (task : Task ScopeContext) : Act ScopeContext → Prop
  | .fail _ => True
  | .replace tasks | .adopt _ _ tasks => SyntaxWalk.Descends task.floor task.floor tasks
  | .derive _ outer tasks => outer = task.context ∧
    ∀ inner : ScopeContext, task.floor ≤ inner.serial →
      SyntaxWalk.Descends task.floor inner.serial (tasks inner)
  | .call hook tasks _ => hook.context = task.context ∧
    ∀ answer, (Entry.called hook answer).ceiling = task.ceiling ∧
      SyntaxWalk.Descends task.floor task.ceiling (tasks answer)

namespace Descends

variable {lo hi : Nat} {tasks : List (Task ScopeContext)}

theorem nil : Descends lo hi [] :=
  ⟨.nil, nofun⟩

/-- Tasks all under one context. -/
theorem level {k : Nat} (hk : k = lo ∨ k = hi)
    (h : ∀ t ∈ tasks, t.floor = k ∧ t.ceiling = k) : Descends lo hi tasks := by
  refine ⟨List.pairwise_of_forall_mem_list fun t ht t' ht' => ?_, fun t ht => ?_⟩
  · rw [(h t ht).1, (h t' ht').2]
  · rw [(h t ht).1, (h t ht).2]
    exact ⟨hk, hk, le_rfl⟩

theorem append {tasks' : List (Task ScopeContext)} (h : Descends lo hi tasks)
    (h' : Descends lo hi tasks') (hs : ∀ t ∈ tasks, ∀ t' ∈ tasks', t'.ceiling ≤ t.floor) :
    Descends lo hi (tasks ++ tasks') :=
  ⟨List.pairwise_append.2 ⟨h.sorted, h'.sorted, hs⟩,
    List.forall_mem_append.2 ⟨h.serials, h'.serials⟩⟩

end Descends

namespace Walker

variable {σ : Type} {w : Walker σ ScopeContext}

theorem onProceed_descends {lo hi : Nat} {tasks : List (Task ScopeContext)}
    (h : Descends lo hi tasks) (answer : Answer) : Descends lo hi (onProceed tasks answer) := by
  cases answer with
  | proceed => exact h
  | handled => exact .nil

theorem contents_level (e : Entity) (inner : ScopeContext) :
    ∀ t ∈ contents e (some inner), t.floor = inner.serial ∧ t.ceiling = inner.serial := by
  simp only [contents]
  split
  · refine List.forall_mem_append.2 ⟨?_, ?_⟩ <;> exact List.forall_mem_map.2 fun _ _ => ⟨rfl, rfl⟩
  · exact List.forall_mem_map.2 fun _ _ => ⟨rfl, rfl⟩

theorem holdEntity_descends (e : Entity) (context : ScopeContext) (inner : Option ScopeContext)
    (h : (Task.holdEntity e context inner).floor ≤ (Task.holdEntity e context inner).ceiling) :
    Descends context.serial (Task.holdEntity e context inner).ceiling
      (contents e inner ++ [.leaveEntity e context inner]) := by
  have leave : Descends context.serial (Task.holdEntity e context inner).ceiling
      [.leaveEntity e context inner] :=
    .level (.inl rfl) (List.forall_mem_singleton.2 ⟨rfl, rfl⟩)
  cases inner with
  | none => exact leave
  | some inner =>
    have level := contents_level e inner
    refine .append (.level (.inr rfl) level) leave fun t ht => List.forall_mem_singleton.2 ?_
    rw [(level t ht).1]
    exact h

theorem afterVisit_descends (n : Node) (context : ScopeContext) (steps : List Step)
    (answer : Answer) :
    Descends context.serial context.serial (w.afterVisit n context steps answer) := by
  have hoisted : ∀ t ∈ w.hoisted n context, t.floor = context.serial ∧ t.ceiling = context.serial :=
    List.forall_mem_map.2 fun _ _ => ⟨rfl, rfl⟩
  cases answer with
  | proceed => exact .level (.inl rfl) (List.forall_mem_cons.2 ⟨⟨rfl, rfl⟩, hoisted⟩)
  | handled =>
    rw [afterVisit]
    split
    · exact .level (.inl rfl) hoisted
    · exact .nil

/-- Under a derived context first, and then under the surrounding one. -/
theorem derived_descends {context inner : ScopeContext} {body rest : Task ScopeContext}
    (hb : body.floor = inner.serial ∧ body.ceiling = inner.serial)
    (hr : rest.floor = context.serial ∧ rest.ceiling = context.serial)
    (h : context.serial ≤ inner.serial) :
    Descends context.serial inner.serial [body, rest] := by
  refine .append (.level (.inr rfl) (List.forall_mem_singleton.2 hb))
    (.level (.inl rfl) (List.forall_mem_singleton.2 hr)) ?_
  simpa [hb.1, hr.2] using h

theorem targetCall_descends {a : Assignment} {context : ScopeContext} {skip : Nat}
    {inside : List (Task ScopeContext)}
    (h : ∀ t ∈ inside, t.floor = context.serial ∧ t.ceiling = context.serial) :
    (targetCall a context skip inside).Descends (.target a context skip) := by
  refine ⟨rfl, fun answer => ⟨rfl, onProceed_descends (.level (.inl rfl) ?_) answer⟩⟩
  exact List.forall_mem_append.2 ⟨h, List.forall_mem_singleton.2 ⟨rfl, rfl⟩⟩

theorem Move.descends {parents : ParentTable} {task : Task ScopeContext}
    {act : Act ScopeContext} (h : w.Move parents task act) (ht : task.floor ≤ task.ceiling) :
    act.Descends task := by
  cases h with
  | fail => trivial
  | entity | node =>
    refine ⟨rfl, fun answer => ⟨rfl, onProceed_descends (.level (.inl rfl) ?_) answer⟩⟩
    exact List.forall_mem_cons.2 ⟨⟨rfl, rfl⟩, List.forall_mem_singleton.2 ⟨rfl, rfl⟩⟩
  | nested | openField | child | lastTarget =>
    exact .level (.inl rfl) (List.forall_mem_singleton.2 ⟨rfl, rfl⟩)
  | openEntity hd =>
    refine ⟨rfl, fun inner hi => ⟨List.pairwise_singleton _ _, ?_⟩⟩
    exact List.forall_mem_singleton.2 ⟨.inl rfl, .inr rfl, hi⟩
  | @holdEntity e context inner =>
    refine ⟨rfl, fun answer => ⟨?_, onProceed_descends (holdEntity_descends e context inner ht) _⟩⟩
    cases inner <;> rfl
  | leaveEntity | finishEntity | planDone | finishNode | leaveTarget =>
    exact ⟨rfl, fun _ => ⟨rfl, .nil⟩⟩
  | openNode => exact ⟨rfl, fun answer => ⟨rfl, afterVisit_descends _ _ _ answer⟩⟩
  | planVisit =>
    refine .level (.inl rfl) ?_
    exact List.forall_mem_cons.2 ⟨⟨rfl, rfl⟩, List.forall_mem_singleton.2 ⟨rfl, rfl⟩⟩
  | planLocal | planProtected =>
    exact ⟨rfl, fun inner hi => derived_descends ⟨rfl, rfl⟩ ⟨rfl, rfl⟩ hi⟩
  | planBetween =>
    refine ⟨rfl, fun _ => ⟨rfl, .level (.inl rfl) ?_⟩⟩
    exact List.forall_mem_singleton.2 ⟨rfl, rfl⟩
  | planAssign =>
    refine .level (.inl rfl) ?_
    simp only [List.forall_mem_cons]
    exact ⟨⟨rfl, rfl⟩, ⟨rfl, rfl⟩, ⟨rfl, rfl⟩, nofun⟩
  | arrayTarget =>
    exact targetCall_descends
      (List.forall_mem_cons.2 ⟨⟨rfl, rfl⟩, List.forall_mem_map.2 fun _ _ => ⟨rfl, rfl⟩⟩)
  | objectTarget | blockTarget =>
    exact targetCall_descends (List.forall_mem_singleton.2 ⟨rfl, rfl⟩)
  | varTarget => exact targetCall_descends nofun

end Walker

namespace Recorder

abbrev walker (config : Config) (options : Options) : Walker Memory ScopeContext :=
  { visitor := visitor config, options }

theorem derive_serials (d : Derivation) (outer : ScopeContext) (m : Memory) :
    (derive d outer m).1.serial = m.serials.next ∧
      (derive d outer m).2.serials.next = m.serials.next + 1 := by
  cases d <;> exact ⟨rfl, rfl⟩

theorem answer_serials (config : Config) (c : HookCall ScopeContext) (m : Memory) :
    (answer config c m).2.serials = m.serials := by
  cases c with
  | entity | target => rfl
  | node hook n context =>
    cases hook <;> simp only [answer] <;> first | rfl | (split <;> rfl)

/-- After an entry with its ceiling, a serial is not larger than the ceiling or is yet to come. -/
def Later (before : List (Entry ScopeContext)) (x : Entry ScopeContext) (k : Nat) : Prop :=
  k ≤ x.ceiling ∨ ∀ y ∈ before ++ [x], y.serial < k

/-- The contexts on the agenda of a recorder form a stack, and what is written is never older than
what is left of the stack at the time. -/
structure Stacked (start : ScopeContext)
    (p : List (Task ScopeContext) × WalkState (Logged Memory ScopeContext)) : Prop where
  sorted : p.1.Pairwise fun t t' => t'.ceiling ≤ t.floor
  tasks : ∀ t ∈ p.1, t.floor ≤ t.ceiling ∧ t.ceiling < p.2.memory.memory.serials.next
  begun : start.serial < p.2.memory.memory.serials.next
  entries : ∀ x ∈ p.2.memory.log, x.serial < p.2.memory.memory.serials.next
  fresh : Throughout (fun before x => ∀ d outer inner, x = .derived d outer inner →
    start.serial < inner.serial ∧ ∀ y ∈ before, y.serial < inner.serial) p.2.memory.log
  later : ∀ before x after, p.2.memory.log = before ++ x :: after →
    (∀ y ∈ after, Later before x y.serial) ∧
      ∀ t ∈ p.1, Later before x t.floor ∧ Later before x t.ceiling

variable {config : Config} {options : Options} {start : ScopeContext}
  {p q : List (Task ScopeContext) × WalkState (Logged Memory ScopeContext)}

theorem stacked_start (root : Entity) (start : ScopeContext) (m : Memory)
    (h : start.serial < m.serials.next) :
    Stacked start (Walker.start root start { memory := m }) := by
  refine ⟨List.pairwise_singleton _ _, List.forall_mem_singleton.2 ⟨le_rfl, h⟩, h, nofun, .nil, ?_⟩
  exact fun before x after hl =>
    (List.append_ne_nil_of_right_ne_nil before (List.cons_ne_nil x after) hl.symm).elim

/-- New tasks in the place of the first one, between its floor and some ceiling. -/
theorem sorted_append {task : Task ScopeContext} {rest tasks rest' : List (Task ScopeContext)}
    {hi : Nat} (h : (task :: rest).Pairwise fun t t' => t'.ceiling ≤ t.floor)
    (ht : Descends task.floor hi tasks) (hlo : task.floor ≤ hi) (hr : rest'.Sublist rest) :
    (tasks ++ rest').Pairwise fun t t' => t'.ceiling ≤ t.floor := by
  obtain ⟨below, sorted⟩ := List.pairwise_cons.1 h
  refine List.pairwise_append.2 ⟨ht.sorted, sorted.sublist hr, fun t htasks t' ht' => ?_⟩
  have bound := below t' (hr.subset ht')
  obtain ⟨hf | hf, -⟩ := ht.serials t htasks <;> omega

/-- New tasks in the place of the first one. -/
theorem Stacked.put {task : Task ScopeContext} {rest rest' tasks : List (Task ScopeContext)}
    {s s' : WalkState (Logged Memory ScopeContext)} {hi : Nat}
    (hp : Stacked start (task :: rest, s)) (hs : s'.memory = s.memory)
    (ht : Descends task.floor hi tasks) (hr : rest'.Sublist rest) (hlo : task.floor ≤ hi)
    (hhi : hi < s.memory.memory.serials.next)
    (hl : ∀ before x after, s.memory.log = before ++ x :: after → Later before x hi) :
    Stacked start (tasks ++ rest', s') := by
  refine ⟨sorted_append hp.sorted ht hlo hr, ?_, ?_, ?_, ?_, ?_⟩ <;> simp only [hs]
  · refine List.forall_mem_append.2 ⟨fun t htasks => ?_, fun t hrest => ?_⟩
    · obtain ⟨-, hc | hc, hle⟩ := ht.serials t htasks <;> omega
    · exact hp.tasks t (List.mem_cons_of_mem _ (hr.subset hrest))
  · exact hp.begun
  · exact hp.entries
  · exact hp.fresh
  · intro before x after hlog
    obtain ⟨hafter, htasks⟩ := hp.later before x after hlog
    have lo := (htasks task List.mem_cons_self).1
    have hi := hl before x after hlog
    refine ⟨hafter, List.forall_mem_append.2 ⟨fun t hnew => ?_, fun t hrest => ?_⟩⟩
    · obtain ⟨hf, hc, -⟩ := ht.serials t hnew
      exact ⟨hf.elim (· ▸ lo) (· ▸ hi), hc.elim (· ▸ lo) (· ▸ hi)⟩
    · exact htasks t (List.mem_cons_of_mem _ (hr.subset hrest))

/-- A call is written under the context of the first task. -/
theorem Stacked.write {task : Task ScopeContext} {rest : List (Task ScopeContext)}
    {s s' : WalkState (Logged Memory ScopeContext)} {c : HookCall ScopeContext} {answer : Answer}
    (hp : Stacked start (task :: rest, s))
    (hn : s'.memory.memory.serials = s.memory.memory.serials)
    (hlog : s'.memory.log = s.memory.log ++ [.called c answer]) (hf : c.context = task.context)
    (hc : (Entry.called c answer).ceiling = task.ceiling) :
    Stacked start (task :: rest, s') := by
  have floor : (Entry.called c answer).serial = task.floor := congrArg ScopeContext.serial hf
  obtain ⟨hle, hlt⟩ : task.floor ≤ task.ceiling ∧
    task.ceiling < s.memory.memory.serials.next := hp.tasks task List.mem_cons_self
  refine ⟨hp.sorted, ?_, ?_, ?_, ?_, ?_⟩ <;> simp only [hn, hlog]
  · exact hp.tasks
  · exact hp.begun
  · refine List.forall_mem_append.2 ⟨hp.entries, List.forall_mem_singleton.2 ?_⟩
    omega
  · exact .snoc hp.fresh nofun
  · intro before x after hsplit
    rcases append_singleton_eq_append_cons hsplit with ⟨rfl, rfl, rfl⟩ | ⟨after, rfl, h⟩
    · refine ⟨nofun, List.forall_mem_cons.2 ⟨⟨.inl (by omega), .inl (by omega)⟩, fun t ht => ?_⟩⟩
      have below := (List.pairwise_cons.1 hp.sorted).1 t ht
      have own := (hp.tasks t (List.mem_cons_of_mem _ ht)).1
      exact ⟨.inl (by omega), .inl (by omega)⟩
    · obtain ⟨hafter, htasks⟩ := hp.later before x after h
      refine ⟨List.forall_mem_append.2 ⟨hafter, List.forall_mem_singleton.2 ?_⟩, htasks⟩
      exact floor ▸ (htasks task List.mem_cons_self).1

theorem later_young {log before after : List (Entry ScopeContext)} {x : Entry ScopeContext}
    {d : Derivation} {outer inner : ScopeContext} (h : ∀ y ∈ log, y.serial < inner.serial)
    (hl : log ++ [.derived d outer inner] = before ++ x :: after) :
    Later before x inner.serial := by
  rcases append_singleton_eq_append_cons hl with ⟨-, -, rfl⟩ | ⟨after, -, rfl⟩
  · exact .inl le_rfl
  · refine .inr fun y hy => h y ?_
    rcases List.mem_append.1 hy with hy | hy
    · exact List.mem_append_left _ hy
    · exact List.mem_append_right _ (List.mem_singleton.1 hy ▸ List.mem_cons_self)

/-- A derived context is younger than all that is written and all that is on the agenda. -/
theorem Stacked.grow {agenda : List (Task ScopeContext)}
    {s s' : WalkState (Logged Memory ScopeContext)} {d : Derivation} {outer inner : ScopeContext}
    (hp : Stacked start (agenda, s)) (hi : inner.serial = s.memory.memory.serials.next)
    (hn : s'.memory.memory.serials.next = s.memory.memory.serials.next + 1)
    (hlog : s'.memory.log = s.memory.log ++ [.derived d outer inner]) :
    Stacked start (agenda, s') := by
  have begun := hp.begun
  have young : ∀ y ∈ s.memory.log, y.serial < inner.serial := hi ▸ hp.entries
  refine ⟨hp.sorted, ?_, ?_, ?_, ?_, ?_⟩ <;> simp only [hn, hlog]
  · exact fun t ht => ⟨(hp.tasks t ht).1, Nat.lt_succ_of_lt (hp.tasks t ht).2⟩
  · exact Nat.lt_succ_of_lt begun
  · refine List.forall_mem_append.2 ⟨fun y hy => Nat.lt_succ_of_lt (hp.entries y hy), ?_⟩
    exact List.forall_mem_singleton.2 (hi ▸ Nat.lt_succ_self _)
  · refine .snoc hp.fresh ?_
    rintro d outer inner ⟨⟩
    exact ⟨hi ▸ begun, young⟩
  · intro before x after hsplit
    rcases append_singleton_eq_append_cons hsplit with ⟨rfl, rfl, rfl⟩ | ⟨after, rfl, h⟩
    · refine ⟨nofun, fun t ht => ?_⟩
      have ceiling : (Entry.derived d outer inner).ceiling = inner.serial := rfl
      obtain ⟨hle, hlt⟩ : t.floor ≤ t.ceiling ∧ t.ceiling < s.memory.memory.serials.next :=
        hp.tasks t ht
      exact ⟨.inl (by omega), .inl (by omega)⟩
    · obtain ⟨hafter, htasks⟩ := hp.later before x after h
      refine ⟨List.forall_mem_append.2 ⟨hafter, List.forall_mem_singleton.2 ?_⟩, htasks⟩
      exact later_young young hsplit

theorem Stacked.step (h : (walker config options).logged.Advances p q) (hp : Stacked start p) :
    Stacked start q := by
  cases h with
  | @replace task rest s tasks h | @adopt task rest s child parent tasks h =>
    obtain ⟨hle, hlt⟩ := hp.tasks task List.mem_cons_self
    have descends := ((walker config options).logged.act_move s.parents task).descends hle
    rw [h] at descends
    exact hp.put rfl descends (List.Sublist.refl _) le_rfl (lt_of_le_of_lt hle hlt)
      fun before x after hl => ((hp.later before x after hl).2 task List.mem_cons_self).1
  | @derive task rest s d context tasks h =>
    obtain ⟨hle, hlt⟩ := hp.tasks task List.mem_cons_self
    have descends := ((walker config options).logged.act_move s.parents task).descends hle
    rw [h] at descends
    obtain ⟨hi, hn⟩ := derive_serials d context s.memory.memory
    have grown : Stacked start (task :: rest,
        { s with memory := ((walker config options).logged.visitor.derive d context s.memory).2 }) :=
      hp.grow hi hn rfl
    have lo : task.floor ≤ (derive d context s.memory.memory).1.serial :=
      hi ▸ hle.trans hlt.le
    refine grown.put rfl (descends.2 _ lo) (List.Sublist.refl _) lo ?_ ?_
    · exact hn ▸ hi ▸ Nat.lt_succ_self _
    · exact fun before x after hsplit => later_young (hi ▸ hp.entries) hsplit
  | @call task rest s hook tasks skip h =>
    obtain ⟨hle, hlt⟩ := hp.tasks task List.mem_cons_self
    have descends := ((walker config options).logged.act_move s.parents task).descends hle
    rw [h] at descends
    obtain ⟨hf, descends⟩ := descends
    obtain ⟨hc, descends⟩ := descends (answer config hook s.memory.memory).1
    have written : Stacked start (task :: rest,
        { s with memory := ((walker config options).logged.visitor.answer hook s.memory).2 }) :=
      hp.write (answer_serials config hook s.memory.memory) rfl hf hc
    refine written.put rfl descends (List.drop_sublist _ rest) hle
      (written.tasks task List.mem_cons_self).2 ?_
    exact fun before x after hl => ((written.later before x after hl).2 task List.mem_cons_self).2

theorem stacked {root : Entity} {m : Memory} (h : start.serial < m.serials.next)
    (hr : (walker config options).logged.Reaches (Walker.start root start { memory := m }) p) :
    Stacked start p :=
  Walker.Reaches.keeps (fun h hp => hp.step h) hr (stacked_start root start m h)

end Recorder

end SyntaxWalk
