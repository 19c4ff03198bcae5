import SyntaxWalk.Proofs.Log

/-!
# The operations of a walker

A walker can be told to walk a whole tree, or to visit parts of one under some context. Whatever it
is told, what it does can be logged (`Operation.run_forgets`), and if it has no handlers, it fails
at a task of an agenda that has come from the tasks the operation stands for
(`Operation.run_error`).
-/

namespace SyntaxWalk

variable {σ C : Type}

/-- What a walker can be told to do, each from a context that it is given. -/
inductive Operation (C : Type) where
  | walk (root : Entity) (context : C)
  | visitEntity (e : Entity) (context : C)
  | visitNested (parent : Entity) (es : List Entity) (context : C)
  | visit (n : Node) (context : C)
  | visitChildren (n : Node) (start : Nat) (context : C)
  | dispatch (a : Assignment) (context : C)

namespace Operation

/-- Carries out an operation; what it gives is not looked at. -/
def run (w : Walker σ C) (depth : Nat) : Operation C → Walk σ Unit
  | .walk root context => do
    let _ ← w.walk depth root context
    return ()
  | .visitEntity e context => w.visitEntity depth e context
  | .visitNested parent es context => w.visitNested depth parent es context
  | .visit n context => w.visit depth n context
  | .visitChildren n start context => w.visitChildren depth n start context
  | .dispatch a context => do
    let _ ← w.dispatch depth a context
    return ()

def context : Operation C → C
  | .walk _ c | .visitEntity _ c | .visitNested _ _ c | .visit _ c | .visitChildren _ _ c
  | .dispatch _ c => c

/-- The entities that are to be visited. -/
def entities : Operation C → List Entity
  | .walk e _ | .visitEntity e _ => [e]
  | .visitNested _ es _ => es
  | .visit .. | .visitChildren .. | .dispatch .. => []

/-- The nodes that are given as such. -/
def nodes : Operation C → List Node
  | .visit n _ | .visitChildren n _ _ => [n]
  | .dispatch a _ => [a.target, a.rhs, a.assign]
  | .walk .. | .visitEntity .. | .visitNested .. => []

/-- The agenda that an operation begins with. -/
def tasks : Operation C → List (Task C)
  | .walk e c | .visitEntity e c => [.entity e c]
  | .visitNested parent es c => es.map (.nested parent · c)
  | .visit n c => [.node n c]
  | .visitChildren n start c => (n.children.drop start).map (.node · c)
  | .dispatch a c => [.target a c 0]

theorem forall_tasks {P : Task C → Prop} (he : ∀ e c, P (.entity e c))
    (hs : ∀ parent e c, P (.nested parent e c)) (hn : ∀ n c, P (.node n c))
    (ht : ∀ a c, P (.target a c 0)) (op : Operation C) : ∀ task ∈ op.tasks, P task := by
  cases op with
  | walk | visitEntity => exact List.forall_mem_singleton.2 (he _ _)
  | visitNested => exact List.forall_mem_map.2 fun _ _ => hs _ _ _
  | visit => exact List.forall_mem_singleton.2 (hn _ _)
  | visitChildren => exact List.forall_mem_map.2 fun _ _ => hn _ _
  | dispatch => exact List.forall_mem_singleton.2 (ht _ _)

/-- The state that an operation begins with: a whole walk starts with an empty parent table. -/
def enter (op : Operation C) (s : WalkState σ) : WalkState σ :=
  match op with
  | .walk _ _ => { s with parents := {} }
  | _ => s

/-- What is logged while an operation is carried out. -/
def log (op : Operation C) (w : Walker σ C) (depth : Nat) (s : WalkState σ) : List (Entry C) :=
  Walk.log (op.run w.logged depth) s

section Runs

variable {w : Walker σ C}

/-- An operation that fails has gone on through agendas up to a task that fails. -/
theorem run_error (hw : w.extensions = {}) (op : Operation C) {depth : Nat} {s t : WalkState σ}
    {e : Walk.Error} (h : op.run w depth s = .error (.failed e) t) :
    ∃ task rest, w.Reaches (op.tasks, op.enter s) (task :: rest, t) ∧
      w.act t.parents task = .fail e := by
  have carried := w.descent_carries hw depth
  have stops {α : Type} {x : Walk σ α} {next : α → List (Task C)}
      (hx : w.Carries x (op.tasks ++ []) next) (hs : x (op.enter s) = .error (.failed e) t) :
      ∃ task rest, w.Reaches (op.tasks, op.enter s) (task :: rest, t) ∧
        w.act t.parents task = .fail e := by
    rw [List.append_nil] at hx
    obtain ⟨left, hr, task, rest, rfl, hfail⟩ := hx.error hs
    exact ⟨task, rest, hr, hfail⟩
  cases op with
  | walk root c =>
    rcases Walk.bind_eq_error.1 h with h | ⟨_, _, _, ⟨⟩⟩
    rcases Walk.bind_eq_error.1 h with ⟨⟨⟩⟩ | ⟨_, _, ⟨⟩, h⟩
    rcases Walk.bind_eq_error.1 h with h | ⟨_, _, _, ⟨⟩⟩
    exact stops (carried.entity root c []) h
  | visitEntity root c => exact stops (carried.entity root c []) h
  | visitNested parent es c => exact stops (Walker.visitScoped_carries carried parent c es) h
  | visit n c => exact stops (carried.node n c []) h
  | visitChildren n start c => exact stops (Walker.visitEach_carries carried c _) h
  | dispatch a c =>
    rcases Walk.bind_eq_error.1 h with h | ⟨_, _, _, ⟨⟩⟩
    exact stops (carried.target a c 0 []) h

/-- An operation does the same whether a log is kept or not. -/
theorem run_forgets (op : Operation C) (depth : Nat) :
    Forgets (op.run w.logged depth) (op.run w depth) := by
  have forgets := Walker.descent_forgets w depth
  have related := w.logging.correspondence.descent depth
  cases op with
  | walk root c => exact .bind (Walker.walk_logged w depth root c) fun _ => .pure
  | visitEntity e c => exact forgets.entity e c
  | visitNested parent es c =>
    exact w.logging.correspondence.visitScoped related rfl rfl (List.forall₂_same.2 fun _ _ => rfl)
  | visit n c => exact forgets.node n c
  | visitChildren n start c =>
    exact w.logging.correspondence.visitEach related rfl (List.forall₂_same.2 fun _ _ => rfl)
  | dispatch a c => exact .bind (forgets.target a c) fun _ => .pure

/-- What is logged up to a task that fails. -/
theorem log_error (hw : w.extensions = {}) (op : Operation C) {depth : Nat} {s t : WalkState σ}
    {e : Walk.Error} (h : op.run w depth s = .error (.failed e) t) :
    ∃ task rest u, w.logged.Reaches (op.tasks, op.enter s.withLog) (task :: rest, u) ∧
      w.logged.act u.parents task = .fail e ∧ u.memory.log = op.log w depth s := by
  obtain ⟨u, hu, -, hlog⟩ := (op.run_forgets depth).of_error h
  obtain ⟨task, rest, reached, failed⟩ := op.run_error (Walker.logged_extensions hw) hu
  exact ⟨task, rest, u, reached, failed, hlog.symm⟩

end Runs

end Operation

end SyntaxWalk
