import TinCompiler.Library.Transition
import TinCompiler.Library.Counting
import TinCompiler.Library.TakeFirst

/-!
# The threads of `Compiler::processTasks`

Any number of threads run the same loop.  The atomic steps are the wait on
`tasks_queue_lock`, the critical section that selects a task, and the critical
section that ends the processing of a task; what happens between the last two is
an arbitrary change of the rest of the compiler (`Env`, which decides the
readiness of tasks) together with arbitrary pushes under `tasks_lock`.

Three fields of `State` have no counterpart in the source and are read by
nothing in the model: the number of tasks pushed so far, which also numbers them,
the list of removals, and the number of signals that found the semaphore at its
maximum.
-/

namespace TinCompiler.Scheduler

variable {Thread Task Env : Type}

/-- Where a thread stands in the loop of `processTasks`. -/
inductive Position (Task : Type) where
  /-- at `SEM_WAIT(tasks_queue_lock)` -/
  | waiting
  /-- past the semaphore and before the critical section that selects a task -/
  | selecting
  /-- between the two critical sections, with the task it took -/
  | processing (task : Task)
  /-- out of the loop -/
  | exited
deriving DecidableEq, Repr

namespace Position

/-- The thread has taken a task and not yet finished it. -/
def IsProcessing : Position Task → Prop
  | processing _ => True
  | _ => False

/-- The thread holds the semaphore's token and has not looked at the queue yet. -/
def IsSelecting : Position Task → Prop
  | selecting => True
  | _ => False

instance : DecidablePred (@IsProcessing Task) := fun position => by
  cases position <;> unfold IsProcessing <;> infer_instance

instance : DecidablePred (@IsSelecting Task) := fun position => by
  cases position <;> unfold IsSelecting <;> infer_instance

@[simp] theorem isProcessing_waiting : ¬ (waiting : Position Task).IsProcessing := id
@[simp] theorem isProcessing_selecting : ¬ (selecting : Position Task).IsProcessing := id
@[simp] theorem isProcessing_processing (task : Task) : (processing task).IsProcessing := trivial
@[simp] theorem isProcessing_exited : ¬ (exited : Position Task).IsProcessing := id
@[simp] theorem isSelecting_waiting : ¬ (waiting : Position Task).IsSelecting := id
@[simp] theorem isSelecting_selecting : (selecting : Position Task).IsSelecting := trivial
@[simp] theorem isSelecting_processing (task : Task) : ¬ (processing task).IsSelecting := id
@[simp] theorem isSelecting_exited : ¬ (exited : Position Task).IsSelecting := id

end Position

/-- The shared fields of `Compiler`, the positions of the threads, and the
history of pushes, removals and lost signals. -/
structure State (Thread Task Env : Type) where
  semaphore : ℕ
  isSignaled : Bool
  tasks : List (ℕ × Task)
  threadsProcessing : ℕ
  env : Env
  position : Thread → Position Task
  pushed : ℕ
  removals : List (ℕ × Thread)
  lostSignals : ℕ

namespace State

/-- `SEM_SIGNAL` on a semaphore of maximum 1. -/
def signal (s : State Thread Task Env) : State Thread Task Env :=
  if s.semaphore = 0 then { s with semaphore := 1 }
  else { s with lostSignals := s.lostSignals + 1 }

/-- `if(!is_signaled) { is_signaled = true; SEM_SIGNAL(tasks_queue_lock) }` -/
def signalOnce (s : State Thread Task Env) : State Thread Task Env :=
  if s.isSignaled then s else { s with isSignaled := true }.signal

/-- `tasks.push_back(task)` -/
def push (s : State Thread Task Env) (task : Task) : State Thread Task Env :=
  { s with tasks := s.tasks ++ [(s.pushed, task)], pushed := s.pushed + 1 }

section SignalOnce

variable (s : State Thread Task Env)

@[simp] theorem signalOnce_tasks : s.signalOnce.tasks = s.tasks := by
  unfold signalOnce signal; split <;> [rfl; split <;> rfl]

@[simp] theorem signalOnce_env : s.signalOnce.env = s.env := by
  unfold signalOnce signal; split <;> [rfl; split <;> rfl]

@[simp] theorem signalOnce_position : s.signalOnce.position = s.position := by
  unfold signalOnce signal; split <;> [rfl; split <;> rfl]

@[simp] theorem signalOnce_threadsProcessing :
    s.signalOnce.threadsProcessing = s.threadsProcessing := by
  unfold signalOnce signal; split <;> [rfl; split <;> rfl]

@[simp] theorem signalOnce_pushed : s.signalOnce.pushed = s.pushed := by
  unfold signalOnce signal; split <;> [rfl; split <;> rfl]

@[simp] theorem signalOnce_removals : s.signalOnce.removals = s.removals := by
  unfold signalOnce signal; split <;> [rfl; split <;> rfl]

@[simp] theorem signalOnce_isSignaled : s.signalOnce.isSignaled = true := by
  unfold signalOnce signal
  split
  · assumption
  · split <;> rfl

/-- With the flag cleared and the count at zero, signalling gives the token back
and loses nothing. -/
theorem signalOnce_of_cleared (hflag : s.isSignaled = false) (hzero : s.semaphore = 0) :
    s.signalOnce.semaphore = 1 ∧ s.signalOnce.lostSignals = s.lostSignals := by
  simp [signalOnce, signal, hflag, hzero]

/-- With the flag set, signalling does nothing. -/
theorem signalOnce_of_signaled (hflag : s.isSignaled = true) : s.signalOnce = s := by
  simp [signalOnce, hflag]

end SignalOnce

variable [DecidableEq Thread]

def move (s : State Thread Task Env) (thread : Thread) (position : Position Task) :
    State Thread Task Env :=
  { s with position := Function.update s.position thread position }

@[simp] theorem position_move_self (s : State Thread Task Env) (thread : Thread)
    (position : Position Task) : (s.move thread position).position thread = position :=
  Function.update_self _ _ _

theorem position_move_of_ne (s : State Thread Task Env) {thread other : Thread}
    (position : Position Task) (hne : other ≠ thread) :
    (s.move thread position).position other = s.position other :=
  Function.update_of_ne hne _ _

end State

variable [DecidableEq Thread] (ready : Env → Task → Bool)

/-- The critical section after `SEM_WAIT`: take the first ready task, leave the
loop, or go back to waiting. -/
def select (s : State Thread Task Env) (thread : Thread) : State Thread Task Env :=
  let s := { s with isSignaled := false }
  match takeFirst (fun entry => ready s.env entry.2) s.tasks with
  | none =>
      if s.tasks = [] ∧ s.threadsProcessing = 0 then
        s.signalOnce.move thread .exited
      else if s.threadsProcessing = 0 then
        -- "No thread is processing tasks and no task is ready for processing."
        s.signalOnce.move thread .exited
      else
        s.move thread .waiting
  | some (entry, rest) =>
      let s := { s with
        tasks := rest
        removals := s.removals ++ [(entry.1, thread)]
        threadsProcessing := s.threadsProcessing + 1 }
      (if rest ≠ [] then s.signalOnce else s).move thread (.processing entry.2)

/-- The critical section at the end of the loop body; `requeued` is the task that
goes back to the queue when `queue_task` is set. -/
def finish (s : State Thread Task Env) (thread : Thread) (requeued : Option Task) :
    State Thread Task Env :=
  let s := { s with threadsProcessing := s.threadsProcessing - 1 }
  let s := match requeued with
    | some task => s.push task
    | none => s
  s.signalOnce.move thread .waiting

/-- One atomic step of one thread. -/
inductive Step : State Thread Task Env → State Thread Task Env → Prop where
  | wait {s} (thread) (hposition : s.position thread = .waiting) (hsemaphore : 0 < s.semaphore) :
      Step s ({ s with semaphore := s.semaphore - 1 }.move thread .selecting)
  | select {s} (thread) (hposition : s.position thread = .selecting) :
      Step s (select ready s thread)
  | work {s} (thread) (task) (hposition : s.position thread = .processing task)
      (env : Env) (new : List Task) :
      Step s (new.foldl State.push { s with env := env })
  | finish {s} (thread) (task) (hposition : s.position thread = .processing task)
      (requeued : Option Task) :
      Step s (finish s thread requeued)

/-- Every thread is about to wait, `SEM_INIT(tasks_queue_lock, 1, 1)` has run and
`CompileFile` has pushed its first tasks. -/
structure Initial (s : State Thread Task Env) : Prop where
  semaphore : s.semaphore = 1
  isSignaled : s.isSignaled = false
  threadsProcessing : s.threadsProcessing = 0
  position : ∀ thread, s.position thread = .waiting
  pushed : s.tasks.map Prod.fst = List.range s.pushed
  removals : s.removals = []
  lostSignals : s.lostSignals = 0

/-- All runs of `processTasks` on all threads. -/
def processTasks : Transition (State Thread Task Env) where
  init := Initial
  step := Step ready

end TinCompiler.Scheduler
