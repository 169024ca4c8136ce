import TinCompiler.Scheduler.Threads
import Mathlib.Data.List.Count

/-!
# No deadlock, no lost task, no lost signal

The wake-up protocol is carried by one equation, `TokenHeld`: the semaphore's
count plus the number of threads between `SEM_WAIT` and the lock is one when
`is_signaled` is set and zero otherwise.  It fails only before the first thread
has looked at the queue, where `is_signaled` is still `false` although the count
starts at one; `Fresh` describes that prefix of a run.

Around it stand four facts about the same state: `threads_processing` counts the
processing threads, a token is missing only while some thread is processing, a
thread has left only if nothing is processing and nothing is ready, and no signal
was lost.  The tasks are counted separately (`QueueExact`): the numbers in the
queue and in the removals together are exactly the numbers handed out.
-/

namespace TinCompiler.Scheduler

variable {Thread Task Env : Type} [Fintype Thread]
variable {ready : Env → Task → Bool} {s s' : State Thread Task Env}

open Position

/-- The number of threads between `SEM_WAIT` and the lock. -/
def State.selectingCount (s : State Thread Task Env) : ℕ :=
  countWhere IsSelecting s.position

/-- No thread has looked at the queue yet. -/
structure Fresh (s : State Thread Task Env) : Prop where
  isSignaled : s.isSignaled = false
  token : s.semaphore + s.selectingCount = 1
  idle : s.threadsProcessing = 0
  running : ∀ thread, s.position thread ≠ .exited

/-- The flag says exactly whether the token exists, in the semaphore or in the
hands of a selecting thread. -/
def TokenHeld (s : State Thread Task Env) : Prop :=
  s.semaphore + s.selectingCount = if s.isSignaled then 1 else 0

/-- What every reachable state satisfies. -/
structure Invariant (ready : Env → Task → Bool) (s : State Thread Task Env) : Prop where
  counted : s.threadsProcessing = countWhere IsProcessing s.position
  token : Fresh s ∨ TokenHeld s
  awake : s.semaphore + s.selectingCount = 0 → 0 < s.threadsProcessing
  exits : ∀ thread, s.position thread = .exited →
    s.threadsProcessing = 0 ∧ ∀ entry ∈ s.tasks, ready s.env entry.2 = false
  lossless : s.lostSignals = 0

/-- The queue and the removals partition the numbers handed out. -/
def QueueExact (s : State Thread Task Env) : Prop :=
  (s.tasks.map Prod.fst ++ s.removals.map Prod.fst).Perm (List.range s.pushed)

@[simp] theorem State.signalOnce_selectingCount (s : State Thread Task Env) :
    s.signalOnce.selectingCount = s.selectingCount := by
  simp [State.selectingCount]

/-! ## The initial states -/

theorem Initial.invariant (h : Initial s) : Invariant ready s := by
  have hselecting : s.selectingCount = 0 :=
    countWhere_eq_zero_iff.mpr fun thread => by simp [h.position]
  have hprocessing : countWhere IsProcessing s.position = 0 :=
    countWhere_eq_zero_iff.mpr fun thread => by simp [h.position]
  refine ⟨by rw [hprocessing, h.threadsProcessing], Or.inl ⟨h.isSignaled, ?_, h.threadsProcessing,
    fun thread => by simp [h.position]⟩, ?_, ?_, h.lostSignals⟩
  · rw [h.semaphore, hselecting]
  · rw [h.semaphore]
    omega
  · intro thread hexited
    simp [h.position] at hexited

omit [Fintype Thread] in
theorem Initial.queueExact (h : Initial s) : QueueExact s := by
  simp [QueueExact, h.pushed, h.removals]

/-! ## One step -/

/-- A thread can only be processing once the queue has been looked at. -/
theorem Invariant.tokenHeld_of_processing (h : Invariant ready s) {thread : Thread} {task : Task}
    (hposition : s.position thread = .processing task) : TokenHeld s ∧ 0 < s.threadsProcessing := by
  have hpositive : 0 < s.threadsProcessing := by
    rw [h.counted]
    exact countWhere_pos_iff.mpr ⟨thread, by simp [hposition]⟩
  refine ⟨h.token.resolve_left fun hfresh => ?_, hpositive⟩
  have := hfresh.idle
  omega

/-- A selecting thread holds the only token. -/
theorem Invariant.semaphore_of_selecting (h : Invariant ready s) {thread : Thread}
    (hposition : s.position thread = .selecting) :
    s.semaphore = 0 ∧ s.selectingCount = 1 := by
  have hpositive : 0 < s.selectingCount :=
    countWhere_pos_iff.mpr ⟨thread, by simp [hposition]⟩
  rcases h.token with hfresh | hheld
  · have := hfresh.token
    omega
  · unfold TokenHeld at hheld
    split at hheld <;> omega

section Move

variable [DecidableEq Thread] (s) (thread : Thread) (position : Position Task)

/-- Moving a thread changes the two counts by the difference at that thread. -/
theorem selectingCount_move :
    (s.move thread position).selectingCount + (if (s.position thread).IsSelecting then 1 else 0) =
      s.selectingCount + if position.IsSelecting then 1 else 0 :=
  countWhere_update thread position

theorem processingCount_move :
    countWhere IsProcessing (s.move thread position).position +
        (if (s.position thread).IsProcessing then 1 else 0) =
      countWhere IsProcessing s.position + if position.IsProcessing then 1 else 0 :=
  countWhere_update thread position

end Move

variable [DecidableEq Thread]

theorem Invariant.wait (h : Invariant ready s) (thread : Thread)
    (hposition : s.position thread = .waiting) (hsemaphore : 0 < s.semaphore) :
    Invariant ready ({ s with semaphore := s.semaphore - 1 }.move thread .selecting) := by
  have hselecting := selectingCount_move { s with semaphore := s.semaphore - 1 } thread .selecting
  have hprocessing := processingCount_move { s with semaphore := s.semaphore - 1 } thread .selecting
  simp only [hposition, isSelecting_waiting, isSelecting_selecting, isProcessing_waiting,
    isProcessing_selecting, if_true, if_false] at hselecting hprocessing
  have hcount : s.selectingCount = State.selectingCount { s with semaphore := s.semaphore - 1 } :=
    rfl
  have hsum : s.semaphore - 1 +
      ({ s with semaphore := s.semaphore - 1 }.move thread .selecting).selectingCount =
        s.semaphore + s.selectingCount := by
    omega
  refine ⟨by rw [← Nat.add_zero (countWhere _ _), hprocessing]; exact h.counted, ?_, ?_, ?_,
    h.lossless⟩
  · rcases h.token with hfresh | hheld
    · refine Or.inl ⟨hfresh.isSignaled, hsum.trans hfresh.token, hfresh.idle, fun other => ?_⟩
      by_cases heq : other = thread
      · subst heq; simp
      · rw [State.position_move_of_ne _ _ heq]
        exact hfresh.running other
    · exact Or.inr (hsum.trans hheld)
  · intro hzero
    exact h.awake (hsum.symm.trans hzero)
  · intro other hexited
    by_cases heq : other = thread
    · subst heq; simp at hexited
    · rw [State.position_move_of_ne _ _ heq] at hexited
      exact h.exits other hexited

/-- The state a selecting thread leaves behind when it moves on: the counts no
longer include it. -/
theorem selectingCount_move_of_selecting (s : State Thread Task Env) {thread : Thread}
    (position : Position Task)
    (hposition : s.position thread = .selecting) (hone : s.selectingCount = 1)
    (hnext : ¬ position.IsSelecting) : (s.move thread position).selectingCount = 0 := by
  have hmove := selectingCount_move s thread position
  simp only [hposition, isSelecting_selecting, hnext, if_true, if_false] at hmove
  omega

theorem Invariant.selectNone (h : Invariant ready s) (thread : Thread)
    (hposition : s.position thread = .selecting)
    (hnone : ∀ entry ∈ s.tasks, ready s.env entry.2 = false) :
    Invariant ready
      (if s.threadsProcessing = 0 then
        { s with isSignaled := false }.signalOnce.move thread .exited
      else { s with isSignaled := false }.move thread .waiting) := by
  obtain ⟨hzero, hone⟩ := h.semaphore_of_selecting hposition
  obtain ⟨hsemaphore, hlost⟩ := State.signalOnce_of_cleared { s with isSignaled := false } rfl hzero
  split
  · -- the thread leaves and hands the token on
    rename_i hidle
    have hcount := selectingCount_move_of_selecting { s with isSignaled := false }.signalOnce .exited
      (by simpa using hposition)
      ((State.signalOnce_selectingCount { s with isSignaled := false }).trans hone) (by simp)
    have hprocessing :=
      processingCount_move { s with isSignaled := false }.signalOnce thread .exited
    simp only [State.signalOnce_position, hposition, isProcessing_selecting, isProcessing_exited,
      if_false] at hprocessing
    refine ⟨?_, Or.inr ?_, ?_, ?_, hlost.trans h.lossless⟩
    · rw [← Nat.add_zero (countWhere _ _), hprocessing]
      exact (State.signalOnce_threadsProcessing _).trans h.counted
    · show State.semaphore (State.signalOnce _) + _ = if State.isSignaled (State.signalOnce _) then
        1 else 0
      rw [hcount, hsemaphore, State.signalOnce_isSignaled, if_pos rfl]
    · intro hsum
      have : State.semaphore (State.signalOnce { s with isSignaled := false }) = 0 :=
        Nat.eq_zero_of_add_eq_zero_right hsum
      omega
    · intro other _
      refine ⟨(State.signalOnce_threadsProcessing _).trans hidle, fun entry hentry => ?_⟩
      have hmem : entry ∈ s.tasks := (State.signalOnce_tasks { s with isSignaled := false }) ▸ hentry
      show ready (State.env (State.signalOnce _)) entry.2 = false
      rw [State.signalOnce_env]
      exact hnone entry hmem
  · -- some thread is processing and will signal
    rename_i hbusy
    have hcount := selectingCount_move_of_selecting { s with isSignaled := false } .waiting
      hposition hone (by simp)
    have hprocessing := processingCount_move { s with isSignaled := false } thread .waiting
    simp only [hposition, isProcessing_selecting, isProcessing_waiting, if_false] at hprocessing
    refine ⟨?_, Or.inr ?_, fun _ => Nat.pos_of_ne_zero hbusy, ?_, h.lossless⟩
    · rw [← Nat.add_zero (countWhere _ _), hprocessing]
      exact h.counted
    · show s.semaphore + _ = if false then 1 else 0
      rw [hcount, hzero]
      rfl
    · intro other hexited
      by_cases heq : other = thread
      · subst heq; simp at hexited
      · rw [State.position_move_of_ne _ _ heq] at hexited
        exact absurd (h.exits other hexited).1 hbusy

theorem Invariant.selectSome (h : Invariant ready s) (thread : Thread)
    (hposition : s.position thread = .selecting) {entry : ℕ × Task} {rest : List (ℕ × Task)}
    (hfound : takeFirst (fun entry => ready s.env entry.2) s.tasks = some (entry, rest)) :
    Invariant ready
      ((if rest ≠ [] then
          State.signalOnce { s with
            isSignaled := false
            tasks := rest
            removals := s.removals ++ [(entry.1, thread)]
            threadsProcessing := s.threadsProcessing + 1 }
        else { s with
            isSignaled := false
            tasks := rest
            removals := s.removals ++ [(entry.1, thread)]
            threadsProcessing := s.threadsProcessing + 1 }).move thread (.processing entry.2)) := by
  obtain ⟨hzero, hone⟩ := h.semaphore_of_selecting hposition
  obtain ⟨before, after, htasks, -, hready, -⟩ := takeFirst_eq_some hfound
  -- nobody has left: a ready task was in the queue
  have hrunning : ∀ other, s.position other ≠ .exited := fun other hexited => by
    have := (h.exits other hexited).2 entry (by simp [htasks])
    simp_all
  set taken : State Thread Task Env := { s with
    isSignaled := false
    tasks := rest
    removals := s.removals ++ [(entry.1, thread)]
    threadsProcessing := s.threadsProcessing + 1 } with htaken
  have hgeneral : ∀ next : State Thread Task Env, next.position = s.position →
      next.threadsProcessing = s.threadsProcessing + 1 → next.lostSignals = 0 →
      next.semaphore = (if next.isSignaled then 1 else 0) →
      Invariant ready (next.move thread (.processing entry.2)) := by
    intro next hpos hbusy hlossless htoken
    have hcount := selectingCount_move_of_selecting next (.processing entry.2)
      (by rw [hpos]; exact hposition) (by unfold State.selectingCount; rw [hpos]; exact hone) (by simp)
    have hprocessing := processingCount_move next thread (.processing entry.2)
    simp only [hpos, hposition, isProcessing_selecting, isProcessing_processing, if_false, if_true,
      Nat.add_zero] at hprocessing
    refine ⟨?_, Or.inr ?_, fun _ => ?_, fun other hexited => ?_, hlossless⟩
    · rw [hprocessing, ← h.counted]
      exact hbusy
    · unfold TokenHeld
      rw [hcount]
      exact htoken
    · show 0 < next.threadsProcessing
      omega
    · by_cases heq : other = thread
      · subst heq; simp at hexited
      · rw [State.position_move_of_ne _ _ heq, hpos] at hexited
        exact absurd hexited (hrunning other)
  obtain ⟨hsemaphore, hlost⟩ := State.signalOnce_of_cleared taken rfl hzero
  split
  · refine hgeneral _ (by simp [htaken]) (by simp [htaken]) (hlost.trans h.lossless) ?_
    rw [hsemaphore, State.signalOnce_isSignaled, if_pos rfl]
  · exact hgeneral _ rfl rfl h.lossless hzero

theorem Invariant.select (h : Invariant ready s) (thread : Thread)
    (hposition : s.position thread = .selecting) :
    Invariant ready (select ready s thread) := by
  unfold Scheduler.select
  cases hfound : takeFirst (fun entry => ready s.env entry.2) s.tasks with
  | none =>
      have hnone := takeFirst_eq_none_iff.mp hfound
      have hinv := h.selectNone thread hposition hnone
      by_cases hidle : s.threadsProcessing = 0
      · simp only [hidle, if_true, and_true, ite_self, hfound] at hinv ⊢
        exact hinv
      · simp only [hidle, if_false, and_false, hfound] at hinv ⊢
        exact hinv
  | some found =>
      obtain ⟨entry, rest⟩ := found
      simp only [hfound]
      exact h.selectSome thread hposition hfound

omit [DecidableEq Thread] in
/-- Pushing tasks and changing the environment while some thread is processing. -/
theorem Invariant.work (h : Invariant ready s) {thread : Thread} {task : Task}
    (hposition : s.position thread = .processing task) {next : State Thread Task Env}
    (hpos : next.position = s.position) (hsemaphore : next.semaphore = s.semaphore)
    (hflag : next.isSignaled = s.isSignaled)
    (hbusy : next.threadsProcessing = s.threadsProcessing)
    (hlost : next.lostSignals = s.lostSignals) : Invariant ready next := by
  obtain ⟨hheld, hpositive⟩ := h.tokenHeld_of_processing hposition
  have hcount : next.selectingCount = s.selectingCount := by
    unfold State.selectingCount; rw [hpos]
  refine ⟨by rw [hbusy, hpos]; exact h.counted, Or.inr ?_, fun _ => hbusy ▸ hpositive, ?_,
    hlost.trans h.lossless⟩
  · unfold TokenHeld
    rw [hcount, hsemaphore, hflag]
    exact hheld
  · intro other hexited
    rw [hpos] at hexited
    have := (h.exits other hexited).1
    omega

theorem Invariant.finish (h : Invariant ready s) {thread : Thread} {task : Task}
    (hposition : s.position thread = .processing task) (requeued : Option Task) :
    Invariant ready (finish s thread requeued) := by
  obtain ⟨hheld, hpositive⟩ := h.tokenHeld_of_processing hposition
  have hgeneral : ∀ next : State Thread Task Env, next.position = s.position →
      next.semaphore = s.semaphore → next.isSignaled = s.isSignaled →
      next.threadsProcessing = s.threadsProcessing - 1 → next.lostSignals = s.lostSignals →
      Invariant ready (next.signalOnce.move thread .waiting) := by
    intro next hpos hsemaphore hflag hbusy hlost
    have hselecting := selectingCount_move next.signalOnce thread .waiting
    have hprocessing := processingCount_move next.signalOnce thread .waiting
    simp only [State.signalOnce_position, hpos, hposition, isSelecting_processing, isSelecting_waiting,
      isProcessing_processing, isProcessing_waiting, if_true, if_false, Nat.add_zero,
      State.signalOnce_selectingCount] at hselecting hprocessing
    have hcount : next.selectingCount = s.selectingCount := by
      unfold State.selectingCount; rw [hpos]
    -- after the section the token exists and the flag is set
    have htoken : next.signalOnce.semaphore + next.selectingCount = 1 ∧
        next.signalOnce.lostSignals = 0 := by
      unfold TokenHeld at hheld
      cases hset : s.isSignaled with
      | true =>
          rw [hset, if_pos rfl] at hheld
          rw [State.signalOnce_of_signaled next (hflag.trans hset)]
          exact ⟨by omega, hlost.trans h.lossless⟩
      | false =>
          rw [hset] at hheld
          simp only [Bool.false_eq_true, if_false] at hheld
          obtain ⟨hone, hkept⟩ := State.signalOnce_of_cleared next (hflag.trans hset) (by omega)
          exact ⟨by omega, hkept.trans (hlost.trans h.lossless)⟩
    refine ⟨?_, Or.inr ?_, fun hsum => ?_, fun other hexited => ?_, htoken.2⟩
    · have hcounted := h.counted
      show next.signalOnce.threadsProcessing = _
      rw [State.signalOnce_threadsProcessing]
      omega
    · show next.signalOnce.semaphore + _ = if next.signalOnce.isSignaled then 1 else 0
      rw [hselecting, State.signalOnce_isSignaled, if_pos rfl]
      exact htoken.1
    · have : next.signalOnce.semaphore + (next.signalOnce.move thread .waiting).selectingCount = 0 :=
        hsum
      omega
    · by_cases heq : other = thread
      · subst heq; simp at hexited
      · rw [State.position_move_of_ne _ _ heq, State.signalOnce_position, hpos] at hexited
        have := (h.exits other hexited).1
        omega
  unfold Scheduler.finish
  cases requeued with
  | none => exact hgeneral _ rfl rfl rfl rfl rfl
  | some task => exact hgeneral _ rfl rfl rfl rfl rfl

omit [Fintype Thread] [DecidableEq Thread] in
/-- Pushes touch the queue and the number of pushes only. -/
theorem foldl_push_fields (new : List Task) (s : State Thread Task Env) :
    (new.foldl State.push s).position = s.position ∧
      (new.foldl State.push s).semaphore = s.semaphore ∧
      (new.foldl State.push s).isSignaled = s.isSignaled ∧
      (new.foldl State.push s).threadsProcessing = s.threadsProcessing ∧
      (new.foldl State.push s).lostSignals = s.lostSignals := by
  induction new generalizing s with
  | nil => exact ⟨rfl, rfl, rfl, rfl, rfl⟩
  | cons task rest ih =>
      obtain ⟨h₁, h₂, h₃, h₄, h₅⟩ := ih (s.push task)
      exact ⟨h₁, h₂, h₃, h₄, h₅⟩

theorem Invariant.step (h : Invariant ready s) (hstep : Step ready s s') : Invariant ready s' := by
  cases hstep with
  | wait thread hposition hsemaphore => exact h.wait thread hposition hsemaphore
  | select thread hposition => exact h.select thread hposition
  | work thread task hposition env new =>
      obtain ⟨h₁, h₂, h₃, h₄, h₅⟩ := foldl_push_fields new { s with env := env }
      exact h.work hposition h₁ h₂ h₃ h₄ h₅
  | finish thread task hposition requeued => exact h.finish hposition requeued

theorem reachable_invariant (h : (processTasks ready).Reachable s) : Invariant ready s :=
  h.invariant (fun _ => Initial.invariant) fun _ _ hinv hstep => hinv.step hstep

/-! ## The queue -/

omit [Fintype Thread] [DecidableEq Thread] in
theorem QueueExact.push (h : QueueExact s) (task : Task) : QueueExact (s.push task) := by
  unfold QueueExact State.push at *
  simp only [List.map_append, List.map_cons, List.map_nil, List.range_succ, List.append_assoc]
  calc s.tasks.map Prod.fst ++ ([s.pushed] ++ s.removals.map Prod.fst)
      _ |>.Perm (s.tasks.map Prod.fst ++ (s.removals.map Prod.fst ++ [s.pushed])) :=
        List.Perm.append_left _ List.perm_append_comm
      _ |>.Perm (List.range s.pushed ++ [s.pushed]) := by
        rw [← List.append_assoc]
        exact h.append_right _

omit [Fintype Thread] [DecidableEq Thread] in
theorem QueueExact.remove (h : QueueExact s) {entry : ℕ × Task} {rest : List (ℕ × Task)}
    (hfound : s.tasks.Perm (entry :: rest)) (thread : Thread) :
    (rest.map Prod.fst ++ (s.removals ++ [(entry.1, thread)]).map Prod.fst).Perm
      (List.range s.pushed) := by
  refine List.Perm.trans ?_ h
  rw [List.map_append, ← List.append_assoc]
  refine List.perm_append_comm.trans ?_
  exact ((hfound.map Prod.fst).append_right _).symm

omit [Fintype Thread] in
theorem QueueExact.step (h : QueueExact s) (hstep : Step ready s s') : QueueExact s' := by
  cases hstep with
  | wait thread hposition hsemaphore => exact h
  | select thread hposition =>
      unfold Scheduler.select
      cases hfound : takeFirst (fun entry => ready s.env entry.2) s.tasks with
      | none =>
          simp only [hfound]
          split
          · simpa [QueueExact, State.move] using h
          · split <;> simpa [QueueExact, State.move] using h
      | some found =>
          obtain ⟨entry, rest⟩ := found
          have hremove := h.remove (perm_of_takeFirst hfound) thread
          simp only [hfound]
          split <;> simpa [QueueExact, State.move] using hremove
  | work thread task hposition env new =>
      have hpushes : ∀ (new : List Task) (t : State Thread Task Env), QueueExact t →
          QueueExact (new.foldl State.push t) := by
        intro new
        induction new with
        | nil => exact fun _ ht => ht
        | cons task rest ih => exact fun t ht => ih _ (ht.push task)
      exact hpushes new _ h
  | finish thread task hposition requeued =>
      unfold Scheduler.finish
      cases requeued with
      | none => simpa [QueueExact, State.move] using h
      | some task => simpa [QueueExact, State.move, State.push] using h.push task

omit [Fintype Thread] in
theorem reachable_queueExact (h : (processTasks ready).Reachable s) : QueueExact s :=
  h.invariant (fun _ => Initial.queueExact) fun _ _ hexact hstep => hexact.step hstep

/-- The task numbered `number` is in the queue once and was never taken, or it
was taken by exactly one thread, exactly once, and is not in the queue. -/
def HandledOnce (s : State Thread Task Env) (number : ℕ) : Prop :=
  ((s.tasks.map Prod.fst).count number = 1 ∧ ∀ thread, (number, thread) ∉ s.removals) ∨
    (number ∉ s.tasks.map Prod.fst ∧
      ∃ thread, s.removals.filter (fun removal => removal.1 = number) = [(number, thread)])

omit [Fintype Thread] [DecidableEq Thread] in
theorem QueueExact.handledOnce (h : QueueExact s) {number : ℕ} (hpushed : number < s.pushed) :
    HandledOnce s number := by
  have hcount : (s.tasks.map Prod.fst).count number +
      (s.removals.map Prod.fst).count number = 1 := by
    rw [← List.count_append, h.count_eq]
    exact List.count_eq_one_of_mem List.nodup_range (List.mem_range.mpr hpushed)
  have hlength : (s.removals.filter fun removal => removal.1 = number).length =
      (s.removals.map Prod.fst).count number := by
    rw [List.count_eq_length_filter, List.filter_map, List.length_map]
    congr 1
  rcases Nat.eq_zero_or_pos ((s.removals.map Prod.fst).count number) with hzero | hpositive
  · refine Or.inl ⟨by omega, fun thread hmem => ?_⟩
    exact List.count_eq_zero.mp hzero (List.mem_map.mpr ⟨_, hmem, rfl⟩)
  · refine Or.inr ⟨List.count_eq_zero.mp (by omega), ?_⟩
    obtain ⟨removal, hremoval⟩ := List.length_eq_one_iff.mp
      (show (s.removals.filter fun removal => removal.1 = number).length = 1 by omega)
    have hmem : removal ∈ s.removals.filter fun removal => removal.1 = number := by
      rw [hremoval]
      exact List.mem_singleton_self _
    have hnumber : removal.1 = number := by simpa using (List.mem_filter.mp hmem).2
    exact ⟨removal.2, by rw [hremoval, ← hnumber]⟩

/-! ## Leaving the loop -/

omit [Fintype Thread] in
/-- Only the selecting section makes a thread leave, and only when nothing is
being processed and nothing in the queue is ready. -/
theorem idle_of_exit (hstep : Step ready s s') {thread : Thread}
    (hbefore : s.position thread ≠ .exited) (hafter : s'.position thread = .exited) :
    s.threadsProcessing = 0 ∧ ∀ entry ∈ s.tasks, ready s.env entry.2 = false := by
  have hmoved : ∀ (t : State Thread Task Env) (mover : Thread) (position : Position Task),
      t.position = s.position → position ≠ .exited →
      (t.move mover position).position thread ≠ .exited := by
    intro t mover position hpos hnext
    by_cases heq : thread = mover
    · subst heq; simpa using hnext
    · rw [State.position_move_of_ne _ _ heq, hpos]
      exact hbefore
  cases hstep with
  | wait mover hposition hsemaphore => exact absurd hafter (hmoved _ mover _ rfl (by simp))
  | select mover hposition =>
      unfold Scheduler.select at hafter
      cases hfound : takeFirst (fun entry => ready s.env entry.2) s.tasks with
      | none =>
          refine ⟨?_, takeFirst_eq_none_iff.mp hfound⟩
          by_contra hbusy
          simp only [hfound, hbusy, and_false, if_false] at hafter
          exact hmoved _ mover _ rfl (by simp) hafter
      | some found =>
          simp only [hfound] at hafter
          refine absurd hafter (hmoved _ mover _ ?_ (by simp))
          split <;> simp
  | work mover task hposition env new =>
      rw [(foldl_push_fields new { s with env := env }).1] at hafter
      exact absurd hafter hbefore
  | finish mover task hposition requeued =>
      refine absurd hafter (hmoved _ mover _ ?_ (by simp))
      cases requeued <;> simp [State.push]

/-- **The task scheduler is safe.**  In every reachable state of every
interleaving: the threads that are still in the loop are not all blocked on an
empty semaphore; every task ever pushed is in the queue or was removed by exactly
one thread; no signal found the semaphore at its maximum; a thread can leave only
when no thread is processing and no task is ready; and once all threads have left,
no ready task remains. -/
theorem processTasks_safe [Nonempty Thread] (h : (processTasks ready).Reachable s) :
    (∀ thread, s.position thread ≠ .exited →
      ¬ (s.semaphore = 0 ∧ ∀ other, s.position other ≠ .exited → s.position other = .waiting)) ∧
    (∀ number < s.pushed, HandledOnce s number) ∧
    s.lostSignals = 0 ∧
    (∀ s' thread, Step ready s s' → s.position thread ≠ .exited → s'.position thread = .exited →
      (∀ other, ¬ (s.position other).IsProcessing) ∧
        ∀ entry ∈ s.tasks, ready s.env entry.2 = false) ∧
    ((∀ thread, s.position thread = .exited) →
      ∀ entry ∈ s.tasks, ready s.env entry.2 = false) := by
  have hinv := reachable_invariant h
  refine ⟨?_, fun _ => (reachable_queueExact h).handledOnce, hinv.lossless, ?_, ?_⟩
  · rintro thread hrunning ⟨hzero, hblocked⟩
    -- with every thread waiting or gone there is neither a selecting nor a processing one
    have hstill : ∀ other, s.position other = .waiting ∨ s.position other = .exited := by
      intro other
      by_cases hexited : s.position other = .exited
      · exact Or.inr hexited
      · exact Or.inl (hblocked other hexited)
    have hselecting : s.selectingCount = 0 := countWhere_eq_zero_iff.mpr fun other => by
      rcases hstill other with heq | heq <;> simp [heq]
    have hprocessing : s.threadsProcessing = 0 := by
      rw [hinv.counted]
      exact countWhere_eq_zero_iff.mpr fun other => by
        rcases hstill other with heq | heq <;> simp [heq]
    have := hinv.awake (by omega)
    omega
  · intro s' thread hstep hbefore hafter
    obtain ⟨hidle, hready⟩ := idle_of_exit hstep hbefore hafter
    refine ⟨fun other => ?_, hready⟩
    exact countWhere_eq_zero_iff.mp (hinv.counted.symm.trans hidle) other
  · intro hexited
    obtain ⟨thread⟩ := ‹Nonempty Thread›
    exact (hinv.exits thread (hexited thread)).2

/-- Two threads before the loop, with one task in the queue. -/
def twoThreads : State (Fin 2) String Unit where
  semaphore := 1
  isSignaled := false
  tasks := [(0, "preload")]
  threadsProcessing := 0
  env := ()
  position _ := .waiting
  pushed := 1
  removals := []
  lostSignals := 0

/-- The same threads after the first one has taken the task. -/
def firstTook : State (Fin 2) String Unit :=
  select (fun _ _ => true) ({ twoThreads with semaphore := 0 }.move 0 .selecting) 0

theorem processTasks_safe_twoThreads :
    ¬ (firstTook.semaphore = 0 ∧
      ∀ other, firstTook.position other ≠ .exited → firstTook.position other = .waiting) ∧
    HandledOnce firstTook 0 ∧ firstTook.lostSignals = 0 := by
  have hinit : Initial twoThreads :=
    ⟨rfl, rfl, rfl, fun _ => rfl, rfl, rfl, rfl⟩
  have hwait : Step (fun _ _ => true) twoThreads
      ({ twoThreads with semaphore := 0 }.move 0 .selecting) := .wait 0 rfl (by decide)
  have hselect : Step (fun _ _ => true) ({ twoThreads with semaphore := 0 }.move 0 .selecting)
      firstTook := .select 0 rfl
  have hreachable : (processTasks fun (_ : Unit) (_ : String) => true).Reachable firstTook :=
    ⟨twoThreads, hinit, (Relation.ReflTransGen.single hwait).tail hselect⟩
  obtain ⟨hawake, hhandled, hlost, -, -⟩ := processTasks_safe hreachable
  exact ⟨hawake 1 (by decide), hhandled 0 (by decide), hlost⟩

end TinCompiler.Scheduler
