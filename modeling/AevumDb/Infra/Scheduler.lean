import Mathlib.Data.List.Perm.Basic
import Mathlib.Data.List.Range

/-!
# The worker pool

`Scheduler` owns a cohort of workers, a FIFO queue `tasks_` guarded by
`queue_mutex_`, and the flag `stop_`.  A worker's loop locks the mutex, waits
until `stop_` is set or a task is queued, returns when `stop_` is set and the
queue is empty, and otherwise pops the front task and runs it with the lock
released.  `enqueue` pushes under the lock; the destructor sets `stop_` under
the lock and joins every worker.

The model runs each critical section as one step of a relation on the state,
with the tasks numbered in the order they are enqueued and three histories
beside the code's state: the tasks dequeued, the tasks that finished, and the
number of tasks enqueued when `stop_` was set.  Along every interleaving no
task is dequeued twice, tasks leave in FIFO order, and no worker returns while
`stop_` is clear or the queue is not empty; and when the destructor of a pool
of at least one worker returns, every task enqueued before it started has
run (`shutdown_runs_enqueued`).  A pool of no worker, which the default
`std::thread::hardware_concurrency()` may give, returns with its queue
untouched (`destructor_returns_with_queued_task`).
-/

namespace AevumDb

namespace Scheduler

inductive Worker where
  | waiting
  | running (task : Nat)
  | exited
  deriving DecidableEq, Repr

def Worker.task : Worker -> Option Nat
  | .running t => some t
  | _ => none

inductive Phase where
  | live
  | stopping
  | returned
  deriving DecidableEq, Repr

structure State where
  tasks : List Nat
  stop : Bool
  workers : List Worker
  phase : Phase
  /-- Tasks are numbered `0, 1, ...` in the order `enqueue` pushes them. -/
  enqueued : Nat
  dequeued : List Nat
  executed : List Nat
  /-- The number of tasks enqueued when the destructor set `stop_`. -/
  stoppedAt : Option Nat
  deriving DecidableEq, Repr

def init (threads : Nat) : State :=
  { tasks := [], stop := false, workers := List.replicate threads .waiting, phase := .live,
    enqueued := 0, dequeued := [], executed := [], stoppedAt := none }

/-- One critical section, or one task's run, of the pool. -/
inductive Step : State -> State -> Prop
  /-- Scheduler::enqueue, while the pool exists. -/
  | enqueue {s : State} : s.phase ≠ .returned ->
      Step s { s with tasks := s.tasks ++ [s.enqueued], enqueued := s.enqueued + 1 }
  /-- A worker's wait ends with `stop_` set and the queue empty: it returns. -/
  | exit {s : State} {i : Nat} : s.workers[i]? = some .waiting -> s.stop = true -> s.tasks = [] ->
      Step s { s with workers := s.workers.set i .exited }
  /-- A worker's wait ends with a task queued: it pops the front task. -/
  | dequeue {s : State} {i t : Nat} {rest : List Nat} : s.workers[i]? = some .waiting ->
      s.tasks = t :: rest ->
      Step s { s with tasks := rest, workers := s.workers.set i (.running t),
                      dequeued := s.dequeued ++ [t] }
  /-- A worker's task returns, and the worker goes back to the top of its loop. -/
  | finish {s : State} {i t : Nat} : s.workers[i]? = some (.running t) ->
      Step s { s with workers := s.workers.set i .waiting, executed := s.executed ++ [t] }
  /-- The destructor sets `stop_` under the lock. -/
  | stop {s : State} : s.phase = .live ->
      Step s { s with stop := true, phase := .stopping, stoppedAt := some s.enqueued }
  /-- The destructor's joins return once every worker has returned. -/
  | join {s : State} : s.phase = .stopping -> (∀ w ∈ s.workers, w = .exited) ->
      Step s { s with phase := .returned }

inductive Reachable (threads : Nat) : State -> Prop
  | init : Reachable threads (init threads)
  | step {s s' : State} : Reachable threads s -> Step s s' -> Reachable threads s'

/-!
## The invariant
-/

def running (ws : List Worker) : List Nat := ws.filterMap Worker.task

theorem running_cons (w : Worker) (ws : List Worker) : running (w :: ws) = w.task.toList ++ running ws := by
  cases w <;> rfl

theorem running_set {ws : List Worker} {i : Nat} {w : Worker} (h : ws[i]? = some w) (w' : Worker) :
    (running (ws.set i w') ++ w.task.toList).Perm (running ws ++ w'.task.toList) := by
  induction ws generalizing i with
  | nil => simp at h
  | cons v ws ih =>
      cases i with
      | zero =>
          obtain rfl : v = w := by simpa using h
          rw [List.set_cons_zero, running_cons, running_cons, List.perm_iff_count]
          intro a
          simp only [List.count_append]
          omega
      | succ i =>
          rw [List.set_cons_succ, running_cons, running_cons, List.append_assoc, List.append_assoc]
          exact (ih (by simpa using h)).append_left _

structure Inv (s : State) : Prop where
  /-- The queue holds, in order, the tasks not yet dequeued. -/
  fifo : s.dequeued ++ s.tasks = List.range s.enqueued
  /-- A dequeued task has finished or is running on a worker. -/
  accounted : (s.executed ++ running s.workers).Perm s.dequeued
  /-- `stop_` is set exactly from the destructor's first step on. -/
  stop_iff : s.stop = true ↔ s.phase ≠ .live
  stoppedAt_iff : s.stoppedAt.isSome = s.stop
  stoppedAt_le : ∀ k, s.stoppedAt = some k -> k ≤ s.enqueued
  /-- Once a worker has returned, every task enqueued before `stop_` was set is dequeued. -/
  drained : (∃ w ∈ s.workers, w = .exited) -> ∀ k, s.stoppedAt = some k -> k ≤ s.dequeued.length
  /-- A returned worker saw `stop_` set. -/
  exited_stop : (∃ w ∈ s.workers, w = .exited) -> s.stop = true
  /-- The destructor returned after every worker. -/
  returned : s.phase = .returned -> ∀ w ∈ s.workers, w = .exited

theorem inv_init (threads : Nat) : Inv (init threads) where
  fifo := rfl
  accounted := by simp [init, running, Worker.task]
  stop_iff := by simp [init]
  stoppedAt_iff := rfl
  stoppedAt_le := by simp [init]
  drained := by simp [init]
  exited_stop := by simp [init]
  returned := by simp [init]

/-!
## One step keeps the invariant
-/

variable {s s' : State}

theorem exited_of_mem_set {ws : List Worker} {i : Nat} {w' : Worker} (hw' : w' ≠ .exited)
    (h : ∃ w ∈ ws.set i w', w = .exited) : ∃ w ∈ ws, w = .exited := by
  obtain ⟨w, hw, rfl⟩ := h
  rcases List.mem_or_eq_of_mem_set hw with hw | rfl
  · exact ⟨_, hw, rfl⟩
  · exact absurd rfl hw'

theorem not_all_exited {ws : List Worker} {i : Nat} {w : Worker} (h : ws[i]? = some w)
    (hw : w ≠ .exited) : ¬ ∀ v ∈ ws, v = .exited :=
  fun hall => hw (hall w (List.getElem?_mem h))

theorem Step.inv (h : Step s s') (hi : Inv s) : Inv s' := by
  cases h with
  | enqueue _ =>
      exact { hi with
        fifo := by rw [← List.append_assoc, hi.fifo, List.range_succ]
        stoppedAt_le := fun k hk => Nat.le_succ_of_le (hi.stoppedAt_le k hk) }
  | exit hw hstop htasks =>
      have hrun := running_set hw .exited
      simp only [Worker.task, Option.toList, List.append_nil] at hrun
      have hall : s.dequeued = List.range s.enqueued := by simpa [htasks] using hi.fifo
      exact { hi with
        accounted := (hrun.append_left _).trans hi.accounted
        drained := fun _ k hk => by
          rw [hall, List.length_range]
          exact hi.stoppedAt_le k hk
        exited_stop := fun _ => hstop
        returned := fun hret => absurd (hi.returned hret) (not_all_exited hw (by decide)) }
  | @dequeue _ t _ hw htasks =>
      have hrun := running_set hw (.running t)
      simp only [Worker.task, Option.toList, List.append_nil] at hrun
      exact { hi with
        fifo := by rw [List.append_assoc, List.singleton_append, ← htasks, hi.fifo]
        accounted := by
          refine (hrun.append_left _).trans ?_
          rw [← List.append_assoc]
          exact hi.accounted.append_right _
        drained := fun hex k hk => (hi.drained (exited_of_mem_set (by simp) hex) k hk).trans (by simp)
        exited_stop := fun hex => hi.exited_stop (exited_of_mem_set (by simp) hex)
        returned := fun hret => absurd (hi.returned hret) (not_all_exited hw (by decide)) }
  | @finish _ t hw =>
      have hrun := running_set hw .waiting
      simp only [Worker.task, Option.toList, List.append_nil] at hrun
      exact { hi with
        accounted := by
          rw [List.append_assoc]
          exact ((List.perm_append_comm.trans hrun).append_left _).trans hi.accounted
        drained := fun hex => hi.drained (exited_of_mem_set (by decide) hex)
        exited_stop := fun hex => hi.exited_stop (exited_of_mem_set (by decide) hex)
        returned := fun hret => absurd (hi.returned hret) (not_all_exited hw (by simp)) }
  | stop hlive =>
      have hstop : s.stop = false := Bool.eq_false_iff.mpr fun h => hi.stop_iff.mp h hlive
      exact { hi with
        stop_iff := by simp
        stoppedAt_iff := rfl
        stoppedAt_le := fun _ hk => (Option.some.inj hk).ge
        drained := fun hex => absurd (hi.exited_stop hex) (by simp [hstop])
        exited_stop := fun _ => rfl
        returned := fun h => by cases h }
  | join hstopping hall =>
      exact { hi with
        stop_iff := hi.stop_iff.trans (by simp [hstopping])
        returned := fun _ => hall }

theorem Step.length_workers (h : Step s s') : s'.workers.length = s.workers.length := by
  cases h <;> first | rfl | exact List.length_set _ _ _

variable {threads : Nat}

theorem Reachable.inv (h : Reachable threads s) : Inv s := by
  induction h with
  | init => exact inv_init threads
  | step _ hstep ih => exact hstep.inv ih

theorem Reachable.length_workers (h : Reachable threads s) : s.workers.length = threads := by
  induction h with
  | init => simp [Scheduler.init]
  | step _ hstep ih => rw [hstep.length_workers, ih]

/-!
## What every interleaving guarantees
-/

theorem Inv.dequeued_fifo (hi : Inv s) : s.dequeued = List.range s.dequeued.length := by
  have hpre : s.dequeued <+: List.range s.enqueued := hi.fifo ▸ List.prefix_append _ _
  rw [List.prefix_iff_eq_take.mp hpre, List.take_range, List.length_range]

theorem Step.exit_guard (h : Step s s') {i : Nat} (hbefore : s.workers[i]? ≠ some .exited)
    (hafter : s'.workers[i]? = some .exited) : s.stop = true ∧ s.tasks = [] := by
  cases h with
  | exit _ hstop htasks => exact ⟨hstop, htasks⟩
  | dequeue _ _ | finish _ =>
      simp only [List.getElem?_set] at hafter
      split_ifs at hafter <;> simp_all
  | enqueue _ | stop _ | join _ _ => exact absurd hafter hbefore

theorem running_eq_nil {ws : List Worker} (h : ∀ w ∈ ws, w = .exited) : running ws = [] :=
  List.filterMap_eq_nil_iff.mpr fun w hw => by rw [h w hw]; rfl

theorem shutdown_runs_enqueued (hn : 0 < threads) (h : Reachable threads s)
    (hret : s.phase = .returned) : ∀ k, s.stoppedAt = some k -> ∀ t < k, t ∈ s.executed := by
  intro k hk t ht
  have hi := h.inv
  have hall := hi.returned hret
  obtain ⟨w, hw⟩ := List.exists_mem_of_length_pos (h.length_workers ▸ hn)
  have hdrained := hi.drained ⟨w, hw, hall w hw⟩ k hk
  have hdeq : t ∈ s.dequeued := by
    rw [hi.dequeued_fifo, List.mem_range]
    omega
  have hacc := hi.accounted
  rw [running_eq_nil hall, List.append_nil] at hacc
  exact hacc.mem_iff.mpr hdeq

/-- Along every interleaving, the tasks dequeued and not yet finished are the ones the workers
are running, one each: at most `threads` tasks are in progress at once, and a task queued behind
`threads` that never return is never dequeued.  Server::run enqueues one `handle_client` per
accepted connection, which returns only when its session ends, so at most `threads` clients are
served at once and the others' connections wait, accepted and registered, in the queue. -/
theorem at_most_threads_in_progress (h : Reachable threads s) :
    s.dequeued.length ≤ s.executed.length + threads := by
  have hacc := h.inv.accounted.length_eq
  have hrun : (running s.workers).length ≤ threads :=
    h.length_workers ▸ List.length_filterMap_le _ _
  rw [List.length_append] at hacc
  omega

theorem one_worker_holds_second_task :
    ∃ s, Reachable 1 s ∧ s.tasks = [1] ∧ s.dequeued = [0] ∧ s.executed = [] ∧
      s.dequeued.length ≤ s.executed.length + 1 := by
  have h2 : Reachable 1 _ := ((Reachable.init).step (.enqueue (by decide))).step (.enqueue (by decide))
  have h3 := h2.step (.dequeue (i := 0) rfl rfl)
  exact ⟨_, h3, rfl, rfl, rfl, at_most_threads_in_progress h3⟩

end Scheduler

/-- Along every interleaving of a pool of any size, zero included, no task is dequeued twice,
tasks are dequeued in the order they were enqueued, and a worker returns only from a wait that
saw `stop_` set and the queue empty.  When the destructor of a pool of at least one worker
returns, every task enqueued before it began has run; a pool of no worker, which
`std::thread::hardware_concurrency()` returns when it cannot tell, accepts a task, and its
destructor returns with that task still queued. -/
theorem destructor_returns_with_queued_task :
    (∀ threads (s : Scheduler.State), Scheduler.Reachable threads s ->
      s.dequeued.Nodup ∧ s.dequeued = List.range s.dequeued.length ∧
      ∀ (s' : Scheduler.State) (i : Nat), Scheduler.Step s s' ->
        s.workers[i]? ≠ some Scheduler.Worker.exited -> s'.workers[i]? = some Scheduler.Worker.exited ->
        s.stop = true ∧ s.tasks = []) ∧
    (∀ threads (s : Scheduler.State), 0 < threads -> Scheduler.Reachable threads s -> s.phase = .returned ->
      ∀ k, s.stoppedAt = some k -> ∀ t < k, t ∈ s.executed) ∧
    ∃ s, Scheduler.Reachable 0 s ∧ s.phase = .returned ∧ s.stoppedAt = some 1 ∧
      s.tasks = [0] ∧ 0 ∉ s.executed := by
  refine ⟨fun threads s h => ?_, fun threads s hn h => Scheduler.shutdown_runs_enqueued hn h, ?_⟩
  · have hfifo := h.inv.dequeued_fifo
    refine ⟨hfifo ▸ List.nodup_range _, hfifo, fun s' i hs => hs.exit_guard⟩
  · have h0 : Scheduler.Reachable 0 (Scheduler.init 0) := .init
    have h1 := h0.step (.enqueue (by decide))
    have h2 := h1.step (.stop rfl)
    exact ⟨_, h2.step (.join rfl (by simp [Scheduler.init])), rfl, rfl, rfl, by decide⟩

end AevumDb
