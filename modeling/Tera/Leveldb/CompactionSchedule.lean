import Mathlib.Data.List.Sort
import Mathlib.Logic.Function.Basic
import Mathlib.Order.Lattice

/-!
# Scheduling background compactions, and manual compactions

`DBImpl::MaybeScheduleCompaction` keeps `bg_compaction_tasks_`, the tasks handed to the
environment's thread pool, each with a score and a timeout. It gathers the scores of the work
waiting (a memtable to dump, a manual compaction, the version set's compaction scores), appends
the tasks' own, sorts them with `ScoreSortGreater`, and walks the first `qlen` of them: an existing
task takes a score that goes before its own (`ReSchedule`), and past the last task a new task is
scheduled, as long as fewer than `max_background_compactions` tasks exist. `BackgroundCall` runs a
task: `BackgroundCompaction`, a retry sleep after an error, the erase of the task from
`bg_compaction_tasks_` (with `assert(task_id != bg_compaction_tasks_.end())`), and another
`MaybeScheduleCompaction` unless there was nothing to do.

`TEST_CompactRange` installs a `ManualCompaction` that lives on its caller's stack as
`manual_compaction_`, schedules, and waits on `bg_cv_` until the compaction is done, the engine
shuts down or `bg_error_` is set; if it leaves early and its compaction is still installed, it
clears `manual_compaction_`. A background task that takes the manual compaction marks it
`being_sched`, asks the version set for the compaction of its range, and after the compaction,
with the mutex released in between, updates `manual_compaction_` as it then is.

Each step below is one stretch of code between two points where `mutex_` changes hands. The
version set's answers (`GetCompactionScores`, `CompactRange`, `PickCompaction`) and the results
of the compactions are the steps' parameters. Scores range over any linear order: a `double`
compared as the code compares it.
-/
namespace Leveldb.CompactionSchedule

open Function (update)

variable {σ K : Type} [LinearOrder σ]

/-! ## The scores -/

/-- `ScoreSortGreater(i, j)`: `i` goes before `j`, the smaller timeout first and at equal
timeouts the higher score. -/
def scoreSortGreater (i j : σ × Nat) : Bool :=
  if i.2 ≠ j.2 then decide (i.2 < j.2) else decide (j.1 < i.1)

/-- `std::sort(scores.begin(), scores.end(), ScoreSortGreater)`. Two pairs neither of which goes
before the other are equal, so every sort gives this sequence. -/
def sortScores (scores : List (σ × Nat)) : List (σ × Nat) :=
  scores.insertionSort fun a b => scoreSortGreater b a = false

/-- An element of `bg_compaction_tasks_`: the id `Schedule` returned, the score and the
timeout. -/
structure CompactionTask (σ : Type) where
  id : Nat
  score : σ
  timeout : Nat
  deriving DecidableEq, Repr

/-- The loop `for (i = 0; i < qlen; i++)` of `MaybeScheduleCompaction` from index `i` over the
scores left. While there are fewer than `M = max_background_compactions` tasks, task `i` takes
score `i` if that goes before its own (`ReSchedule`), and past the last task a new task is
scheduled with it under the next id. -/
def scheduleLoop (M : Nat) : Nat → List (σ × Nat) → List (CompactionTask σ) → Nat →
    List (CompactionTask σ) × Nat
  | _, [], tasks, nextId => (tasks, nextId)
  | i, p :: rest, tasks, nextId =>
    if tasks.length < M then
      match tasks[i]? with
      | some task =>
        let tasks := if scoreSortGreater p (task.score, task.timeout) then
            tasks.set i { task with score := p.1, timeout := p.2 }
          else tasks
        scheduleLoop M (i + 1) rest tasks nextId
      | none => scheduleLoop M (i + 1) rest (tasks ++ [⟨nextId, p.1, p.2⟩]) (nextId + 1)
    else scheduleLoop M (i + 1) rest tasks nextId

theorem scheduleLoop_of_le {M : Nat} {tasks : List (CompactionTask σ)} (h : M ≤ tasks.length) :
    ∀ (i : Nat) (ps : List (σ × Nat)) (nextId : Nat),
      scheduleLoop M i ps tasks nextId = (tasks, nextId)
  | _, [], _ => rfl
  | i, _ :: ps, nextId => by
    rw [scheduleLoop, if_neg (by omega)]; exact scheduleLoop_of_le h (i + 1) ps nextId

omit [LinearOrder σ] in
theorem ids_set_rescore {tasks : List (CompactionTask σ)} {i : Nat} {task : CompactionTask σ}
    (h : tasks[i]? = some task) (p : σ × Nat) :
    (tasks.set i { task with score := p.1, timeout := p.2 }).map (·.id) = tasks.map (·.id) := by
  apply List.ext_getElem?
  intro j
  simp only [List.getElem?_map, List.getElem?_set]
  split
  · subst_vars; simp [(List.getElem?_eq_some_iff.1 h).1, h]
  · rfl

theorem ids_scheduleLoop (M : Nat) : ∀ (i : Nat) (ps : List (σ × Nat))
    (tasks : List (CompactionTask σ)) (nextId : Nat),
    let r := scheduleLoop M i ps tasks nextId
    nextId ≤ r.2 ∧ r.1.map (·.id) = tasks.map (·.id) ++ List.range' nextId (r.2 - nextId)
  | _, [], _, _ => by simp [scheduleLoop]
  | i, p :: ps, tasks, nextId => by
    simp only [scheduleLoop]
    split
    · split
      · rename_i task h
        obtain ⟨h1, h2⟩ := ids_scheduleLoop M (i + 1) ps
          (if scoreSortGreater p (task.score, task.timeout) then
            tasks.set i { task with score := p.1, timeout := p.2 } else tasks) nextId
        refine ⟨h1, h2.trans ?_⟩
        split <;> simp only [ids_set_rescore h]
      · obtain ⟨h1, h2⟩ := ids_scheduleLoop M (i + 1) ps (tasks ++ [⟨nextId, p.1, p.2⟩]) (nextId + 1)
        refine ⟨by omega, h2.trans ?_⟩
        obtain ⟨k, hk⟩ : ∃ k, (scheduleLoop M (i + 1) ps (tasks ++ [⟨nextId, p.1, p.2⟩])
          (nextId + 1)).2 = nextId + 1 + k := ⟨_, (Nat.add_sub_of_le h1).symm⟩
        rw [hk, show nextId + 1 + k - nextId = k + 1 by omega, Nat.add_sub_cancel_left]
        simp [List.range'_succ]
    · exact ids_scheduleLoop M (i + 1) ps tasks nextId

/-- How many tasks the loop leaves: none is removed, and while there are fewer than `M` the loop
adds one for each score past the last task, up to `M`. -/
theorem length_scheduleLoop (M : Nat) : ∀ (i : Nat) (ps : List (σ × Nat))
    (tasks : List (CompactionTask σ)) (nextId : Nat), i ≤ tasks.length →
    (scheduleLoop M i ps tasks nextId).1.length =
      if tasks.length < M then min M (max tasks.length (i + ps.length)) else tasks.length
  | _, [], tasks, _, hi => by simp only [scheduleLoop, List.length_nil]; split <;> omega
  | i, p :: ps, tasks, nextId, hi => by
    by_cases hM : tasks.length < M
    · rw [scheduleLoop, if_pos hM, if_pos hM]
      split
      · rename_i task h
        have hi' : i < tasks.length := (List.getElem?_eq_some_iff.1 h).1
        have hlen : (if scoreSortGreater p (task.score, task.timeout) then
            tasks.set i { task with score := p.1, timeout := p.2 } else tasks).length =
            tasks.length := by
          split <;> simp
        rw [length_scheduleLoop M (i + 1) ps _ nextId (by omega), hlen, if_pos hM]
        simp only [List.length_cons]; omega
      · rename_i h
        have hi' : i = tasks.length := by
          have := List.getElem?_eq_none_iff.1 h; omega
        rw [length_scheduleLoop M (i + 1) ps _ (nextId + 1) (by simp; omega)]
        simp only [List.length_append, List.length_cons, List.length_nil]
        split <;> omega
    · rw [scheduleLoop_of_le (by omega), if_neg hM]

/-! ## The engine's state -/

/-- `options_.max_background_compactions`, `options_.paranoid_checks`, and the scores of a
memtable to dump and of a manual compaction (`kDumpMemTableScore`, `kManualCompactScore`). -/
structure Setting (σ : Type) where
  maxBackgroundCompactions : Nat
  paranoidChecks : Bool
  dumpMemTableScore : σ
  manualCompactScore : σ

/-- A `ManualCompaction`: `done`, `being_sched`, whether `compaction_conflict` is
`kManualCompactConflict`, and `begin` (none for NULL; its storage is `tmp_storage` once a
compaction moved it). -/
structure ManualCompaction (K : Type) where
  done : Bool
  beingSched : Bool
  conflict : Bool
  begin : Option K
  deriving DecidableEq, Repr

/-- `BackgroundCompaction` takes the manual compaction: `being_sched`, the conflict `CompactRange`
met, and `done` when it found nothing to compact and met no conflict. -/
def ManualCompaction.pick (mc : ManualCompaction K) (conflict : Bool) (range : Option K) :
    ManualCompaction K :=
  { mc with beingSched := true, conflict, done := range.isNone && !conflict }

/-- Where a `TEST_CompactRange` caller is: not called yet, in its `while` loop, waiting on
`bg_cv_`, or returned (its `ManualCompaction` is gone). -/
inductive CallerPc where
  | idle
  | looping
  | waiting
  | returned
  deriving DecidableEq, Repr

/-- Where the thread of a task is. `flushing` is in `CompactMemTable`, `compacting pick` in a
compaction, with `pick = some (c, e)` when it took caller `c`'s manual compaction, whose inputs end
at `e`; `sleeping` is the retry sleep after an error, keeping `sched_idle`. -/
inductive TaskPc (K : Type) where
  | unscheduled
  | pending
  | flushing
  | compacting (pick : Option (Nat × K))
  | sleeping (schedIdle : Bool)
  | finished
  deriving DecidableEq, Repr

def TaskPc.active : TaskPc K → Bool
  | .pending | .flushing | .compacting _ | .sleeping _ => true
  | .unscheduled | .finished => false

/-- The state the scheduler reads and writes under `mutex_`. `manual` is `manual_compaction_`,
by caller; `bgError` is `bg_error_`, `some pd` for an error that is `IOPermissionDenied` or not;
`immPending` is `imm_ && !imm_->BeingFlushed()`. -/
structure Sys (σ K : Type) where
  tasks : List (CompactionTask σ)
  nextId : Nat
  taskPc : Nat → TaskPc K
  manual : Option Nat
  mcs : Nat → ManualCompaction K
  callerPc : Nat → CallerPc
  shuttingDown : Bool
  bgError : Option Bool
  errors : Nat
  immPending : Bool

def Sys.init : Sys σ K where
  tasks := []
  nextId := 0
  taskPc := fun _ => .unscheduled
  manual := none
  mcs := fun _ => ⟨false, false, false, none⟩
  callerPc := fun _ => .idle
  shuttingDown := false
  bgError := none
  errors := 0
  immPending := false

section Steps

variable (S : Setting σ)

namespace Sys

/-- The `scores` `MaybeScheduleCompaction` gathers before the tasks' own: a memtable to dump, a
manual compaction that is neither being scheduled nor in conflict, then the version set's
`cands`. -/
def compactionScores (s : Sys σ K) (cands : List (σ × Nat)) : List (σ × Nat) :=
  let manualScore := match s.manual with
    | some m =>
      if !(s.mcs m).beingSched && !(s.mcs m).conflict then [(S.manualCompactScore, 0)] else []
    | none => []
  (if s.immPending then [(S.dumpMemTableScore, 0)] else []) ++ manualScore ++ cands

/-- `MaybeScheduleCompaction` with the version set's scores `cands`: nothing once shutting down or
after an `IOPermissionDenied` error; otherwise the scores sorted with the tasks' own, and the loop
over the first `qlen = max(scores, tasks)` of them. The tasks it creates are handed to the thread
pool. -/
def maybeScheduleCompaction (s : Sys σ K) (cands : List (σ × Nat)) : Sys σ K :=
  if s.shuttingDown then s
  else if s.bgError = some true then s
  else
    let scores := s.compactionScores S cands
    let qlen := max scores.length s.tasks.length
    let sorted := sortScores (scores ++ s.tasks.map fun t => (t.score, t.timeout))
    let r := scheduleLoop S.maxBackgroundCompactions 0 (sorted.take qlen) s.tasks s.nextId
    { s with tasks := r.1, nextId := r.2,
             taskPc := fun id => if s.nextId ≤ id ∧ id < r.2 then .pending else s.taskPc id }

/-- The end of `BackgroundCall` for task `id`: `bg_compaction_tasks_.erase` of the task, and
`MaybeScheduleCompaction` unless `sched_idle`. -/
def endCall (s : Sys σ K) (id : Nat) (schedIdle : Bool) (cands : List (σ × Nat)) : Sys σ K :=
  let s := { s with tasks := s.tasks.eraseP fun t => t.id = id,
                    taskPc := update s.taskPc id .finished }
  if schedIdle then s else s.maybeScheduleCompaction S cands

/-- The tail of `BackgroundCompaction` for a manual compaction, on `manual_compaction_` as it is
now: `being_sched` cleared, and unless `CompactRange` met a conflict, the compaction is done after
an error, goes on past `manual_end` otherwise, and `manual_compaction_` is cleared. -/
def releaseManual (s : Sys σ K) (ok : Bool) (manualEnd : Option K) : Sys σ K :=
  match s.manual with
  | none => s
  | some m =>
    let mc := { s.mcs m with beingSched := false }
    if mc.conflict then { s with mcs := update s.mcs m mc }
    else
      let mc := if ok then mc else { mc with done := true }
      let mc := if mc.done then mc else { mc with begin := manualEnd }
      { s with mcs := update s.mcs m mc, manual := none }

/-- `BackgroundCompaction` after a failed compaction: unless shutting down, a paranoid engine
with no error yet takes it as `bg_error_`. -/
def noteCompactionError (s : Sys σ K) (ok pd : Bool) : Sys σ K :=
  if ok || s.shuttingDown then s
  else if S.paranoidChecks && s.bgError.isNone then { s with bgError := some pd } else s

/-- `BackgroundCall` once `BackgroundCompaction` returned: success resets
`consecutive_compaction_errors_`; an error while not shutting down counts one more, sets
`bg_error_` after `IOPermissionDenied` or more than 100000 in a row, and sleeps with the mutex
released. -/
def afterCompaction (s : Sys σ K) (id : Nat) (ok pd schedIdle : Bool)
    (cands : List (σ × Nat)) : Sys σ K :=
  if ok then ({ s with errors := 0 } : Sys σ K).endCall S id schedIdle cands
  else if s.shuttingDown then s.endCall S id schedIdle cands
  else
    let s : Sys σ K := if pd || 100000 < s.errors + 1 then { s with bgError := some pd, errors := 0 }
      else { s with errors := s.errors + 1 }
    { s with taskPc := update s.taskPc id (.sleeping schedIdle) }

/-- The thread pool runs task `id`'s `BackgroundCall` up to the first release of `mutex_`.
Shutting down, the task leaves at once. Otherwise `BackgroundCompaction` flushes `imm_` if it is
not being flushed; takes the manual compaction if one is installed, unless another task is
scheduling it, with `CompactRange` answering `conflict` and `range` (none for NULL, else the
largest key of its inputs); and else runs `PickCompaction`, which `found` a compaction or not. -/
def start (s : Sys σ K) (id : Nat) (conflict : Bool) (range : Option K) (found : Bool)
    (cands : List (σ × Nat)) : Option (Sys σ K) :=
  match s.taskPc id with
  | .pending =>
    if s.shuttingDown then some (s.endCall S id true cands)
    else if s.immPending then
      some { s with immPending := false, taskPc := update s.taskPc id .flushing }
    else match s.manual with
      | some m =>
        if (s.mcs m).beingSched then
          some (({ s with errors := 0 } : Sys σ K).endCall S id false cands)
        else
          let s := { s with mcs := update s.mcs m ((s.mcs m).pick conflict range) }
          match range with
          | none => some (({ s.releaseManual true none with errors := 0 } : Sys σ K).endCall S id
              true cands)
          | some e => some { s with taskPc := update s.taskPc id (.compacting (some (m, e))) }
      | none =>
        if found then some { s with taskPc := update s.taskPc id (.compacting none) }
        else some (({ s with errors := 0 } : Sys σ K).endCall S id true cands)
  | _ => none

/-- Task `id`'s compaction or memtable flush returns with the mutex held again: `ok` and `pd`
describe its status, `schedIdle` is `CompactMemTable`'s. -/
def finish (s : Sys σ K) (id : Nat) (ok pd schedIdle : Bool) (cands : List (σ × Nat)) :
    Option (Sys σ K) :=
  match s.taskPc id with
  | .flushing => some (s.afterCompaction S id ok pd schedIdle cands)
  | .compacting pick =>
    let s := s.noteCompactionError S ok pd
    let s := match pick with
      | some (_, e) => s.releaseManual ok (some e)
      | none => s
    some (s.afterCompaction S id ok pd false cands)
  | _ => none

/-- The end of the retry sleep: `BackgroundCall` goes on to erase the task. -/
def wake (s : Sys σ K) (id : Nat) (cands : List (σ × Nat)) : Option (Sys σ K) :=
  match s.taskPc id with
  | .sleeping schedIdle => some (s.endCall S id schedIdle cands)
  | _ => none

/-- `TEST_CompactRange` by caller `c` builds its `ManualCompaction` and enters the loop. -/
def callerEnter (s : Sys σ K) (c : Nat) (begin : Option K) : Option (Sys σ K) :=
  match s.callerPc c with
  | .idle => some { s with mcs := update s.mcs c ⟨false, false, false, begin⟩,
                           callerPc := update s.callerPc c .looping }
  | _ => none

/-- One round of `TEST_CompactRange`'s loop: leave when its compaction is done, the engine shuts
down or `bg_error_` is set, clearing `manual_compaction_` if it is still this caller's; install
the compaction when none is, or clear the conflict of the one installed, and schedule; or wait. -/
def callerIter (s : Sys σ K) (c : Nat) (cands : List (σ × Nat)) : Option (Sys σ K) :=
  match s.callerPc c with
  | .looping =>
    if (s.mcs c).done || s.shuttingDown || s.bgError.isSome then
      let s := if s.manual = some c then { s with manual := none } else s
      some { s with callerPc := update s.callerPc c .returned }
    else match s.manual with
      | none => some (({ s with manual := some c } : Sys σ K).maybeScheduleCompaction S cands)
      | some m =>
        if (s.mcs m).conflict then
          some (({ s with mcs := update s.mcs m { s.mcs m with conflict := false } } :
            Sys σ K).maybeScheduleCompaction S cands)
        else some { s with callerPc := update s.callerPc c .waiting }
  | _ => none

/-- A waiting caller wakes from `bg_cv_.Wait()`, signalled or not. -/
def callerWake (s : Sys σ K) (c : Nat) : Option (Sys σ K) :=
  match s.callerPc c with
  | .waiting => some { s with callerPc := update s.callerPc c .looping }
  | _ => none

end Sys

/-- The steps: the scheduler's own, `MaybeScheduleCompaction` from the other places that call
it, `imm_` changing (`MakeRoomForWrite`, a flush ending), and `Shutdown1` setting
`shutting_down_`. -/
inductive Event (σ K : Type) where
  | maybeSchedule (cands : List (σ × Nat))
  | immChange (pending : Bool)
  | shutdown
  | start (id : Nat) (conflict : Bool) (range : Option K) (found : Bool) (cands : List (σ × Nat))
  | finish (id : Nat) (ok pd schedIdle : Bool) (cands : List (σ × Nat))
  | wake (id : Nat) (cands : List (σ × Nat))
  | callerEnter (c : Nat) (begin : Option K)
  | callerIter (c : Nat) (cands : List (σ × Nat))
  | callerWake (c : Nat)

namespace Sys

def step (s : Sys σ K) : Event σ K → Option (Sys σ K)
  | .maybeSchedule cands => some (s.maybeScheduleCompaction S cands)
  | .immChange b => some { s with immPending := b }
  | .shutdown => some { s with shuttingDown := true }
  | .start id conflict range found cands => s.start S id conflict range found cands
  | .finish id ok pd schedIdle cands => s.finish S id ok pd schedIdle cands
  | .wake id cands => s.wake S id cands
  | .callerEnter c begin => s.callerEnter c begin
  | .callerIter c cands => s.callerIter S c cands
  | .callerWake c => s.callerWake c

def run (s : Sys σ K) : List (Event σ K) → Option (Sys σ K)
  | [] => some s
  | e :: es => (s.step S e).bind fun s' => s'.run es

end Sys

end Steps

/-! ## What each operation writes -/

section Frames

variable (S : Setting σ) (s : Sys σ K) (cands : List (σ × Nat))

namespace Sys

@[simp] theorem maybeScheduleCompaction_frame :
    (s.maybeScheduleCompaction S cands).manual = s.manual ∧
    (s.maybeScheduleCompaction S cands).mcs = s.mcs ∧
    (s.maybeScheduleCompaction S cands).callerPc = s.callerPc ∧
    (s.maybeScheduleCompaction S cands).shuttingDown = s.shuttingDown ∧
    (s.maybeScheduleCompaction S cands).bgError = s.bgError := by
  unfold maybeScheduleCompaction; split_ifs <;> simp

/-- `MaybeScheduleCompaction` schedules `k` tasks with the ids from `nextId` on, appended after
the tasks there are, and marks them pending; shutting down or after `IOPermissionDenied`,
`k = 0`. -/
theorem maybeScheduleCompaction_spec : ∃ k,
    (s.maybeScheduleCompaction S cands).nextId = s.nextId + k ∧
    (s.maybeScheduleCompaction S cands).tasks.map (·.id) =
      s.tasks.map (·.id) ++ List.range' s.nextId k ∧
    ∀ id, (s.maybeScheduleCompaction S cands).taskPc id =
      if s.nextId ≤ id ∧ id < s.nextId + k then .pending else s.taskPc id := by
  unfold maybeScheduleCompaction
  split_ifs
  · exact ⟨0, by simp, by simp, fun id => by rw [if_neg (by omega)]⟩
  · exact ⟨0, by simp, by simp, fun id => by rw [if_neg (by omega)]⟩
  · obtain ⟨h1, h2⟩ := ids_scheduleLoop S.maxBackgroundCompactions 0
      ((sortScores (s.compactionScores S cands ++ s.tasks.map fun t => (t.score, t.timeout))).take
        (max (s.compactionScores S cands).length s.tasks.length)) s.tasks s.nextId
    exact ⟨_, (Nat.add_sub_of_le h1).symm, h2, fun id => by rw [Nat.add_sub_of_le h1]⟩

theorem maybeScheduleCompaction_taskPc (id : Nat) :
    (s.maybeScheduleCompaction S cands).taskPc id = s.taskPc id ∨
      (s.maybeScheduleCompaction S cands).taskPc id = .pending := by
  obtain ⟨k, -, -, h⟩ := s.maybeScheduleCompaction_spec S cands
  rw [h]; split <;> simp

theorem maybeScheduleCompaction_taskPc_compacting {id : Nat} {p : Option (Nat × K)}
    (h : (s.maybeScheduleCompaction S cands).taskPc id = .compacting p) :
    s.taskPc id = .compacting p := by
  rcases s.maybeScheduleCompaction_taskPc S cands id with h' | h' <;> rw [h'] at h
  · exact h
  · cases h

@[simp] theorem endCall_frame (id : Nat) (b : Bool) :
    (s.endCall S id b cands).manual = s.manual ∧ (s.endCall S id b cands).mcs = s.mcs ∧
    (s.endCall S id b cands).callerPc = s.callerPc ∧
    (s.endCall S id b cands).shuttingDown = s.shuttingDown ∧
    (s.endCall S id b cands).bgError = s.bgError := by
  cases b <;> simp [endCall]

theorem endCall_taskPc_compacting {id id' : Nat} {b : Bool} {p : Option (Nat × K)}
    (h : (s.endCall S id b cands).taskPc id' = .compacting p) :
    id' ≠ id ∧ s.taskPc id' = .compacting p := by
  have h' : update s.taskPc id .finished id' = .compacting p := by
    cases b
    · exact maybeScheduleCompaction_taskPc_compacting S _ cands h
    · exact h
  rcases eq_or_ne id' id with rfl | hne
  · simp at h'
  · exact ⟨hne, by rwa [Function.update_noteq hne] at h'⟩

omit [LinearOrder σ] in
@[simp] theorem releaseManual_frame (ok : Bool) (e : Option K) :
    (s.releaseManual ok e).tasks = s.tasks ∧ (s.releaseManual ok e).nextId = s.nextId ∧
    (s.releaseManual ok e).taskPc = s.taskPc ∧ (s.releaseManual ok e).callerPc = s.callerPc ∧
    (s.releaseManual ok e).shuttingDown = s.shuttingDown ∧
    (s.releaseManual ok e).bgError = s.bgError := by
  unfold releaseManual; split <;> [simp; (dsimp only; split_ifs <;> simp)]

omit [LinearOrder σ] in
/-- `releaseManual` writes only the `ManualCompaction` installed, and clears or keeps
`manual_compaction_`. -/
theorem releaseManual_mcs_of_ne (ok : Bool) (e : Option K) {c : Nat} (h : s.manual ≠ some c) :
    (s.releaseManual ok e).mcs c = s.mcs c := by
  unfold releaseManual
  split
  · rfl
  · rename_i m hm
    have : c ≠ m := by rintro rfl; exact h hm
    dsimp only; split_ifs <;> simp [this]

omit [LinearOrder σ] in
theorem releaseManual_manual (ok : Bool) (e : Option K) :
    (s.releaseManual ok e).manual = s.manual ∨ (s.releaseManual ok e).manual = none := by
  unfold releaseManual; split <;> [simp; (dsimp only; split_ifs <;> simp)]

omit [LinearOrder σ] in
@[simp] theorem noteCompactionError_frame (ok pd : Bool) :
    (s.noteCompactionError S ok pd).tasks = s.tasks ∧
    (s.noteCompactionError S ok pd).nextId = s.nextId ∧
    (s.noteCompactionError S ok pd).taskPc = s.taskPc ∧
    (s.noteCompactionError S ok pd).manual = s.manual ∧
    (s.noteCompactionError S ok pd).mcs = s.mcs ∧
    (s.noteCompactionError S ok pd).callerPc = s.callerPc ∧
    (s.noteCompactionError S ok pd).shuttingDown = s.shuttingDown := by
  unfold noteCompactionError; split_ifs <;> simp

omit [LinearOrder σ] in
theorem noteCompactionError_bgError_isSome (ok pd : Bool) (h : s.bgError.isSome) :
    (s.noteCompactionError S ok pd).bgError.isSome := by
  unfold noteCompactionError; split_ifs <;> simp [h]

end Sys

end Frames

/-! ## What each step can do -/

namespace Sys

variable {S : Setting σ} {s s' : Sys σ K}

/-- The outcomes of `start`: the task leaves while shutting down, flushes `imm_`, finds the
manual compaction being scheduled, takes it (with nothing to compact, or compacting up to `e`),
or runs `PickCompaction`. -/
theorem start_cases {id : Nat} {conflict : Bool} {range : Option K} {found : Bool}
    {cands : List (σ × Nat)} (hs : s.start S id conflict range found cands = some s') :
    s.taskPc id = .pending ∧
    (s.shuttingDown = true ∧ s' = s.endCall S id true cands ∨
     s.shuttingDown = false ∧ s.immPending = true ∧
       s' = { s with immPending := false, taskPc := update s.taskPc id .flushing } ∨
     s.shuttingDown = false ∧ s.immPending = false ∧ (∃ m, s.manual = some m ∧
       ((s.mcs m).beingSched = true ∧
          s' = ({ s with errors := 0 } : Sys σ K).endCall S id false cands ∨
        (s.mcs m).beingSched = false ∧
          let s₁ : Sys σ K := { s with mcs := update s.mcs m ((s.mcs m).pick conflict range) }
          (range = none ∧
            s' = ({ s₁.releaseManual true none with errors := 0 } : Sys σ K).endCall S id true
              cands ∨
           ∃ e, range = some e ∧
             s' = { s₁ with taskPc := update s.taskPc id (.compacting (some (m, e))) }))) ∨
     s.shuttingDown = false ∧ s.immPending = false ∧ s.manual = none ∧
       (found = true ∧ s' = { s with taskPc := update s.taskPc id (.compacting none) } ∨
        found = false ∧ s' = ({ s with errors := 0 } : Sys σ K).endCall S id true cands)) := by
  unfold start at hs
  split at hs
  case h_2 => cases hs
  rename_i hpc
  refine ⟨hpc, ?_⟩
  cases hsd : s.shuttingDown
  case true => simp only [hsd, if_true, Option.some.injEq] at hs; exact .inl ⟨rfl, hs.symm⟩
  cases him : s.immPending
  case true =>
    simp only [hsd, him, Bool.false_eq_true, if_false, if_true, Option.some.injEq] at hs
    exact .inr (.inl ⟨rfl, rfl, hs.symm⟩)
  simp only [hsd, him, Bool.false_eq_true, if_false] at hs
  refine .inr (.inr ?_)
  cases hm : s.manual with
  | some m =>
    simp only [hm] at hs
    refine .inl ⟨rfl, rfl, m, rfl, ?_⟩
    cases hb : (s.mcs m).beingSched
    case true => simp only [hb, if_true, Option.some.injEq] at hs; exact .inl ⟨rfl, hs.symm⟩
    simp only [hb, Bool.false_eq_true, if_false] at hs
    refine .inr ⟨rfl, ?_⟩
    cases range with
    | none => exact .inl ⟨rfl, (Option.some.inj hs).symm⟩
    | some e => exact .inr ⟨e, rfl, (Option.some.inj hs).symm⟩
  | none =>
    simp only [hm] at hs
    refine .inr ⟨rfl, rfl, rfl, ?_⟩
    cases found
    · exact .inr ⟨rfl, (Option.some.inj hs).symm⟩
    · exact .inl ⟨rfl, (Option.some.inj hs).symm⟩

/-- The outcomes of `finish`: a memtable flush, a compaction `PickCompaction` found, or one of
caller `c`'s manual compaction, whose inputs ended at `e`. -/
theorem finish_cases {id : Nat} {ok pd schedIdle : Bool} {cands : List (σ × Nat)}
    (hs : s.finish S id ok pd schedIdle cands = some s') :
    s.taskPc id = .flushing ∧ s' = s.afterCompaction S id ok pd schedIdle cands ∨
    s.taskPc id = .compacting none ∧
      s' = (s.noteCompactionError S ok pd).afterCompaction S id ok pd false cands ∨
    ∃ c e, s.taskPc id = .compacting (some (c, e)) ∧
      s' = ((s.noteCompactionError S ok pd).releaseManual ok (some e)).afterCompaction S id ok pd
        false cands := by
  unfold finish at hs
  split at hs
  · exact .inl ⟨‹_›, (Option.some.inj hs).symm⟩
  · rename_i pick hpc
    rcases pick with _ | ⟨c, e⟩
    · exact .inr (.inl ⟨hpc, (Option.some.inj hs).symm⟩)
    · exact .inr (.inr ⟨c, e, hpc, (Option.some.inj hs).symm⟩)
  · cases hs

theorem wake_cases {id : Nat} {cands : List (σ × Nat)} (hs : s.wake S id cands = some s') :
    ∃ b, s.taskPc id = .sleeping b ∧ s' = s.endCall S id b cands := by
  unfold wake at hs
  split at hs
  · exact ⟨_, ‹_›, (Option.some.inj hs).symm⟩
  · cases hs

omit [LinearOrder σ] in
theorem callerEnter_cases {c : Nat} {begin : Option K} (hs : s.callerEnter c begin = some s') :
    s.callerPc c = .idle ∧
      s' = { s with mcs := update s.mcs c ⟨false, false, false, begin⟩,
                    callerPc := update s.callerPc c .looping } := by
  unfold callerEnter at hs
  split at hs
  · exact ⟨‹_›, (Option.some.inj hs).symm⟩
  · cases hs

/-- The outcomes of one round of `TEST_CompactRange`'s loop: return, install the compaction,
clear the conflict of the one installed, or wait. -/
theorem callerIter_cases {c : Nat} {cands : List (σ × Nat)}
    (hs : s.callerIter S c cands = some s') :
    s.callerPc c = .looping ∧
    (((s.mcs c).done || s.shuttingDown || s.bgError.isSome) = true ∧
       s' = { s with manual := if s.manual = some c then none else s.manual,
                     callerPc := update s.callerPc c .returned } ∨
     (s.mcs c).done = false ∧ s.shuttingDown = false ∧ s.bgError = none ∧
       (s.manual = none ∧
          s' = ({ s with manual := some c } : Sys σ K).maybeScheduleCompaction S cands ∨
        ∃ m, s.manual = some m ∧
          ((s.mcs m).conflict = true ∧
             s' = ({ s with mcs := update s.mcs m { s.mcs m with conflict := false } } :
               Sys σ K).maybeScheduleCompaction S cands ∨
           (s.mcs m).conflict = false ∧
             s' = { s with callerPc := update s.callerPc c .waiting }))) := by
  unfold callerIter at hs
  split at hs
  case h_2 => cases hs
  refine ⟨‹_›, ?_⟩
  by_cases hx : ((s.mcs c).done || s.shuttingDown || s.bgError.isSome) = true
  · rw [if_pos hx] at hs
    refine .inl ⟨hx, ?_⟩
    by_cases hm : s.manual = some c <;> simp only [hm, if_true, if_false, Option.some.injEq] at hs <;>
      simp [← hs, hm]
  rw [if_neg hx] at hs
  simp only [Bool.or_eq_true, not_or, Bool.not_eq_true, Option.not_isSome,
    Option.isNone_iff_eq_none] at hx
  refine .inr ⟨hx.1.1, hx.1.2, hx.2, ?_⟩
  split at hs
  · exact .inl ⟨‹_›, (Option.some.inj hs).symm⟩
  · refine .inr ⟨_, ‹_›, ?_⟩
    split_ifs at hs with hc
    · exact .inl ⟨hc, (Option.some.inj hs).symm⟩
    · exact .inr ⟨by simpa using hc, (Option.some.inj hs).symm⟩

omit [LinearOrder σ] in
theorem callerWake_cases {c : Nat} (hs : s.callerWake c = some s') :
    s.callerPc c = .waiting ∧ s' = { s with callerPc := update s.callerPc c .looping } := by
  unfold callerWake at hs
  split at hs
  · exact ⟨‹_›, (Option.some.inj hs).symm⟩
  · cases hs

end Sys

/-! ## The task list -/

omit [LinearOrder σ] in
theorem ids_eraseP (tasks : List (CompactionTask σ)) (id : Nat) :
    (tasks.eraseP fun t => t.id = id).map (·.id) = (tasks.map (·.id)).erase id := by
  rw [List.erase_eq_eraseP', List.eraseP_map]
  congr 2

/-- What `bg_compaction_tasks_` keeps: at most `M` tasks, with distinct ids; the tasks listed are
those whose `BackgroundCall` has not ended; no id from `nextId` on has been used. -/
structure TasksOk (M : Nat) (tasks : List (CompactionTask σ)) (nextId : Nat)
    (taskPc : Nat → TaskPc K) : Prop where
  bounded : tasks.length ≤ M
  nodup : (tasks.map (·.id)).Nodup
  active_iff : ∀ id, (taskPc id).active ↔ id ∈ tasks.map (·.id)
  fresh : ∀ id, nextId ≤ id → taskPc id = .unscheduled

namespace TasksOk

omit [LinearOrder σ]

variable {M : Nat} {tasks : List (CompactionTask σ)} {nextId : Nat} {taskPc : Nat → TaskPc K}

theorem init : TasksOk M ([] : List (CompactionTask σ)) 0 fun _ => (.unscheduled : TaskPc K) :=
  ⟨Nat.zero_le _, List.nodup_nil, fun _ => by simp [TaskPc.active], fun _ _ => rfl⟩

theorem lt_nextId (h : TasksOk M tasks nextId taskPc) {id : Nat} (ha : (taskPc id).active) :
    id < nextId := by
  by_contra hc
  rw [h.fresh id (by omega)] at ha
  simp [TaskPc.active] at ha

theorem setPc (h : TasksOk M tasks nextId taskPc) {id : Nat} (ha : (taskPc id).active)
    {p : TaskPc K} (hp : p.active) : TasksOk M tasks nextId (update taskPc id p) := by
  refine ⟨h.bounded, h.nodup, fun id' => ?_, fun id' hid' => ?_⟩
  · rcases eq_or_ne id' id with rfl | hne
    · simpa [hp] using (h.active_iff id').1 ha
    · rw [Function.update_noteq hne]; exact h.active_iff id'
  · rw [Function.update_noteq (by have := h.lt_nextId ha; omega)]; exact h.fresh id' hid'

theorem erase (h : TasksOk M tasks nextId taskPc) {id : Nat} (ha : (taskPc id).active) :
    TasksOk M (tasks.eraseP fun t => t.id = id) nextId (update taskPc id .finished) := by
  refine ⟨(List.eraseP_sublist _).length_le.trans h.bounded, ids_eraseP tasks id ▸
    h.nodup.erase id, fun id' => ?_, fun id' hid' => ?_⟩
  · rw [ids_eraseP, h.nodup.mem_erase_iff]
    rcases eq_or_ne id' id with rfl | hne
    · simp [TaskPc.active]
    · rw [Function.update_noteq hne, h.active_iff]; simp [hne]
  · rw [Function.update_noteq (by have := h.lt_nextId ha; omega)]; exact h.fresh id' hid'

theorem count_eq_one (h : TasksOk M tasks nextId taskPc) {id : Nat} (ha : (taskPc id).active) :
    (tasks.map (·.id)).count id = 1 :=
  List.count_eq_one_of_mem h.nodup ((h.active_iff id).1 ha)

end TasksOk

namespace Sys

variable {S : Setting σ} {s : Sys σ K}

theorem maybeScheduleCompaction_of_shuttingDown (cands : List (σ × Nat))
    (h : s.shuttingDown = true) : s.maybeScheduleCompaction S cands = s := by
  simp [maybeScheduleCompaction, h]

/-- How many tasks `MaybeScheduleCompaction` leaves when it runs: as many as there are scores, up
to `max_background_compactions`, and never fewer than there were. -/
theorem length_maybeScheduleCompaction (cands : List (σ × Nat)) (h1 : s.shuttingDown = false)
    (h2 : s.bgError ≠ some true) : (s.maybeScheduleCompaction S cands).tasks.length =
      max s.tasks.length (min S.maxBackgroundCompactions (s.compactionScores S cands).length) := by
  simp only [maybeScheduleCompaction, h1, Bool.false_eq_true, if_false, if_neg h2]
  rw [length_scheduleLoop _ 0 _ _ _ (Nat.zero_le _)]
  simp only [List.length_take, sortScores, List.length_insertionSort, List.length_append,
    List.length_map]
  split <;> omega

theorem length_maybeScheduleCompaction_le (cands : List (σ × Nat)) :
    (s.maybeScheduleCompaction S cands).tasks.length ≤
      max s.tasks.length S.maxBackgroundCompactions := by
  by_cases h1 : s.shuttingDown = true
  · rw [maybeScheduleCompaction_of_shuttingDown cands h1]; omega
  by_cases h2 : s.bgError = some true
  · simp [maybeScheduleCompaction, h2]
  · rw [length_maybeScheduleCompaction cands (by simpa using h1) h2]; omega

end Sys

namespace Sys

variable {S : Setting σ} {s : Sys σ K} {id : Nat} {ok pd b : Bool} {cands : List (σ × Nat)}

@[simp] theorem afterCompaction_frame :
    (s.afterCompaction S id ok pd b cands).manual = s.manual ∧
    (s.afterCompaction S id ok pd b cands).mcs = s.mcs ∧
    (s.afterCompaction S id ok pd b cands).callerPc = s.callerPc ∧
    (s.afterCompaction S id ok pd b cands).shuttingDown = s.shuttingDown := by
  unfold afterCompaction; split_ifs <;> simp

theorem afterCompaction_bgError_isSome (h : s.bgError.isSome) :
    (s.afterCompaction S id ok pd b cands).bgError.isSome := by
  unfold afterCompaction; split_ifs <;> simp [h]

theorem endCall_tasks_of_shuttingDown (h : s.shuttingDown = true) :
    (s.endCall S id b cands).tasks = s.tasks.eraseP fun t => t.id = id := by
  cases b
  · exact congrArg Sys.tasks (maybeScheduleCompaction_of_shuttingDown
      (s := { s with tasks := s.tasks.eraseP fun t => t.id = id,
                     taskPc := update s.taskPc id .finished }) cands h)
  · rfl

theorem afterCompaction_tasks_of_shuttingDown (h : s.shuttingDown = true) :
    (s.afterCompaction S id ok pd b cands).tasks = s.tasks.eraseP fun t => t.id = id := by
  unfold afterCompaction
  split_ifs
  · exact endCall_tasks_of_shuttingDown (s := { s with errors := 0 }) h
  · exact endCall_tasks_of_shuttingDown h

theorem afterCompaction_taskPc_compacting {id' : Nat} {p : Option (Nat × K)}
    (h : (s.afterCompaction S id ok pd b cands).taskPc id' = .compacting p) :
    id' ≠ id ∧ s.taskPc id' = .compacting p := by
  unfold afterCompaction at h
  split_ifs at h
  · exact endCall_taskPc_compacting S { s with errors := 0 } cands h
  · exact endCall_taskPc_compacting S s cands h
  all_goals
    rcases eq_or_ne id' id with rfl | hne
    · simp at h
    · exact ⟨hne, by simpa [Function.update_noteq hne] using h⟩

end Sys

section Invariant

variable {S : Setting σ} {s s' : Sys σ K}

theorem TasksOk.maybeScheduleCompaction
    (h : TasksOk S.maxBackgroundCompactions s.tasks s.nextId s.taskPc) (cands : List (σ × Nat)) :
    let s' := s.maybeScheduleCompaction S cands
    TasksOk S.maxBackgroundCompactions s'.tasks s'.nextId s'.taskPc := by
  obtain ⟨k, hn, hids, hpc⟩ := s.maybeScheduleCompaction_spec S cands
  have hlt : ∀ id ∈ s.tasks.map (·.id), id < s.nextId := fun id hid =>
    h.lt_nextId ((h.active_iff id).2 hid)
  refine ⟨?_, ?_, fun id => ?_, fun id hid => ?_⟩
  · have := s.length_maybeScheduleCompaction_le (S := S) cands
    have := h.bounded
    omega
  · rw [hids]
    refine h.nodup.append (List.nodup_range' _ _) fun x hx hx' => ?_
    have := hlt x hx
    rw [List.mem_range'_1] at hx'
    omega
  · rw [hpc, hids, List.mem_append, List.mem_range'_1]
    split_ifs with hr
    · simp [TaskPc.active, hr]
    · rw [h.active_iff]; simp [hr]
  · rw [hn] at hid
    rw [hpc, if_neg (by omega)]
    exact h.fresh id (by omega)

theorem TasksOk.endCall (h : TasksOk S.maxBackgroundCompactions s.tasks s.nextId s.taskPc)
    {id : Nat} (ha : (s.taskPc id).active) (b : Bool) (cands : List (σ × Nat)) :
    let s' := s.endCall S id b cands
    TasksOk S.maxBackgroundCompactions s'.tasks s'.nextId s'.taskPc := by
  have h' := h.erase ha
  cases b
  · exact TasksOk.maybeScheduleCompaction (s := { s with tasks := _, taskPc := _ }) h' cands
  · exact h'

theorem TasksOk.afterCompaction
    (h : TasksOk S.maxBackgroundCompactions s.tasks s.nextId s.taskPc) {id : Nat}
    (ha : (s.taskPc id).active) (ok pd b : Bool) (cands : List (σ × Nat)) :
    let s' := s.afterCompaction S id ok pd b cands
    TasksOk S.maxBackgroundCompactions s'.tasks s'.nextId s'.taskPc := by
  unfold Sys.afterCompaction
  split_ifs
  · exact TasksOk.endCall (s := { s with errors := 0 }) h ha b cands
  · exact h.endCall ha b cands
  all_goals exact h.setPc ha rfl

theorem TasksOk.step (h : TasksOk S.maxBackgroundCompactions s.tasks s.nextId s.taskPc)
    {e : Event σ K} (hs : s.step S e = some s') :
    TasksOk S.maxBackgroundCompactions s'.tasks s'.nextId s'.taskPc := by
  cases e with
  | maybeSchedule cands => cases hs; exact h.maybeScheduleCompaction cands
  | immChange => cases hs; exact h
  | shutdown => cases hs; exact h
  | start id conflict range found cands =>
    obtain ⟨hpc, ⟨-, rfl⟩ | ⟨-, -, rfl⟩ | ⟨-, -, m, -, ⟨-, rfl⟩ | ⟨-, ⟨-, rfl⟩ | ⟨e, -, rfl⟩⟩⟩ |
      ⟨-, -, -, ⟨-, rfl⟩ | ⟨-, rfl⟩⟩⟩ := Sys.start_cases hs
    all_goals have ha : (s.taskPc id).active := by simp [hpc, TaskPc.active]
    · exact h.endCall ha true cands
    · exact h.setPc ha rfl
    · exact TasksOk.endCall (s := { s with errors := 0 }) h ha false cands
    · exact TasksOk.endCall (s := { Sys.releaseManual _ true none with errors := 0 })
        (by simpa using h) (by simpa using ha) true cands
    · exact h.setPc ha rfl
    · exact h.setPc ha rfl
    · exact TasksOk.endCall (s := { s with errors := 0 }) h ha true cands
  | finish id ok pd b cands =>
    rcases Sys.finish_cases hs with ⟨hpc, rfl⟩ | ⟨hpc, rfl⟩ | ⟨c, e, hpc, rfl⟩
    · exact h.afterCompaction (by simp [hpc, TaskPc.active]) ok pd b cands
    · exact TasksOk.afterCompaction (s := s.noteCompactionError S ok pd) (by simpa using h)
        (by simp [hpc, TaskPc.active]) ok pd false cands
    · exact TasksOk.afterCompaction (s := (s.noteCompactionError S ok pd).releaseManual ok (some e))
        (by simpa using h) (by simp [hpc, TaskPc.active]) ok pd false cands
  | wake id cands =>
    obtain ⟨b, hpc, rfl⟩ := Sys.wake_cases hs
    exact h.endCall (by simp [hpc, TaskPc.active]) b cands
  | callerEnter c begin => obtain ⟨-, rfl⟩ := Sys.callerEnter_cases hs; exact h
  | callerIter c cands =>
    obtain ⟨-, ⟨-, rfl⟩ | ⟨-, -, -, ⟨-, rfl⟩ | ⟨m, -, ⟨-, rfl⟩ | ⟨-, rfl⟩⟩⟩⟩ :=
      Sys.callerIter_cases hs
    · exact h
    · exact TasksOk.maybeScheduleCompaction (s := { s with manual := some c }) h cands
    · exact TasksOk.maybeScheduleCompaction
        (s := { s with mcs := update s.mcs m { s.mcs m with conflict := false } }) h cands
    · exact h
  | callerWake c => obtain ⟨-, rfl⟩ := Sys.callerWake_cases hs; exact h

theorem Sys.run_induction {P : Sys σ K → Prop}
    (hstep : ∀ {s s' : Sys σ K} {e : Event σ K}, P s → s.step S e = some s' → P s') :
    ∀ {es : List (Event σ K)} {s s' : Sys σ K}, P s → s.run S es = some s' → P s'
  | [], _, _, h, hr => by cases hr; exact h
  | _ :: _, _, _, h, hr => by
    obtain ⟨s₁, h₁, hr⟩ := Option.bind_eq_some.mp hr
    exact Sys.run_induction hstep (hstep h h₁) hr

/-! ## Manual compactions -/

/-- What makes `manual_compaction_` safe to follow. It points to a caller still in
`TEST_CompactRange`. A task compacting caller `c`'s range has it `being_sched` and not `done`, `c`
has entered, and `manual_compaction_` is still `c`'s, or NULL once shutting down or after an
error. At most one task compacts a manual range. -/
structure ManualOk (s : Sys σ K) : Prop where
  manual_live : ∀ c, s.manual = some c → s.callerPc c = .looping ∨ s.callerPc c = .waiting
  picked : ∀ id c e, s.taskPc id = .compacting (some (c, e)) →
    (s.mcs c).beingSched = true ∧ (s.mcs c).done = false ∧ s.callerPc c ≠ .idle ∧
    (s.manual = some c ∨ s.manual = none ∧ (s.shuttingDown = true ∨ s.bgError.isSome = true))
  picked_unique : ∀ id id' q q', s.taskPc id = .compacting (some q) →
    s.taskPc id' = .compacting (some q') → id = id'

namespace ManualOk

omit [LinearOrder σ]

theorem init : ManualOk (Sys.init : Sys σ K) :=
  ⟨fun _ h => (nomatch h), fun _ _ _ h => (nomatch h), fun _ _ _ _ h => (nomatch h)⟩

theorem of_no_pick (hlive : ∀ c, s.manual = some c → s.callerPc c = .looping ∨ s.callerPc c = .waiting)
    (hno : ∀ id q, s.taskPc id ≠ .compacting (some q)) : ManualOk s :=
  ⟨hlive, fun id _ _ h => absurd h (hno id _), fun id _ _ _ h => absurd h (hno id _)⟩

theorem no_pick (h : ManualOk s) {m : Nat} (hm : s.manual = some m)
    (hb : (s.mcs m).beingSched = false) : ∀ id q, s.taskPc id ≠ .compacting (some q) := by
  rintro id ⟨c, e⟩ hpc
  obtain ⟨hbs, -, -, hc | ⟨hc, -⟩⟩ := h.picked id c e hpc <;> rw [hm] at hc
  · cases hc; simp [hb] at hbs
  · cases hc

theorem no_pick_of_none (h : ManualOk s) (hm : s.manual = none) (hsd : s.shuttingDown = false)
    (hbg : s.bgError = none) : ∀ id q, s.taskPc id ≠ .compacting (some q) := by
  rintro id ⟨c, e⟩ hpc
  obtain ⟨-, -, -, hc | ⟨-, hx | hx⟩⟩ := h.picked id c e hpc
  · simp [hm] at hc
  · simp [hsd] at hx
  · simp [hbg] at hx

/-- A step that writes no caller's state, sets `shutting_down_` or `bg_error_` at most, and puts no
task in a manual compaction. -/
theorem frame (h : ManualOk s) (hm : s'.manual = s.manual) (hmcs : s'.mcs = s.mcs)
    (hc : s'.callerPc = s.callerPc) (hsd : s.shuttingDown = true → s'.shuttingDown = true)
    (hbg : s.bgError.isSome = true → s'.bgError.isSome = true)
    (hpc : ∀ id q, s'.taskPc id = .compacting (some q) → s.taskPc id = .compacting (some q)) :
    ManualOk s' := by
  refine ⟨fun c hc' => ?_, fun id c e hp => ?_, fun id id' q q' hp hp' => ?_⟩
  · rw [hc]; exact h.manual_live c (hm ▸ hc')
  · rw [hm, hmcs, hc]
    obtain ⟨h1, h2, h3, h4⟩ := h.picked id c e (hpc _ _ hp)
    exact ⟨h1, h2, h3, h4.imp_right fun h => ⟨h.1, h.2.imp hsd hbg⟩⟩
  · exact h.picked_unique id id' q q' (hpc _ _ hp) (hpc _ _ hp')

theorem setCaller (h : ManualOk s) {c : Nat} (hc : s.callerPc c = .looping ∨ s.callerPc c = .waiting)
    {p : CallerPc} (hp : p = .looping ∨ p = .waiting) :
    ManualOk { s with callerPc := update s.callerPc c p } := by
  have hlive : ∀ c', (update s.callerPc c p) c' = .looping ∨ (update s.callerPc c p) c' = .waiting ↔
      s.callerPc c' = .looping ∨ s.callerPc c' = .waiting := fun c' => by
    rcases eq_or_ne c' c with rfl | hne
    · simp only [Function.update_same]; exact ⟨fun _ => hc, fun _ => hp⟩
    · rw [Function.update_noteq hne]
  refine ⟨fun c' hc' => (hlive c').2 (h.manual_live c' hc'), fun id c' e hpc => ?_, h.picked_unique⟩
  obtain ⟨h1, h2, h3, h4⟩ := h.picked id c' e hpc
  refine ⟨h1, h2, ?_, h4⟩
  show update s.callerPc c p c' ≠ .idle
  rcases eq_or_ne c' c with rfl | hne
  · rw [Function.update_same]; rcases hp with rfl | rfl <;> decide
  · rwa [Function.update_noteq hne]

theorem noteCompactionError (h : ManualOk s) (ok pd : Bool) :
    ManualOk (s.noteCompactionError S ok pd) :=
  h.frame (by simp) (by simp) (by simp) (by simp) (s.noteCompactionError_bgError_isSome S ok pd)
    fun _ _ hp => by simpa using hp

theorem setPc (h : ManualOk s) {id : Nat} {p : TaskPc K} (hp : ∀ q, p ≠ .compacting (some q)) :
    ManualOk { s with taskPc := update s.taskPc id p } :=
  h.frame rfl rfl rfl (fun x => x) (fun x => x) fun id' q hq => by
    rcases eq_or_ne id' id with rfl | hne
    · simp only [Function.update_same] at hq; exact absurd hq (hp q)
    · simpa [Function.update_noteq hne] using hq

theorem setMcs (h : ManualOk s) {m : Nat} {mc : ManualCompaction K}
    (hb : mc.beingSched = (s.mcs m).beingSched) (hd : mc.done = (s.mcs m).done) :
    ManualOk { s with mcs := update s.mcs m mc } := by
  refine ⟨h.manual_live, fun id c e hp => ?_, h.picked_unique⟩
  obtain ⟨h1, h2, h3⟩ := h.picked id c e hp
  rcases eq_or_ne c m with rfl | hne
  · simp only [Function.update_same, hb, hd]; exact ⟨h1, h2, h3⟩
  · simp only [Function.update_noteq hne]; exact ⟨h1, h2, h3⟩

end ManualOk

namespace ManualOk

theorem maybeScheduleCompaction (h : ManualOk s) (cands : List (σ × Nat)) :
    ManualOk (s.maybeScheduleCompaction S cands) :=
  h.frame (by simp) (by simp) (by simp) (by simp) (by simp)
    fun _ _ => Sys.maybeScheduleCompaction_taskPc_compacting S s cands

theorem endCall (h : ManualOk s) (id : Nat) (b : Bool) (cands : List (σ × Nat)) :
    ManualOk (s.endCall S id b cands) :=
  h.frame (by simp) (by simp) (by simp) (by simp) (by simp)
    fun _ _ hp => (Sys.endCall_taskPc_compacting S s cands hp).2

theorem afterCompaction (h : ManualOk s) (id : Nat) (ok pd b : Bool) (cands : List (σ × Nat)) :
    ManualOk (s.afterCompaction S id ok pd b cands) :=
  h.frame (by simp) (by simp) (by simp) (by simp) Sys.afterCompaction_bgError_isSome
    fun _ _ hp => (Sys.afterCompaction_taskPc_compacting hp).2

theorem start (h : ManualOk s) {id : Nat} {conflict : Bool} {range : Option K} {found : Bool}
    {cands : List (σ × Nat)} (hs : s.start S id conflict range found cands = some s') :
    ManualOk s' := by
  obtain ⟨-, ⟨-, rfl⟩ | ⟨-, -, rfl⟩ | ⟨-, -, m, hm, ⟨-, rfl⟩ | ⟨hb, ⟨-, rfl⟩ | ⟨e, rfl, rfl⟩⟩⟩ |
    ⟨-, -, -, ⟨-, rfl⟩ | ⟨-, rfl⟩⟩⟩ := Sys.start_cases hs
  · exact h.endCall id true cands
  · exact ManualOk.setPc (s := { s with immPending := false }) ⟨h.1, h.2, h.3⟩ fun _ => nofun
  · exact ManualOk.endCall (s := { s with errors := 0 }) ⟨h.1, h.2, h.3⟩ id false cands
  · -- `CompactRange` found nothing: the compaction is released in the same step.
    refine of_no_pick (fun c hc => ?_) fun id' q hq => ?_
    · have hman := Sys.releaseManual_manual { s with mcs := update s.mcs m ((s.mcs m).pick
        conflict range) } true none
      simp only [Sys.endCall_frame, Sys.releaseManual_frame] at hc ⊢
      rcases hman with hman | hman <;> rw [hman] at hc
      · exact h.manual_live c hc
      · cases hc
    · have := (Sys.endCall_taskPc_compacting S _ cands hq).2
      simp only [Sys.releaseManual_frame] at this
      exact h.no_pick hm hb id' q this
  · refine ⟨h.manual_live, fun id' c e' hp => ?_, fun i i' q q' hq hq' => ?_⟩
    · rcases eq_or_ne id' id with rfl | hne
      · simp only [Function.update_same, TaskPc.compacting.injEq, Option.some.injEq,
          Prod.mk.injEq] at hp
        obtain ⟨rfl, rfl⟩ := hp
        refine ⟨by simp [ManualCompaction.pick], by simp [ManualCompaction.pick], ?_, .inl hm⟩
        rcases h.manual_live m hm with hc | hc <;> simp [hc]
      · simp only [Function.update_noteq hne] at hp
        exact absurd hp (h.no_pick hm hb id' _)
    · have hi : ∀ j q, update s.taskPc id (.compacting (some (m, e))) j = .compacting (some q) →
          j = id := fun j q hj => by
        by_contra hne
        rw [Function.update_noteq hne] at hj
        exact h.no_pick hm hb j q hj
      rw [hi i q hq, hi i' q' hq']
  · exact h.setPc fun _ => by simp
  · exact ManualOk.endCall (s := { s with errors := 0 }) ⟨h.1, h.2, h.3⟩ id true cands

theorem finish (h : ManualOk s) {id : Nat} {ok pd b : Bool} {cands : List (σ × Nat)}
    (hs : s.finish S id ok pd b cands = some s') : ManualOk s' := by
  rcases Sys.finish_cases hs with ⟨-, rfl⟩ | ⟨-, rfl⟩ | ⟨c, e, hpc, rfl⟩
  · exact h.afterCompaction id ok pd b cands
  · exact (h.noteCompactionError ok pd).afterCompaction id ok pd false cands
  · -- The end block of a manual compaction: no other task is in one.
    refine of_no_pick (fun c' hc' => ?_) fun id' q hq => ?_
    · simp only [Sys.afterCompaction_frame, Sys.releaseManual_frame,
        Sys.noteCompactionError_frame] at hc' ⊢
      rcases Sys.releaseManual_manual (s.noteCompactionError S ok pd) ok (some e) with hm | hm <;>
        rw [hm] at hc'
      · exact h.manual_live c' (by simpa using hc')
      · cases hc'
    · obtain ⟨hne, hq⟩ := Sys.afterCompaction_taskPc_compacting hq
      simp only [Sys.releaseManual_frame, Sys.noteCompactionError_frame] at hq
      exact hne (h.picked_unique id' id q (c, e) hq hpc)

omit [LinearOrder σ] in
theorem callerEnter (h : ManualOk s) {c : Nat} {begin : Option K}
    (hs : s.callerEnter c begin = some s') : ManualOk s' := by
  obtain ⟨hidle, rfl⟩ := Sys.callerEnter_cases hs
  have hne : ∀ c', s.callerPc c' ≠ .idle → c' ≠ c := by rintro c' hc' rfl; exact hc' hidle
  refine ⟨fun c' hc' => ?_, fun id c' e hp => ?_, h.picked_unique⟩
  · have hl := h.manual_live c' hc'
    have : c' ≠ c := hne c' (by rcases hl with hl | hl <;> simp [hl])
    simpa [Function.update_noteq this] using hl
  · obtain ⟨h1, h2, h3, h4⟩ := h.picked id c' e hp
    simpa [Function.update_noteq (hne c' h3)] using ⟨h1, h2, h3, h4⟩

theorem callerIter (h : ManualOk s) {c : Nat} {cands : List (σ × Nat)}
    (hs : s.callerIter S c cands = some s') : ManualOk s' := by
  rcases Sys.callerIter_cases hs with
    ⟨hc, ⟨hx, rfl⟩ | ⟨-, hsd, hbg, ⟨hm, rfl⟩ | ⟨m, -, ⟨-, rfl⟩ | ⟨-, rfl⟩⟩⟩⟩
  · -- The caller returns, clearing `manual_compaction_` if it is its own.
    have hman : ∀ c', (if s.manual = some c then none else s.manual) = some c' →
        s.manual = some c' ∧ c' ≠ c := fun c' hc' => by
      split_ifs at hc' with hmc
      exact ⟨hc', by rintro rfl; exact hmc hc'⟩
    refine ⟨fun c' hc' => ?_, fun id c' e hp => ?_, h.picked_unique⟩
    · obtain ⟨hm, hne⟩ := hman c' hc'
      simpa [Function.update_noteq hne] using h.manual_live c' hm
    · obtain ⟨h1, h2, h3, h4⟩ := h.picked id c' e hp
      refine ⟨h1, h2, ?_, ?_⟩ <;> dsimp only <;> rcases eq_or_ne c' c with rfl | hne
      · simp
      · rwa [Function.update_noteq hne]
      · have hx' : s.shuttingDown = true ∨ s.bgError.isSome = true := by simpa [h2] using hx
        rcases h4 with h4 | h4 <;> simp [h4, hx']
      · rcases h4 with h4 | h4
        · simp [h4, hne]
        · simp [h4.1, h4.2]
  · have h' : ManualOk ({ s with manual := some c } : Sys σ K) :=
      of_no_pick (fun c' hc' => by cases hc'; exact .inl hc) (h.no_pick_of_none hm hsd hbg)
    exact h'.maybeScheduleCompaction cands
  · have h' : ManualOk ({ s with mcs := update s.mcs m { s.mcs m with conflict := false } } :
        Sys σ K) := h.setMcs rfl rfl
    exact h'.maybeScheduleCompaction cands
  · exact h.setCaller (.inl hc) (.inr rfl)

theorem step (h : ManualOk s) {e : Event σ K} (hs : s.step S e = some s') : ManualOk s' := by
  cases e with
  | maybeSchedule cands => cases hs; exact h.maybeScheduleCompaction cands
  | immChange => cases hs; exact ⟨h.1, h.2, h.3⟩
  | shutdown => cases hs; exact h.frame rfl rfl rfl (fun _ => rfl) (fun x => x) fun _ _ x => x
  | start => exact h.start hs
  | finish => exact h.finish hs
  | wake id cands => obtain ⟨b, -, rfl⟩ := Sys.wake_cases hs; exact h.endCall id b cands
  | callerEnter => exact h.callerEnter hs
  | callerIter => exact h.callerIter hs
  | callerWake c =>
    obtain ⟨hc, rfl⟩ := Sys.callerWake_cases hs
    exact h.setCaller (.inr hc) (.inl rfl)

end ManualOk


/-! ## Over whole runs -/

def Event.ofTask : Event σ K → Bool
  | .start .. | .finish .. | .wake .. => true
  | _ => false

omit [LinearOrder σ] in
theorem TasksOk.length_eraseP {M : Nat} {tasks : List (CompactionTask σ)} {nextId : Nat}
    {taskPc : Nat → TaskPc K} (h : TasksOk M tasks nextId taskPc) {id : Nat}
    (ha : (taskPc id).active) : (tasks.eraseP fun t => t.id = id).length + 1 = tasks.length := by
  have h1 := congrArg List.length (ids_eraseP tasks id)
  rw [List.length_map, List.length_erase_of_mem ((h.active_iff id).1 ha), List.length_map] at h1
  have h2 := List.length_pos_of_mem ((h.active_iff id).1 ha)
  rw [List.length_map] at h2
  omega

/-- Once shutting down, no step schedules a task, and each step of a task's `BackgroundCall`
erases that task. -/
theorem TasksOk.step_of_shuttingDown
    (h : TasksOk S.maxBackgroundCompactions s.tasks s.nextId s.taskPc)
    (hsd : s.shuttingDown = true) {e : Event σ K} (hs : s.step S e = some s') :
    s'.shuttingDown = true ∧
      s'.tasks.length + (if e.ofTask then 1 else 0) = s.tasks.length := by
  have hact : ∀ {id} {p : TaskPc K}, s.taskPc id = p → p.active → (s.taskPc id).active :=
    fun h hp => h ▸ hp
  cases e with
  | maybeSchedule cands =>
    cases hs; rw [Sys.maybeScheduleCompaction_of_shuttingDown cands hsd]; exact ⟨hsd, rfl⟩
  | immChange => cases hs; exact ⟨hsd, rfl⟩
  | shutdown => cases hs; exact ⟨rfl, rfl⟩
  | start id conflict range found cands =>
    obtain ⟨hpc, ⟨-, rfl⟩ | ⟨h', -⟩ | ⟨h', -⟩ | ⟨h', -⟩⟩ := Sys.start_cases hs
    · refine ⟨by simpa using hsd, ?_⟩
      rw [Sys.endCall_tasks_of_shuttingDown hsd]
      exact h.length_eraseP (hact hpc rfl)
    all_goals simp [hsd] at h'
  | finish id ok pd b cands =>
    rcases Sys.finish_cases hs with ⟨hpc, rfl⟩ | ⟨hpc, rfl⟩ | ⟨c, e, hpc, rfl⟩ <;>
      refine ⟨by simpa using hsd, ?_⟩ <;>
      rw [Sys.afterCompaction_tasks_of_shuttingDown (by simpa using hsd)] <;>
      simpa using h.length_eraseP (hact hpc rfl)
  | wake id cands =>
    obtain ⟨b, hpc, rfl⟩ := Sys.wake_cases hs
    refine ⟨by simpa using hsd, ?_⟩
    rw [Sys.endCall_tasks_of_shuttingDown hsd]
    exact h.length_eraseP (hact hpc rfl)
  | callerEnter => obtain ⟨-, rfl⟩ := Sys.callerEnter_cases hs; exact ⟨hsd, rfl⟩
  | callerIter =>
    obtain ⟨-, ⟨-, rfl⟩ | ⟨-, h', -⟩⟩ := Sys.callerIter_cases hs
    · exact ⟨hsd, rfl⟩
    · simp [hsd] at h'
  | callerWake => obtain ⟨-, rfl⟩ := Sys.callerWake_cases hs; exact ⟨hsd, rfl⟩

/-- A step writes a `ManualCompaction` only through `manual_compaction_`, or when its caller
enters `TEST_CompactRange`; a caller that returned stays returned. -/
theorem Sys.step_returned {e : Event σ K} (hs : s.step S e = some s') {c : Nat}
    (hm : s.manual ≠ some c) (hc : s.callerPc c = .returned) :
    s'.callerPc c = .returned ∧ s'.mcs c = s.mcs c := by
  have hne : ∀ {m}, s.manual = some m → m ≠ c := by rintro m hm' rfl; exact hm hm'
  cases e with
  | maybeSchedule cands => cases hs; simpa using hc
  | immChange => cases hs; exact ⟨hc, rfl⟩
  | shutdown => cases hs; exact ⟨hc, rfl⟩
  | start id conflict range found cands =>
    obtain ⟨-, ⟨-, rfl⟩ | ⟨-, -, rfl⟩ | ⟨-, -, m, hm', ⟨-, rfl⟩ | ⟨-, ⟨-, rfl⟩ | ⟨e, -, rfl⟩⟩⟩ |
      ⟨-, -, -, ⟨-, rfl⟩ | ⟨-, rfl⟩⟩⟩ := Sys.start_cases hs
    · simpa using hc
    · exact ⟨hc, rfl⟩
    · simpa using hc
    · refine ⟨by simpa using hc, ?_⟩
      simp only [Sys.endCall_frame]
      rw [Sys.releaseManual_mcs_of_ne { s with mcs := update s.mcs m ((s.mcs m).pick conflict range) }
        true none hm]
      exact Function.update_noteq (hne hm').symm _ _
    · exact ⟨hc, Function.update_noteq (hne hm').symm _ _⟩
    · exact ⟨hc, rfl⟩
    · simpa using hc
  | finish id ok pd b cands =>
    rcases Sys.finish_cases hs with ⟨-, rfl⟩ | ⟨-, rfl⟩ | ⟨c', e, -, rfl⟩
    · simpa using hc
    · simpa using hc
    · refine ⟨by simpa using hc, ?_⟩
      simp only [Sys.afterCompaction_frame]
      rw [Sys.releaseManual_mcs_of_ne (s.noteCompactionError S ok pd) ok (some e) (by simpa using hm)]
      simp
  | wake id cands => obtain ⟨b, -, rfl⟩ := Sys.wake_cases hs; simpa using hc
  | callerEnter c' begin =>
    obtain ⟨hidle, rfl⟩ := Sys.callerEnter_cases hs
    have : c ≠ c' := by rintro rfl; simp [hc] at hidle
    simpa [Function.update_noteq this] using hc
  | callerIter c' cands =>
    have hc' : ∀ {p}, s.callerPc c' = p → p ≠ .returned → c ≠ c' := by
      rintro p hp hpr rfl; exact hpr (hp ▸ hc)
    obtain ⟨hl, ⟨-, rfl⟩ | ⟨-, -, -, ⟨-, rfl⟩ | ⟨m, hm', ⟨-, rfl⟩ | ⟨-, rfl⟩⟩⟩⟩ :=
      Sys.callerIter_cases hs
    · simpa [Function.update_noteq (hc' hl nofun)] using hc
    · simpa using hc
    · simpa [Function.update_noteq (hne hm').symm] using hc
    · simpa [Function.update_noteq (hc' hl nofun)] using hc
  | callerWake c' =>
    obtain ⟨hw, rfl⟩ := Sys.callerWake_cases hs
    have : c ≠ c' := by rintro rfl; simp [hc] at hw
    simpa [Function.update_noteq this] using hc

theorem reachable_ok {es : List (Event σ K)} (h : Sys.init.run S es = some s) :
    TasksOk S.maxBackgroundCompactions s.tasks s.nextId s.taskPc ∧ ManualOk s :=
  Sys.run_induction (P := fun s => TasksOk S.maxBackgroundCompactions s.tasks s.nextId s.taskPc ∧
    ManualOk s) (fun h hs => ⟨h.1.step hs, h.2.step hs⟩) ⟨TasksOk.init, ManualOk.init⟩ h

theorem ManualOk.run_returned (h : ManualOk s) {c : Nat} (hc : s.callerPc c = .returned)
    {es : List (Event σ K)} (hr : s.run S es = some s') :
    s'.callerPc c = .returned ∧ s'.mcs c = s.mcs c := by
  induction es generalizing s with
  | nil => cases hr; exact ⟨hc, rfl⟩
  | cons e es ih =>
    obtain ⟨s₁, h₁, hr⟩ := Option.bind_eq_some.mp hr
    have hm : s.manual ≠ some c := fun hm => by
      rcases h.manual_live c hm with h' | h' <;> simp [hc] at h'
    obtain ⟨hc₁, hmcs⟩ := Sys.step_returned h₁ hm hc
    rw [← hmcs]
    exact ih (h.step h₁) hc₁ hr

theorem TasksOk.run_of_shuttingDown
    (h : TasksOk S.maxBackgroundCompactions s.tasks s.nextId s.taskPc)
    (hsd : s.shuttingDown = true) {es : List (Event σ K)} (hr : s.run S es = some s') :
    s'.shuttingDown = true ∧ s'.tasks.length + (es.filter Event.ofTask).length = s.tasks.length := by
  induction es generalizing s with
  | nil => cases hr; exact ⟨hsd, rfl⟩
  | cons e es ih =>
    obtain ⟨s₁, h₁, hr⟩ := Option.bind_eq_some.mp hr
    obtain ⟨hsd₁, hlen⟩ := h.step_of_shuttingDown hsd h₁
    obtain ⟨hsd', hlen'⟩ := ih (h.step h₁) hsd₁ hr
    refine ⟨hsd', ?_⟩
    rw [List.filter_cons]
    split <;> simp only [List.length_cons, Bool.false_eq_true, if_true, if_false, *] at hlen ⊢ <;> omega

end Invariant

/-! ## What the scheduler guarantees -/

section Guarantees

variable {S : Setting σ} {s s' : Sys σ K} (es : List (Event σ K))

/-- `MaybeScheduleCompaction`, when it runs, keeps every task where it is and schedules new ones
under fresh ids after them, until there are as many tasks as scores or
`max_background_compactions` is reached; it never removes a task. -/
theorem maybeScheduleCompaction_tasks (cands : List (σ × Nat)) (h1 : s.shuttingDown = false)
    (h2 : s.bgError ≠ some true) :
    (Sys.maybeScheduleCompaction S s cands).tasks.length =
        max s.tasks.length (min S.maxBackgroundCompactions (Sys.compactionScores S s cands).length) ∧
      (Sys.maybeScheduleCompaction S s cands).tasks.map (·.id) = s.tasks.map (·.id) ++
        List.range' s.nextId ((Sys.maybeScheduleCompaction S s cands).tasks.length - s.tasks.length) := by
  obtain ⟨k, -, hids, -⟩ := s.maybeScheduleCompaction_spec S cands
  have hk := congrArg List.length hids
  simp only [List.length_map, List.length_append, List.length_range'] at hk
  refine ⟨Sys.length_maybeScheduleCompaction cands h1 h2, ?_⟩
  rw [hids, hk, Nat.add_sub_cancel_left]

theorem maybeScheduleCompaction_tasks_three_scores :
    let S : Setting Nat := ⟨2, false, 100, 50⟩
    let s : Sys Nat Nat := Sys.init
    let cands : List (Nat × Nat) := [(3, 0), (1, 0), (1, 5)]
    s.shuttingDown = false ∧ s.bgError ≠ some true ∧
      ((Sys.maybeScheduleCompaction S s cands).tasks.length =
          max s.tasks.length (min S.maxBackgroundCompactions (Sys.compactionScores S s cands).length) ∧
        (Sys.maybeScheduleCompaction S s cands).tasks.map (·.id) = s.tasks.map (·.id) ++
          List.range' s.nextId ((Sys.maybeScheduleCompaction S s cands).tasks.length - s.tasks.length)) ∧
      (Sys.maybeScheduleCompaction S s cands).tasks.length = 2 := by
  intro S s cands
  have h := maybeScheduleCompaction_tasks (S := S) (s := s) cands rfl nofun
  exact ⟨rfl, nofun, h, h.1.trans rfl⟩

/-- `bg_compaction_tasks_` never holds more than `max_background_compactions` tasks. -/
theorem tasks_le_maxBackgroundCompactions (h : Sys.init.run S es = some s) :
    s.tasks.length ≤ S.maxBackgroundCompactions :=
  (reachable_ok h).1.bounded

theorem tasks_le_maxBackgroundCompactions_manual :
    let S : Setting Nat := ⟨2, false, 100, 50⟩
    let es : List (Event Nat Nat) := [.callerEnter 0 (some 1), .callerIter 0 [(1, 0), (1, 0)]]
    ∃ s, Sys.init.run S es = some s ∧ s.tasks.length ≤ S.maxBackgroundCompactions ∧
      s.tasks.length = 2 := by
  intro S es
  exact ⟨_, rfl, tasks_le_maxBackgroundCompactions (S := S) es rfl, rfl⟩

/-- The `assert` of `BackgroundCall` holds: a task whose `BackgroundCall` has not ended is in
`bg_compaction_tasks_`, exactly once, so the erase removes it and nothing else. -/
theorem backgroundCall_finds_task (h : Sys.init.run S es = some s) {id : Nat}
    (ha : (s.taskPc id).active) : (s.tasks.map (·.id)).count id = 1 :=
  (reachable_ok h).1.count_eq_one ha

theorem backgroundCall_finds_task_pending :
    let S : Setting Nat := ⟨2, false, 100, 50⟩
    let es : List (Event Nat Nat) := [.callerEnter 0 (some 1), .callerIter 0 []]
    ∃ s, Sys.init.run S es = some s ∧ (s.taskPc 0).active ∧ (s.tasks.map (·.id)).count 0 = 1 := by
  intro S es
  exact ⟨_, rfl, rfl, backgroundCall_finds_task (S := S) es rfl rfl⟩

/-- `manual_compaction_` never points to a `ManualCompaction` whose `TEST_CompactRange` is not
running: its caller is in the loop or waiting in it. -/
theorem manual_points_to_live_caller (h : Sys.init.run S es = some s) {c : Nat}
    (hm : s.manual = some c) : s.callerPc c = .looping ∨ s.callerPc c = .waiting :=
  (reachable_ok h).2.manual_live c hm

theorem manual_points_to_live_caller_installed :
    let S : Setting Nat := ⟨2, false, 100, 50⟩
    let es : List (Event Nat Nat) := [.callerEnter 0 (some 1), .callerIter 0 []]
    ∃ s, Sys.init.run S es = some s ∧ s.manual = some 0 ∧
      (s.callerPc 0 = .looping ∨ s.callerPc 0 = .waiting) := by
  intro S es
  exact ⟨_, rfl, rfl, manual_points_to_live_caller (S := S) es rfl rfl⟩

/-- While a task compacts caller `c`'s range with the mutex released, `c`'s compaction stays
`being_sched`, `manual_compaction_` is `c`'s or NULL, so the end block of `BackgroundCompaction`
acts on `c`'s or on none, and no other task is in a manual compaction. -/
theorem manual_pick_exclusive (h : Sys.init.run S es = some s) {id c : Nat} {e : K}
    (hp : s.taskPc id = .compacting (some (c, e))) :
    (s.mcs c).beingSched = true ∧ (s.manual = some c ∨ s.manual = none) ∧
      ∀ id' q, s.taskPc id' = .compacting (some q) → id' = id := by
  obtain ⟨h1, -, -, h4⟩ := (reachable_ok h).2.picked id c e hp
  exact ⟨h1, h4.imp_right And.left, fun id' q hq => (reachable_ok h).2.picked_unique id' id q _ hq hp⟩

theorem manual_pick_exclusive_after_return :
    let S : Setting Nat := ⟨2, false, 100, 50⟩
    let es : List (Event Nat Nat) := [.callerEnter 0 (some 1), .callerIter 0 [],
      .start 0 false (some 9) false [], .callerIter 0 [], .shutdown, .callerWake 0, .callerIter 0 []]
    ∃ s, Sys.init.run S es = some s ∧ s.taskPc 0 = .compacting (some (0, 9)) ∧
      s.manual = none ∧ ((s.mcs 0).beingSched = true ∧ (s.manual = some 0 ∨ s.manual = none) ∧
        ∀ id' q, s.taskPc id' = .compacting (some q) → id' = 0) := by
  intro S es
  exact ⟨_, rfl, rfl, rfl, manual_pick_exclusive (S := S) es rfl rfl⟩

/-- Once `TEST_CompactRange` has returned, nothing writes its `ManualCompaction` again: no task's
end block, and no other caller, reaches the dead stack frame. -/
theorem returned_caller_untouched (h : Sys.init.run S es = some s) {c : Nat}
    (hc : s.callerPc c = .returned) (es' : List (Event σ K)) (hr : s.run S es' = some s') :
    s'.callerPc c = .returned ∧ s'.mcs c = s.mcs c :=
  (reachable_ok h).2.run_returned hc hr

theorem returned_caller_untouched_end_block :
    let S : Setting Nat := ⟨2, false, 100, 50⟩
    let es : List (Event Nat Nat) := [.callerEnter 0 (some 1), .callerIter 0 [],
      .start 0 false (some 9) false [], .callerIter 0 [], .shutdown, .callerWake 0, .callerIter 0 []]
    ∃ s s', Sys.init.run S es = some s ∧ s.callerPc 0 = .returned ∧
      s.run S [.finish 0 true false false []] = some s' ∧
      s'.callerPc 0 = .returned ∧ s'.mcs 0 = s.mcs 0 := by
  intro S es
  exact ⟨_, _, rfl, rfl, rfl, returned_caller_untouched (S := S) es rfl rfl
    [.finish 0 true false false []] rfl⟩

/-- Once `shutting_down_` is set no task is scheduled, and every step of a task's
`BackgroundCall` erases that task: `Shutdown1`'s wait for `bg_compaction_tasks_` to empty ends
after as many such steps as there are tasks. -/
theorem shutdown_drains_tasks (h : Sys.init.run S es = some s) (hsd : s.shuttingDown = true)
    (es' : List (Event σ K)) (hr : s.run S es' = some s') :
    s'.shuttingDown = true ∧ s'.tasks.length + (es'.filter Event.ofTask).length = s.tasks.length :=
  (reachable_ok h).1.run_of_shuttingDown hsd hr

theorem shutdown_drains_tasks_compacting :
    let S : Setting Nat := ⟨2, false, 100, 50⟩
    let es : List (Event Nat Nat) := [.callerEnter 0 (some 1), .callerIter 0 [],
      .start 0 false (some 9) false [], .callerIter 0 [], .shutdown, .callerWake 0, .callerIter 0 []]
    ∃ s s', Sys.init.run S es = some s ∧ s.shuttingDown = true ∧
      s.run S [.finish 0 true false false []] = some s' ∧
      (s'.shuttingDown = true ∧ s'.tasks.length +
        (([.finish 0 true false false []] : List (Event Nat Nat)).filter Event.ofTask).length =
          s.tasks.length) ∧
      s.tasks.length = 1 := by
  intro S es
  exact ⟨_, _, rfl, rfl, rfl, shutdown_drains_tasks (S := S) es rfl rfl _ rfl, rfl⟩

end Guarantees

end Leveldb.CompactionSchedule
