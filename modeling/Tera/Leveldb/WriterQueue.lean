import Mathlib.Logic.Function.Basic
import Mathlib.Data.List.Basic

/-!
# The writer queue of `DBImpl`

`DBImpl::Write` serialises writers through `writers_`: only the writer at the front runs
`MakeRoomForWrite` and `InsertInto`, and it releases `mutex_` while it inserts, with
`is_writting_mem_` set. Memtables move to `imm_` in `MakeRoomForWrite`, `Shutdown1` and
`Shutdown2`; `CompactMemTable` flushes `imm_` and releases the mutex while `BuildTable` iterates
it and while `LogAndApply` writes the manifest. Each step below is one stretch of code between
two points where `mutex_` changes hands. Memtables are numbered, and a memtable's contents are
the writers whose batches went into it; the level-0 files `CompactMemTable` adds are the
contents they were built from.
-/
namespace Leveldb.WriterQueue

open Function (update)

/-- Where a `DBImpl::Write` call is. `force` is `MakeRoomForWrite`'s flag, set for a NULL batch;
`landed` says whether `InsertInto` has put the batch into the memtable yet. -/
inductive WriterPc where
  | idle
  | queued (hasBatch : Bool)
  | makingRoom (hasBatch force : Bool)
  | inserting (m : Nat) (landed : Bool)
  | done (ok hasBatch : Bool)
  | crashed
  deriving DecidableEq, Repr

/-- Where a `CompactMemTable` call is once it released the mutex: in `BuildTable` over
memtable `m`, or in `LogAndApply` of the level-0 file built from it. -/
inductive FlushPc where
  | idle
  | building (m : Nat)
  | logging (m : Nat) (file : List Nat)
  deriving DecidableEq, Repr

def FlushPc.target : FlushPc → Option Nat
  | .idle => none
  | .building m => some m
  | .logging m _ => some m

@[simp] theorem FlushPc.target_idle : FlushPc.idle.target = none := rfl
@[simp] theorem FlushPc.target_building (m : Nat) : (FlushPc.building m).target = some m := rfl
@[simp] theorem FlushPc.target_logging (m : Nat) (f : List Nat) :
    (FlushPc.logging m f).target = some m := rfl

theorem FlushPc.target_eq_none {p : FlushPc} : p.target = none ↔ p = .idle := by
  cases p <;> simp

/-- Where the unloading thread is in `Shutdown1` and `Shutdown2`. -/
inductive ShutdownPc where
  | opened
  | waitTasks
  | flushingImm
  | waitWriter
  | flushingMem
  | shutdown1Done (ok : Bool)
  | flushingLast
  | finished
  deriving DecidableEq, Repr

/-- A background task may still be running: `shutting_down_` is unset, or `Shutdown1` still
waits for `bg_compaction_tasks_` to drain. -/
def ShutdownPc.tasksMayRun : ShutdownPc → Bool
  | .opened | .waitTasks => true
  | _ => false

/-- Callers start no `Write` once `Shutdown2` has begun. -/
def ShutdownPc.acceptsWrites : ShutdownPc → Bool
  | .flushingLast | .finished => false
  | _ => true

/-- The unloading thread is inside one of its own `CompactMemTable` calls. -/
def ShutdownPc.flushing : ShutdownPc → Bool
  | .flushingImm | .flushingMem | .flushingLast => true
  | _ => false

/-- The shared state, with three ghost lists: the writers in the order they entered
`writers_`, in the order they left it, and in the order their `InsertInto` completed. -/
structure Sys where
  writers : List Nat
  writerPc : Nat → WriterPc
  mem : Option Nat
  imm : Option Nat
  nextMemTable : Nat
  contents : Nat → List Nat
  beingFlushed : Nat → Bool
  isWrittingMem : Bool
  shuttingDown : Bool
  bgError : Bool
  bgPermissionDenied : Bool
  flushPc : Nat → FlushPc
  flushOk : Nat → Bool
  shutdownPc : ShutdownPc
  version : List (List Nat)
  dumpMemOnShutdown : Bool
  maxBackgroundCompactions : Nat
  enqueued : List Nat
  popped : List Nat
  inserted : List Nat

/-- An opened engine: an empty memtable `0`, no writer, no flush. Flush caller `0` is the
unloading thread; background tasks are `1, ..., max_background_compactions`. -/
def Sys.init (dumpMemOnShutdown : Bool) (maxBackgroundCompactions : Nat) : Sys where
  writers := []
  writerPc := fun _ => .idle
  mem := some 0
  imm := none
  nextMemTable := 1
  contents := fun _ => []
  beingFlushed := fun _ => false
  isWrittingMem := false
  shuttingDown := false
  bgError := false
  bgPermissionDenied := false
  flushPc := fun _ => .idle
  flushOk := fun _ => true
  shutdownPc := .opened
  version := []
  dumpMemOnShutdown := dumpMemOnShutdown
  maxBackgroundCompactions := maxBackgroundCompactions
  enqueued := []
  popped := []
  inserted := []

/-- The end of `Write`: `writers_.pop_front()`, signal the next writer, clear
`is_writting_mem_`. -/
def Sys.popWriter (s : Sys) (w : Nat) (pc : WriterPc) : Sys :=
  { s with writers := s.writers.tail, popped := s.popped ++ [w], isWrittingMem := false,
           writerPc := update s.writerPc w pc }

/-- `CompactMemTable` called by `t` with the mutex held, up to `BuildTable`: it returns at once
if `imm_` is being flushed, drops an empty `imm_`, and otherwise marks it and builds. -/
def Sys.compactMemTable (s : Sys) (t : Nat) : Sys :=
  match s.imm with
  | none => s
  | some m =>
    if s.beingFlushed m then { s with flushOk := update s.flushOk t true }
    else if (s.contents m).isEmpty then
      { s with imm := none, beingFlushed := update s.beingFlushed m true,
               flushOk := update s.flushOk t true }
    else
      { s with beingFlushed := update s.beingFlushed m true,
               flushPc := update s.flushPc t (.building m) }

/-- A failed `BuildTable` or `LogAndApply`: `imm_->SetBeingFlushed(false)`, status not OK. -/
def Sys.flushFailed (s : Sys) (t m : Nat) : Sys :=
  { s with beingFlushed := update s.beingFlushed m false, flushPc := update s.flushPc t .idle,
           flushOk := update s.flushOk t false }

/-- What `Write` does once `MakeRoomForWrite` returned `ok`: with a batch it sets
`is_writting_mem_` and starts `InsertInto(mem_)`, which dereferences a NULL `mem_`; otherwise
it leaves the queue. -/
def Sys.afterMakeRoom (s : Sys) (w : Nat) (hasBatch ok : Bool) : Sys :=
  if ok && hasBatch then
    match s.mem with
    | some m => { s with isWrittingMem := true, writerPc := update s.writerPc w (.inserting m false) }
    | none => { s with writerPc := update s.writerPc w .crashed }
  else s.popWriter w (.done ok hasBatch)

/-- One step of one thread. -/
inductive Action where
  | enqueue (w : Nat) (hasBatch : Bool)
  | becomeHead (w : Nat)
  | makeRoomBreak (w : Nat)
  | makeRoomSwap (w : Nat)
  | insertBatch (w : Nat)
  | finishWrite (w : Nat)
  | flushStart (t : Nat)
  | flushBuilt (t : Nat) (ok : Bool)
  | flushLogged (t : Nat) (ok : Bool)
  | backgroundError (permissionDenied : Bool)
  | shutdown1Begin
  | shutdown1Drained
  | shutdown1FlushedImm
  | shutdown1Swap
  | shutdown1End
  | shutdown2
  | shutdown2End
  deriving DecidableEq, Repr

/-- The state after one step, or `none` when the step cannot be taken. `MakeRoomForWrite`'s
loop tries `bg_error_`, `shutting_down_`, room in `mem_` (not known to the model, so any
unforced iteration may break), a waiting `imm_`, and swaps otherwise. A background task flushes
`imm_` when it is not being flushed (`BackgroundCompaction`, or `HandleCompactionWork`'s
priority flush). -/
def Sys.step (s : Sys) : Action → Option Sys
  | .enqueue w b =>
    if s.writerPc w = .idle ∧ s.shutdownPc.acceptsWrites then
      some { s with writers := s.writers ++ [w], enqueued := s.enqueued ++ [w],
                    writerPc := update s.writerPc w (.queued b) }
    else none
  | .becomeHead w =>
    match s.writerPc w with
    | .queued b =>
      if s.writers.head? = some w then
        some { s with writerPc := update s.writerPc w (.makingRoom b !b) }
      else none
    | _ => none
  | .makeRoomBreak w =>
    match s.writerPc w with
    | .makingRoom b force =>
      if s.bgError || s.shuttingDown || !force then some (s.afterMakeRoom w b !s.bgError)
      else none
    | _ => none
  | .makeRoomSwap w =>
    match s.writerPc w with
    | .makingRoom b _ =>
      if !s.bgError && !s.shuttingDown && s.imm.isNone then
        some { s with imm := s.mem, mem := some s.nextMemTable,
                      nextMemTable := s.nextMemTable + 1,
                      writerPc := update s.writerPc w (.makingRoom b false) }
      else none
    | _ => none
  | .insertBatch w =>
    match s.writerPc w with
    | .inserting m false =>
      some { s with contents := update s.contents m (s.contents m ++ [w]),
                    writerPc := update s.writerPc w (.inserting m true) }
    | _ => none
  | .finishWrite w =>
    match s.writerPc w with
    | .inserting _ true =>
      if s.mem.isSome then some ({ s with inserted := s.inserted ++ [w] }.popWriter w (.done true true))
      else some { s with writerPc := update s.writerPc w .crashed }
    | _ => none
  | .flushStart t =>
    if 1 ≤ t ∧ t ≤ s.maxBackgroundCompactions ∧ s.flushPc t = .idle ∧ s.shutdownPc.tasksMayRun ∧
        s.imm.map (fun m => !s.beingFlushed m) = some true then
      some (s.compactMemTable t)
    else none
  | .flushBuilt t ok =>
    match s.flushPc t with
    | .building m =>
      some (if ok then { s with flushPc := update s.flushPc t (.logging m (s.contents m)) }
        else s.flushFailed t m)
    | _ => none
  | .flushLogged t ok =>
    match s.flushPc t with
    | .logging m file =>
      some (if ok then
          { s with imm := none, version := s.version ++ [file],
                   flushPc := update s.flushPc t .idle, flushOk := update s.flushOk t true }
        else s.flushFailed t m)
    | _ => none
  | .backgroundError pd => some { s with bgError := true, bgPermissionDenied := pd }
  | .shutdown1Begin =>
    if s.shutdownPc = .opened then some { s with shuttingDown := true, shutdownPc := .waitTasks }
    else none
  | .shutdown1Drained =>
    if s.shutdownPc = .waitTasks ∧
        (List.range' 1 s.maxBackgroundCompactions).all (fun t => s.flushPc t = .idle) then
      some (if s.bgPermissionDenied then { s with shutdownPc := .shutdown1Done false }
        else if !s.dumpMemOnShutdown then { s with shutdownPc := .shutdown1Done true }
        else if s.imm.isSome then { s.compactMemTable 0 with shutdownPc := .flushingImm }
        else { s with shutdownPc := .waitWriter })
    else none
  | .shutdown1FlushedImm =>
    if s.shutdownPc = .flushingImm ∧ s.flushPc 0 = .idle then
      some { s with shutdownPc := if s.flushOk 0 then .waitWriter else .shutdown1Done false }
    else none
  | .shutdown1Swap =>
    if s.shutdownPc = .waitWriter ∧ s.isWrittingMem = false then
      some { ({ s with imm := s.mem, mem := some s.nextMemTable,
                       nextMemTable := s.nextMemTable + 1 } : Sys).compactMemTable 0 with
             shutdownPc := .flushingMem }
    else none
  | .shutdown1End =>
    if s.shutdownPc = .flushingMem ∧ s.flushPc 0 = .idle then
      some { s with shutdownPc := .shutdown1Done (s.flushOk 0) }
    else none
  | .shutdown2 =>
    if s.shutdownPc = .shutdown1Done true then
      some (if s.bgPermissionDenied || !s.dumpMemOnShutdown then { s with shutdownPc := .finished }
        else { ({ s with imm := s.mem, mem := none } : Sys).compactMemTable 0 with
               shutdownPc := .flushingLast })
    else none
  | .shutdown2End =>
    if s.shutdownPc = .flushingLast ∧ s.flushPc 0 = .idle then
      some { s with shutdownPc := .finished }
    else none

def Sys.run (s : Sys) : List Action → Option Sys
  | [] => some s
  | a :: as => (s.step a).bind fun s' => s'.run as

/-- No `InsertInto` overlaps a move of its memtable to `imm_` or a flush of it. -/
def Sys.InsertIsolated (s : Sys) : Prop :=
  ∀ w m l, s.writerPc w = .inserting m l → s.imm ≠ some m ∧ ∀ t, (s.flushPc t).target ≠ some m

/-- `Shutdown1` returns; a writer enters `writers_`, reaches the front and, with
`shutting_down_` set, starts `InsertInto` into `mem_` and puts its batch there. `Shutdown2`
then moves that memtable to `imm_`, and its `CompactMemTable` builds a table from it while the
`InsertInto` is still in progress; when the writer takes the mutex back, `mem_` is NULL. -/
theorem shutdown2_flushes_memtable_being_inserted :
    ∃ s, (Sys.init true 1).run
      [.shutdown1Begin, .shutdown1Drained, .shutdown1Swap, .shutdown1End, .enqueue 7 true,
       .becomeHead 7, .makeRoomBreak 7, .insertBatch 7, .shutdown2] = some s ∧
      ¬s.InsertIsolated ∧ (s.step (.finishWrite 7)).map (·.writerPc 7) = some .crashed :=
  ⟨_, rfl, fun h => (h 7 1 true rfl).1 rfl, rfl⟩

/-! ## Schedules in which `Shutdown2` finds no writer -/

/-- A step of a schedule in which `Shutdown2` begins only when `writers_` is empty. -/
def Sys.quietStep (s : Sys) (a : Action) : Option Sys :=
  if a = .shutdown2 ∧ s.writers ≠ [] then none else s.step a

def Sys.quietRun (s : Sys) : List Action → Option Sys
  | [] => some s
  | a :: as => (s.quietStep a).bind fun s' => s'.quietRun as

/-- The writers whose batches `mem_`, `imm_` or a level-0 file of the version holds. -/
def Sys.stored (s : Sys) : List Nat :=
  (s.mem.map s.contents).getD [] ++ (s.imm.map s.contents).getD [] ++ s.version.flatten

/-- The points of the unloading thread at which `imm_` is NULL: before `Shutdown1`'s swap, once
the `CompactMemTable` it is in has returned OK, and after a successful `Shutdown1` that dumped
the memtable. -/
def Sys.ImmCleared (s : Sys) : Prop :=
  s.shutdownPc = .waitWriter ∨ (s.shutdownPc = .shutdown1Done true ∧ s.dumpMemOnShutdown = true) ∨
    (s.shutdownPc.flushing = true ∧ s.flushPc 0 = .idle ∧ s.flushOk 0 = true)

/-- The writer is at the front of `writers_`: in `MakeRoomForWrite` or in `InsertInto`. -/
def WriterPc.atFront : WriterPc → Bool
  | .makingRoom _ _ | .inserting _ _ => true
  | _ => false

/-- The writer's batch is in a memtable: `InsertInto` put it there, or `Write` returned OK. -/
def WriterPc.landed : WriterPc → Bool
  | .inserting _ true | .done true true => true
  | _ => false

/-- The invariant of the memtables, the flushes and the queue, whatever the unloading thread
does. -/
structure Sys.Core (s : Sys) : Prop where
  front : ∀ w, (s.writerPc w).atFront = true → s.writers.head? = some w
  inserting : ∀ w m l, s.writerPc w = .inserting m l → s.isWrittingMem = true ∧ s.mem = some m
  mem_fresh : ∀ m, s.mem = some m → m < s.nextMemTable
  imm_fresh : ∀ m, s.imm = some m → m < s.nextMemTable
  fresh_unflushed : ∀ m, s.nextMemTable ≤ m → s.beingFlushed m = false
  mem_unflushed : ∀ m, s.mem = some m → s.beingFlushed m = false
  mem_ne_imm : ∀ m, s.mem = some m → s.imm ≠ some m
  flush_imm : ∀ t m, (s.flushPc t).target = some m → s.imm = some m ∧ s.beingFlushed m = true
  flush_unique : ∀ t t', s.flushPc t ≠ .idle → s.flushPc t' ≠ .idle → t = t'
  being_flushed : ∀ m, s.imm = some m → s.beingFlushed m = true →
    ∃ t, (s.flushPc t).target = some m
  logging_file : ∀ t m f, s.flushPc t = .logging m f → f = s.contents m
  flush_caller : ∀ t, s.flushPc t ≠ .idle → t = 0 ∨ (1 ≤ t ∧ t ≤ s.maxBackgroundCompactions)
  queue : s.enqueued = s.popped ++ s.writers
  order : s.inserted.Sublist s.popped
  stored : ∀ w, (s.writerPc w).landed = true → w ∈ s.stored

/-- What every state of a quiet schedule satisfies. -/
structure Sys.Inv (s : Sys) extends s.Core : Prop where
  shutting : s.shutdownPc ≠ .opened → s.shuttingDown = true
  tasks_idle : s.shutdownPc.tasksMayRun = false → ∀ t, t ≠ 0 → s.flushPc t = .idle
  own_flush : s.flushPc 0 ≠ .idle → s.shutdownPc.flushing = true
  imm_cleared : s.ImmCleared → s.imm = none
  closed : s.shutdownPc.acceptsWrites = false → s.writers = []

theorem inv_init (d : Bool) (k : Nat) : (Sys.init d k).Inv where
  front := by simp [Sys.init, WriterPc.atFront]
  inserting := by simp [Sys.init]
  mem_fresh := by simp [Sys.init]
  imm_fresh := by simp [Sys.init]
  fresh_unflushed := by simp [Sys.init]
  mem_unflushed := by simp [Sys.init]
  mem_ne_imm := by simp [Sys.init]
  flush_imm := by simp [Sys.init]
  flush_unique := by simp [Sys.init]
  being_flushed := by simp [Sys.init]
  logging_file := by simp [Sys.init]
  flush_caller := by simp [Sys.init]
  queue := rfl
  order := List.Sublist.slnil
  stored := by simp [Sys.init, WriterPc.landed]
  shutting := by simp [Sys.init]
  tasks_idle := by simp [Sys.init, ShutdownPc.tasksMayRun]
  own_flush := by simp [Sys.init]
  imm_cleared := by simp [Sys.init, Sys.ImmCleared, ShutdownPc.flushing]
  closed := by simp [Sys.init, ShutdownPc.acceptsWrites]

/-! ### Updating one thread -/

theorem eq_or_of_update {α : Type} {f : Nat → α} {w u : Nat} {p q : α}
    (h : update f w p u = q) : (u = w ∧ p = q) ∨ (u ≠ w ∧ f u = q) := by
  by_cases hu : u = w
  · subst hu
    exact .inl ⟨rfl, by simpa using h⟩
  · exact .inr ⟨hu, by rwa [Function.update_noteq hu] at h⟩

theorem pred_of_update {P : WriterPc → Bool} {f : Nat → WriterPc} {w u : Nat} {p : WriterPc}
    (h : P (update f w p u) = true) : (u = w ∧ P p = true) ∨ (u ≠ w ∧ P (f u) = true) := by
  by_cases hu : u = w
  · subst hu
    exact .inl ⟨rfl, by simpa using h⟩
  · exact .inr ⟨hu, by rwa [Function.update_noteq hu] at h⟩

variable {s s' : Sys}

theorem Sys.Core.front_unique (hc : s.Core) {w u : Nat} (hw : (s.writerPc w).atFront = true)
    (hu : (s.writerPc u).atFront = true) : u = w :=
  Option.some_injective _ ((hc.front u hu).symm.trans (hc.front w hw))

theorem Sys.Core.no_flush_of_imm_none (hc : s.Core) (h : s.imm = none) (t : Nat) :
    s.flushPc t = .idle := by
  cases hp : (s.flushPc t).target with
  | none => exact FlushPc.target_eq_none.mp hp
  | some m => simp [(hc.flush_imm t m hp).1] at h

/-! ### Writer steps -/

theorem inv_enqueue (hi : s.Inv) {w : Nat} {b : Bool} (h : s.step (.enqueue w b) = some s') :
    s'.Inv := by
  simp only [Sys.step] at h
  split at h
  next hg =>
    cases h
    have hhead : ∀ u, s.writers.head? = some u → (s.writers ++ [w]).head? = some u :=
      fun u hu => by simp [hu]
    exact { hi with
      front := fun u hu => by
        rcases pred_of_update hu with ⟨-, hu⟩ | ⟨-, hu⟩
        · simp [WriterPc.atFront] at hu
        · exact hhead u (hi.front u hu)
      inserting := fun u m l hu => by
        rcases eq_or_of_update hu with ⟨-, hu⟩ | ⟨-, hu⟩
        · cases hu
        · exact hi.inserting u m l hu
      queue := by simp [hi.queue]
      stored := fun u hu => by
        rcases pred_of_update hu with ⟨-, hu⟩ | ⟨-, hu⟩
        · simp [WriterPc.landed] at hu
        · exact hi.stored u hu
      closed := fun hc => by simp [hg.2] at hc }
  next => cases h

/-- The front writer leaves `writers_` with a pc that is not at the front; `ins` is the new
record of completed inserts. -/
theorem Sys.Inv.popWriter (hi : s.Inv) {w : Nat} {p : WriterPc} (ins : List Nat)
    (hw : (s.writerPc w).atFront = true) (hp : p.atFront = false)
    (hl : p.landed = true → w ∈ s.stored) (hins : ins.Sublist (s.popped ++ [w])) :
    ({ s.popWriter w p with inserted := ins } : Sys).Inv := by
  have hq : s.writers = w :: s.writers.tail := by
    have := hi.front w hw
    cases hws : s.writers <;> simp_all
  have other : ∀ u, u ≠ w → (s.writerPc u).atFront = false := fun u hu => by
    by_contra h
    exact hu (hi.front_unique hw (by simpa using h))
  exact { hi with
    front := fun u (hu : (update s.writerPc w p u).atFront = true) => by
      rcases pred_of_update hu with ⟨-, hu⟩ | ⟨hne, hu⟩
      · simp [hp] at hu
      · simp [other u hne] at hu
    inserting := fun u m l (hu : update s.writerPc w p u = .inserting m l) => by
      have ha : (update s.writerPc w p u).atFront = true := by simp [hu, WriterPc.atFront]
      rcases pred_of_update ha with ⟨-, ha⟩ | ⟨hne, ha⟩
      · simp [hp] at ha
      · simp [other u hne] at ha
    queue := by simp only [Sys.popWriter]; rw [hi.queue, hq]; simp
    order := hins
    stored := fun u (hu : (update s.writerPc w p u).landed = true) => by
      rcases pred_of_update hu with ⟨rfl, hpl⟩ | ⟨-, hu⟩
      · exact hl hpl
      · exact hi.stored u hu
    closed := fun hc => by simp [Sys.popWriter, hi.closed hc] }

theorem inv_becomeHead (hi : s.Inv) {w : Nat} (h : s.step (.becomeHead w) = some s') :
    s'.Inv := by
  simp only [Sys.step] at h
  split at h
  next b hq =>
    split at h
    next hh =>
      cases h
      exact { hi with
        front := fun u hu => by
          rcases pred_of_update hu with ⟨rfl, -⟩ | ⟨-, hu⟩
          · exact hh
          · exact hi.front u hu
        inserting := fun u m l hu => by
          rcases eq_or_of_update hu with ⟨-, hu⟩ | ⟨-, hu⟩
          · cases hu
          · exact hi.inserting u m l hu
        stored := fun u hu => by
          rcases pred_of_update hu with ⟨-, hu⟩ | ⟨-, hu⟩
          · simp [WriterPc.landed] at hu
          · exact hi.stored u hu }
    next => cases h
  next => cases h

theorem inv_makeRoomBreak (hi : s.Inv) {w : Nat} (h : s.step (.makeRoomBreak w) = some s') :
    s'.Inv := by
  simp only [Sys.step] at h
  split at h
  next b force hw =>
    split at h
    next =>
      cases h
      have hfront : (s.writerPc w).atFront = true := by simp [hw, WriterPc.atFront]
      have other : ∀ u, u ≠ w → (s.writerPc u).atFront = false := fun u hu => by
        by_contra h
        exact hu (hi.front_unique hfront (by simpa using h))
      unfold Sys.afterMakeRoom
      split
      next hok =>
        split
        next m hm =>
          exact { hi with
            front := fun u hu => by
              rcases pred_of_update hu with ⟨rfl, -⟩ | ⟨-, hu⟩
              · exact hi.front u hfront
              · exact hi.front u hu
            inserting := fun u m' l hu => by
              rcases eq_or_of_update hu with ⟨-, hu⟩ | ⟨hne, hu⟩
              · cases hu
                exact ⟨rfl, hm⟩
              · have := other u hne
                simp [hu, WriterPc.atFront] at this
            stored := fun u hu => by
              rcases pred_of_update hu with ⟨-, hu⟩ | ⟨-, hu⟩
              · simp [WriterPc.landed] at hu
              · exact hi.stored u hu }
        next hm =>
          exact { hi with
            front := fun u hu => by
              rcases pred_of_update hu with ⟨-, hu⟩ | ⟨-, hu⟩
              · simp [WriterPc.atFront] at hu
              · exact hi.front u hu
            inserting := fun u m' l hu => by
              rcases eq_or_of_update hu with ⟨-, hu⟩ | ⟨-, hu⟩
              · cases hu
              · exact hi.inserting u m' l hu
            stored := fun u hu => by
              rcases pred_of_update hu with ⟨-, hu⟩ | ⟨-, hu⟩
              · simp [WriterPc.landed] at hu
              · exact hi.stored u hu }
      next hok =>
        exact hi.popWriter _ hfront (by simp [WriterPc.atFront])
          (fun hl => by simp_all [WriterPc.landed]) (hi.order.trans (List.sublist_append_left _ _))
    next => cases h
  next => cases h

theorem Sys.ImmCleared.ne_opened (h : s.ImmCleared) : s.shutdownPc ≠ .opened := by
  rcases h with h | ⟨h, -⟩ | ⟨h, -⟩ <;> intro ho <;> simp_all [ShutdownPc.flushing]

theorem Sys.Core.swap (hc : s.Core) (himm : s.imm = none)
    (hins : ∀ w m l, s.writerPc w ≠ .inserting m l) :
    ({ s with imm := s.mem, mem := some s.nextMemTable,
              nextMemTable := s.nextMemTable + 1 } : Sys).Core := by
  have idle := hc.no_flush_of_imm_none himm
  exact { hc with
    inserting := fun w m l hw => absurd hw (hins w m l)
    mem_fresh := fun m hm => by cases hm; exact Nat.lt_succ_self _
    imm_fresh := fun m hm => Nat.lt_succ_of_lt (hc.mem_fresh m hm)
    fresh_unflushed := fun m hm => hc.fresh_unflushed m (Nat.le_of_succ_le hm)
    mem_unflushed := fun m hm => by cases hm; exact hc.fresh_unflushed _ le_rfl
    mem_ne_imm := fun m (hm : some s.nextMemTable = some m) (him : s.mem = some m) => by
      cases hm
      exact absurd (hc.mem_fresh _ him) (lt_irrefl _)
    flush_imm := fun t m ht => by simp [idle t] at ht
    flush_unique := fun t _ ht => absurd (idle t) ht
    being_flushed := fun m hm hb => by simp [hc.mem_unflushed m hm] at hb
    logging_file := fun t m f ht => by simp [idle t] at ht
    flush_caller := fun t ht => absurd (idle t) ht
    stored := fun w hw => by
      have := hc.stored w hw
      simp only [Sys.stored, himm, Option.map_none', Option.getD_none, List.append_nil,
        List.mem_append] at this ⊢
      tauto }

theorem inv_makeRoomSwap (hi : s.Inv) {w : Nat} (h : s.step (.makeRoomSwap w) = some s') :
    s'.Inv := by
  simp only [Sys.step] at h
  split at h
  next b force hw =>
    split at h
    next hg =>
      cases h
      simp only [Bool.and_eq_true, Bool.not_eq_true', Option.isNone_iff_eq_none] at hg
      obtain ⟨⟨-, hsd⟩, himm⟩ := hg
      have hfront : (s.writerPc w).atFront = true := by simp [hw, WriterPc.atFront]
      have hins : ∀ u m l, s.writerPc u ≠ .inserting m l := fun u m l hu => by
        have hu' : (s.writerPc u).atFront = true := by simp [hu, WriterPc.atFront]
        rw [hi.front_unique hfront hu', hw] at hu
        cases hu
      have hc := hi.toCore.swap himm hins
      exact { hc, hi with
        front := fun u hu => by
          rcases pred_of_update hu with ⟨rfl, -⟩ | ⟨-, hu⟩
          · exact hi.front u hfront
          · exact hi.front u hu
        inserting := fun u m l hu => by
          rcases eq_or_of_update hu with ⟨-, hu⟩ | ⟨-, hu⟩
          · cases hu
          · exact absurd hu (hins u m l)
        stored := fun u hu => by
          rcases pred_of_update hu with ⟨-, hu⟩ | ⟨-, hu⟩
          · simp [WriterPc.landed] at hu
          · exact hc.stored u hu
        imm_cleared := fun hcl => absurd (hi.shutting hcl.ne_opened) (by simp [hsd]) }
    next => cases h
  next => cases h

theorem inv_insertBatch (hi : s.Inv) {w : Nat} (h : s.step (.insertBatch w) = some s') :
    s'.Inv := by
  simp only [Sys.step] at h
  split at h
  next m hw =>
    cases h
    obtain ⟨hwm, hmem⟩ := hi.inserting w m false hw
    have hfront : (s.writerPc w).atFront = true := by simp [hw, WriterPc.atFront]
    exact { hi with
      front := fun u hu => by
        rcases pred_of_update hu with ⟨rfl, -⟩ | ⟨-, hu⟩
        · exact hi.front u hfront
        · exact hi.front u hu
      inserting := fun u m' l hu => by
        rcases eq_or_of_update hu with ⟨rfl, hp⟩ | ⟨-, hp⟩
        · cases hp
          exact ⟨hwm, hmem⟩
        · exact hi.inserting u m' l hp
      logging_file := fun t m' f (ht : s.flushPc t = .logging m' f) => by
        have hne : m' ≠ m := fun he => by
          subst he
          exact hi.mem_ne_imm _ hmem (hi.flush_imm t _ (by simp [ht])).1
        show f = update s.contents m (s.contents m ++ [w]) m'
        rw [hi.logging_file t m' f ht, Function.update_noteq hne]
      stored := fun u hu => by
        rcases pred_of_update hu with ⟨rfl, -⟩ | ⟨-, hu⟩
        · simp [Sys.stored, hmem]
        · have := hi.stored u hu
          simp only [Sys.stored, hmem, Option.map_some', Option.getD_some, List.mem_append,
            Function.update_same] at this ⊢
          rcases this with (h | h) | h
          · exact .inl (.inl (.inl h))
          · refine .inl (.inr ?_)
            cases him : s.imm with
            | none => simp [him] at h
            | some i =>
              have hne : i ≠ m := fun he => hi.mem_ne_imm m hmem (he ▸ him)
              simpa [him, Function.update_noteq hne] using h
          · exact .inr h }
  next => cases h

theorem inv_finishWrite (hi : s.Inv) {w : Nat} (h : s.step (.finishWrite w) = some s') :
    s'.Inv := by
  simp only [Sys.step] at h
  split at h
  next m hw =>
    have hsome : s.mem.isSome = true := by simp [(hi.inserting w m true hw).2]
    simp only [hsome, ↓reduceIte] at h
    cases h
    exact hi.popWriter (p := .done true true) (s.inserted ++ [w])
      (by simp [hw, WriterPc.atFront])
      (by simp [WriterPc.atFront]) (fun _ => hi.stored w (by simp [hw, WriterPc.landed]))
      (hi.order.append (List.Sublist.refl _))
  next => cases h

/-! ### Flush steps -/

theorem compactMemTable_of_unflushed {m : Nat} (hm : s.imm = some m)
    (hb : s.beingFlushed m = false) (t : Nat) :
    s.compactMemTable t = if (s.contents m).isEmpty then
        { s with imm := none, beingFlushed := update s.beingFlushed m true,
                 flushOk := update s.flushOk t true }
      else { s with beingFlushed := update s.beingFlushed m true,
                    flushPc := update s.flushPc t (.building m) } := by
  unfold Sys.compactMemTable
  split <;> simp_all

theorem Sys.Core.idle_of_unflushed (hc : s.Core) {m : Nat} (hm : s.imm = some m)
    (hb : s.beingFlushed m = false) (t : Nat) : s.flushPc t = .idle := by
  cases hp : (s.flushPc t).target with
  | none => exact FlushPc.target_eq_none.mp hp
  | some m' =>
    obtain ⟨him, hb'⟩ := hc.flush_imm t m' hp
    rw [hm] at him
    cases him
    simp [hb] at hb'

theorem Sys.Core.idle_of_busy (hc : s.Core) {t : Nat} (ht : s.flushPc t ≠ .idle) (t' : Nat)
    (hne : t' ≠ t) : s.flushPc t' = .idle := by
  by_contra h
  exact hne (hc.flush_unique t' t h ht)

theorem Sys.Core.dropEmptyImm (hc : s.Core) {m t : Nat} (hm : s.imm = some m)
    (hb : s.beingFlushed m = false) (hempty : (s.contents m).isEmpty = true) :
    ({ s with imm := none, beingFlushed := update s.beingFlushed m true,
              flushOk := update s.flushOk t true } : Sys).Core := by
  have idle := hc.idle_of_unflushed hm hb
  have hlt := hc.imm_fresh m hm
  exact { hc with
    imm_fresh := fun _ h => by cases h
    fresh_unflushed := fun m' (hm' : s.nextMemTable ≤ m') => by
      show update s.beingFlushed m true m' = false
      rw [Function.update_noteq (by omega)]
      exact hc.fresh_unflushed m' hm'
    mem_unflushed := fun m' (hm' : s.mem = some m') => by
      show update s.beingFlushed m true m' = false
      rw [Function.update_noteq (fun he => hc.mem_ne_imm m' hm' (by rw [he]; exact hm))]
      exact hc.mem_unflushed m' hm'
    mem_ne_imm := fun _ _ h => by cases h
    flush_imm := fun t' m' (ht : (s.flushPc t').target = some m') => by simp [idle t'] at ht
    being_flushed := fun _ h => by cases h
    stored := fun w hw => by
      have := hc.stored w hw
      simp only [List.isEmpty_iff] at hempty
      simpa [Sys.stored, hm, hempty] using this }

theorem Sys.Core.startFlush (hc : s.Core) {m t : Nat} (hm : s.imm = some m)
    (hb : s.beingFlushed m = false) (ht : t = 0 ∨ (1 ≤ t ∧ t ≤ s.maxBackgroundCompactions)) :
    ({ s with beingFlushed := update s.beingFlushed m true,
              flushPc := update s.flushPc t (.building m) } : Sys).Core := by
  have idle := hc.idle_of_unflushed hm hb
  have hlt := hc.imm_fresh m hm
  have busy : ∀ t', update s.flushPc t (.building m) t' ≠ .idle → t' = t := fun t' h => by
    by_contra hne
    rw [Function.update_noteq hne] at h
    exact h (idle t')
  exact { hc with
    fresh_unflushed := fun m' (hm' : s.nextMemTable ≤ m') => by
      show update s.beingFlushed m true m' = false
      rw [Function.update_noteq (by omega)]
      exact hc.fresh_unflushed m' hm'
    mem_unflushed := fun m' (hm' : s.mem = some m') => by
      show update s.beingFlushed m true m' = false
      rw [Function.update_noteq (fun he => hc.mem_ne_imm m' hm' (by rw [he]; exact hm))]
      exact hc.mem_unflushed m' hm'
    flush_imm := fun t' m' (ht' : (update s.flushPc t (.building m) t').target = some m') => by
      by_cases he : t' = t
      · subst he
        simp only [Function.update_same, FlushPc.target_building, Option.some.injEq] at ht'
        subst ht'
        exact ⟨hm, by simp⟩
      · simp [Function.update_noteq he, idle t'] at ht'
    flush_unique := fun t₁ t₂ h₁ h₂ => (busy t₁ h₁).trans (busy t₂ h₂).symm
    being_flushed := fun m' (hm' : s.imm = some m') _ => by
      rw [hm] at hm'
      cases hm'
      exact ⟨t, by simp⟩
    logging_file := fun t' m' f (ht' : update s.flushPc t (.building m) t' = .logging m' f) => by
      rcases eq_or_of_update ht' with ⟨-, h⟩ | ⟨-, h⟩
      · cases h
      · simp [idle t'] at h
    flush_caller := fun t' h => by
      rw [busy t' h]
      exact ht }

theorem Sys.ImmCleared.tasks_stopped (h : s.ImmCleared) : s.shutdownPc.tasksMayRun = false := by
  rcases h with h | ⟨h, -⟩ | ⟨h, -⟩
  · simp [h, ShutdownPc.tasksMayRun]
  · simp [h, ShutdownPc.tasksMayRun]
  · revert h; cases s.shutdownPc <;> simp [ShutdownPc.flushing, ShutdownPc.tasksMayRun]

/-- While a flush runs, `imm_` is set, so the unloading thread is at none of the points where
it is NULL. -/
theorem Sys.Inv.not_immCleared_of_busy (hi : s.Inv) {t m : Nat}
    (ht : (s.flushPc t).target = some m) : ¬s.ImmCleared := fun h => by
  have := (hi.flush_imm t m ht).1
  rw [hi.imm_cleared h] at this
  cases this

/-- A step that changes only the flushes keeps the unloading thread away from the points where
`imm_` is NULL, if caller `0` stays busy or keeps its status. -/
theorem immCleared_of_flush_step (s₁ : Sys) (hpc : s₁.shutdownPc = s.shutdownPc)
    (hd : s₁.dumpMemOnShutdown = s.dumpMemOnShutdown)
    (h0 : s₁.flushPc 0 = .idle → s₁.flushOk 0 = true → s.flushPc 0 = .idle ∧ s.flushOk 0 = true)
    (h : s₁.ImmCleared) : s.ImmCleared := by
  rcases h with h | ⟨h, hd'⟩ | ⟨h, hp, ho⟩
  · exact .inl (hpc ▸ h)
  · exact .inr (.inl ⟨hpc ▸ h, hd ▸ hd'⟩)
  · exact .inr (.inr ⟨hpc ▸ h, h0 hp ho⟩)

theorem Sys.Inv.flushFailed (hi : s.Inv) {t m : Nat} (ht : (s.flushPc t).target = some m) :
    (s.flushFailed t m).Inv := by
  have hbusy : s.flushPc t ≠ .idle := fun h => by simp [h] at ht
  have idle : ∀ t', update s.flushPc t .idle t' = .idle := fun t' => by
    by_cases he : t' = t
    · subst he; simp
    · rw [Function.update_noteq he]; exact hi.idle_of_busy hbusy t' he
  have him := (hi.flush_imm t m ht).1
  have hcl := hi.not_immCleared_of_busy ht
  have h0 : (s.flushFailed t m).flushPc 0 = .idle → (s.flushFailed t m).flushOk 0 = true →
      s.flushPc 0 = .idle ∧ s.flushOk 0 = true := fun hp ho => by
    by_cases ht0 : t = 0
    · subst ht0; simp [Sys.flushFailed] at ho
    · simp only [Sys.flushFailed, Function.update_noteq (Ne.symm ht0)] at hp ho
      exact ⟨hp, ho⟩
  exact { hi with
    fresh_unflushed := fun m' (hm' : s.nextMemTable ≤ m') => by
      show update s.beingFlushed m false m' = false
      rw [Function.update_apply]; split
      · rfl
      · exact hi.fresh_unflushed m' hm'
    mem_unflushed := fun m' (hm' : s.mem = some m') => by
      show update s.beingFlushed m false m' = false
      rw [Function.update_apply]; split
      · rfl
      · exact hi.mem_unflushed m' hm'
    flush_imm := fun t' m' (h : (update s.flushPc t .idle t').target = some m') => by
      simp [idle t'] at h
    flush_unique := fun t' _ h => absurd (idle t') h
    being_flushed := fun m' (hm' : s.imm = some m') (hb : update s.beingFlushed m false m' = true) => by
      rw [him] at hm'
      cases hm'
      simp at hb
    logging_file := fun t' m' f (h : update s.flushPc t .idle t' = .logging m' f) => by
      simp [idle t'] at h
    flush_caller := fun t' h => absurd (idle t') h
    tasks_idle := fun _ t' _ => idle t'
    own_flush := fun h => absurd (idle 0) h
    imm_cleared := fun h => absurd (immCleared_of_flush_step (s.flushFailed t m) (s := s)
      rfl rfl h0 h) hcl }

theorem inv_flushStart (hi : s.Inv) {t : Nat} (h : s.step (.flushStart t) = some s') :
    s'.Inv := by
  simp only [Sys.step] at h
  split at h
  next hg =>
    cases h
    obtain ⟨h1, hK, -, hrun, himm⟩ := hg
    obtain ⟨m, hm, hb⟩ : ∃ m, s.imm = some m ∧ s.beingFlushed m = false := by
      simp only [Option.map_eq_some', Bool.not_eq_true'] at himm
      exact himm
    have idle := hi.idle_of_unflushed hm hb
    rw [compactMemTable_of_unflushed hm hb]
    split
    next hempty =>
      exact { hi.toCore.dropEmptyImm hm hb hempty, hi with
        imm_cleared := fun _ => rfl }
    next =>
      exact { hi.toCore.startFlush hm hb (.inr ⟨h1, hK⟩), hi with
        tasks_idle := fun h => by simp [hrun] at h
        own_flush := fun h => absurd (by
          show update s.flushPc t (.building m) 0 = .idle
          rw [Function.update_noteq (by omega)]
          exact idle 0) h
        imm_cleared := fun h => by simp [h.tasks_stopped] at hrun }
  next => cases h

theorem inv_flushBuilt (hi : s.Inv) {t : Nat} {ok : Bool} (h : s.step (.flushBuilt t ok) = some s') :
    s'.Inv := by
  simp only [Sys.step] at h
  split at h
  next m hbuild =>
    cases h
    have ht : (s.flushPc t).target = some m := by simp [hbuild]
    split
    next =>
      have hbusy : s.flushPc t ≠ .idle := by simp [hbuild]
      have hcl := hi.not_immCleared_of_busy ht
      have same : ∀ t', (update s.flushPc t (.logging m (s.contents m)) t').target =
          (s.flushPc t').target := fun t' => by
        by_cases he : t' = t
        · subst he; simp [hbuild]
        · rw [Function.update_noteq he]
      have busy : ∀ t', update s.flushPc t (.logging m (s.contents m)) t' ≠ .idle → t' = t :=
        fun t' h' => by
          by_contra hne
          rw [Function.update_noteq hne] at h'
          exact h' (hi.idle_of_busy hbusy t' hne)
      exact { hi with
        flush_imm := fun t' m' h' => hi.flush_imm t' m' (by rw [← same t']; exact h')
        flush_unique := fun t₁ t₂ h₁ h₂ => (busy t₁ h₁).trans (busy t₂ h₂).symm
        being_flushed := fun m' hm' hb' => by
          obtain ⟨t', ht'⟩ := hi.being_flushed m' hm' hb'
          exact ⟨t', by rw [same t']; exact ht'⟩
        logging_file := fun t' m' f
            (h' : update s.flushPc t (.logging m (s.contents m)) t' = .logging m' f) => by
          rcases eq_or_of_update h' with ⟨-, h'⟩ | ⟨hne, h'⟩
          · cases h'; rfl
          · exact absurd (hi.idle_of_busy hbusy t' hne) (by simp [h'])
        flush_caller := fun t' h' => by
          rw [busy t' h']
          exact hi.flush_caller t hbusy
        tasks_idle := fun hstop t' ht' => by
          dsimp only at hstop ⊢
          by_cases he : t' = t
          · subst he; exact absurd (hi.tasks_idle hstop t' ht') hbusy
          · rw [Function.update_noteq he]; exact hi.tasks_idle hstop t' ht'
        own_flush := fun h' => by
          dsimp only at h' ⊢
          by_cases he : t = 0
          · subst he; exact hi.own_flush hbusy
          · rw [Function.update_noteq (Ne.symm he)] at h'; exact hi.own_flush h'
        imm_cleared := fun h' => absurd (immCleared_of_flush_step
            { s with flushPc := update s.flushPc t (.logging m (s.contents m)) } (s := s)
            rfl rfl (fun hp ho => by
              by_cases he : t = 0
              · subst he; simp at hp
              · dsimp only at hp ho
                rw [Function.update_noteq (Ne.symm he)] at hp
                exact ⟨hp, ho⟩) h') hcl }
    next => exact hi.flushFailed ht
  next => cases h

theorem inv_flushLogged (hi : s.Inv) {t : Nat} {ok : Bool}
    (h : s.step (.flushLogged t ok) = some s') : s'.Inv := by
  simp only [Sys.step] at h
  split at h
  next m file hlog =>
    cases h
    have ht : (s.flushPc t).target = some m := by simp [hlog]
    split
    next =>
      have hbusy : s.flushPc t ≠ .idle := by simp [hlog]
      have idle : ∀ t', update s.flushPc t .idle t' = .idle := fun t' => by
        by_cases he : t' = t
        · subst he; simp
        · rw [Function.update_noteq he]; exact hi.idle_of_busy hbusy t' he
      have him := (hi.flush_imm t m ht).1
      have hfile := hi.logging_file t m file hlog
      exact { hi with
        imm_fresh := fun _ h' => by cases h'
        mem_ne_imm := fun _ _ h' => by cases h'
        flush_imm := fun t' m' (h' : (update s.flushPc t .idle t').target = some m') => by
          simp [idle t'] at h'
        flush_unique := fun t' _ h' => absurd (idle t') h'
        being_flushed := fun _ h' => by cases h'
        logging_file := fun t' m' f (h' : update s.flushPc t .idle t' = .logging m' f) => by
          simp [idle t'] at h'
        flush_caller := fun t' h' => absurd (idle t') h'
        stored := fun w hw => by
          have := hi.stored w hw
          simp only [Sys.stored, him, hfile, Option.map_some', Option.getD_some,
            Option.map_none', Option.getD_none, List.mem_append, List.flatten_append,
            List.flatten_cons, List.flatten_nil, List.append_nil] at this ⊢
          tauto
        tasks_idle := fun _ t' _ => idle t'
        own_flush := fun h' => absurd (idle 0) h'
        imm_cleared := fun _ => rfl }
    next => exact hi.flushFailed ht
  next => cases h

theorem inv_backgroundError (hi : s.Inv) {pd : Bool}
    (h : s.step (.backgroundError pd) = some s') : s'.Inv := by
  simp only [Sys.step] at h
  cases h
  exact { hi with front := hi.front }

/-! ### Steps of the unloading thread -/

theorem Sys.Core.swapLast (hc : s.Core) (himm : s.imm = none) (hw : s.writers = []) :
    ({ s with imm := s.mem, mem := none } : Sys).Core := by
  have idle := hc.no_flush_of_imm_none himm
  have hfront : ∀ w, (s.writerPc w).atFront = false := fun w => by
    by_contra h
    have := hc.front w (by simpa using h)
    simp [hw] at this
  exact { hc with
    inserting := fun w m l (hw' : s.writerPc w = .inserting m l) => by
      have := hfront w
      simp [hw', WriterPc.atFront] at this
    mem_fresh := fun _ h => by cases h
    imm_fresh := fun m hm => hc.mem_fresh m hm
    mem_unflushed := fun _ h => by cases h
    mem_ne_imm := fun _ h => by cases h
    flush_imm := fun t m ht => by simp [idle t] at ht
    flush_unique := fun t _ ht => absurd (idle t) ht
    being_flushed := fun m hm hb => by simp [hc.mem_unflushed m hm] at hb
    logging_file := fun t m f ht => by simp [idle t] at ht
    flush_caller := fun t ht => absurd (idle t) ht
    stored := fun w hw' => by
      have := hc.stored w hw'
      simp only [Sys.stored, himm, Option.map_none', Option.getD_none, List.append_nil,
        List.mem_append] at this ⊢
      tauto }

/-- The unloading thread's own `CompactMemTable`, started with no flush running, leaves it at a
point `p` inside that call. -/
theorem Sys.Core.shutdownFlush {s₁ : Sys} (hc : s₁.Core) (idle : ∀ t, s₁.flushPc t = .idle)
    (hb : ∀ m, s₁.imm = some m → s₁.beingFlushed m = false) {p : ShutdownPc}
    (hp : p.flushing = true) (hsd : s₁.shuttingDown = true)
    (hcl : p.acceptsWrites = false → s₁.writers = []) :
    ({ s₁.compactMemTable 0 with shutdownPc := p } : Sys).Inv := by
  have hstop : p.tasksMayRun = false := by
    revert hp; cases p <;> simp [ShutdownPc.flushing, ShutdownPc.tasksMayRun]
  have hnot : p ≠ .waitWriter ∧ p ≠ .shutdown1Done true := by
    constructor <;> (intro h; simp [h, ShutdownPc.flushing] at hp)
  cases him : s₁.imm with
  | none =>
    have hcm : s₁.compactMemTable 0 = s₁ := by simp [Sys.compactMemTable, him]
    rw [hcm]
    exact { hc with
      front := hc.front
      shutting := fun _ => hsd
      tasks_idle := fun _ t _ => idle t
      own_flush := fun _ => hp
      imm_cleared := fun _ => him
      closed := hcl }
  | some m =>
    rw [compactMemTable_of_unflushed him (hb m him)]
    by_cases hempty : (s₁.contents m).isEmpty = true
    · rw [if_pos hempty]
      have hc' := hc.dropEmptyImm (t := 0) him (hb m him) hempty
      exact { hc' with
        front := hc'.front
        shutting := fun _ => hsd
        tasks_idle := fun _ t _ => idle t
        own_flush := fun _ => hp
        imm_cleared := fun _ => rfl
        closed := hcl }
    · rw [if_neg hempty]
      have hc' := hc.startFlush him (hb m him) (.inl rfl)
      exact { hc' with
        front := hc'.front
        shutting := fun _ => hsd
        tasks_idle := fun _ t ht => by
          show update s₁.flushPc 0 (.building m) t = .idle
          rw [Function.update_noteq ht]
          exact idle t
        own_flush := fun _ => hp
        imm_cleared := fun h => by
          rcases h with h | ⟨h, -⟩ | ⟨-, h, -⟩
          · exact absurd h hnot.1
          · exact absurd h hnot.2
          · simp at h
        closed := hcl }

theorem Sys.Inv.idle_of_stopped (hi : s.Inv) (hstop : s.shutdownPc.tasksMayRun = false)
    (hp : s.shutdownPc.flushing = false) (t : Nat) : s.flushPc t = .idle := by
  by_cases ht : t = 0
  · subst ht
    by_contra h
    simp [hi.own_flush h] at hp
  · exact hi.tasks_idle hstop t ht

theorem inv_shutdown1Begin (hi : s.Inv) (h : s.step .shutdown1Begin = some s') : s'.Inv := by
  simp only [Sys.step] at h
  split at h
  next hpc =>
    cases h
    exact { hi with
      front := hi.front
      shutting := fun _ => rfl
      tasks_idle := fun h => by simp [ShutdownPc.tasksMayRun] at h
      own_flush := fun h => by simpa [hpc, ShutdownPc.flushing] using hi.own_flush h
      imm_cleared := fun h => by
        rcases h with h | ⟨h, -⟩ | ⟨h, -⟩ <;> simp [ShutdownPc.flushing] at h
      closed := fun h => by simp [ShutdownPc.acceptsWrites] at h }
  next => cases h

theorem inv_shutdown1Drained (hi : s.Inv) (h : s.step .shutdown1Drained = some s') :
    s'.Inv := by
  simp only [Sys.step] at h
  split at h
  next hg =>
    cases h
    obtain ⟨hpc, hall⟩ := hg
    have idle : ∀ t, s.flushPc t = .idle := fun t => by
      by_contra hb
      rcases hi.flush_caller t hb with rfl | ⟨h1, hK⟩
      · have := hi.own_flush hb
        simp [hpc, ShutdownPc.flushing] at this
      · have := List.all_eq_true.mp hall t (List.mem_range'_1.mpr ⟨h1, by omega⟩)
        exact hb (of_decide_eq_true this)
    have hsd := hi.shutting (by simp [hpc])
    have done : ∀ b, (b = true → s.dumpMemOnShutdown = false) →
        ({ s with shutdownPc := .shutdown1Done b } : Sys).Inv := fun b hb =>
      { hi with
        front := hi.front
        shutting := fun _ => hsd
        tasks_idle := fun _ t _ => idle t
        own_flush := fun h => absurd (idle 0) h
        imm_cleared := fun h => by
          rcases h with h | ⟨h, hd⟩ | ⟨h, -⟩
          · cases h
          · cases h
            simp [hb rfl] at hd
          · simp [ShutdownPc.flushing] at h
        closed := fun h => by simp [ShutdownPc.acceptsWrites] at h }
    split
    · exact done false (by simp)
    · split
      next hd => exact done true (fun _ => by simpa using hd)
      next =>
        split
        next =>
          refine hi.toCore.shutdownFlush idle (fun m hm => ?_) rfl hsd
            (by simp [ShutdownPc.acceptsWrites])
          by_contra hb
          obtain ⟨t, ht⟩ := hi.being_flushed m hm (by simpa using hb)
          simp [idle t] at ht
        next himm =>
          exact { hi with
            front := hi.front
            shutting := fun _ => hsd
            tasks_idle := fun _ t _ => idle t
            own_flush := fun h => absurd (idle 0) h
            imm_cleared := fun _ => by simpa using himm
            closed := fun h => by simp [ShutdownPc.acceptsWrites] at h }
  next => cases h

theorem inv_shutdown1FlushedImm (hi : s.Inv) (h : s.step .shutdown1FlushedImm = some s') :
    s'.Inv := by
  simp only [Sys.step] at h
  split at h
  next hg =>
    cases h
    obtain ⟨hpc, h0⟩ := hg
    have hstop : s.shutdownPc.tasksMayRun = false := by simp [hpc, ShutdownPc.tasksMayRun]
    exact { hi with
      front := hi.front
      shutting := fun _ => hi.shutting (by simp [hpc])
      tasks_idle := fun _ => hi.tasks_idle hstop
      own_flush := fun h => absurd h0 h
      imm_cleared := fun h => by
        cases hok : s.flushOk 0
        · rcases h with h | ⟨h, -⟩ | ⟨h, -⟩ <;> simp [hok, ShutdownPc.flushing] at h
        · exact hi.imm_cleared (.inr (.inr ⟨by simp [hpc, ShutdownPc.flushing], h0, hok⟩))
      closed := fun h => by
        cases hok : s.flushOk 0 <;> simp [hok, ShutdownPc.acceptsWrites] at h }
  next => cases h

theorem inv_shutdown1Swap (hi : s.Inv) (h : s.step .shutdown1Swap = some s') : s'.Inv := by
  simp only [Sys.step] at h
  split at h
  next hg =>
    cases h
    obtain ⟨hpc, hwm⟩ := hg
    have himm := hi.imm_cleared (.inl hpc)
    have hins : ∀ w m l, s.writerPc w ≠ .inserting m l := fun w m l hw => by
      simp [(hi.inserting w m l hw).1] at hwm
    have idle := hi.idle_of_stopped (by simp [hpc, ShutdownPc.tasksMayRun])
      (by simp [hpc, ShutdownPc.flushing])
    exact (hi.toCore.swap himm hins).shutdownFlush idle
      (fun m (hm : s.mem = some m) => hi.mem_unflushed m hm) rfl
      (hi.shutting (by simp [hpc])) (by simp [ShutdownPc.acceptsWrites])
  next => cases h

theorem inv_shutdown1End (hi : s.Inv) (h : s.step .shutdown1End = some s') : s'.Inv := by
  simp only [Sys.step] at h
  split at h
  next hg =>
    cases h
    obtain ⟨hpc, h0⟩ := hg
    exact { hi with
      front := hi.front
      shutting := fun _ => hi.shutting (by simp [hpc])
      tasks_idle := fun _ => hi.tasks_idle (by simp [hpc, ShutdownPc.tasksMayRun])
      own_flush := fun h => absurd h0 h
      imm_cleared := fun h => by
        rcases h with h | ⟨h, -⟩ | ⟨h, -⟩
        · cases h
        · injection h with hok
          exact hi.imm_cleared (.inr (.inr ⟨by simp [hpc, ShutdownPc.flushing], h0, hok⟩))
        · simp [ShutdownPc.flushing] at h
      closed := fun h => by simp [ShutdownPc.acceptsWrites] at h }
  next => cases h

theorem inv_shutdown2 (hi : s.Inv) (hw : s.writers = []) (h : s.step .shutdown2 = some s') :
    s'.Inv := by
  simp only [Sys.step] at h
  split at h
  next hpc =>
    cases h
    have idle := hi.idle_of_stopped (by simp [hpc, ShutdownPc.tasksMayRun])
      (by simp [hpc, ShutdownPc.flushing])
    have hsd := hi.shutting (by simp [hpc])
    split
    next =>
      exact { hi with
        front := hi.front
        shutting := fun _ => hsd
        tasks_idle := fun _ t _ => idle t
        own_flush := fun h => absurd (idle 0) h
        imm_cleared := fun h => by
          rcases h with h | ⟨h, -⟩ | ⟨h, -⟩ <;> simp [ShutdownPc.flushing] at h
        closed := fun _ => hw }
    next hd =>
      simp only [Bool.or_eq_true, Bool.not_eq_true', not_or, Bool.not_eq_false] at hd
      have himm := hi.imm_cleared (.inr (.inl ⟨hpc, hd.2⟩))
      exact (hi.toCore.swapLast himm hw).shutdownFlush idle
        (fun m (hm : s.mem = some m) => hi.mem_unflushed m hm) rfl hsd (fun _ => hw)
  next => cases h

theorem inv_shutdown2End (hi : s.Inv) (h : s.step .shutdown2End = some s') : s'.Inv := by
  simp only [Sys.step] at h
  split at h
  next hg =>
    cases h
    obtain ⟨hpc, h0⟩ := hg
    exact { hi with
      front := hi.front
      shutting := fun _ => hi.shutting (by simp [hpc])
      tasks_idle := fun _ => hi.tasks_idle (by simp [hpc, ShutdownPc.tasksMayRun])
      own_flush := fun h => absurd h0 h
      imm_cleared := fun h => by
        rcases h with h | ⟨h, -⟩ | ⟨h, -⟩ <;> simp [ShutdownPc.flushing] at h
      closed := fun _ => hi.closed (by simp [hpc, ShutdownPc.acceptsWrites]) }
  next => cases h

/-! ### Whole schedules -/

theorem inv_quietStep (hi : s.Inv) {a : Action} (h : s.quietStep a = some s') : s'.Inv := by
  unfold Sys.quietStep at h
  split at h
  · cases h
  next hq =>
    cases a with
    | enqueue w b => exact inv_enqueue hi h
    | becomeHead w => exact inv_becomeHead hi h
    | makeRoomBreak w => exact inv_makeRoomBreak hi h
    | makeRoomSwap w => exact inv_makeRoomSwap hi h
    | insertBatch w => exact inv_insertBatch hi h
    | finishWrite w => exact inv_finishWrite hi h
    | flushStart t => exact inv_flushStart hi h
    | flushBuilt t ok => exact inv_flushBuilt hi h
    | flushLogged t ok => exact inv_flushLogged hi h
    | backgroundError pd => exact inv_backgroundError hi h
    | shutdown1Begin => exact inv_shutdown1Begin hi h
    | shutdown1Drained => exact inv_shutdown1Drained hi h
    | shutdown1FlushedImm => exact inv_shutdown1FlushedImm hi h
    | shutdown1Swap => exact inv_shutdown1Swap hi h
    | shutdown1End => exact inv_shutdown1End hi h
    | shutdown2 => exact inv_shutdown2 hi (by simpa using hq) h
    | shutdown2End => exact inv_shutdown2End hi h

theorem inv_quietRun : ∀ {s s' : Sys} {as : List Action}, s.Inv → s.quietRun as = some s' →
    s'.Inv
  | _, _, [], hi, h => by cases h; exact hi
  | s, _, a :: as, hi, h => by
    simp only [Sys.quietRun, Option.bind_eq_some] at h
    obtain ⟨s₁, h₁, h₂⟩ := h
    exact inv_quietRun (inv_quietStep hi h₁) h₂

/-- What the writer queue guarantees in every state of a schedule in which `Shutdown2` begins
only once every `Write` has returned. -/
structure Sys.QueueSafe (s : Sys) : Prop where
  /-- At most one `InsertInto` runs. -/
  one_insert : ∀ w w' m m' l l', s.writerPc w = .inserting m l →
    s.writerPc w' = .inserting m' l' → w = w'
  /-- No memtable being inserted into is `imm_` or being flushed. -/
  isolated : s.InsertIsolated
  /-- Batches complete their inserts in the order their writers entered `writers_`. -/
  in_order : s.inserted.Sublist s.enqueued
  /-- The batch of every `Write` that returned OK is in `mem_`, `imm_` or a level-0 file. -/
  durable : ∀ w, s.writerPc w = .done true true → w ∈ s.stored

theorem Sys.Inv.queueSafe (hi : s.Inv) : s.QueueSafe where
  one_insert w w' m m' l l' hw hw' :=
    (hi.front_unique (by simp [hw, WriterPc.atFront]) (by simp [hw', WriterPc.atFront])).symm
  isolated w m l hw := by
    have hmem := (hi.inserting w m l hw).2
    refine ⟨hi.mem_ne_imm m hmem, fun t ht => ?_⟩
    exact hi.mem_ne_imm m hmem (hi.flush_imm t m ht).1
  in_order := by
    rw [hi.queue]
    exact hi.order.trans (List.sublist_append_left _ _)
  durable w hw := hi.stored w (by simp [hw, WriterPc.landed])

/-- From an opened engine, a schedule in which `Shutdown2` begins only with `writers_` empty
reaches only states where the writer queue does its job. -/
theorem quietRun_queueSafe {d : Bool} {k : Nat} {as : List Action} {s : Sys}
    (h : (Sys.init d k).quietRun as = some s) : s.QueueSafe :=
  (inv_quietRun (inv_init d k) h).queueSafe

/-- A failed `BuildTable` or `LogAndApply` leaves `imm_` installed with `BeingFlushed` cleared
and the version unchanged. -/
theorem flush_failure_keeps_imm {t : Nat}
    (h : s.step (.flushBuilt t false) = some s' ∨ s.step (.flushLogged t false) = some s') :
    s'.imm = s.imm ∧ s'.version = s.version ∧
      ∃ m, (s.flushPc t).target = some m ∧ s'.beingFlushed m = false := by
  rcases h with h | h <;> simp only [Sys.step] at h <;> split at h <;> cases h <;>
    simp [Sys.flushFailed, *]

end Leveldb.WriterQueue
