import Tera.Leveldb.ParallelCompaction
import Mathlib.Data.List.Sort

/-!
# The `DBImpl` engine

The state `DBImpl` keeps under `mutex_`: the mutable memtable `mem_`, the immutable one `imm_`,
the current `Version` with the version set's last sequence, the multiset `snapshots_` and the
map `rollbacks_`. An operation is one whole call of `Write`, `MakeRoomForWrite`,
`CompactMemTable`, `ParallelCompaction`, `GetSnapshot`, `ReleaseSnapshot` or `Rollback`;
`DBImpl::Get` reads a state. The memtable, `Version::Get`, `BuildTable`, the compaction picker
and `IsBaseLevelForKey` are not under src/ and follow the spec's description of them.
-/
namespace Leveldb

variable {κ : Type}

/-! ## Write batches and memtables -/

/-- One record of a `WriteBatch`: `Put(key, value)` or `Delete(key)`. -/
inductive BatchOp (κ : Type) where
  | put (key : κ) (value : String)
  | delete (key : κ)

/-- A `WriteBatch` with the sequence `WriteBatchInternal::SetSequence` gave it. -/
structure WriteBatch (κ : Type) where
  sequence : Nat
  ops : List (BatchOp κ)

/-- The entries `WriteBatchInternal::InsertInto` adds: the record at position `i` gets sequence
`seq + i`. -/
def batchEntries (seq : Nat) : List (BatchOp κ) → List (Entry κ)
  | [] => []
  | .put k v :: ops => ⟨⟨k, seq, .value⟩, v⟩ :: batchEntries (seq + 1) ops
  | .delete k :: ops => ⟨⟨k, seq, .deletion⟩, ""⟩ :: batchEntries (seq + 1) ops

def entryLE [LinearOrder κ] (a b : Entry κ) : Prop := ikeyLE a.toInternalKey b.toInternalKey

instance [LinearOrder κ] : DecidableRel (entryLE (κ := κ)) :=
  fun _ _ => inferInstanceAs (Decidable (ikeyLE _ _))

/-- Modelled from the spec: a memtable (memtable.cc is not under src/) is a skiplist in
internal-key order, with the sequence of its last `Add` (`GetLastSequence`) and the flag that
`SetNonEmpty` sets and `Empty()` reads. -/
structure MemTable (κ : Type) where
  table : List (Entry κ)
  lastSequence : Nat
  nonEmpty : Bool

/-- `NewMemTable()`. -/
def MemTable.empty : MemTable κ := ⟨[], 0, false⟩

/-- `MemTable::Add`: a skiplist insert. -/
def MemTable.add [LinearOrder κ] (m : MemTable κ) (e : Entry κ) : MemTable κ :=
  ⟨m.table.orderedInsert entryLE e, e.sequence, m.nonEmpty⟩

/-- `MemTable::Get(LookupKey(k, s), rollbacks)`: the first entry of `k` at or below `s`
outside the rollback windows, a deletion included. -/
def MemTable.get [DecidableEq κ] (rollbacks : Rollbacks) (s : Nat) (k : κ) (m : MemTable κ) :
    Option (Entry κ) :=
  newestVisible rollbacks s k m.table

/-- `WriteBatchInternal::InsertInto(batch, mem)`. -/
def insertInto [LinearOrder κ] (b : WriteBatch κ) (m : MemTable κ) : MemTable κ :=
  (batchEntries b.sequence b.ops).foldl MemTable.add m

/-! ## Versions -/

def kNumLevels : Nat := 7

def levelFiles (v : Version κ) (level : Nat) : List (Output κ) :=
  v.filterMap fun f => if f.1 = level then some f.2 else none

/-- Modelled from the spec: `Version::Get` probes the levels in ascending order, the level-0
files newest first, and the first file with an entry of `k` at or below `s` outside the
rollback windows answers. (At a level ≥ 1 the files do not overlap, so the binary search the
spec describes finds the same file.) -/
def versionGet [DecidableEq κ] (rollbacks : Rollbacks) (s : Nat) (k : κ) (v : Version κ) :
    Option (Entry κ) :=
  (List.range kNumLevels).findSome? fun level =>
    let files := if level = 0 then (levelFiles v 0).insertionSort (fun a b => b.number ≤ a.number)
      else levelFiles v level
    files.findSome? fun f => newestVisible rollbacks s k f.entries

/-- The user keys a table file spans, `[smallest.user_key(), largest.user_key()]`. -/
def Output.spans [LinearOrder κ] (f : Output κ) (k : κ) : Bool :=
  match f.entries.head?, f.entries.getLast? with
  | some a, some b => decide (a.userKey ≤ k) && decide (k ≤ b.userKey)
  | _, _ => false

/-- Modelled from the spec: `Compaction::IsBaseLevelForKey`, no file of a level below the
output level spans the key. -/
def isBaseLevelForKey [LinearOrder κ] (v : Version κ) (c : Compaction κ) (k : κ) : Bool :=
  v.all fun f => decide (f.1 ≤ c.outputLevel) || !f.2.spans k

/-- Modelled from the spec: `MakeInputIterator` merges the input files in internal-key
order. -/
def mergeInputs [LinearOrder κ] (c : Compaction κ) : List (Entry κ) :=
  (c.inputs.flatMap fun f => f.2.entries).insertionSort entryLE

/-! ## The engine -/

/-- What `DBImpl` keeps under `mutex_`. -/
structure DBImpl (κ : Type) where
  mem : MemTable κ
  imm : Option (MemTable κ)
  current : Version κ
  lastSequence : Nat
  nextFileNumber : Nat
  snapshots : List Nat
  rollbacks : Rollbacks
  dropBaseLevelDelInCompaction : Bool

def DBImpl.init (dropBaseLevelDelInCompaction : Bool) : DBImpl κ :=
  ⟨MemTable.empty, none, [], 0, 1, [], [], dropBaseLevelDelInCompaction⟩

/-- `*snapshots_.begin()`, or `kMaxSequenceNumber` with no snapshot. -/
def DBImpl.smallestSnapshot (db : DBImpl κ) : Nat :=
  db.snapshots.min?.getD kMaxSequenceNumber

/-- `DBImpl::GetLastSequence`. -/
def DBImpl.getLastSequence (db : DBImpl κ) : Nat :=
  if 0 < db.mem.lastSequence then db.mem.lastSequence
  else match db.imm with
    | some m => if m.lastSequence ≠ 0 then m.lastSequence else db.lastSequence
    | none => db.lastSequence

/-- `DBImpl::Write` of a batch, once its writer is at the head of `writers_` and
`MakeRoomForWrite` returned. -/
def DBImpl.write [LinearOrder κ] (db : DBImpl κ) (b : WriteBatch κ) : DBImpl κ :=
  let mem := insertInto b db.mem
  let mem := if !b.ops.isEmpty then { mem with nonEmpty := true } else mem
  { db with mem := mem,
            lastSequence := if !mem.nonEmpty && db.imm.isNone then b.sequence - 1
              else db.lastSequence }

/-- The branch of `MakeRoomForWrite` that swaps: `imm_ = mem_; mem_ = NewMemTable()`, taken
when no immutable memtable is waiting. -/
def DBImpl.makeRoomForWrite (db : DBImpl κ) : DBImpl κ :=
  if db.imm.isNone then { db with imm := some db.mem, mem := MemTable.empty } else db

/-- `CompactMemTable` with `WriteLevel0Table`. `BuildTable` (not under src/) writes the
memtable's entries in order, and `ok` says whether it and `LogAndApply` succeed; the level is
0 unless `drop_base_level_del_in_compaction` lets `PickLevelForMemTableOutput` (not under
src/) pick `pickedLevel`. -/
def DBImpl.compactMemTable (db : DBImpl κ) (pickedLevel : Nat) (ok : Bool) : DBImpl κ :=
  match db.imm with
  | none => db
  | some imm =>
    if imm.table.isEmpty then { db with imm := none }
    else
      let number := db.nextFileNumber
      let level := if db.dropBaseLevelDelInCompaction then pickedLevel else 0
      if ok then
        { db with imm := none, current := db.current ++ [(level, ⟨number, imm.table⟩)],
                  nextFileNumber := number + 1,
                  lastSequence := if imm.lastSequence ≠ 0 then imm.lastSequence
                    else db.lastSequence }
      else { db with nextFileNumber := number + 1 }

/-- The compaction the picker chooses: the files of `level` and `level + 1` that `pick`
selects. -/
def DBImpl.pickCompaction (db : DBImpl κ) (level : Nat) (pick : Nat × Output κ → Bool) :
    Compaction κ :=
  ⟨level, db.current.filter fun f => (f.1 = level || f.1 = level + 1) && pick f⟩

/-- A background compaction through `ParallelCompaction`, with no `compact_strategy_factory`
configured; `drop_lower_bound()` is read only by a strategy. -/
def DBImpl.compact [LinearOrder κ] (db : DBImpl κ) (c : Compaction κ)
    (boundaries : List (InternalKey κ)) (envs : Nat → OutputEnv κ) (logAndApplyOk : Bool) :
    DBImpl κ :=
  let dc : DropContext κ := ⟨db.smallestSnapshot, db.rollbacks, db.dropBaseLevelDelInCompaction,
    isBaseLevelForKey db.current c, ""⟩
  { db with current := (parallelCompaction envs dc noFactory c boundaries (mergeInputs c)
      logAndApplyOk db.current ∅).version }

/-- One operation of the engine. -/
inductive Op (κ : Type) where
  | write (batch : WriteBatch κ)
  | makeRoomForWrite
  | compactMemTable (pickedLevel : Nat) (ok : Bool)
  | compact (level : Nat) (pick : Nat × Output κ → Bool) (boundaries : List (InternalKey κ))
      (envs : Nat → OutputEnv κ) (logAndApplyOk : Bool)
  | getSnapshot (s : Nat)
  | releaseSnapshot (s : Nat)
  | rollback (snapshotSeq rollbackPoint : Nat)

/-- The state after one operation. `Rollback` assigns `rollbacks_[snapshot_seq]`. -/
def DBImpl.step [LinearOrder κ] (db : DBImpl κ) : Op κ → DBImpl κ
  | .write b => db.write b
  | .makeRoomForWrite => db.makeRoomForWrite
  | .compactMemTable level ok => db.compactMemTable level ok
  | .compact level pick bs envs ok => db.compact (db.pickCompaction level pick) bs envs ok
  | .getSnapshot s => { db with snapshots := s :: db.snapshots }
  | .releaseSnapshot s => { db with snapshots := db.snapshots.erase s }
  | .rollback snap point =>
    { db with rollbacks := (snap, point) :: db.rollbacks.filter fun w => w.1 ≠ snap }

def DBImpl.run [LinearOrder κ] (db : DBImpl κ) (ops : List (Op κ)) : DBImpl κ :=
  ops.foldl DBImpl.step db

/-- `ReadOptions`: `snapshot` (`kMaxSequenceNumber` for none) and `rollbacks`. -/
structure ReadOptions where
  snapshot : Nat
  rollbacks : Rollbacks

/-- `DBImpl::Get`: `some v` for OK with value `v`, `none` for NotFound. The memtable, then the
immutable memtable, then the version; the first that finds an entry answers. -/
def DBImpl.get [DecidableEq κ] (db : DBImpl κ) (options : ReadOptions) (k : κ) :
    Option String :=
  let s := if options.snapshot ≠ kMaxSequenceNumber then options.snapshot
    else db.getLastSequence
  let found := (db.mem.get options.rollbacks s k).orElse fun _ =>
    ((db.imm.bind fun m => m.get options.rollbacks s k).orElse fun _ =>
      versionGet options.rollbacks s k db.current)
  (liveEntry found).map Entry.value

/-! ## What a read should return -/

def Op.writes : Op κ → List (Entry κ)
  | .write b => batchEntries b.sequence b.ops
  | _ => []

/-- The write of `k` with the highest sequence at or below `s` outside every rollback
window. -/
def latestWrite [DecidableEq κ] (rollbacks : Rollbacks) (s : Nat) (k : κ) :
    List (Entry κ) → Option (Entry κ)
  | [] => none
  | e :: es =>
    let best := latestWrite rollbacks s k es
    if e.userKey = k ∧ visibleAt rollbacks s e = true ∧ best.all (·.sequence < e.sequence) then
      some e
    else best

/-- The answer the spec asks of `Get` at snapshot `s` after the writes `ws`. -/
def expectedGet [DecidableEq κ] (ws : List (Entry κ)) (rollbacks : Rollbacks) (s : Nat) (k : κ) :
    Option String :=
  (liveEntry (latestWrite rollbacks s k ws)).map Entry.value

/-! ## A rollback whose snapshot is released before a compaction -/

/-- A compaction whose drop rules drop its whole input writes no file, whatever its file
operations do; installed, it only deletes its input files. -/
theorem compact_of_kept_nil [LinearOrder κ] (db : DBImpl κ) (c : Compaction κ)
    (envs : Nat → OutputEnv κ) (ok : Bool)
    (h : keptEntries ⟨db.smallestSnapshot, db.rollbacks, db.dropBaseLevelDelInCompaction,
      isBaseLevelForKey db.current c, ""⟩ KeyState.init (mergeInputs c) = []) :
    db.compact c [] envs ok =
      { db with current := if ok then db.current.apply (installCompactionResults c [])
          else db.current } := by
  obtain ⟨hout, hok⟩ := handleCompactionWork_of_kept_nil (envs 0) _ _ h
  simp [DBImpl.compact, parallelCompaction, subCompactions, hout, hok]

end Leveldb
