import Mathlib.Logic.Function.Basic

/-!
# The persistent block cache: `BlockCacheImpl` and `BlockCacheRandomAccessFile::Read`

The SSD cache keeps blocks of `block_size` bytes of DFS files. A block `(fid, block_idx)` hashes
to a data set `sid`; the data set's 2Q index gives it a slot `cache_block_idx`, and its bytes
live at `slot * block_size` of the data set's file. The metadata DB keeps one `DS#<sid><slot>`
record per slot, `(fid, block_idx, state)`, from which `ReloadDataSet` rebuilds the index after a
restart. In memory a `CacheBlock` carries the state bits, the I/O status `s` and a data buffer
shared by all the threads that hold the block.

`Read` runs as a thread with a program counter, one step per critical section of the source.
The I/O it schedules (`HandleDfsRead`, `HandleCacheRead`, `HandleCacheWrite`) runs as tasks,
and the writer path's `FillCache` as threads of its own. Every I/O call takes its outcome from
the step: done in full, short, or failed. A crash drops everything but the data-set files and
the metadata DB.
-/
namespace Leveldb.BlockCache

open Function (update)

variable {α : Type}

/-- The outcome of one I/O call: all bytes moved, only the first `k`, or an error. -/
inductive Transfer where
  | full
  | short (k : Nat)
  | failed
  deriving DecidableEq, Repr

/-- The bytes of `l` that a call with this outcome moves. -/
def Transfer.apply : Transfer → List α → List α
  | .full, l => l
  | .short k, l => l.take k
  | .failed, _ => []

/-- `leveldb::Status`, with the codes the cache produces. -/
inductive Status where
  | ok
  | ioError
  | corruption (msg : String)
  deriving DecidableEq, Repr

def Status.isOk : Status → Bool
  | .ok => true
  | _ => false

/-- The bits of `CacheBlock::state`: `kCacheBlockValid`, `kCacheBlockLocked`,
`kCacheBlockDfsRead`, `kCacheBlockCacheRead` and `kCacheBlockCacheFill`. -/
structure BlockState where
  valid : Bool
  locked : Bool
  dfsRead : Bool
  cacheRead : Bool
  cacheFill : Bool
  deriving DecidableEq, Repr

/-- `state == 0`. -/
def BlockState.empty : BlockState := ⟨false, false, false, false, false⟩

/-- `state == kCacheBlockValid`. -/
def BlockState.validOnly : BlockState := ⟨true, false, false, false, false⟩

/-- `CacheBlock`; `refs` counts the handles of the data set's index that callers hold. -/
structure CacheBlock (α : Type) where
  fid : Nat
  blockIdx : Nat
  sid : Nat
  cacheBlockIdx : Nat
  state : BlockState
  dataBlock : List α
  dataBlockRefs : Nat
  s : Status
  refs : Nat

namespace CacheBlock

/-- `GetDataBlock`: the first holder installs a buffer, `data` or else the fresh one that
`new char[block_size]` gives; the others share it. -/
def getDataBlock (b : CacheBlock α) (fresh data : List α) : CacheBlock α :=
  if b.dataBlockRefs = 0 then
    { b with dataBlock := if data.isEmpty then fresh else data, dataBlockRefs := 1 }
  else { b with dataBlockRefs := b.dataBlockRefs + 1 }

/-- `ReleaseDataBlock`: the last holder frees the buffer. -/
def releaseDataBlock (b : CacheBlock α) : CacheBlock α :=
  if b.dataBlockRefs - 1 = 0 then { b with dataBlock := [], dataBlockRefs := 0 }
  else { b with dataBlockRefs := b.dataBlockRefs - 1 }

end CacheBlock

/-- The value of a `DS#<sid><slot>` record: `CacheBlock::Encode`. -/
structure DsRecord where
  fid : Nat
  blockIdx : Nat
  state : BlockState
  deriving DecidableEq, Repr

/-- What the cache runs against: `options_.block_size`, the number of slots of a data set
(`dataset_size / block_size + 1`), the data set a block key hashes to
(`Hash(key) % dataset_num`), and the bytes of the DFS file with each id. -/
structure Setting (α : Type) where
  blockSize : Nat
  nrBlock : Nat
  sidOf : Nat → Nat → Nat
  dfs : Nat → List α

/-- The state of `BlockCacheImpl`. `blocks` and `slotOwner` are the data sets' 2Q indices,
by key `(fid, block_idx)` and by `(sid, slot)`; `loaded` is whether `data_set_cache_` holds the
data set. `dataSetFile` (the bytes at `slot * block_size` of data set `sid`'s file) and
`dsRecord` (the `DS#` records of the metadata DB) survive a crash. -/
structure BlockCacheImpl (α : Type) where
  blocks : Nat × Nat → Option (CacheBlock α)
  slotOwner : Nat × Nat → Option (Nat × Nat)
  loaded : Nat → Bool
  dataSetFile : Nat × Nat → List α
  dsRecord : Nat × Nat → Option DsRecord

/-- `memcpy` of `src` over the front of `dst`. -/
def overwrite (dst src : List α) : List α := src ++ dst.drop src.length

section Ops

variable (S : Setting α)

namespace BlockCacheImpl

def setBlock (c : BlockCacheImpl α) (key : Nat × Nat) (b : CacheBlock α) : BlockCacheImpl α :=
  { c with blocks := update c.blocks key (some b) }

/-- `LogRecord`: write `DS#<sid><slot> -> (fid, block_idx, state)`; `ok` is the outcome of
the metadata DB's `Write`. -/
def logRecord (c : BlockCacheImpl α) (b : CacheBlock α) (ok : Bool) : BlockCacheImpl α × Status :=
  if ok then
    let r : DsRecord := ⟨b.fid, b.blockIdx, b.state⟩
    ({ c with dsRecord := update c.dsRecord (b.sid, b.cacheBlockIdx) (some r) }, .ok)
  else (c, .ioError)

/-- `BlockCacheImpl::FillCache`: `pwrite` the block's buffer to its slot. Any result `>= 0`,
a short write included, is success. -/
def fillCache (c : BlockCacheImpl α) (b : CacheBlock α) : Transfer → BlockCacheImpl α × Status
  | .failed => (c, .corruption "FillCache error")
  | t =>
    let slot := (b.sid, b.cacheBlockIdx)
    let bytes := overwrite (c.dataSetFile slot) (t.apply b.dataBlock)
    ({ c with dataSetFile := update c.dataSetFile slot bytes }, .ok)

/-- `BlockCacheImpl::ReadCache`: `pread` the slot into the block's buffer. Any result `>= 0`,
a short read included, is success. -/
def readCache (c : BlockCacheImpl α) (b : CacheBlock α) : Transfer → List α × Status
  | .failed => (b.dataBlock, .corruption "ReadCache error")
  | t => (overwrite b.dataBlock
      (t.apply ((c.dataSetFile (b.sid, b.cacheBlockIdx)).take b.dataBlock.length)), .ok)

/-- The 2Q index's `Insert` of a block under its key and slot; an entry of the same key that
was there is dropped. Modelled from the spec: the 2Q cache is not in the source tree. -/
def insert (c : BlockCacheImpl α) (b : CacheBlock α) : BlockCacheImpl α :=
  let key := (b.fid, b.blockIdx)
  let owner := match c.blocks key with
    | some old => update c.slotOwner (old.sid, old.cacheBlockIdx) none
    | none => c.slotOwner
  { c with blocks := update c.blocks key (some b),
           slotOwner := update owner (b.sid, b.cacheBlockIdx) (some key) }

/-- The block `ReloadDataSet` builds from the record of slot `cbi`: only the Valid bit is
kept. -/
def reloadedBlock (sid cbi : Nat) (r : DsRecord) : CacheBlock α where
  fid := r.fid
  blockIdx := r.blockIdx
  sid := sid
  cacheBlockIdx := cbi
  state := if r.state.valid then .validOnly else .empty
  dataBlock := []
  dataBlockRefs := 0
  s := .ok
  refs := 0

/-- `ReloadDataSet`: insert a block for every `DS#<sid>` record, then publish the data set.
The records are visited by slot. -/
def reloadDataSet (c : BlockCacheImpl α) (sid : Nat) : BlockCacheImpl α :=
  let c := (List.range S.nrBlock).foldl (fun c cbi =>
    match c.dsRecord (sid, cbi) with
    | none => c
    | some r => c.insert (reloadedBlock sid cbi r)) c
  { c with loaded := update c.loaded sid true }

/-- The new block `GetAndAllocBlock` inserts for `(fid, block_idx)` in `slot`. -/
def newBlock (fid blockIdx sid slot : Nat) : CacheBlock α where
  fid := fid
  blockIdx := blockIdx
  sid := sid
  cacheBlockIdx := slot
  state := .empty
  dataBlock := []
  dataBlockRefs := 0
  s := .ok
  refs := 1

/-- `GetAndAllocBlock`: load the data set if needed (`GetDataSet`), then take a handle on the
block, inserting a new one in a free `slot` (the 2Q index's choice) if there is none. `none`
is the `NULL` that makes the caller retry. -/
def getAndAllocBlock (c : BlockCacheImpl α) (fid blockIdx slot : Nat) :
    Option (BlockCacheImpl α) :=
  let sid := S.sidOf fid blockIdx
  let c := if c.loaded sid then c else c.reloadDataSet S sid
  match c.blocks (fid, blockIdx) with
  | some b => some (c.setBlock (fid, blockIdx) { b with refs := b.refs + 1 })
  | none =>
    if slot < S.nrBlock ∧ c.slotOwner (sid, slot) = none then
      some { c with blocks := update c.blocks (fid, blockIdx) (some (newBlock fid blockIdx sid slot)),
                    slotOwner := update c.slotOwner (sid, slot) (some (fid, blockIdx)) }
    else none

/-- `ReleaseBlock`: log the block if `need_sync`, drop the buffer reference, clear the I/O
status, and release the handle. -/
def releaseBlock (c : BlockCacheImpl α) (key : Nat × Nat) (needSync logOk : Bool) :
    BlockCacheImpl α × Status :=
  match c.blocks key with
  | none => (c, .ok)
  | some b =>
    let (c', s) := if needSync then c.logRecord b logOk else (c, .ok)
    (c'.setBlock key { b.releaseDataBlock with s := .ok, refs := b.refs - 1 }, s)

/-- The 2Q index evicts a block no caller holds and frees its slot. Modelled from the spec:
"a block in state Locked is never evicted"; the 2Q cache is not in the source tree, and any
unheld block may go. -/
def evict (c : BlockCacheImpl α) (key : Nat × Nat) : Option (BlockCacheImpl α) :=
  match c.blocks key with
  | some b =>
    if b.refs = 0 then
      some { c with blocks := update c.blocks key none,
                    slotOwner := update c.slotOwner (b.sid, b.cacheBlockIdx) none }
    else none
  | none => none

/-- What survives a restart: the data-set files and the metadata DB. -/
def restart (c : BlockCacheImpl α) : BlockCacheImpl α where
  blocks := fun _ => none
  slotOwner := fun _ => none
  loaded := fun _ => false
  dataSetFile := c.dataSetFile
  dsRecord := c.dsRecord

end BlockCacheImpl

end Ops

/-! ## `BlockCacheRandomAccessFile::Read` -/

/-- Where a `Read` is. The lists are what is left of the loop over `c_valid`, `c_miss` or
`c_locked`. -/
inductive ReadPc where
  | queue (blockIdx : Nat)
  | dispatch
  | waitValid (rest : List Nat)
  | waitDfs (rest : List Nat)
  | scheduleFill
  | waitFill (rest : List Nat)
  | waitLocked (rest : List Nat)
  | fillUser
  | releaseMiss (rest : List Nat)
  | releaseValid (rest : List Nat)
  | releaseLocked (rest : List Nat)
  | degrade
  | done
  deriving DecidableEq, Repr

/-- A running `Read(offset, n)` of file `fid`: its status `s`, the block lists and the bytes
it hands back. -/
structure Reader (α : Type) where
  fid : Nat
  offset : Nat
  n : Nat
  s : Status
  cMiss : List Nat
  cValid : List Nat
  cLocked : List Nat
  result : List α
  pc : ReadPc

namespace Reader

/-- `begin = offset / block_size`. -/
def beginIdx (B : Nat) (r : Reader α) : Nat := r.offset / B

/-- `end = (offset + n) / block_size`. -/
def endIdx (B : Nat) (r : Reader α) : Nat := (r.offset + r.n) / B

/-- `if (!block->s.ok() && s.ok()) s = block->s;` -/
def degradeWith (r : Reader α) (s : Status) : Reader α :=
  if !s.isOk && r.s.isOk then { r with s := s } else r

end Reader

/-- The bytes of block `idx` that `Read` copies: `remove_prefix(offset % block_size)` on the
first block and `remove_suffix(block_size - (n + offset) % block_size)` on the last. -/
def sliceBlock (B offset n beginIdx endIdx idx : Nat) (data : List α) : List α :=
  let d := if idx = beginIdx then data.drop (offset % B) else data
  if idx = endIdx then d.take (d.length - (B - (n + offset) % B)) else d

/-- The user buffer `Read` fills from the blocks `begin ..= end`; `buf idx` is the data
buffer of block `idx`. -/
def Reader.userData (B : Nat) (r : Reader α) (buf : Nat → List α) : List α :=
  ((List.range (r.endIdx B + 1 - r.beginIdx B)).map fun j =>
    sliceBlock B r.offset r.n (r.beginIdx B) (r.endIdx B) (r.beginIdx B + j)
      (buf (r.beginIdx B + j))).flatten

/-- An I/O task on the thread pools: `AsyncDfsRead`, `AsyncCacheRead` or `AsyncCacheWrite` of
block `(fid, block_idx)`. -/
inductive Task where
  | dfsRead (fid blockIdx : Nat)
  | cacheRead (fid blockIdx : Nat)
  | cacheWrite (fid blockIdx : Nat)
  deriving DecidableEq, Repr

/-- Where the writer path's `BlockCacheWritableFile::FillCache` is. -/
inductive FillPc where
  | alloc
  | log
  | write
  | release
  | done
  deriving DecidableEq, Repr

/-- A `FillCache(block_data, block_idx)` of the writer path. -/
structure Filler (α : Type) where
  fid : Nat
  blockIdx : Nat
  data : List α
  pc : FillPc

/-- The whole system: the cache, the `Read` threads, the queued I/O tasks and the writer-path
fills. -/
structure Sys (α : Type) where
  cache : BlockCacheImpl α
  readers : Nat → Option (Reader α)
  tasks : List Task
  fillers : Nat → Option (Filler α)

/-- A step of the system. `read` calls `Read` on a fresh thread; `queue`, `reader`,
`releaseMiss` and `degrade` are steps of that thread (the first takes the fresh buffer
`new char[block_size]` returns and the slot the 2Q index offers); `dfsRead`, `cacheRead` and
`cacheWrite` run a queued task; `fill` starts a writer-path `FillCache`, which then steps;
`evict` is the 2Q index dropping a block; `crash` restarts the process. -/
inductive Event (α : Type) where
  | read (r fid offset n : Nat)
  | queue (r : Nat) (fresh : List α) (slot : Nat)
  | reader (r : Nat)
  | releaseMiss (r : Nat) (logOk : Bool)
  | degrade (r : Nat) (t : Transfer)
  | dfsRead (fid blockIdx : Nat) (t : Transfer)
  | cacheRead (fid blockIdx : Nat) (t : Transfer)
  | cacheWrite (fid blockIdx : Nat) (logOk : Bool) (t : Transfer)
  | fill (w fid blockIdx : Nat) (data : List α)
  | fillAlloc (w : Nat) (fresh : List α) (slot : Nat)
  | fillLog (w : Nat) (logOk : Bool)
  | fillWrite (w : Nat) (t : Transfer)
  | fillRelease (w : Nat) (logOk : Bool)
  | evict (fid blockIdx : Nat)
  | crash

section Steps

variable (S : Setting α)

namespace Sys

def init : Sys α where
  cache := ⟨fun _ => none, fun _ => none, fun _ => false, fun _ => [], fun _ => none⟩
  readers := fun _ => none
  tasks := []
  fillers := fun _ => none

def modifyBlock (sys : Sys α) (key : Nat × Nat) (f : CacheBlock α → CacheBlock α) : Sys α :=
  { sys with cache := { sys.cache with blocks := update sys.cache.blocks key ((sys.cache.blocks key).map f) } }

def setReader (sys : Sys α) (i : Nat) (r : Reader α) : Sys α :=
  { sys with readers := update sys.readers i (some r) }

def setFiller (sys : Sys α) (w : Nat) (f : Filler α) : Sys α :=
  { sys with fillers := update sys.fillers w (some f) }

/-- One iteration of `Read`'s first loop, for block `idx`: `GetAndAllocBlock`, then under the
block's mutex `GetDataBlock` and the choice of list: `c_valid` (Valid and not Locked; set
Locked and CacheRead), `c_miss` (neither; set Locked and DfsRead) or `c_locked`. -/
def queueBlock (sys : Sys α) (i : Nat) (r : Reader α) (idx : Nat) (fresh : List α) (slot : Nat) :
    Option (Sys α) :=
  if fresh.length = S.blockSize then
    match sys.cache.getAndAllocBlock S r.fid idx slot with
    | none => none
    | some c =>
      match c.blocks (r.fid, idx) with
      | none => none
      | some b =>
        let b := b.getDataBlock fresh []
        let next : ReadPc := if idx = r.endIdx S.blockSize then .dispatch else .queue (idx + 1)
        let (b, r) :=
          if !b.state.locked && b.state.valid then
            ({ b with state := { b.state with locked := true, cacheRead := true } },
              { r with cValid := r.cValid ++ [idx], pc := next })
          else if !b.state.locked then
            ({ b with state := { b.state with locked := true, dfsRead := true } },
              { r with cMiss := r.cMiss ++ [idx], pc := next })
          else (b, { r with cLocked := r.cLocked ++ [idx], pc := next })
        some ({ sys with cache := c.setBlock (r.fid, idx) b }.setReader i r)
  else none

/-- A step of `Read` that needs nothing from outside: scheduling the tasks, one wait of the
loops over `c_valid`, `c_miss` and `c_locked`, filling the user buffer, and releasing a block
of `c_valid` or `c_locked`. -/
def readerStep (sys : Sys α) (i : Nat) (r : Reader α) : Option (Sys α) :=
  let key := fun idx => (r.fid, idx)
  match r.pc with
  | .dispatch =>
    some ({ sys with tasks := sys.tasks ++ r.cMiss.map (Task.dfsRead r.fid)
        ++ r.cValid.map (Task.cacheRead r.fid) }.setReader i { r with pc := .waitValid r.cValid })
  | .waitValid [] => some (sys.setReader i { r with pc := .waitDfs r.cMiss })
  | .waitValid (idx :: rest) =>
    match sys.cache.blocks (key idx) with
    | some b =>
      if b.state.cacheRead then none
      else some ((sys.modifyBlock (key idx) fun b =>
          { b with state := { b.state with locked := false } }).setReader i
        { r.degradeWith b.s with pc := .waitValid rest })
    | none => none
  | .waitDfs [] => some (sys.setReader i { r with pc := .scheduleFill })
  | .waitDfs (idx :: rest) =>
    match sys.cache.blocks (key idx) with
    | some b =>
      if b.state.dfsRead then none
      else some ((sys.modifyBlock (key idx) fun b =>
          { b with state := { b.state with cacheFill := true } }).setReader i
        { r.degradeWith b.s with pc := .waitDfs rest })
    | none => none
  | .scheduleFill =>
    some ({ sys with tasks := sys.tasks ++ r.cMiss.map (Task.cacheWrite r.fid) }.setReader i
      { r with pc := .waitFill r.cMiss })
  | .waitFill [] => some (sys.setReader i { r with pc := .waitLocked r.cLocked })
  | .waitFill (idx :: rest) =>
    match sys.cache.blocks (key idx) with
    | some b =>
      if b.state.cacheFill then none
      else if b.s.isOk then
        some ((sys.modifyBlock (key idx) fun b =>
            { b with state := { b.state with valid := true, locked := false } }).setReader i
          { r with pc := .waitFill rest })
      else
        some ((sys.modifyBlock (key idx) fun b =>
            { b with state := { b.state with locked := false } }).setReader i
          { r.degradeWith b.s with pc := .waitFill rest })
    | none => none
  | .waitLocked [] => some (sys.setReader i { r with pc := .fillUser })
  | .waitLocked (idx :: rest) =>
    match sys.cache.blocks (key idx) with
    | some b =>
      if b.state.locked then none
      else some (sys.setReader i { r with pc := .waitLocked rest })
    | none => none
  | .fillUser =>
    some (sys.setReader i { r with
      result := r.userData S.blockSize fun idx =>
        ((sys.cache.blocks (key idx)).map CacheBlock.dataBlock).getD []
      pc := .releaseMiss r.cMiss })
  | .releaseMiss [] => some (sys.setReader i { r with pc := .releaseValid r.cValid })
  | .releaseValid [] => some (sys.setReader i { r with pc := .releaseLocked r.cLocked })
  | .releaseValid (idx :: rest) =>
    some ({ sys with cache := (sys.cache.releaseBlock (key idx) false false).1 }.setReader i
      { r with pc := .releaseValid rest })
  | .releaseLocked [] => some (sys.setReader i { r with pc := .degrade })
  | .releaseLocked (idx :: rest) =>
    some ({ sys with cache := (sys.cache.releaseBlock (key idx) false false).1 }.setReader i
      { r with pc := .releaseLocked rest })
  | _ => none

/-- The direct DFS read `Read` falls back to when `s` is not OK: `dfs_file_->Read(offset, n)`. -/
def degradeRead (r : Reader α) : Transfer → Reader α
  | .failed => { r with s := .ioError, pc := .done }
  | t =>
    let bytes := ((S.dfs r.fid).drop r.offset).take r.n
    { r with s := .ok, result := t.apply bytes, pc := .done }

/-- `HandleDfsRead`: read block `idx` of the file from the DFS into the block's buffer, set
`block->s`, clear DfsRead. -/
def handleDfsRead (b : CacheBlock α) (t : Transfer) : CacheBlock α :=
  let bytes := ((S.dfs b.fid).drop (b.blockIdx * S.blockSize)).take S.blockSize
  { b with dataBlock := overwrite b.dataBlock (t.apply bytes),
           s := if t = .failed then .ioError else .ok,
           state := { b.state with dfsRead := false } }

/-- One step of the writer path's `FillCache`: `GetAndAllocBlock` and, under the block's mutex,
`state = 0` and `GetDataBlock(block_size, block_data)`; then `s = LogRecord(block)`; then, if
`s` is OK, `s = FillCache(block)` and, if that is OK, `state = kCacheBlockValid`; then
`ReleaseBlock(block, true)`. -/
def fillAlloc (sys : Sys α) (w : Nat) (f : Filler α) (fresh : List α) (slot : Nat) :
    Option (Sys α) :=
  if fresh.length = S.blockSize then
    match sys.cache.getAndAllocBlock S f.fid f.blockIdx slot with
    | none => none
    | some c =>
      match c.blocks (f.fid, f.blockIdx) with
      | none => none
      | some b =>
        let b := { b with state := .empty }.getDataBlock fresh f.data
        some ({ sys with cache := c.setBlock (f.fid, f.blockIdx) b }.setFiller w
          { f with pc := .log })
  else none

def step (sys : Sys α) : Event α → Option (Sys α)
  | .read i fid offset n =>
    match sys.readers i with
    | none => some (sys.setReader i
        ⟨fid, offset, n, .ok, [], [], [], [], .queue (offset / S.blockSize)⟩)
    | some _ => none
  | .queue i fresh slot =>
    match sys.readers i with
    | some r =>
      match r.pc with
      | .queue idx => sys.queueBlock S i r idx fresh slot
      | _ => none
    | none => none
  | .reader i =>
    match sys.readers i with
    | some r => sys.readerStep S i r
    | none => none
  | .releaseMiss i logOk =>
    match sys.readers i with
    | some r =>
      match r.pc with
      | .releaseMiss (idx :: rest) =>
        some ({ sys with cache := (sys.cache.releaseBlock (r.fid, idx) true logOk).1 }.setReader i
          { r with pc := .releaseMiss rest })
      | _ => none
    | none => none
  | .degrade i t =>
    match sys.readers i with
    | some r =>
      match r.pc with
      | .degrade =>
        some (sys.setReader i (if r.s.isOk then { r with pc := .done } else degradeRead S r t))
      | _ => none
    | none => none
  | .dfsRead fid idx t =>
    if Task.dfsRead fid idx ∈ sys.tasks then
      some ({ sys with tasks := sys.tasks.erase (.dfsRead fid idx) }.modifyBlock (fid, idx)
        fun b => handleDfsRead S b t)
    else none
  | .cacheRead fid idx t =>
    if Task.cacheRead fid idx ∈ sys.tasks then
      match sys.cache.blocks (fid, idx) with
      | some b =>
        let (data, s) := sys.cache.readCache b t
        some { sys with tasks := sys.tasks.erase (.cacheRead fid idx),
                        cache := sys.cache.setBlock (fid, idx)
                          { b with dataBlock := data, s := s,
                                   state := { b.state with cacheRead := false } } }
      | none => none
    else none
  | .cacheWrite fid idx logOk t =>
    if Task.cacheWrite fid idx ∈ sys.tasks then
      match sys.cache.blocks (fid, idx) with
      | some b =>
        let (c, s) := sys.cache.logRecord b logOk
        let (c, s) := if s.isOk then c.fillCache b t else (c, s)
        some { sys with tasks := sys.tasks.erase (.cacheWrite fid idx),
                        cache := c.setBlock (fid, idx)
                          { b with s := s, state := { b.state with cacheFill := false } } }
      | none => none
    else none
  | .fill w fid idx data =>
    match sys.fillers w with
    | none => some (sys.setFiller w ⟨fid, idx, data, .alloc⟩)
    | some _ => none
  | .fillAlloc w fresh slot =>
    match sys.fillers w with
    | some f => if f.pc = .alloc then sys.fillAlloc S w f fresh slot else none
    | none => none
  | .fillLog w logOk =>
    match sys.fillers w with
    | some f =>
      match f.pc, sys.cache.blocks (f.fid, f.blockIdx) with
      | .log, some b =>
        let (c, s) := sys.cache.logRecord b logOk
        some ({ sys with cache := c.setBlock (f.fid, f.blockIdx) { b with s := s } }.setFiller w
          { f with pc := .write })
      | _, _ => none
    | none => none
  | .fillWrite w t =>
    match sys.fillers w with
    | some f =>
      match f.pc, sys.cache.blocks (f.fid, f.blockIdx) with
      | .write, some b =>
        if b.s.isOk then
          let (c, s) := sys.cache.fillCache b t
          let b := { b with s := s, state := if s.isOk then .validOnly else b.state }
          some ({ sys with cache := c.setBlock (f.fid, f.blockIdx) b }.setFiller w
            { f with pc := .release })
        else some (sys.setFiller w { f with pc := .release })
      | _, _ => none
    | none => none
  | .fillRelease w logOk =>
    match sys.fillers w with
    | some f =>
      if f.pc = .release then
        some ({ sys with cache := (sys.cache.releaseBlock (f.fid, f.blockIdx) true logOk).1 }.setFiller w
          { f with pc := .done })
      else none
    | none => none
  | .evict fid idx =>
    (sys.cache.evict (fid, idx)).map fun c => { sys with cache := c }
  | .crash =>
    some { cache := sys.cache.restart, readers := fun _ => none, tasks := [],
           fillers := fun _ => none }

def run (sys : Sys α) : List (Event α) → Option (Sys α)
  | [] => some sys
  | e :: es => (sys.step S e).bind fun sys' => sys'.run es

end Sys

end Steps

/-! ## What the cache promises -/

/-- The DFS bytes of block `idx` of file `fid`: `block_size` bytes from `idx * block_size`,
fewer at the end of the file. -/
def Setting.dfsBlock (S : Setting α) (fid idx : Nat) : List α :=
  ((S.dfs fid).drop (idx * S.blockSize)).take S.blockSize

/-- A finished `Read(offset, n)` inside its file that returned OK handed back the DFS bytes
`[offset, offset + n)`. -/
def Reader.ReturnedDfsBytes (S : Setting α) (r : Reader α) : Prop :=
  r.pc = .done → r.s = .ok → r.offset + r.n ≤ (S.dfs r.fid).length →
    r.result = ((S.dfs r.fid).drop r.offset).take r.n

instance [DecidableEq α] (S : Setting α) (r : Reader α) : Decidable (r.ReturnedDfsBytes S) :=
  inferInstanceAs (Decidable (_ → _ → _ → _))

/-- Every block in memory with the Valid bit, and every `DS#` record with the Valid bit, names
a block whose DFS bytes begin its slot. -/
structure BlockCacheImpl.ValidSlotsHold (S : Setting α) (c : BlockCacheImpl α) : Prop where
  blocks : ∀ key b, c.blocks key = some b → b.state.valid →
    S.dfsBlock b.fid b.blockIdx <+: c.dataSetFile (b.sid, b.cacheBlockIdx)
  records : ∀ slot r, c.dsRecord slot = some r → r.state.valid →
    S.dfsBlock r.fid r.blockIdx <+: c.dataSetFile slot

/-- One file of two bytes `[7, 7]`, blocks of two bytes, one data set of two slots. -/
def twoByteFile : Setting Nat := ⟨2, 2, fun _ _ => 0, fun _ => [7, 7]⟩

/-- A `Read` can return OK with bytes the DFS never gave. (a) The DFS read of a miss fails;
`HandleCacheWrite` overwrites `block->s` with the OK of `LogRecord` and `FillCache`, so the
block turns Valid over the fresh buffer, and the next `Read` of the block copies it from the
SSD. (b) A `Read` that found the block Locked waits for the holder, whose DFS read failed, and
copies the buffer without looking at `block->s`. -/
theorem read_returns_stale_buffer_ok :
    let failedRead : List (Event Nat) := [.read 0 0 0 1, .queue 0 [0, 0] 0, .reader 0, .reader 0,
      .dfsRead 0 0 .failed, .reader 0, .reader 0, .reader 0, .cacheWrite 0 0 true .full,
      .reader 0, .reader 0, .reader 0, .reader 0, .releaseMiss 0 true, .reader 0, .reader 0,
      .reader 0, .degrade 0 .full,
      .read 1 0 0 1, .queue 1 [0, 0] 1, .reader 1, .cacheRead 0 0 .full, .reader 1, .reader 1,
      .reader 1, .reader 1, .reader 1, .reader 1, .reader 1, .reader 1, .reader 1, .reader 1,
      .reader 1, .degrade 1 .full]
    let lockedWaiter : List (Event Nat) := [.read 0 0 0 1, .queue 0 [0, 0] 0, .read 1 0 0 1,
      .queue 1 [0, 0] 1, .reader 0, .reader 0, .dfsRead 0 0 .failed, .reader 0, .reader 0,
      .reader 0, .cacheWrite 0 0 false .full, .reader 0,
      .reader 1, .reader 1, .reader 1, .reader 1, .reader 1, .reader 1, .reader 1, .reader 1,
      .reader 1, .reader 1, .reader 1, .reader 1, .degrade 1 .full]
    (∃ sys, Sys.init.run twoByteFile failedRead = some sys ∧
      ∃ r, sys.readers 1 = some r ∧ ¬r.ReturnedDfsBytes twoByteFile) ∧
    (∃ sys, Sys.init.run twoByteFile lockedWaiter = some sys ∧
      ∃ r, sys.readers 1 = some r ∧ ¬r.ReturnedDfsBytes twoByteFile) :=
  ⟨⟨_, rfl, _, rfl, by decide⟩, ⟨_, rfl, _, rfl, by decide⟩⟩

/-- A block and its `DS#` record can carry the Valid bit over a slot that does not hold the
block's DFS bytes. (a) The DFS read of a miss fails, and `HandleCacheWrite` overwrites
`block->s` with the OK of `LogRecord` and `FillCache`: the fresh buffer is written to the slot
and the block turns Valid. (b) No DFS read fails, but both `pwrite`s to the slot do: the
second reader's `HandleCacheWrite` sets `block->s` to the error, a reader that held the block
from before releases it and `ReleaseBlock` clears `block->s`, and the second reader then sets
Valid over a slot never written. -/
theorem valid_slot_misses_dfs_bytes :
    let clearedStatus : List (Event Nat) := [.read 0 0 0 1, .queue 0 [0, 0] 0, .read 1 0 0 1,
      .queue 1 [0, 0] 1, .reader 0, .reader 0, .dfsRead 0 0 .full, .reader 0, .reader 0,
      .reader 0, .cacheWrite 0 0 true .failed, .reader 0,
      .reader 1, .reader 1, .reader 1, .reader 1, .reader 1, .reader 1, .reader 1, .reader 1,
      .reader 1, .reader 1,
      .read 2 0 0 1, .queue 2 [0, 0] 2, .reader 2, .reader 2, .dfsRead 0 0 .full, .reader 2,
      .reader 2, .reader 2, .cacheWrite 0 0 true .failed, .reader 1, .reader 2, .reader 2,
      .reader 2, .reader 2, .releaseMiss 2 true]
    let failedRead : List (Event Nat) := [.read 0 0 0 1, .queue 0 [0, 0] 0, .reader 0, .reader 0,
      .dfsRead 0 0 .failed, .reader 0, .reader 0, .reader 0, .cacheWrite 0 0 true .full,
      .reader 0, .reader 0, .reader 0, .reader 0, .releaseMiss 0 true]
    (∃ sys, Sys.init.run twoByteFile failedRead = some sys ∧
      (∃ key blk, sys.cache.blocks key = some blk ∧ blk.state.valid ∧
        ¬twoByteFile.dfsBlock blk.fid blk.blockIdx <+:
          sys.cache.dataSetFile (blk.sid, blk.cacheBlockIdx)) ∧
      ∃ slot r, sys.cache.dsRecord slot = some r ∧ r.state.valid ∧
        ¬twoByteFile.dfsBlock r.fid r.blockIdx <+: sys.cache.dataSetFile slot) ∧
    (∃ sys, Sys.init.run twoByteFile clearedStatus = some sys ∧
      (∃ key blk, sys.cache.blocks key = some blk ∧ blk.state.valid ∧
        ¬twoByteFile.dfsBlock blk.fid blk.blockIdx <+:
          sys.cache.dataSetFile (blk.sid, blk.cacheBlockIdx)) ∧
      ∃ slot r, sys.cache.dsRecord slot = some r ∧ r.state.valid ∧
        ¬twoByteFile.dfsBlock r.fid r.blockIdx <+: sys.cache.dataSetFile slot) :=
  ⟨⟨_, rfl, ⟨(0, 0), _, rfl, by decide⟩, ⟨(0, 0), _, rfl, by decide⟩⟩,
    ⟨_, rfl, ⟨(0, 0), _, rfl, by decide⟩, ⟨(0, 0), _, rfl, by decide⟩⟩⟩

end Leveldb.BlockCache
