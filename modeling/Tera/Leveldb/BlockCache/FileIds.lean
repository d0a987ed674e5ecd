import Mathlib.Data.Finset.Card
import Mathlib.Logic.Function.Basic

/-!
# File ids of the persistent cache: `FileId`, `DeleteFile`, `AllocFileId` and `LoadCache`

A cached file is known by a 64-bit id, kept in the metadata DB as `FNAME#<fname> -> fid`.
`AllocFileId` hands out `++new_fid_` and, whenever `new_fid_ - prev_fid_` reaches
`fid_batch_num`, first writes `FID# -> new_fid_`; `LoadCache` starts each process from
`prev_fid_ = FID#` and `new_fid_ = prev_fid_ + fid_batch_num`. Writes of one key are serialised
by `LockAndPut`: the first caller puts while later callers wait and then read the key back.

Each call runs as a thread with a program counter. A step under `mu_` runs from taking the
mutex to its next release; the metadata DB's `Get`, `Put` and `Delete` take their outcome from
the step. `log` is what the callers have seen so far: the ids `AllocFileId` and `FileId`
returned and the `DeleteFile`s that returned OK.
-/
namespace Leveldb.BlockCache.Fid

open Function (update)

/-- A key of `lock_key_`: `FID#` or `FNAME#<fname>`. A `kDeleteDBKey` of `FNAME#<fname>`
encodes to the same key as a `kDBKey` of it. -/
inductive LockKey where
  | fid
  | fname (name : String)
  deriving DecidableEq, Repr

/-- A `Waiter`: `wait_num` and `done`. -/
structure Waiter where
  waitNum : Nat
  done : Bool
  deriving DecidableEq, Repr

/-- The `FID#` and `FNAME#` records of the metadata DB. -/
structure MetaDb where
  fid : Option Nat
  fname : String → Option Nat

/-- Where a `FileId` or `DeleteFile` call is. `put k` and `wait k` are the two sides of
`LockAndPut` of key `k` with `mu_` released; `relock k owner val` takes `mu_` back with the
value `PutContentAfterLock` or `GetContentAfterWait` left in `val`, `none` for a failed
status. -/
inductive CallerPc where
  | getName
  | alloc
  | put (key : LockKey)
  | wait (key : LockKey)
  | relock (key : LockKey) (owner : Bool) (val : Option Nat)
  | deleteBegin
  | deletePut
  | deleteWait
  | deleteRelock (owner ok : Bool)
  | done
  deriving DecidableEq, Repr

/-- A `FileId(name)` or `DeleteFile(name)` call: the id `AllocFileId` gave it and the
`lock_val` of its `FID#` put. -/
structure Caller where
  name : String
  fid : Nat
  lockVal : Nat
  pc : CallerPc
  deriving DecidableEq, Repr

/-- What a caller sees: an id `AllocFileId` returned, an id `FileId(name)` returned, or a
`DeleteFile(name)` that returned OK. -/
inductive Seen where
  | alloc (fid : Nat)
  | fileId (name : String) (fid : Nat)
  | deleted (name : String)
  deriving DecidableEq, Repr

/-- The state of `BlockCacheImpl` as these calls use it. `db` survives a restart. -/
structure Sys where
  db : MetaDb
  newFid : Nat
  prevFid : Nat
  lockKey : LockKey → Option Waiter
  callers : Nat → Option Caller
  log : List Seen

/-- A step: a call of `FileId` or `DeleteFile` on a fresh thread; a `Get` (or, for a
`DeleteFile` waiter, the wake-up) by a thread; a `Put` or `Delete` by a thread; a thread's run
under `mu_`; a restart of the process, with the outcome of `LoadCache`'s `Get` of `FID#`. -/
inductive Event where
  | fileId (t : Nat) (name : String)
  | deleteFile (t : Nat) (name : String)
  | get (t : Nat) (ok : Bool)
  | put (t : Nat) (ok : Bool)
  | locked (t : Nat)
  | restart (getOk : Bool)
  deriving DecidableEq, Repr

/-- The first half of `LockAndPut`, under `mu_`: join the waiter of the key, or become its
owner. -/
def register (lk : LockKey → Option Waiter) (key : LockKey) :
    (LockKey → Option Waiter) × Bool :=
  match lk key with
  | some w => (update lk key (some { w with waitNum := w.waitNum + 1 }), false)
  | none => (update lk key (some ⟨1, false⟩), true)

/-- The second half of `LockAndPut`, back under `mu_`: `--wait_num`, and the last one out
erases the key; an owner with waiters left signals them. -/
def unregister (lk : LockKey → Option Waiter) (key : LockKey) (owner : Bool) :
    LockKey → Option Waiter :=
  match lk key with
  | some w =>
    if w.waitNum - 1 = 0 then update lk key none
    else update lk key (some ⟨w.waitNum - 1, w.done || owner⟩)
  | none => lk

section Steps

variable (batch : Nat)

namespace Sys

/-- `LoadCache` on a metadata DB: `prev_fid_` is `FID#`, or `0` when the `Get` fails;
`new_fid_ = prev_fid_ + fid_batch_num`. -/
def loadCache (db : MetaDb) (log : List Seen) (getOk : Bool) : Sys :=
  let prev := if getOk then db.fid.getD 0 else 0
  { db := db, newFid := prev + batch, prevFid := prev, lockKey := fun _ => none,
    callers := fun _ => none, log := log }

def init : Sys := loadCache batch ⟨none, fun _ => none⟩ [] true

def setCaller (sys : Sys) (t : Nat) (c : Caller) : Sys :=
  { sys with callers := update sys.callers t (some c) }

/-- `LockAndPut` of `key` by caller `c` on thread `t`, up to the release of `mu_`: the caller
goes on as owner (`ifOwner`) or as waiter (`ifWaiter`). -/
def lockAndPut (sys : Sys) (t : Nat) (c : Caller) (key : LockKey) (ifOwner ifWaiter : CallerPc) :
    Sys :=
  let (lk, owner) := register sys.lockKey key
  { sys with lockKey := lk }.setCaller t { c with pc := if owner then ifOwner else ifWaiter }

/-- The test of `AllocFileId`'s loop, under `mu_`: while `new_fid_ - prev_fid_ >=
fid_batch_num`, `LockAndPut` of `FID# -> new_fid_`; after the loop `AllocFileId` returns the
caller's id and `FileId` goes on with `LockAndPut` of `FNAME#<name> -> fid`. -/
def allocLoop (sys : Sys) (t : Nat) (c : Caller) : Sys :=
  if batch ≤ sys.newFid - sys.prevFid then
    sys.lockAndPut t { c with lockVal := sys.newFid } .fid (.put .fid) (.wait .fid)
  else
    { sys with log := sys.log ++ [Seen.alloc c.fid] }.lockAndPut t c (.fname c.name)
      (.put (.fname c.name)) (.wait (.fname c.name))

/-- A run of thread `t` under `mu_`, from taking the mutex to its next release. A failed
`assert(s.ok())` in `FileId` stops the thread. -/
def lockedStep (sys : Sys) (t : Nat) (c : Caller) : Option Sys :=
  match c.pc with
  | .alloc =>
    let fid := sys.newFid + 1
    some ({ sys with newFid := fid }.allocLoop batch t { c with fid := fid })
  | .relock .fid owner val =>
    let sys := { sys with lockKey := unregister sys.lockKey .fid owner,
                          prevFid := val.getD sys.prevFid }
    some (sys.allocLoop batch t c)
  | .relock (.fname name) owner val =>
    match val with
    | some v =>
      some ({ sys with lockKey := unregister sys.lockKey (.fname name) owner,
                       log := sys.log ++ [Seen.fileId c.name v] }.setCaller t { c with pc := .done })
    | none => none
  | .deleteBegin => some (sys.lockAndPut t c (.fname c.name) .deletePut .deleteWait)
  | .deleteRelock owner ok =>
    some ({ sys with lockKey := unregister sys.lockKey (.fname c.name) owner,
                     log := sys.log ++ if ok then [Seen.deleted c.name] else [] }.setCaller t
      { c with pc := .done })
  | _ => none

def signalled (sys : Sys) (key : LockKey) : Bool :=
  (sys.lockKey key).any Waiter.done

def step (sys : Sys) : Event → Option Sys
  | .fileId t name =>
    match sys.callers t with
    | none => some (sys.setCaller t ⟨name, 0, 0, .getName⟩)
    | some _ => none
  | .deleteFile t name =>
    match sys.callers t with
    | none => some (sys.setCaller t ⟨name, 0, 0, .deleteBegin⟩)
    | some _ => none
  | .get t ok =>
    match sys.callers t with
    | some c =>
      match c.pc with
      | .getName =>
        match (if ok then sys.db.fname c.name else none) with
        | some v => some ({ sys with log := sys.log ++ [Seen.fileId c.name v] }.setCaller t
            { c with pc := .done })
        | none => some (sys.setCaller t { c with pc := .alloc })
      | .wait .fid =>
        if sys.signalled .fid then
          some (sys.setCaller t { c with pc := .relock .fid false (if ok then sys.db.fid else none) })
        else none
      | .wait (.fname name) =>
        if sys.signalled (.fname name) then
          some (sys.setCaller t
            { c with pc := .relock (.fname name) false (if ok then sys.db.fname name else none) })
        else none
      | .deleteWait =>
        if sys.signalled (.fname c.name) then
          some (sys.setCaller t { c with pc := .deleteRelock false true })
        else none
      | _ => none
    | none => none
  | .put t ok =>
    match sys.callers t with
    | some c =>
      match c.pc with
      | .put .fid =>
        if ok then
          some ({ sys with db := { sys.db with fid := some c.lockVal } }.setCaller t
            { c with pc := .relock .fid true (some c.lockVal) })
        else some (sys.setCaller t { c with pc := .relock .fid true none })
      | .put (.fname name) =>
        if ok then
          some ({ sys with db := { sys.db with fname := update sys.db.fname name (some c.fid) } }.setCaller t
            { c with pc := .relock (.fname name) true (some c.fid) })
        else some (sys.setCaller t { c with pc := .relock (.fname name) true none })
      | .deletePut =>
        if ok then
          some ({ sys with db := { sys.db with fname := update sys.db.fname c.name none } }.setCaller t
            { c with pc := .deleteRelock true true })
        else some (sys.setCaller t { c with pc := .deleteRelock true false })
      | _ => none
    | none => none
  | .locked t =>
    match sys.callers t with
    | some c => sys.lockedStep batch t c
    | none => none
  | .restart getOk => some (loadCache batch sys.db sys.log getOk)

def run (sys : Sys) : List Event → Option Sys
  | [] => some sys
  | e :: es => (sys.step batch e).bind fun sys' => sys'.run es

end Sys

end Steps

/-! ## What the callers are promised -/

/-- Two ids that `FileId` returned are equal only if they were for one name and no
`DeleteFile` of the name returned OK in between. -/
def FileIdsDistinct (log : List Seen) : Prop :=
  ∀ (i j : Nat) name name' fid, i < j → log[i]? = some (Seen.fileId name fid) →
    log[j]? = some (Seen.fileId name' fid) →
      name = name' ∧ ∀ k : Nat, i < k → k < j → log[k]? ≠ some (Seen.deleted name)

/-- No id that `AllocFileId` returned, in this process or an earlier one, comes back. -/
def AllocsDistinct (log : List Seen) : Prop :=
  ∀ (i j : Nat) fid, i < j → log[i]? = some (Seen.alloc fid) → log[j]? ≠ some (Seen.alloc fid)

/-- With `fid_batch_num = 3`: (a) `FileId("a")` gets id 4 and `FID#` holds 4; after a restart
whose `LoadCache` fails to read `FID#`, `prev_fid_` is 0 and `FileId("b")` gets id 4 again.
(b) `FileId("a")` puts `FNAME#a -> 4`; a `DeleteFile("a")` that arrives meanwhile waits on the
same lock key, reads nothing back, and returns OK without deleting; `FileId("a")` then reads 4
again. -/
theorem fileId_repeats_after_restart_or_delete :
    let restartLost : List Event := [.fileId 0 "a", .get 0 true, .locked 0, .put 0 true,
      .locked 0, .put 0 true, .locked 0, .restart false, .fileId 1 "b", .get 1 true, .locked 1,
      .put 1 true, .locked 1, .put 1 true, .locked 1]
    let deleteAbsorbed : List Event := [.fileId 0 "a", .get 0 true, .locked 0, .put 0 true,
      .locked 0, .deleteFile 1 "a", .locked 1, .put 0 true, .locked 0, .get 1 true, .locked 1,
      .fileId 2 "a", .get 2 true]
    (∃ sys, (Sys.init 3).run 3 restartLost = some sys ∧
      ¬AllocsDistinct sys.log ∧ ¬FileIdsDistinct sys.log) ∧
    ∃ sys, (Sys.init 3).run 3 deleteAbsorbed = some sys ∧ ¬FileIdsDistinct sys.log :=
  ⟨⟨_, rfl, fun h => h 0 2 4 (by decide) rfl rfl,
      fun h => absurd (h 1 3 "a" "b" 4 (by decide) rfl rfl).1 (by decide)⟩,
    _, rfl, fun h => (h 1 3 "a" "a" 4 (by decide) rfl rfl).2 2 (by decide) (by decide) rfl⟩

/-! ## The `FID#` arithmetic

When every restart reads `FID#` back, `AllocFileId` never returns an id twice. `FID#` only
grows: its writes go through `LockAndPut`, one owner at a time, each with the `new_fid_` of its
registration. `prev_fid_` never exceeds `FID#`, and `AllocFileId` returns an id only when
`new_fid_ - prev_fid_ < fid_batch_num`, so every id returned is below `FID# + fid_batch_num`,
where the next process starts. -/

/-- The caller holds a registration of `FID#` in `lock_key_`: it is in `AllocFileId`'s loop. -/
def CallerPc.onFid : CallerPc → Bool
  | .put .fid | .wait .fid | .relock .fid _ _ => true
  | _ => false

def CallerPc.ownsFid : CallerPc → Bool
  | .put .fid | .relock .fid true _ => true
  | _ => false

theorem CallerPc.onFid_of_ownsFid {pc : CallerPc} (h : pc.ownsFid) : pc.onFid := by
  rcases pc with _ | _ | ⟨_ | _⟩ | ⟨_ | _⟩ | ⟨_ | _, _ | _, _⟩ | _ | _ | _ | _ | _ <;>
    simp_all [CallerPc.ownsFid, CallerPc.onFid]

theorem allocsDistinct_append {log l : List Seen} (h : AllocsDistinct log)
    (hl : AllocsDistinct l) (hx : ∀ x, Seen.alloc x ∈ l → Seen.alloc x ∉ log) :
    AllocsDistinct (log ++ l) := by
  intro i j x hij hi hj
  rcases Nat.lt_or_ge j log.length with hjl | hjl
  · rw [List.getElem?_append_left (by omega)] at hi
    rw [List.getElem?_append_left hjl] at hj
    exact h i j x hij hi hj
  rw [List.getElem?_append_right hjl] at hj
  rcases Nat.lt_or_ge i log.length with hil | hil
  · rw [List.getElem?_append_left hil] at hi
    exact hx x (List.getElem?_mem hj) (List.getElem?_mem hi)
  · rw [List.getElem?_append_right hil] at hi
    exact hl _ _ x (by omega) hi hj

theorem allocsDistinct_singleton (e : Seen) : AllocsDistinct [e] := by
  intro i j x hij _ hj
  simp [List.getElem?_eq_none (show [e].length ≤ j by simp; omega)] at hj

theorem update_eq_some {f : Nat → Option Caller} {t t₁ : Nat} {c c₁ : Caller} :
    update f t (some c) t₁ = some c₁ ↔ t₁ = t ∧ c = c₁ ∨ t₁ ≠ t ∧ f t₁ = some c₁ := by
  by_cases h : t₁ = t <;> simp [Function.update_apply, h]

@[simp] theorem register_of_ne {lk : LockKey → Option Waiter} {key key' : LockKey}
    (h : key' ≠ key) : (register lk key).1 key' = lk key' := by
  unfold register; split <;> simp [Function.update_noteq h]

@[simp] theorem unregister_of_ne {lk : LockKey → Option Waiter} {key key' : LockKey} {owner : Bool}
    (h : key' ≠ key) : unregister lk key owner key' = lk key' := by
  simp only [unregister]
  cases lk key with
  | none => rfl
  | some w => dsimp only; split <;> simp [Function.update_noteq h]

theorem Sys.lockAndPut_eq (sys : Sys) (t : Nat) (c : Caller) (key : LockKey) (a b : CallerPc) :
    sys.lockAndPut t c key a b = { sys with lockKey := (register sys.lockKey key).1 }.setCaller t
      { c with pc := if (register sys.lockKey key).2 then a else b } := rfl

theorem Sys.allocLoop_setCaller (batch : Nat) (sys : Sys) (t : Nat) (c c₀ : Caller) :
    (sys.setCaller t c₀).allocLoop batch t c = sys.allocLoop batch t c := by
  simp only [Sys.allocLoop, Sys.lockAndPut_eq, Sys.setCaller, Function.update_idem]

theorem unregister_self {lk : LockKey → Option Waiter} {key : LockKey} {w : Waiter} {owner : Bool}
    (h : lk key = some w) : unregister lk key owner key =
      if w.waitNum - 1 = 0 then none else some ⟨w.waitNum - 1, w.done || owner⟩ := by
  simp only [unregister, h]
  split <;> simp

section FidInv

variable {batch : Nat}

def Sys.OnFid (sys : Sys) (t : Nat) : Prop := ∃ c, sys.callers t = some c ∧ c.pc.onFid

/-- What `FID#` and the callers in `AllocFileId`'s loop keep, with `F` the value of `FID#`: the
ids returned are distinct and below both `new_fid_ + 1` and `F + fid_batch_num`; an id in the
loop is not yet returned and no other caller's; an owner puts a value between `F` and
`new_fid_`; a value read back is at most `F`; and `wait_num` bounds the callers registered, so
that `FID#` has one owner at a time. -/
structure Sys.FidInv (batch : Nat) (sys : Sys) : Prop where
  allocs : AllocsDistinct sys.log
  prev_le : sys.prevFid ≤ sys.db.fid.getD 0
  fid_le : sys.db.fid.getD 0 ≤ sys.newFid
  logged : ∀ x, Seen.alloc x ∈ sys.log → x ≤ sys.newFid ∧ x < sys.db.fid.getD 0 + batch
  loop_fid : ∀ t c, sys.callers t = some c → c.pc.onFid →
    c.fid ≤ sys.newFid ∧ Seen.alloc c.fid ∉ sys.log
  loop_distinct : ∀ t c t' c', sys.callers t = some c → sys.callers t' = some c' →
    c.pc.onFid → c'.pc.onFid → c.fid = c'.fid → t = t'
  lock_val : ∀ t c, sys.callers t = some c → c.pc = .put .fid →
    sys.db.fid.getD 0 ≤ c.lockVal ∧ c.lockVal ≤ sys.newFid
  read_back : ∀ t c o v, sys.callers t = some c → c.pc = .relock .fid o (some v) →
    v ≤ sys.db.fid.getD 0
  unlocked : sys.lockKey .fid = none → ∀ t, ¬sys.OnFid t
  count : ∀ w, sys.lockKey .fid = some w → ∀ T : Finset Nat, (∀ t ∈ T, sys.OnFid t) →
    T.card ≤ w.waitNum
  owner_unique : ∀ t c t' c', sys.callers t = some c → sys.callers t' = some c' →
    c.pc.ownsFid → c'.pc.ownsFid → t = t'

theorem Sys.onFid_setCaller {sys : Sys} {t t₁ : Nat} {c : Caller} :
    (sys.setCaller t c).OnFid t₁ ↔ t₁ = t ∧ c.pc.onFid ∨ t₁ ≠ t ∧ sys.OnFid t₁ := by
  simp only [Sys.OnFid, Sys.setCaller, update_eq_some]
  constructor
  · rintro ⟨c₁, ⟨rfl, rfl⟩ | ⟨hne, h⟩, ho⟩
    · exact .inl ⟨rfl, ho⟩
    · exact .inr ⟨hne, c₁, h, ho⟩
  · rintro (⟨rfl, ho⟩ | ⟨hne, c₁, h, ho⟩)
    · exact ⟨c, .inl ⟨rfl, rfl⟩, ho⟩
    · exact ⟨c₁, .inr ⟨hne, h⟩, ho⟩

namespace Sys.FidInv

variable {sys sys' : Sys} {t : Nat} {c c' : Caller} {x : Nat}

theorem init : (Sys.init batch).FidInv batch where
  allocs := fun _ _ _ _ h => by simp [Sys.init, Sys.loadCache] at h
  prev_le := le_rfl
  fid_le := Nat.zero_le _
  logged := by simp [Sys.init, Sys.loadCache]
  loop_fid := by simp [Sys.init, Sys.loadCache]
  loop_distinct := by simp [Sys.init, Sys.loadCache]
  lock_val := by simp [Sys.init, Sys.loadCache]
  read_back := by simp [Sys.init, Sys.loadCache]
  unlocked := by simp [Sys.OnFid, Sys.init, Sys.loadCache]
  count := by simp [Sys.init, Sys.loadCache]
  owner_unique := by simp [Sys.init, Sys.loadCache]

/-- A step that leaves `FID#`, `new_fid_`, `prev_fid_`, the lock of `FID#` and the ids returned
alone, and moves one thread to a place outside `AllocFileId`'s loop. -/
theorem frame (hi : sys.FidInv batch) (hcallers : sys'.callers = update sys.callers t (some c'))
    (hoff' : c'.pc.onFid = false) (hfid : sys'.db.fid = sys.db.fid)
    (hnew : sys'.newFid = sys.newFid) (hprev : sys'.prevFid = sys.prevFid)
    (hlk : sys'.lockKey .fid = sys.lockKey .fid)
    (hlog : ∃ l, sys'.log = sys.log ++ l ∧ ∀ x, Seen.alloc x ∉ l) : sys'.FidInv batch := by
  obtain ⟨l, hl, hnl⟩ := hlog
  have hon : ∀ t₁ c₁, sys'.callers t₁ = some c₁ → c₁.pc.onFid → sys.callers t₁ = some c₁ := by
    intro t₁ c₁ h₁ ho
    rw [hcallers, update_eq_some] at h₁
    rcases h₁ with ⟨-, rfl⟩ | ⟨-, h₁⟩
    · simp [hoff'] at ho
    · exact h₁
  have hown : ∀ t₁ c₁, sys'.callers t₁ = some c₁ → c₁.pc.ownsFid → sys.callers t₁ = some c₁ :=
    fun t₁ c₁ h₁ ho => hon t₁ c₁ h₁ (CallerPc.onFid_of_ownsFid ho)
  have honFid : ∀ t₁, sys'.OnFid t₁ → sys.OnFid t₁ :=
    fun t₁ ⟨c₁, h₁, ho⟩ => ⟨c₁, hon t₁ c₁ h₁ ho, ho⟩
  have hmem : ∀ x, Seen.alloc x ∈ sys'.log ↔ Seen.alloc x ∈ sys.log := fun x => by
    rw [hl, List.mem_append]; exact or_iff_left (hnl x)
  refine ⟨?_, ?_, ?_, ?_, ?_, ?_, ?_, ?_, ?_, ?_, ?_⟩
  · rw [hl]
    exact allocsDistinct_append hi.allocs (fun _ _ x _ h _ => hnl x (List.getElem?_mem h))
      (fun x h => absurd h (hnl x))
  · rw [hprev, hfid]; exact hi.prev_le
  · rw [hnew, hfid]; exact hi.fid_le
  · intro x hx; rw [hnew, hfid]; exact hi.logged x ((hmem x).mp hx)
  · intro t₁ c₁ h₁ ho; rw [hnew, hmem]; exact hi.loop_fid t₁ c₁ (hon t₁ c₁ h₁ ho) ho
  · intro t₁ c₁ t₂ c₂ h₁ h₂ ho₁ ho₂
    exact hi.loop_distinct t₁ c₁ t₂ c₂ (hon t₁ c₁ h₁ ho₁) (hon t₂ c₂ h₂ ho₂) ho₁ ho₂
  · intro t₁ c₁ h₁ hpc; rw [hfid, hnew]
    exact hi.lock_val t₁ c₁ (hon t₁ c₁ h₁ (by simp [hpc, CallerPc.onFid])) hpc
  · intro t₁ c₁ o v h₁ hpc; rw [hfid]
    exact hi.read_back t₁ c₁ o v (hon t₁ c₁ h₁ (by simp [hpc, CallerPc.onFid])) hpc
  · intro h t₁ ht₁; exact hi.unlocked (hlk ▸ h) t₁ (honFid t₁ ht₁)
  · intro w hw T hT; exact hi.count w (hlk ▸ hw) T fun t₁ h₁ => honFid t₁ (hT t₁ h₁)
  · intro t₁ c₁ t₂ c₂ h₁ h₂ ho₁ ho₂
    exact hi.owner_unique t₁ c₁ t₂ c₂ (hown t₁ c₁ h₁ ho₁) (hown t₂ c₂ h₂ ho₂) ho₁ ho₂


theorem lockAndPut_fname (hi : sys.FidInv batch) {name : String} {a b : CallerPc}
    (ha : a.onFid = false) (hb : b.onFid = false) :
    (sys.lockAndPut t c (.fname name) a b).FidInv batch :=
  hi.frame rfl (by dsimp only; split <;> assumption) rfl rfl rfl (register_of_ne (by simp))
    ⟨[], by simp [Sys.lockAndPut_eq, Sys.setCaller], by simp⟩

theorem bump (hi : sys.FidInv batch) : { sys with newFid := sys.newFid + 1 }.FidInv batch :=
  { hi with
    fid_le := hi.fid_le.trans (Nat.le_succ _)
    logged := fun x hx => ⟨(hi.logged x hx).1.trans (Nat.le_succ _), (hi.logged x hx).2⟩
    loop_fid := fun t c hc ho =>
      ⟨(hi.loop_fid t c hc ho).1.trans (Nat.le_succ _), (hi.loop_fid t c hc ho).2⟩
    lock_val := fun t c hc hpc =>
      ⟨(hi.lock_val t c hc hpc).1, (hi.lock_val t c hc hpc).2.trans (Nat.le_succ _)⟩ }

theorem appendAlloc (hi : sys.FidInv batch) (hle : x ≤ sys.newFid)
    (hlt : x < sys.db.fid.getD 0 + batch) (hnot : Seen.alloc x ∉ sys.log)
    (hdist : ∀ t c, sys.callers t = some c → c.pc.onFid → c.fid ≠ x) :
    { sys with log := sys.log ++ [Seen.alloc x] }.FidInv batch :=
  { hi with
    allocs := allocsDistinct_append hi.allocs (allocsDistinct_singleton _) (by simpa using hnot)
    logged := fun y hy => by
      rcases List.mem_append.mp hy with hy | hy
      · exact hi.logged y hy
      · obtain rfl : y = x := by simpa using hy
        exact ⟨hle, hlt⟩
    loop_fid := fun t c hc ho =>
      ⟨(hi.loop_fid t c hc ho).1, by simp [(hi.loop_fid t c hc ho).2, hdist t c hc ho]⟩ }

theorem raiseFid (hi : sys.FidInv batch) (hc : sys.callers t = some c) (hpc : c.pc = .put .fid) :
    { sys with db := { sys.db with fid := some c.lockVal } }.FidInv batch :=
  have hF := hi.lock_val t c hc hpc
  { hi with
    prev_le := hi.prev_le.trans hF.1
    fid_le := hF.2
    logged := fun x hx => ⟨(hi.logged x hx).1, by have := (hi.logged x hx).2; simp; omega⟩
    lock_val := fun t₁ c₁ h₁ hpc₁ => by
      obtain rfl := hi.owner_unique t₁ c₁ t c h₁ hc (by simp [hpc₁, CallerPc.ownsFid])
        (by simp [hpc, CallerPc.ownsFid])
      obtain rfl := Option.some_injective _ (h₁.symm.trans hc)
      exact ⟨le_rfl, hF.2⟩
    read_back := fun t₁ c₁ o v h₁ hpc₁ => (hi.read_back t₁ c₁ o v h₁ hpc₁).trans hF.1 }

/-- A caller in `AllocFileId`'s loop moves to another place in it, with its id and its
ownership of `FID#`. -/
theorem repc (hi : sys.FidInv batch) (hc : sys.callers t = some c) (hon : c.pc.onFid)
    (hfid : c'.fid = c.fid) (hown : c'.pc.ownsFid = c.pc.ownsFid)
    (hput : c'.pc = .put .fid → sys.db.fid.getD 0 ≤ c'.lockVal ∧ c'.lockVal ≤ sys.newFid)
    (hread : ∀ o v, c'.pc = .relock .fid o (some v) → v ≤ sys.db.fid.getD 0) :
    (sys.setCaller t c').FidInv batch := by
  have hmap : ∀ t₁ c₁, (sys.setCaller t c').callers t₁ = some c₁ → c₁.pc.onFid →
      ∃ c₀, sys.callers t₁ = some c₀ ∧ c₀.pc.onFid ∧ c₀.fid = c₁.fid ∧
        (c₁.pc.ownsFid → c₀.pc.ownsFid) := by
    intro t₁ c₁ h₁ ho
    rcases update_eq_some.mp h₁ with ⟨rfl, rfl⟩ | ⟨-, h₁⟩
    · exact ⟨c, hc, hon, hfid.symm, by simp [hown]⟩
    · exact ⟨c₁, h₁, ho, rfl, id⟩
  have honFid : ∀ t₁, (sys.setCaller t c').OnFid t₁ → sys.OnFid t₁ := fun t₁ ⟨c₁, h₁, ho⟩ =>
    let ⟨c₀, h₀, ho₀, _⟩ := hmap t₁ c₁ h₁ ho
    ⟨c₀, h₀, ho₀⟩
  refine ⟨hi.allocs, hi.prev_le, hi.fid_le, hi.logged, ?_, ?_, ?_, ?_, ?_, ?_, ?_⟩
  · intro t₁ c₁ h₁ ho
    obtain ⟨c₀, h₀, ho₀, hf, -⟩ := hmap t₁ c₁ h₁ ho
    exact hf ▸ hi.loop_fid t₁ c₀ h₀ ho₀
  · intro t₁ c₁ t₂ c₂ h₁ h₂ ho₁ ho₂ heq
    obtain ⟨c₀, h₀, ho₀, hf, -⟩ := hmap t₁ c₁ h₁ ho₁
    obtain ⟨c₀', h₀', ho₀', hf', -⟩ := hmap t₂ c₂ h₂ ho₂
    exact hi.loop_distinct t₁ c₀ t₂ c₀' h₀ h₀' ho₀ ho₀' (by rw [hf, hf', heq])
  · intro t₁ c₁ h₁ hpc
    rcases update_eq_some.mp h₁ with ⟨rfl, rfl⟩ | ⟨-, h₁⟩
    · exact hput hpc
    · exact hi.lock_val t₁ c₁ h₁ hpc
  · intro t₁ c₁ o v h₁ hpc
    rcases update_eq_some.mp h₁ with ⟨rfl, rfl⟩ | ⟨-, h₁⟩
    · exact hread o v hpc
    · exact hi.read_back t₁ c₁ o v h₁ hpc
  · exact fun h t₁ ht₁ => hi.unlocked h t₁ (honFid t₁ ht₁)
  · exact fun w hw T hT => hi.count w hw T fun t₁ h₁ => honFid t₁ (hT t₁ h₁)
  · intro t₁ c₁ t₂ c₂ h₁ h₂ ho₁ ho₂
    obtain ⟨c₀, h₀, -, -, ho₀⟩ := hmap t₁ c₁ h₁ (CallerPc.onFid_of_ownsFid ho₁)
    obtain ⟨c₀', h₀', -, -, ho₀'⟩ := hmap t₂ c₂ h₂ (CallerPc.onFid_of_ownsFid ho₂)
    exact hi.owner_unique t₁ c₀ t₂ c₀' h₀ h₀' (ho₀ ho₁) (ho₀' ho₂)


theorem leave {o : Bool} {v : Option Nat} (hi : sys.FidInv batch) (hc : sys.callers t = some c)
    (hpc : c.pc = .relock .fid o v) :
    ({ sys with lockKey := unregister sys.lockKey .fid o, prevFid := v.getD sys.prevFid }.setCaller t
      { c with pc := .alloc }).FidInv batch := by
  have hon : sys.OnFid t := ⟨c, hc, by simp [hpc, CallerPc.onFid]⟩
  obtain ⟨w, hw⟩ := Option.ne_none_iff_exists'.mp fun h => hi.unlocked h t hon
  have hmap : ∀ t₁, (sys.setCaller t { c with pc := .alloc }).OnFid t₁ → t₁ ≠ t ∧ sys.OnFid t₁ :=
    fun t₁ h₁ => (Sys.onFid_setCaller.mp h₁).resolve_left fun h => by simp [CallerPc.onFid] at h
  have hfr : (sys.setCaller t { c with pc := .alloc }).FidInv batch := hi.frame rfl rfl rfl rfl rfl rfl
    ⟨[], (List.append_nil _).symm, by simp⟩
  refine ⟨hfr.allocs, ?_, hfr.fid_le, hfr.logged, hfr.loop_fid, hfr.loop_distinct, hfr.lock_val,
    hfr.read_back, ?_, ?_, hfr.owner_unique⟩
  · cases v with
    | none => exact hi.prev_le
    | some v => exact hi.read_back t c o v hc hpc
  · intro h t₁ ht₁
    obtain ⟨hne, ht₁⟩ := hmap t₁ ht₁
    have h1 : w.waitNum - 1 = 0 := by
      by_contra hn; simp [Sys.setCaller, unregister_self hw, hn] at h
    have := hi.count w hw {t, t₁} (by simp [hon, ht₁])
    rw [Finset.card_pair (Ne.symm hne)] at this
    omega
  · intro w' hw' T hT
    have hT' : ∀ t₁ ∈ T, t₁ ≠ t ∧ sys.OnFid t₁ := fun t₁ h₁ => hmap t₁ (hT t₁ h₁)
    have hins := hi.count w hw (insert t T) (by simp [hon]; exact fun t₁ h₁ => (hT' t₁ h₁).2)
    rw [Finset.card_insert_of_not_mem fun h => (hT' t h).1 rfl] at hins
    simp only [Sys.setCaller, unregister_self hw] at hw'
    split at hw' <;> simp at hw'
    subst hw'
    simp only
    omega

/-- A caller not yet on `FID#`'s lock registers there, with an id nobody else has: `wait_num`
counts it, and it is the owner only if nobody else is on the lock. -/
theorem enter {lk : LockKey → Option Waiter} {w : Waiter} (hi : sys.FidInv batch)
    (ht : ¬sys.OnFid t) (hle : c'.fid ≤ sys.newFid) (hnot : Seen.alloc c'.fid ∉ sys.log)
    (hdist : ∀ t₁ c₁, sys.callers t₁ = some c₁ → c₁.pc.onFid → c₁.fid ≠ c'.fid) (hval : c'.lockVal = sys.newFid) (hread : ∀ o v, c'.pc ≠ .relock .fid o v)
    (hw : lk .fid = some w) (hcount : ∀ T : Finset Nat, (∀ t ∈ T, sys.OnFid t) → T.card + 1 ≤ w.waitNum)
    (hown : c'.pc.ownsFid → ∀ t₁, ¬sys.OnFid t₁) :
    ({ sys with lockKey := lk }.setCaller t c').FidInv batch := by
  have hcases : ∀ t₁ c₁, ({ sys with lockKey := lk }.setCaller t c').callers t₁ = some c₁ →
      t₁ = t ∧ c' = c₁ ∨ t₁ ≠ t ∧ sys.callers t₁ = some c₁ := fun _ _ => update_eq_some.mp
  refine ⟨hi.allocs, hi.prev_le, hi.fid_le, hi.logged, ?_, ?_, ?_, ?_, ?_, ?_, ?_⟩
  · intro t₁ c₁ h₁ ho
    rcases hcases t₁ c₁ h₁ with ⟨-, rfl⟩ | ⟨-, h₁⟩
    · exact ⟨hle, hnot⟩
    · exact hi.loop_fid t₁ c₁ h₁ ho
  · intro t₁ c₁ t₂ c₂ h₁ h₂ ho₁ ho₂ heq
    rcases hcases t₁ c₁ h₁ with ⟨rfl, rfl⟩ | ⟨-, h₁'⟩ <;>
      rcases hcases t₂ c₂ h₂ with ⟨rfl, rfl⟩ | ⟨-, h₂'⟩
    · rfl
    · exact absurd heq.symm (hdist t₂ c₂ h₂' ho₂)
    · exact absurd heq (hdist t₁ c₁ h₁' ho₁)
    · exact hi.loop_distinct t₁ c₁ t₂ c₂ h₁' h₂' ho₁ ho₂ heq
  · intro t₁ c₁ h₁ hpc
    rcases hcases t₁ c₁ h₁ with ⟨-, rfl⟩ | ⟨-, h₁⟩
    · exact ⟨hval ▸ hi.fid_le, hval.le⟩
    · exact hi.lock_val t₁ c₁ h₁ hpc
  · intro t₁ c₁ o v h₁ hpc
    rcases hcases t₁ c₁ h₁ with ⟨-, rfl⟩ | ⟨-, h₁⟩
    · exact absurd hpc (hread o _)
    · exact hi.read_back t₁ c₁ o v h₁ hpc
  · intro h
    simp [Sys.setCaller, hw] at h
  · intro w' hw' T hT
    obtain rfl : w = w' := Option.some_injective _ (hw.symm.trans hw')
    have := hcount (T.erase t) fun t₁ h₁ =>
      ((Sys.onFid_setCaller.mp (hT t₁ (Finset.mem_of_mem_erase h₁))).resolve_left
        fun h => Finset.ne_of_mem_erase h₁ h.1).2
    have := Finset.pred_card_le_card_erase (s := T) (a := t)
    omega
  · intro t₁ c₁ t₂ c₂ h₁ h₂ ho₁ ho₂
    rcases hcases t₁ c₁ h₁ with ⟨rfl, rfl⟩ | ⟨-, h₁'⟩ <;>
      rcases hcases t₂ c₂ h₂ with ⟨rfl, rfl⟩ | ⟨-, h₂'⟩
    · rfl
    · exact absurd ⟨c₂, h₂', CallerPc.onFid_of_ownsFid ho₂⟩ (hown ho₁ t₂)
    · exact absurd ⟨c₁, h₁', CallerPc.onFid_of_ownsFid ho₁⟩ (hown ho₂ t₁)
    · exact hi.owner_unique t₁ c₁ t₂ c₂ h₁' h₂' ho₁ ho₂

/-- `LockAndPut` of `FID# -> new_fid_` by a caller not yet on the lock: it becomes the owner if
the key is free and joins the waiters otherwise. -/
theorem registerFid (hi : sys.FidInv batch) (ht : ¬sys.OnFid t) (hle : c.fid ≤ sys.newFid)
    (hnot : Seen.alloc c.fid ∉ sys.log)
    (hdist : ∀ t' c', sys.callers t' = some c' → c'.pc.onFid → c'.fid ≠ c.fid) :
    (sys.lockAndPut t { c with lockVal := sys.newFid } .fid (.put .fid) (.wait .fid)).FidInv
      batch := by
  rw [Sys.lockAndPut_eq]
  unfold register
  split
  · rename_i w hw
    exact hi.enter (w := { w with waitNum := w.waitNum + 1 }) ht hle hnot hdist rfl (by simp)
      (by simp) (fun T hT => Nat.add_le_add_right (hi.count w hw T hT) 1) (by simp [CallerPc.ownsFid])
  · rename_i hw
    refine hi.enter (w := ⟨1, false⟩) ht hle hnot hdist rfl (by simp) (by simp) (fun T hT => ?_)
      fun _ => hi.unlocked hw
    rw [Finset.eq_empty_of_forall_not_mem fun t₁ h₁ => hi.unlocked hw t₁ (hT t₁ h₁)]
    rfl

theorem allocLoop (hi : sys.FidInv batch) (ht : ¬sys.OnFid t) (hle : c.fid ≤ sys.newFid)
    (hnot : Seen.alloc c.fid ∉ sys.log)
    (hdist : ∀ t' c', sys.callers t' = some c' → c'.pc.onFid → c'.fid ≠ c.fid) :
    (sys.allocLoop batch t c).FidInv batch := by
  unfold Sys.allocLoop
  split
  · exact hi.registerFid ht hle hnot hdist
  · refine (hi.appendAlloc hle ?_ hnot hdist).lockAndPut_fname rfl rfl
    have := hi.prev_le
    omega

theorem restart (hi : sys.FidInv batch) : (Sys.loadCache batch sys.db sys.log true).FidInv batch where
  allocs := hi.allocs
  prev_le := le_rfl
  fid_le := Nat.le_add_right _ _
  logged := fun x hx => ⟨(hi.logged x hx).2.le, (hi.logged x hx).2⟩
  loop_fid := by simp [Sys.loadCache]
  loop_distinct := by simp [Sys.loadCache]
  lock_val := by simp [Sys.loadCache]
  read_back := by simp [Sys.loadCache]
  unlocked := by simp [Sys.OnFid, Sys.loadCache]
  count := by simp [Sys.loadCache]
  owner_unique := by simp [Sys.loadCache]


theorem step {e : Event} (hi : sys.FidInv batch) (he : e ≠ .restart false)
    (h : sys.step batch e = some sys') : sys'.FidInv batch := by
  have hnil : ∀ l : List Seen, l = l ++ [] := fun l => (List.append_nil l).symm
  cases e with
  | fileId t name | deleteFile t name =>
    simp only [Sys.step] at h
    split at h <;> cases h
    exact hi.frame rfl rfl rfl rfl rfl rfl ⟨[], hnil _, by simp⟩
  | get t ok =>
    simp only [Sys.step] at h
    split at h
    · rename_i c hc
      split at h
      · split at h <;> cases h
        · exact hi.frame rfl rfl rfl rfl rfl rfl ⟨_, rfl, by simp⟩
        · exact hi.frame rfl rfl rfl rfl rfl rfl ⟨[], hnil _, by simp⟩
      · rename_i hpc
        split at h <;> cases h
        refine hi.repc hc (by simp [hpc, CallerPc.onFid]) rfl (by simp [hpc, CallerPc.ownsFid])
          (by simp) fun o v hv => ?_
        simp only [Caller.pc, CallerPc.relock.injEq, true_and] at hv
        split at hv <;> simp_all
      · split at h <;> cases h
        exact hi.frame rfl rfl rfl rfl rfl rfl ⟨[], hnil _, by simp⟩
      · split at h <;> cases h
        exact hi.frame rfl rfl rfl rfl rfl rfl ⟨[], hnil _, by simp⟩
      · cases h
    · cases h
  | put t ok =>
    simp only [Sys.step] at h
    split at h
    · rename_i c hc
      split at h
      · rename_i hpc
        have hown : ∀ v, CallerPc.ownsFid (.relock .fid true v) = c.pc.ownsFid := by
          simp [hpc, CallerPc.ownsFid]
        have hon : c.pc.onFid := by simp [hpc, CallerPc.onFid]
        split at h <;> cases h
        · exact (hi.raiseFid hc hpc).repc hc hon rfl (hown _) (by simp) fun o v hv => by
            simp at hv; simp [hv]
        · exact hi.repc hc hon rfl (hown _) (by simp) (by simp)
      · split at h <;> cases h <;> exact hi.frame rfl rfl rfl rfl rfl rfl ⟨[], hnil _, by simp⟩
      · split at h <;> cases h <;> exact hi.frame rfl rfl rfl rfl rfl rfl ⟨[], hnil _, by simp⟩
      · cases h
    · cases h
  | locked t =>
    simp only [Sys.step] at h
    split at h
    · rename_i c hc
      simp only [Sys.lockedStep] at h
      split at h
      · rename_i hpc
        cases h
        refine hi.bump.allocLoop (fun ⟨c₁, h₁, ho⟩ => ?_) le_rfl
          (fun hx => absurd (hi.logged _ hx).1 (Nat.not_succ_le_self _))
          fun t' c' h' ho => by have := (hi.loop_fid t' c' h' ho).1; simp; omega
        rw [hc] at h₁
        cases h₁
        simp [hpc, CallerPc.onFid] at ho
      · rename_i o v hpc
        cases h
        have hon : c.pc.onFid := by simp [hpc, CallerPc.onFid]
        rw [← Sys.allocLoop_setCaller batch _ t c { c with pc := .alloc }]
        refine (hi.leave hc hpc).allocLoop (by simp [Sys.onFid_setCaller, CallerPc.onFid])
          (hi.loop_fid t c hc hon).1 (hi.loop_fid t c hc hon).2 fun t' c' h' ho heq => ?_
        rcases update_eq_some.mp h' with ⟨-, rfl⟩ | ⟨hne, h'⟩
        · simp [CallerPc.onFid] at ho
        · exact hne (hi.loop_distinct t' c' t c h' hc ho hon heq)
      · split at h <;> cases h
        exact hi.frame rfl rfl rfl rfl rfl (by simp [Sys.setCaller]) ⟨_, rfl, by simp⟩
      · cases h
        exact hi.lockAndPut_fname rfl rfl
      · cases h
        exact hi.frame rfl rfl rfl rfl rfl (by simp [Sys.setCaller]) ⟨_, rfl, by split <;> simp⟩
      · cases h
    · cases h
  | restart getOk =>
    cases getOk with
    | false => exact absurd rfl he
    | true => cases h; exact hi.restart

end Sys.FidInv

end FidInv

/-! ## Which name an id belongs to

An id reaches `FileId(a)` from `FNAME#a`, from the caller's own `AllocFileId`, or from a value
read back after waiting on `FNAME#a`. `Assoc a x` collects every place where `x` stands for
`a`: the answers already given, the `FNAME#` records, and the callers past `AllocFileId`. Each
step either adds nothing or pairs a name with an id just returned by `AllocFileId`, so no id
stands for two names while the ids `AllocFileId` returns are distinct. -/

/-- The `FNAME#` key a caller's `LockAndPut` is on, once `AllocFileId` has returned. -/
def CallerPc.fnameKey : CallerPc → Option String
  | .put (.fname n) | .wait (.fname n) | .relock (.fname n) _ _ => some n
  | _ => none

/-- Caller `c` is a `FileId(a)` past `AllocFileId` with id `x`, or about to return `x`. -/
def Caller.Holds (c : Caller) (a : String) (x : Nat) : Prop :=
  c.name = a ∧ (c.pc.fnameKey.isSome ∧ c.fid = x ∨ ∃ n o, c.pc = .relock (.fname n) o (some x))

/-- Id `x` stands for name `a` somewhere in the state. -/
def Sys.Assoc (sys : Sys) (a : String) (x : Nat) : Prop :=
  Seen.fileId a x ∈ sys.log ∨ sys.db.fname a = some x ∨
    ∃ t c, sys.callers t = some c ∧ c.Holds a x

/-- Every caller past `AllocFileId` is on the `FNAME#` key of its own name. -/
def Sys.KeysNamed (sys : Sys) : Prop :=
  ∀ t c n, sys.callers t = some c → c.pc.fnameKey = some n → n = c.name

/-- No id stands for two names, and every id that stands for a name was returned by
`AllocFileId`. -/
structure Sys.NameInv (sys : Sys) : Prop where
  keys : sys.KeysNamed
  allocated : ∀ a x, sys.Assoc a x → Seen.alloc x ∈ sys.log
  unique : ∀ a b x, sys.Assoc a x → sys.Assoc b x → a = b

theorem Caller.not_holds {c : Caller} {a : String} {x : Nat} (hk : c.pc.fnameKey = none)
    (hr : ∀ n o v, c.pc ≠ .relock (.fname n) o v) : ¬c.Holds a x := by
  rintro ⟨-, ⟨h, -⟩ | ⟨n, o, h⟩⟩
  · simp [hk] at h
  · exact hr n o _ h

theorem Sys.assoc_setCaller {sys : Sys} {t : Nat} {c : Caller} {a : String} {x : Nat}
    (h : (sys.setCaller t c).Assoc a x) : sys.Assoc a x ∨ c.Holds a x := by
  rcases h with h | h | ⟨t₁, c₁, h₁, hh⟩
  · exact .inl (.inl h)
  · exact .inl (.inr (.inl h))
  · rcases update_eq_some.mp h₁ with ⟨-, rfl⟩ | ⟨-, h₁⟩
    · exact .inr hh
    · exact .inl (.inr (.inr ⟨t₁, c₁, h₁, hh⟩))

theorem Sys.assoc_log {sys : Sys} {l : List Seen} {a : String} {x : Nat}
    (h : { sys with log := sys.log ++ l }.Assoc a x) : sys.Assoc a x ∨ Seen.fileId a x ∈ l := by
  rcases h with h | h | h
  · rcases List.mem_append.mp h with h | h
    · exact .inl (.inl h)
    · exact .inr h
  · exact .inl (.inr (.inl h))
  · exact .inl (.inr (.inr h))

theorem Sys.assoc_fname (sys : Sys) {n a : String} {v : Option Nat} {x : Nat}
    (h : { sys with db := { sys.db with fname := update sys.db.fname n v } }.Assoc a x) :
    sys.Assoc a x ∨ a = n ∧ v = some x := by
  rcases h with h | h | h
  · exact .inl (.inl h)
  · by_cases ha : a = n
    · subst ha; exact .inr ⟨rfl, by simpa using h⟩
    · exact .inl (.inr (.inl (by simpa [Function.update_noteq ha] using h)))
  · exact .inl (.inr (.inr h))

theorem Sys.keysNamed_setCaller {sys : Sys} {t : Nat} {c : Caller} (h : sys.KeysNamed)
    (hc : ∀ n, c.pc.fnameKey = some n → n = c.name) : (sys.setCaller t c).KeysNamed := by
  intro t₁ c₁ n h₁ hn
  rcases update_eq_some.mp h₁ with ⟨-, rfl⟩ | ⟨-, h₁⟩
  · exact hc n hn
  · exact h t₁ c₁ n h₁ hn

namespace Sys.NameInv

variable {batch : Nat} {sys sys' : Sys} {t : Nat} {c : Caller}

theorem init : (Sys.init batch).NameInv where
  keys := by simp [Sys.KeysNamed, Sys.init, Sys.loadCache]
  allocated := by simp [Sys.Assoc, Sys.init, Sys.loadCache]
  unique := by simp [Sys.Assoc, Sys.init, Sys.loadCache]

theorem mono (hn : sys.NameInv) (hkeys : sys'.KeysNamed)
    (hsub : ∀ a x, sys'.Assoc a x → sys.Assoc a x)
    (hlog : ∀ x, Seen.alloc x ∈ sys.log → Seen.alloc x ∈ sys'.log) : sys'.NameInv where
  keys := hkeys
  allocated a x h := hlog x (hn.allocated a x (hsub a x h))
  unique a b x ha hb := hn.unique a b x (hsub a x ha) (hsub b x hb)

theorem fresh (a₀ : String) (x₀ : Nat) (hn : sys.NameInv) (hkeys : sys'.KeysNamed)
    (hsub : ∀ a x, sys'.Assoc a x → sys.Assoc a x ∨ a = a₀ ∧ x = x₀)
    (hlog : ∀ x, Seen.alloc x ∈ sys.log → Seen.alloc x ∈ sys'.log)
    (hx₀ : Seen.alloc x₀ ∉ sys.log) (hx₀' : Seen.alloc x₀ ∈ sys'.log) : sys'.NameInv where
  keys := hkeys
  allocated a x h := by
    rcases hsub a x h with h | ⟨-, rfl⟩
    · exact hlog x (hn.allocated a x h)
    · exact hx₀'
  unique a b x ha hb := by
    rcases hsub a x ha with ha | ⟨rfl, rfl⟩ <;> rcases hsub b x hb with hb | ⟨hb, hx⟩
    · exact hn.unique a b x ha hb
    · exact absurd (hx ▸ hn.allocated a x ha) hx₀
    · exact absurd (hn.allocated b _ hb) hx₀
    · exact hb.symm

/-- A step that moves one caller, grows the log and changes `FNAME#` records, with every pair it
brings in already present. -/
theorem release {c' : Caller} {l : List Seen} (hn : sys.NameInv)
    (hcallers : sys'.callers = update sys.callers t (some c')) (hlog : sys'.log = sys.log ++ l)
    (hfname : ∀ a x, sys'.db.fname a = some x → sys.Assoc a x)
    (hc' : ∀ a x, c'.Holds a x → sys.Assoc a x) (hl : ∀ a x, Seen.fileId a x ∈ l → sys.Assoc a x)
    (hk : ∀ n, c'.pc.fnameKey = some n → n = c'.name) : sys'.NameInv := by
  refine hn.mono (fun t₁ c₁ n h₁ => ?_) (fun a x h => ?_) fun x h => hlog ▸ List.mem_append_left _ h
  · rw [hcallers] at h₁
    rcases update_eq_some.mp h₁ with ⟨-, rfl⟩ | ⟨-, h₁⟩
    · exact hk n
    · exact hn.keys t₁ c₁ n h₁
  · rcases h with h | h | ⟨t₁, c₁, h₁, hh⟩
    · rcases List.mem_append.mp (hlog ▸ h) with h | h
      · exact .inl h
      · exact hl a x h
    · exact hfname a x h
    · rw [hcallers] at h₁
      rcases update_eq_some.mp h₁ with ⟨-, rfl⟩ | ⟨-, h₁⟩
      · exact hc' a x hh
      · exact .inr (.inr ⟨t₁, c₁, h₁, hh⟩)

theorem allocLoop (hn : sys.NameInv) (hnot : Seen.alloc c.fid ∉ sys.log) :
    (sys.allocLoop batch t c).NameInv := by
  unfold Sys.allocLoop
  rw [Sys.lockAndPut_eq, Sys.lockAndPut_eq]
  split
  · refine hn.mono (Sys.keysNamed_setCaller hn.keys (by split <;> simp [CallerPc.fnameKey]))
      (fun a x h => (Sys.assoc_setCaller h).resolve_right
        (Caller.not_holds (by split <;> rfl) (by split <;> simp))) fun x h => h
  · refine hn.fresh c.name c.fid
      (Sys.keysNamed_setCaller hn.keys (by split <;> simp [CallerPc.fnameKey]))
      (fun a x h => ?_) (fun x h => List.mem_append_left _ h) hnot (by simp [Sys.setCaller])
    rcases Sys.assoc_setCaller h with h | ⟨ha, h⟩
    · exact .inl ((Sys.assoc_log h).resolve_right (by simp))
    · refine .inr ⟨ha.symm, ?_⟩
      rcases h with ⟨-, h⟩ | ⟨n, o, h⟩
      · exact h.symm
      · split at h <;> cases h


/-- Every step keeps the pairing of names and ids, unless it is a restart whose `Get` of `FID#`
fails. -/
theorem step {e : Event} (hf : sys.FidInv batch) (hn : sys.NameInv)
    (he : e ≠ .restart false) (h : sys.step batch e = some sys') : sys'.NameInv := by
  have hnil : ∀ l : List Seen, l = l ++ [] := fun l => (List.append_nil l).symm
  cases e with
  | fileId t name | deleteFile t name =>
    simp only [Sys.step] at h
    split at h <;> cases h
    exact hn.release rfl (hnil _) (fun a x h => .inr (.inl h))
      (fun a x h => absurd h (Caller.not_holds rfl (by simp))) (by simp) (by simp [CallerPc.fnameKey])
  | get t ok =>
    simp only [Sys.step] at h
    split at h
    · rename_i c hc
      split at h
      · split at h <;> cases h
        · rename_i v hv
          refine hn.release rfl rfl (fun a x h => .inr (.inl h))
            (fun a x h => absurd h (Caller.not_holds rfl (by simp))) (fun a x h => ?_)
            (by simp [CallerPc.fnameKey])
          simp only [List.mem_singleton, Seen.fileId.injEq] at h
          obtain ⟨rfl, rfl⟩ := h
          split at hv
          · exact .inr (.inl hv)
          · cases hv
        · exact hn.release rfl (hnil _) (fun a x h => .inr (.inl h))
            (fun a x h => absurd h (Caller.not_holds rfl (by simp))) (by simp)
            (by simp [CallerPc.fnameKey])
      · split at h <;> cases h
        exact hn.release rfl (hnil _) (fun a x h => .inr (.inl h))
          (fun a x h => absurd h (Caller.not_holds rfl (by simp))) (by simp)
          (by simp [CallerPc.fnameKey])
      · rename_i n hpc
        have hk : n = c.name := hn.keys t c n hc (by simp [hpc, CallerPc.fnameKey])
        split at h <;> cases h
        refine hn.release rfl (hnil _) (fun a x h => .inr (.inl h)) (fun a x hh => ?_) (by simp)
          (by simp [CallerPc.fnameKey, hk])
        obtain ⟨rfl, ⟨-, rfl⟩ | ⟨n', o, hv⟩⟩ := hh
        · exact .inr (.inr ⟨t, c, hc, rfl, .inl ⟨by simp [hpc, CallerPc.fnameKey], rfl⟩⟩)
        · simp only [CallerPc.relock.injEq, LockKey.fname.injEq] at hv
          obtain ⟨rfl, -, hv⟩ := hv
          split at hv
          · exact .inr (.inl (hk ▸ hv))
          · cases hv
      · split at h <;> cases h
        exact hn.release rfl (hnil _) (fun a x h => .inr (.inl h))
          (fun a x h => absurd h (Caller.not_holds rfl (by simp))) (by simp)
          (by simp [CallerPc.fnameKey])
      · cases h
    · cases h
  | put t ok =>
    simp only [Sys.step] at h
    split at h
    · rename_i c hc
      split at h
      · split at h <;> cases h <;>
          exact hn.release rfl (hnil _) (fun a x h => .inr (.inl h))
            (fun a x h => absurd h (Caller.not_holds rfl (by simp))) (by simp)
            (by simp [CallerPc.fnameKey])
      · rename_i n hpc
        have hk : n = c.name := hn.keys t c n hc (by simp [hpc, CallerPc.fnameKey])
        have hc₀ : sys.Assoc c.name c.fid :=
          .inr (.inr ⟨t, c, hc, rfl, .inl ⟨by simp [hpc, CallerPc.fnameKey], rfl⟩⟩)
        have hc' : ∀ v a x, ({ c with pc := .relock (.fname n) true v } : Caller).Holds a x →
            v = some c.fid ∨ v = none → sys.Assoc a x := by
          rintro v a x ⟨rfl, ⟨-, rfl⟩ | ⟨n', o, hv⟩⟩ hv'
          · exact hc₀
          · simp only [CallerPc.relock.injEq] at hv
            rcases hv' with rfl | rfl <;> simp at hv
            exact hv.2.2 ▸ hc₀
        split at h <;> cases h
        · refine hn.release rfl (hnil _) (fun a x h => ?_) (fun a x h => hc' _ a x h (.inl rfl))
            (by simp) (by simp [CallerPc.fnameKey, hk])
          rcases Sys.assoc_fname sys (.inr (.inl h)) with h | ⟨rfl, hv⟩
          · exact h
          · cases hv; exact hk ▸ hc₀
        · exact hn.release rfl (hnil _) (fun a x h => .inr (.inl h))
            (fun a x h => hc' _ a x h (.inr rfl)) (by simp) (by simp [CallerPc.fnameKey, hk])
      · split at h <;> cases h
        · refine hn.release rfl (hnil _) (fun a x h => ?_)
            (fun a x h => absurd h (Caller.not_holds rfl (by simp))) (by simp)
            (by simp [CallerPc.fnameKey])
          rcases Sys.assoc_fname sys (.inr (.inl h)) with h | ⟨-, hv⟩
          · exact h
          · cases hv
        · exact hn.release rfl (hnil _) (fun a x h => .inr (.inl h))
            (fun a x h => absurd h (Caller.not_holds rfl (by simp))) (by simp)
            (by simp [CallerPc.fnameKey])
      · cases h
    · cases h
  | locked t =>
    simp only [Sys.step] at h
    split at h
    · rename_i c hc
      simp only [Sys.lockedStep] at h
      split at h
      · cases h
        exact allocLoop ⟨hn.1, hn.2, hn.3⟩ fun hx => absurd (hf.logged (sys.newFid + 1) hx).1 (Nat.not_succ_le_self _)
      · rename_i o v hpc
        cases h
        exact allocLoop ⟨hn.1, hn.2, hn.3⟩ (hf.loop_fid t c hc (by simp [hpc, CallerPc.onFid])).2
      · rename_i n o _ hpc
        split at h <;> cases h
        refine hn.release rfl rfl (fun a x h => .inr (.inl h))
          (fun a x h => absurd h (Caller.not_holds rfl (by simp))) (fun a x h => ?_)
          (by simp [CallerPc.fnameKey])
        simp only [List.mem_singleton, Seen.fileId.injEq] at h
        obtain ⟨rfl, rfl⟩ := h
        exact .inr (.inr ⟨t, c, hc, rfl, .inr ⟨n, o, hpc⟩⟩)
      · cases h
        refine hn.release rfl (hnil _) (fun a x h => .inr (.inl h))
          (fun a x h => absurd h (Caller.not_holds ?_ ?_)) (by simp) ?_ <;>
          split <;> simp [CallerPc.fnameKey]
      · cases h
        exact hn.release rfl rfl (fun a x h => .inr (.inl h))
          (fun a x h => absurd h (Caller.not_holds rfl (by simp))) (by split <;> simp)
          (by simp [CallerPc.fnameKey])
      · cases h
    · cases h
  | restart getOk =>
    cases h
    refine hn.mono (by simp [Sys.KeysNamed, Sys.loadCache]) (fun a x h => ?_) fun x h => h
    rcases h with h | h | ⟨_, _, h, -⟩
    · exact .inl h
    · exact .inr (.inl h)
    · simp [Sys.loadCache] at h

end Sys.NameInv

theorem Sys.NameInv.run {batch : Nat} {sys sys' : Sys} {es : List Event} (hf : sys.FidInv batch)
    (hn : sys.NameInv) (hes : ∀ e ∈ es, e ≠ .restart false) (h : sys.run batch es = some sys') :
    sys'.FidInv batch ∧ sys'.NameInv := by
  induction es generalizing sys with
  | nil => cases h; exact ⟨hf, hn⟩
  | cons e es ih =>
    obtain ⟨s₁, h₁, h₂⟩ := Option.bind_eq_some.mp h
    have he := hes e (List.mem_cons_self e es)
    exact ih (hf.step he h₁) (hn.step hf he h₁) (fun e' he' => hes e' (List.mem_cons_of_mem e he')) h₂

/-- When every restart's `LoadCache` reads `FID#` back, no id `AllocFileId` returns comes back,
in the same process or a later one, and two `FileId` calls that return one id were for one
name. -/
theorem fileId_ids_distinct_of_loadCache_reads {batch : Nat} {es : List Event} {sys : Sys}
    (hload : ∀ e ∈ es, e ≠ .restart false) (h : (Sys.init batch).run batch es = some sys) :
    AllocsDistinct sys.log ∧ ∀ (i j : Nat) name name' fid,
      sys.log[i]? = some (Seen.fileId name fid) → sys.log[j]? = some (Seen.fileId name' fid) →
        name = name' :=
  have hinv := Sys.NameInv.run Sys.FidInv.init Sys.NameInv.init hload h
  ⟨hinv.1.allocs, fun _ _ _ _ _ hi hj => hinv.2.unique _ _ _
    (.inl (List.getElem?_mem hi)) (.inl (List.getElem?_mem hj))⟩

end Leveldb.BlockCache.Fid
