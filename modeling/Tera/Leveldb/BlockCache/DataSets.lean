import Tera.Leveldb.BlockCache.FileIds
import Mathlib.Algebra.Order.BigOperators.Group.Finset

/-!
# Data sets of the persistent cache: `GetDataSet` under `LockAndPut`

`GetAndAllocBlock` hashes a block to a data set `sid` and asks `GetDataSet(sid)` for it.
`GetDataSet` looks the data set up in `data_set_cache_` without `mu_`; on a miss it takes `mu_`
and runs `LockAndPut` of the key `DS#sid`. The first caller registers a `Waiter` in `lock_key_`
and, with `mu_` released, runs `PutContentAfterLock`: it looks the data set up again and, if it
is still missing, `ReloadDataSet` builds it and inserts it into `data_set_cache_`. Later callers
join the `Waiter` and, once it is signalled, read the data set back in `GetContentAfterWait`.
Each caller takes `mu_` again to decrement `wait_num`; the one that brings it to zero erases the
key and deletes the `Waiter`, and an owner that leaves waiters behind signals them with `mu_`
released. Every lookup and insert of `data_set_cache_` gives the caller a handle, which
`GetAndAllocBlock` releases once it has allocated its block.

Each caller is a thread with a program counter, and a step runs from one point where the
thread takes `mu_`, waits or touches `data_set_cache_` to the next. The keys `DS#sid` of
`lock_key_` are kept apart from the keys of the metadata DB, which never meet them. The entries
of `data_set_cache_` are never evicted: its capacity, `128 * dataset_num + 1`, exceeds the
charge of one entry per data set.
-/
namespace Leveldb.BlockCache.DataSets

open Function (update update_same update_noteq)
open Fid (Waiter)

/-- Where a `GetAndAllocBlock` call is in `GetDataSet`: before taking `mu_` after a missed
lookup; registered on the `Waiter` and waiting; back from `GetContentAfterWait` with a data
set, to take `mu_`; the owner in `PutContentAfterLock`, or in `ReloadDataSet`, or back with a
data set; an owner that left waiters behind and is to signal them; with a data set, allocating
its block; and after `data_set_cache_->Release`. -/
inductive DsPc where
  | locking
  | waiting
  | relockWaiter (ds : Nat)
  | putting
  | reloading
  | relockOwner (ds : Nat)
  | signalling (ds : Nat)
  | allocating (ds : Nat)
  | done (ds : Nat)
  deriving DecidableEq, Repr

@[simp] def DsPc.dataSet : DsPc → Option Nat
  | .relockWaiter d | .relockOwner d | .signalling d | .allocating d | .done d => some d
  | _ => none

/-- The caller is counted in the `wait_num` of its key's `Waiter`. -/
@[simp] def DsPc.registered : DsPc → Bool
  | .waiting | .relockWaiter _ | .putting | .reloading | .relockOwner _ => true
  | _ => false

/-- The caller holds a handle of `data_set_cache_` it has not released. -/
@[simp] def DsPc.holds : DsPc → Bool
  | .relockWaiter _ | .relockOwner _ | .signalling _ | .allocating _ => true
  | _ => false

/-- The caller registered the key's `Waiter` and has not yet signalled it or erased it. -/
@[simp] def DsPc.leads : DsPc → Bool
  | .putting | .reloading | .relockOwner _ | .signalling _ => true
  | _ => false

/-- The caller is back from `GetContentAfterWait` and has not yet decremented `wait_num`. -/
@[simp] def DsPc.woken : DsPc → Bool
  | .relockWaiter _ => true
  | _ => false

@[simp] def DsPc.inReload : DsPc → Bool
  | .reloading => true
  | _ => false

@[simp] def DsPc.finished : DsPc → Bool
  | .done _ => true
  | _ => false

/-- A `GetAndAllocBlock` call: the data set its block hashes to, where it is, and how many
times it has released a handle of `data_set_cache_`. -/
structure DsCaller where
  sid : Nat
  pc : DsPc
  released : Nat
  deriving DecidableEq, Repr

/-- The state of `BlockCacheImpl` as these calls use it: the data set each entry of
`data_set_cache_` holds and the handles the callers hold on it, `lock_key_` at the keys
`DS#sid`, the callers, numbered in the order they started, the number of `DataSet`s built, and
three ghost counters: the runs of `ReloadDataSet`, and the `Waiter`s created and erased, for
each `sid`. -/
structure Sys where
  cache : Nat → Option Nat
  refs : Nat → Nat
  lockKey : Nat → Option Waiter
  callers : Nat → Option DsCaller
  nThreads : Nat
  nextDataSet : Nat
  reloads : Nat → Nat
  waitersMade : Nat → Nat
  waitersErased : Nat → Nat

/-- A step: a new `GetAndAllocBlock` whose block hashes to `sid`, or the next step of the caller
on thread `t`. -/
inductive DsEvent where
  | call (sid : Nat)
  | run (t : Nat)
  deriving DecidableEq, Repr

def bump (f : Nat → Nat) (k : Nat) : Nat → Nat := update f k (f k + 1)

namespace Sys

def init : Sys :=
  ⟨fun _ => none, fun _ => 0, fun _ => none, fun _ => none, 0, 0, fun _ => 0, fun _ => 0,
    fun _ => 0⟩

def setCaller (s : Sys) (t : Nat) (c : DsCaller) : Sys :=
  { s with callers := update s.callers t (some c) }

/-- `--w->wait_num` under `mu_`, and the erase of the key and delete of the `Waiter` by the
caller that brings it to zero. -/
def unregister (s : Sys) (sid : Nat) : Sys :=
  match s.lockKey sid with
  | some w =>
    if w.waitNum - 1 = 0 then
      { s with lockKey := update s.lockKey sid none, waitersErased := bump s.waitersErased sid }
    else { s with lockKey := update s.lockKey sid (some { w with waitNum := w.waitNum - 1 }) }
  | none => s

/-- The next step of the caller `c` on thread `t`, by where it is; `none` if it cannot be
taken. -/
def threadStep (s : Sys) (t : Nat) (c : DsCaller) : Option Sys :=
  match c.pc with
  | .locking =>
    match s.lockKey c.sid with
    | some w =>
      some ({ s with lockKey := update s.lockKey c.sid (some { w with waitNum := w.waitNum + 1 }) }
        |>.setCaller t { c with pc := .waiting })
    | none =>
      some ({ s with lockKey := update s.lockKey c.sid (some ⟨1, false⟩),
                     waitersMade := bump s.waitersMade c.sid }.setCaller t { c with pc := .putting })
  | .waiting =>
    if (s.lockKey c.sid).any Waiter.done then
      (s.cache c.sid).map fun d =>
        { s with refs := bump s.refs c.sid }.setCaller t { c with pc := .relockWaiter d }
    else none
  | .relockWaiter d => some ((s.unregister c.sid).setCaller t { c with pc := .allocating d })
  | .putting =>
    match s.cache c.sid with
    | some d => some ({ s with refs := bump s.refs c.sid }.setCaller t { c with pc := .relockOwner d })
    | none => some (s.setCaller t { c with pc := .reloading })
  | .reloading =>
    let d := s.nextDataSet
    some ({ s with nextDataSet := d + 1, cache := update s.cache c.sid (some d),
                   reloads := bump s.reloads c.sid, refs := bump s.refs c.sid }.setCaller t
      { c with pc := .relockOwner d })
  | .relockOwner d =>
    match s.lockKey c.sid with
    | some w =>
      if w.waitNum - 1 = 0 then some ((s.unregister c.sid).setCaller t { c with pc := .allocating d })
      else some ((s.unregister c.sid).setCaller t { c with pc := .signalling d })
    | none => none
  | .signalling d =>
    match s.lockKey c.sid with
    | some w =>
      some ({ s with lockKey := update s.lockKey c.sid (some { w with done := true }) }.setCaller t
        { c with pc := .allocating d })
    | none => none
  | .allocating d =>
    some ({ s with refs := update s.refs c.sid (s.refs c.sid - 1) }.setCaller t
      { c with pc := .done d, released := c.released + 1 })
  | .done _ => none

/-- One step; a new call first looks its data set up in `data_set_cache_`. -/
def step (s : Sys) : DsEvent → Option Sys
  | .call sid =>
    let s' := { s with nThreads := s.nThreads + 1 }
    match s.cache sid with
    | some d => some ({ s' with refs := bump s.refs sid }.setCaller s.nThreads ⟨sid, .allocating d, 0⟩)
    | none => some (s'.setCaller s.nThreads ⟨sid, .locking, 0⟩)
  | .run t =>
    match s.callers t with
    | some c => s.threadStep t c
    | none => none

def run (s : Sys) : List DsEvent → Option Sys
  | [] => some s
  | e :: es => (s.step e).bind fun s' => s'.run es

end Sys

/-! ## Counting the callers of a data set -/

def onSid (P : DsPc → Bool) (sid : Nat) : Option DsCaller → Nat
  | some c => if c.sid = sid ∧ P c.pc = true then 1 else 0
  | none => 0

def count (P : DsPc → Bool) (s : Sys) (sid : Nat) : Nat :=
  ∑ t ∈ Finset.range s.nThreads, onSid P sid (s.callers t)

variable {s s' : Sys} {sid t : Nat} {c : DsCaller}

theorem onSid_self (P : DsPc → Bool) (c : DsCaller) : onSid P c.sid (some c) = (P c.pc).toNat := by
  cases h : P c.pc <;> simp [onSid, h]

theorem count_le_of_onSid (P : DsPc → Bool) (ht : t < s.nThreads) (sid : Nat) :
    onSid P sid (s.callers t) ≤ count P s sid :=
  Finset.single_le_sum (f := fun j => onSid P sid (s.callers j)) (fun _ _ => Nat.zero_le _)
    (Finset.mem_range.mpr ht)

theorem count_pos (ht : t < s.nThreads) (hc : s.callers t = some c) {P : DsPc → Bool}
    (hP : P c.pc = true) : 1 ≤ count P s c.sid := by
  have := count_le_of_onSid P ht c.sid
  rwa [hc, onSid_self, hP] at this

theorem count_le_count {P Q : DsPc → Bool} (h : ∀ pc, P pc = true → Q pc = true) (s : Sys)
    (sid : Nat) : count P s sid ≤ count Q s sid :=
  Finset.sum_le_sum fun t _ => by
    cases s.callers t with
    | none => exact le_rfl
    | some c =>
      dsimp only [onSid]
      split_ifs with hP hQ <;> first | omega | exact absurd ⟨hP.1, h _ hP.2⟩ hQ

theorem exists_of_count_ne_zero {P : DsPc → Bool} (h : count P s sid ≠ 0) :
    ∃ t c, s.callers t = some c ∧ c.sid = sid ∧ P c.pc = true := by
  obtain ⟨t, -, ht⟩ := Finset.exists_ne_zero_of_sum_ne_zero h
  cases hc : s.callers t with
  | none => simp [hc, onSid] at ht
  | some c =>
    rw [hc] at ht
    dsimp only [onSid] at ht
    split_ifs at ht with h'
    · exact ⟨t, c, hc, h'.1, h'.2⟩
    · exact absurd rfl ht

/-! ## The invariant -/

/-- What `lock_key_` at `DS#sid` says of the callers on `sid`. Without a `Waiter`, none of them
is registered, leads or is woken, and every `Waiter` made has been erased. With one, `wait_num`
counts the registered callers, one caller leads it until it is signalled, only a signalled
`Waiter` has woken callers and the data set is then cached, and it is the one `Waiter` made and
not yet erased, with a caller still counted in it. -/
def KeyOk (s : Sys) (sid : Nat) : Prop :=
  match s.lockKey sid with
  | some w =>
    count DsPc.registered s sid = w.waitNum ∧ count DsPc.leads s sid = (if w.done then 0 else 1) ∧
      (w.done = false → count DsPc.woken s sid = 0) ∧ (w.done = true → s.cache sid ≠ none) ∧
      s.waitersErased sid + 1 = s.waitersMade sid ∧ 0 < w.waitNum
  | none =>
    count DsPc.registered s sid = 0 ∧ count DsPc.leads s sid = 0 ∧ count DsPc.woken s sid = 0 ∧
      s.waitersErased sid = s.waitersMade sid

/-- What every reachable state keeps at the data set `sid`. -/
structure SidInv (s : Sys) (sid : Nat) : Prop where
  /-- `ReloadDataSet` has run once if the data set is cached, never otherwise. -/
  reloads_eq : s.reloads sid = if s.cache sid = none then 0 else 1
  /-- A caller's data set is the cached one. -/
  dataSet_cached : ∀ t c d, s.callers t = some c → c.sid = sid → c.pc.dataSet = some d →
    s.cache sid = some d
  /-- `ReloadDataSet` runs only while the data set is missing. -/
  reload_uncached : s.cache sid ≠ none → count DsPc.inReload s sid = 0
  /-- The handles of the data set are those its callers hold. -/
  refs_eq : s.refs sid = count DsPc.holds s sid
  key : KeyOk s sid

/-- What every reachable state keeps. -/
structure Sys.Inv (s : Sys) : Prop where
  /-- No caller beyond the threads started. -/
  fresh : ∀ t, s.nThreads ≤ t → s.callers t = none
  /-- A caller has released its handle once when it is done, and not before. -/
  released : ∀ t c, s.callers t = some c → c.released = if c.pc.finished then 1 else 0
  at_sid : ∀ sid, SidInv s sid

theorem Sys.Inv.init : Sys.init.Inv :=
  ⟨fun _ _ => rfl, nofun, fun _ => ⟨rfl, nofun, fun _ => rfl, rfl, ⟨rfl, rfl, rfl, rfl⟩⟩⟩

theorem Sys.Inv.lt (hi : s.Inv) (hc : s.callers t = some c) : t < s.nThreads :=
  Nat.lt_of_not_le fun h => by rw [hi.fresh t h] at hc; cases hc

/-! ## What a key's `Waiter` says -/

theorem KeyOk.congr (h : KeyOk s sid) (hlk : s'.lockKey sid = s.lockKey sid)
    (hca : s.cache sid ≠ none → s'.cache sid ≠ none) (hwm : s'.waitersMade sid = s.waitersMade sid)
    (hwe : s'.waitersErased sid = s.waitersErased sid)
    (hR : count DsPc.registered s' sid = count DsPc.registered s sid)
    (hL : count DsPc.leads s' sid = count DsPc.leads s sid)
    (hW : count DsPc.woken s' sid = count DsPc.woken s sid) : KeyOk s' sid := by
  unfold KeyOk at h ⊢
  rw [hlk, hwm, hwe, hR, hL, hW]
  revert h
  cases s.lockKey sid with
  | some w => exact fun ⟨h1, h2, h3, h4, h5, h6⟩ => ⟨h1, h2, h3, fun hd => hca (h4 hd), h5, h6⟩
  | none => exact id

theorem KeyOk.of_registered (h : KeyOk s sid) (hR : count DsPc.registered s sid ≠ 0) :
    ∃ w, s.lockKey sid = some w ∧ count DsPc.registered s sid = w.waitNum := by
  unfold KeyOk at h
  split at h
  · exact ⟨_, ‹_›, h.1⟩
  · exact absurd h.1 hR

theorem KeyOk.of_leads (h : KeyOk s sid) (hL : count DsPc.leads s sid ≠ 0) :
    ∃ w, s.lockKey sid = some w ∧ w.done = false ∧ count DsPc.leads s sid = 1 := by
  unfold KeyOk at h
  split at h
  · rename_i w hw
    cases hd : w.done
    · exact ⟨w, hw, hd, by simpa [hd] using h.2.1⟩
    · simp [hd] at h; exact absurd h.2.1 hL
  · exact absurd h.2.1 hL

theorem KeyOk.of_woken (h : KeyOk s sid) (hW : count DsPc.woken s sid ≠ 0) :
    ∃ w, s.lockKey sid = some w ∧ w.done = true := by
  unfold KeyOk at h
  split at h
  · rename_i w hw
    cases hd : w.done
    · exact absurd (h.2.2.1 hd) hW
    · exact ⟨w, hw, hd⟩
  · exact absurd h.2.2.1 hW

theorem KeyOk.waiters (h : KeyOk s sid) :
    s.waitersErased sid + (if s.lockKey sid = none then 0 else 1) = s.waitersMade sid := by
  unfold KeyOk at h
  split at h <;> simp_all

/-! ## Frames -/

theorem sum_onSid_update (P : DsPc → Bool) {callers : Nat → Option DsCaller} {n : Nat}
    (ht : t < n) (hc : callers t = some c) (c' : DsCaller) (sid : Nat) :
    ∑ j ∈ Finset.range n, onSid P sid (update callers t (some c') j) + onSid P sid (some c) =
      ∑ j ∈ Finset.range n, onSid P sid (callers j) + onSid P sid (some c') := by
  have hmem := Finset.mem_range.mpr ht
  have hfun : ∀ j, onSid P sid (update callers t (some c') j) =
      update (fun j => onSid P sid (callers j)) t (onSid P sid (some c')) j :=
    fun j => Function.apply_update (fun _ => onSid P sid) callers t (some c') j
  simp only [hfun]
  rw [Finset.sum_update_of_mem hmem, Finset.sdiff_singleton_eq_erase,
    ← Finset.add_sum_erase _ _ hmem, hc]
  omega

theorem sum_onSid_newThread (P : DsPc → Bool) (callers : Nat → Option DsCaller) (n : Nat)
    (c : DsCaller) (sid : Nat) :
    ∑ j ∈ Finset.range (n + 1), onSid P sid (update callers n (some c) j) =
      ∑ j ∈ Finset.range n, onSid P sid (callers j) + onSid P sid (some c) := by
  rw [Finset.sum_range_succ, update_same]
  congr 1
  refine Finset.sum_congr rfl fun j hj => ?_
  rw [update_noteq (Finset.mem_range.mp hj).ne]

theorem SidInv.frame (hi : SidInv s sid) (hn : s'.nThreads = s.nThreads)
    (hcs : ∀ t c, c.sid = sid → (s'.callers t = some c ↔ s.callers t = some c))
    (hlk : s'.lockKey sid = s.lockKey sid) (hca : s'.cache sid = s.cache sid)
    (hrf : s'.refs sid = s.refs sid) (hrl : s'.reloads sid = s.reloads sid)
    (hwm : s'.waitersMade sid = s.waitersMade sid)
    (hwe : s'.waitersErased sid = s.waitersErased sid) : SidInv s' sid := by
  have hon : ∀ P t, onSid P sid (s'.callers t) = onSid P sid (s.callers t) := by
    intro P t
    cases h' : s'.callers t with
    | some c' =>
      by_cases hs : c'.sid = sid
      · rw [(hcs t c' hs).mp h']
      · cases h : s.callers t with
        | some c =>
          have : c.sid ≠ sid := fun hc => by
            rw [(hcs t c hc).mpr h] at h'; cases h'; exact hs hc
          simp [onSid, hs, this]
        | none => simp [onSid, hs]
    | none =>
      cases h : s.callers t with
      | some c =>
        have : c.sid ≠ sid := fun hc => by rw [(hcs t c hc).mpr h] at h'; cases h'
        simp [onSid, this]
      | none => rfl
  have hcount : ∀ P, count P s' sid = count P s sid := fun P => by simp only [count, hn, hon]
  refine ⟨by rw [hrl, hca]; exact hi.reloads_eq, fun t c d hc hs hd => ?_,
    fun h => by rw [hcount]; exact hi.reload_uncached (hca ▸ h),
    by rw [hrf, hcount]; exact hi.refs_eq,
    hi.key.congr hlk (fun h => hca ▸ h) hwm hwe (hcount _) (hcount _) (hcount _)⟩
  rw [hca]; exact hi.dataSet_cached t c d ((hcs t c hs).mp hc) hs hd

/-- A step of the caller on thread `t` changes nothing off its own data set, so the invariant
holds once it holds at that data set. -/
theorem Sys.Inv.of_move (hi : s.Inv) (hc : s.callers t = some c) {c' : DsCaller}
    (hsid : c'.sid = c.sid) (hrel : c'.released = if c'.pc.finished then 1 else 0)
    (hn : s'.nThreads = s.nThreads) (hcs : s'.callers = update s.callers t (some c'))
    (hother : ∀ sid, sid ≠ c.sid → s'.lockKey sid = s.lockKey sid ∧ s'.cache sid = s.cache sid ∧
      s'.refs sid = s.refs sid ∧ s'.reloads sid = s.reloads sid ∧
      s'.waitersMade sid = s.waitersMade sid ∧ s'.waitersErased sid = s.waitersErased sid)
    (hloc : SidInv s' c.sid) : s'.Inv := by
  refine ⟨fun t₁ ht₁ => ?_, fun t₁ c₁ hc₁ => ?_, fun sid => ?_⟩
  · rw [hcs, update_noteq (by have := hi.lt hc; omega)]; exact hi.fresh t₁ (by omega)
  · rw [hcs] at hc₁
    by_cases ht : t₁ = t
    · subst ht; rw [update_same] at hc₁; cases hc₁; exact hrel
    · rw [update_noteq ht] at hc₁; exact hi.released t₁ c₁ hc₁
  · by_cases hs : sid = c.sid
    · subst hs; exact hloc
    obtain ⟨h1, h2, h3, h4, h5, h6⟩ := hother sid hs
    refine (hi.at_sid sid).frame hn (fun t₁ c₁ hs₁ => ?_) h1 h2 h3 h4 h5 h6
    rw [hcs]
    by_cases ht : t₁ = t
    · subst ht
      rw [update_same, hc]
      constructor <;> rintro ⟨⟩ <;> simp_all
    · rw [update_noteq ht]

/-! ## A new call -/

/-- A new call runs on a fresh thread: with the cached data set and a handle of it, or about to
lock the key. -/
theorem step_call (h : s.step (.call sid) = some s') :
    ∃ c' : DsCaller, c'.sid = sid ∧ c'.released = 0 ∧
      (c'.pc = .locking ∨ ∃ d, c'.pc = .allocating d ∧ s.cache sid = some d) ∧
      s'.callers = update s.callers s.nThreads (some c') ∧ s'.nThreads = s.nThreads + 1 ∧
      s'.refs = (if c'.pc.holds then bump s.refs sid else s.refs) ∧ s'.lockKey = s.lockKey ∧
      s'.cache = s.cache ∧ s'.reloads = s.reloads ∧ s'.waitersMade = s.waitersMade ∧
      s'.waitersErased = s.waitersErased := by
  simp only [Sys.step] at h
  split at h <;> cases h
  · exact ⟨_, rfl, rfl, .inr ⟨_, rfl, ‹_›⟩, rfl, rfl, rfl, rfl, rfl, rfl, rfl, rfl⟩
  · exact ⟨_, rfl, rfl, .inl rfl, rfl, rfl, rfl, rfl, rfl, rfl, rfl, rfl⟩

theorem Sys.Inv.call (hi : s.Inv) (h : s.step (.call sid) = some s') : s'.Inv := by
  obtain ⟨c', hsid, hrel, hpc, hcs, hn, hrf, hlk, hca, hrl, hwm, hwe⟩ := step_call h
  have hcount : ∀ P sid₀, count P s' sid₀ = count P s sid₀ + onSid P sid₀ (some c') := by
    intro P sid₀; unfold count; rw [hn, hcs]; exact sum_onSid_newThread P _ _ c' sid₀
  have hsame : ∀ P sid₀, P .locking = false → (∀ d, P (.allocating d) = false) →
      count P s' sid₀ = count P s sid₀ := by
    intro P sid₀ h1 h2; rw [hcount]; rcases hpc with hpc | ⟨d, hpc, -⟩ <;> simp [onSid, hpc, h1, h2]
  refine ⟨fun t ht => ?_, fun t c hc => ?_, fun sid₀ => ⟨?_, fun t c d hc hs hd => ?_,
    fun h => ?_, ?_, ?_⟩⟩
  · rw [hcs, update_noteq (by omega)]; exact hi.fresh t (by omega)
  · rw [hcs] at hc
    by_cases ht : t = s.nThreads
    · subst ht; rw [update_same] at hc; cases hc
      rcases hpc with hpc | ⟨d, hpc, -⟩ <;> simp [hrel, hpc, DsPc.finished]
    · rw [update_noteq ht] at hc; exact hi.released t c hc
  · rw [hrl, hca]; exact (hi.at_sid sid₀).reloads_eq
  · rw [hca]; rw [hcs] at hc
    by_cases ht : t = s.nThreads
    · subst ht; rw [update_same] at hc; cases hc
      rcases hpc with hpc | ⟨d', hpc, hd'⟩ <;> rw [hpc] at hd <;> cases hd
      rw [← hs, hsid]; exact hd'
    · rw [update_noteq ht] at hc; exact (hi.at_sid sid₀).dataSet_cached t c d hc hs hd
  · rw [hsame _ _ rfl fun _ => rfl]; exact (hi.at_sid sid₀).reload_uncached (hca ▸ h)
  · have := (hi.at_sid sid₀).refs_eq
    rw [hrf, hcount]
    by_cases hs : sid₀ = sid
    · subst hs
      rcases hpc with hpc | ⟨d, hpc, -⟩ <;> simp [onSid, hpc, hsid, bump, DsPc.holds, this]
    · rcases hpc with hpc | ⟨d, hpc, -⟩ <;>
        simp [onSid, hpc, hsid, Ne.symm hs, bump, update_noteq hs, DsPc.holds, this]
  · exact (hi.at_sid sid₀).key.congr (by rw [hlk]) (by rw [hca]; exact id) (by rw [hwm])
      (by rw [hwe]) (hsame _ _ rfl fun _ => rfl) (hsame _ _ rfl fun _ => rfl)
      (hsame _ _ rfl fun _ => rfl)

/-! ## A caller's step -/

/-- A caller's step moves it to a new place on the same data set, and changes the shared state
at that data set only. -/
theorem threadStep_frame (hrel : c.released = if c.pc.finished then 1 else 0)
    (h : s.threadStep t c = some s') :
    ∃ c' : DsCaller, c'.sid = c.sid ∧ c'.released = (if c'.pc.finished then 1 else 0) ∧
      s'.callers = update s.callers t (some c') ∧ s'.nThreads = s.nThreads ∧
      ∀ sid, sid ≠ c.sid → s'.lockKey sid = s.lockKey sid ∧ s'.cache sid = s.cache sid ∧
        s'.refs sid = s.refs sid ∧ s'.reloads sid = s.reloads sid ∧
        s'.waitersMade sid = s.waitersMade sid ∧ s'.waitersErased sid = s.waitersErased sid := by
  simp only [Sys.threadStep, Sys.unregister] at h
  split at h <;> (repeat' split at h) <;>
    simp only [Option.some.injEq, Option.map_eq_some', reduceCtorEq] at h
  all_goals
    try obtain ⟨_, -, h⟩ : ∃ _, _ ∧ _ := h
    subst h
    refine ⟨_, ?_, ?_, rfl, rfl, fun sid hne => ?_⟩
    · rfl
    · simp_all [DsPc.finished]
    · simp [Sys.setCaller, bump, update_noteq hne]


theorem fields_of_setCaller {X : Sys} {c' : DsCaller} (h : X.setCaller t c' = s') :
    s'.callers = update X.callers t (some c') ∧ s'.nThreads = X.nThreads ∧
      s'.lockKey = X.lockKey ∧ s'.cache = X.cache ∧ s'.refs = X.refs ∧ s'.reloads = X.reloads ∧
      s'.waitersMade = X.waitersMade ∧ s'.waitersErased = X.waitersErased := by
  subst h; exact ⟨rfl, rfl, rfl, rfl, rfl, rfl, rfl, rfl⟩

theorem callers_move {c' : DsCaller} (hcs : s'.callers = update s.callers t (some c'))
    {t₁ : Nat} {c₁ : DsCaller} (h₁ : s'.callers t₁ = some c₁) : c₁ = c' ∨ s.callers t₁ = some c₁ := by
  rw [hcs] at h₁
  by_cases ht : t₁ = t
  · subst ht; rw [update_same] at h₁; exact .inl (Option.some.inj h₁).symm
  · rw [update_noteq ht] at h₁; exact .inr h₁

theorem Sys.Inv.count_move (hi : s.Inv) (hc : s.callers t = some c) {c' : DsCaller}
    (hcs : s'.callers = update s.callers t (some c')) (hsid : c'.sid = c.sid)
    (hn : s'.nThreads = s.nThreads) (P : DsPc → Bool) :
    count P s' c.sid + (P c.pc).toNat = count P s c.sid + (P c'.pc).toNat := by
  have h' : onSid P c.sid (some c') = (P c'.pc).toNat := hsid ▸ onSid_self P c'
  unfold count; rw [hn, hcs, ← onSid_self P c, ← h']
  exact sum_onSid_update P (hi.lt hc) hc c' c.sid

/-- The five counts the invariant reads, after the caller on thread `t` moves from `c` to
`c'`. -/
theorem Sys.Inv.counts_move (hi : s.Inv) (hc : s.callers t = some c) {c' : DsCaller}
    (hcs : s'.callers = update s.callers t (some c')) (hsid : c'.sid = c.sid)
    (hn : s'.nThreads = s.nThreads) :
    count DsPc.registered s' c.sid + c.pc.registered.toNat =
      count DsPc.registered s c.sid + c'.pc.registered.toNat ∧
    count DsPc.leads s' c.sid + c.pc.leads.toNat = count DsPc.leads s c.sid + c'.pc.leads.toNat ∧
    count DsPc.woken s' c.sid + c.pc.woken.toNat = count DsPc.woken s c.sid + c'.pc.woken.toNat ∧
    count DsPc.inReload s' c.sid + c.pc.inReload.toNat =
      count DsPc.inReload s c.sid + c'.pc.inReload.toNat ∧
    count DsPc.holds s' c.sid + c.pc.holds.toNat = count DsPc.holds s c.sid + c'.pc.holds.toNat :=
  ⟨hi.count_move hc hcs hsid hn _, hi.count_move hc hcs hsid hn _, hi.count_move hc hcs hsid hn _,
    hi.count_move hc hcs hsid hn _, hi.count_move hc hcs hsid hn _⟩

/-- The callers' data sets after the caller on thread `t` moves to `c'`, the cached data set
kept. -/
theorem SidInv.dataSet_move (hl : SidInv s sid) {c' : DsCaller}
    (hcs : s'.callers = update s.callers t (some c'))
    (hca : s.cache sid ≠ none → s'.cache sid = s.cache sid)
    (hnew : c'.sid = sid → ∀ d, c'.pc.dataSet = some d → s'.cache sid = some d) :
    ∀ t₁ c₁ d, s'.callers t₁ = some c₁ → c₁.sid = sid → c₁.pc.dataSet = some d →
      s'.cache sid = some d := by
  intro t₁ c₁ d h₁ hs hd
  rcases callers_move hcs h₁ with rfl | h₁
  · exact hnew hs d hd
  · have := hl.dataSet_cached t₁ c₁ d h₁ hs hd
    rw [hca (by rw [this]; exact Option.some_ne_none d), this]

theorem KeyOk.leads_le_one (h : KeyOk s sid) : count DsPc.leads s sid ≤ 1 := by
  unfold KeyOk at h
  split at h
  · rw [h.2.1]; split <;> omega
  · omega

/-! ## Each place of a caller, at its own data set -/

/-- `LockAndPut` of `DS#sid`: the caller joins the key's `Waiter`, or registers one and leads
it. -/
theorem Sys.Inv.locking_sid (hi : s.Inv) (hc : s.callers t = some c) (hpc : c.pc = .locking)
    (h : s.threadStep t c = some s') : SidInv s' c.sid := by
  have hl := hi.at_sid c.sid
  have hk := hl.key
  simp only [Sys.threadStep, hpc, Option.some.injEq] at h
  split at h <;> rename_i hw <;> simp only [KeyOk, hw] at hk <;> simp only [Option.some.injEq] at h
  all_goals
    obtain ⟨hcs, hn, hlk, hca, hrf, hrl, hwm, hwe⟩ := fields_of_setCaller h
    try dsimp only at hcs hn hlk hca hrf hrl hwm hwe
    obtain ⟨dR, dL, dW, dI, dH⟩ := hi.counts_move hc hcs rfl hn
    simp only [hpc, DsPc.registered, DsPc.leads, DsPc.woken, DsPc.inReload, DsPc.holds,
      Bool.toNat_true, Bool.toNat_false, add_zero] at dR dL dW dI dH
    refine ⟨by rw [hrl, hca]; exact hl.reloads_eq,
      hl.dataSet_move hcs (fun _ => by rw [hca]) (fun _ _ h => nomatch h),
      fun h => by rw [hca] at h; have := hl.reload_uncached h; omega,
      by rw [hrf, hl.refs_eq]; omega, ?_⟩
    simp only [KeyOk, hlk, update_same, hca, hwm, hwe]
  · -- joins: `++wait_num`
    obtain ⟨k1, k2, k3, k4, k5, -⟩ := hk
    exact ⟨by omega, by omega, fun h => by have := k3 h; omega, k4, k5, by omega⟩
  · -- registers a `Waiter` and leads it
    obtain ⟨k1, k2, k3, k4⟩ := hk
    simp only [bump, update_same, Bool.false_eq_true, if_false]
    exact ⟨by omega, by omega, fun _ => by omega, nofun, by omega, by omega⟩

/-- `GetContentAfterWait`: once the `Waiter` is signalled, the caller looks the data set up and
gets a handle of it. -/
theorem Sys.Inv.waiting_sid (hi : s.Inv) (hc : s.callers t = some c) (hpc : c.pc = .waiting)
    (h : s.threadStep t c = some s') : SidInv s' c.sid := by
  have hl := hi.at_sid c.sid
  simp only [Sys.threadStep, hpc] at h
  split at h
  · rename_i hdone
    obtain ⟨d, hd, h⟩ := Option.map_eq_some'.mp h
    obtain ⟨hcs, hn, hlk, hca, hrf, hrl, hwm, hwe⟩ := fields_of_setCaller h
    try dsimp only at hcs hn hlk hca hrf hrl hwm hwe
    obtain ⟨dR, dL, dW, dI, dH⟩ := hi.counts_move hc hcs rfl hn
    simp only [hpc, DsPc.registered, DsPc.leads, DsPc.woken, DsPc.inReload, DsPc.holds,
      Bool.toNat_true, Bool.toNat_false, add_zero] at dR dL dW dI dH
    obtain ⟨w, hw, hwd⟩ : ∃ w, s.lockKey c.sid = some w ∧ w.done = true := by
      cases hw : s.lockKey c.sid <;> simp_all
    have hk := hl.key
    simp only [KeyOk, hw, hwd] at hk
    obtain ⟨k1, k2, -, k4, k5, k6⟩ := hk
    refine ⟨by rw [hrl, hca]; exact hl.reloads_eq,
      hl.dataSet_move hcs (fun _ => by rw [hca]) fun _ _ h => by cases h; rw [hca]; exact hd,
      fun h => by rw [hca] at h; have := hl.reload_uncached h; omega,
      by rw [hrf, bump, update_same, hl.refs_eq]; omega, ?_⟩
    simp only [KeyOk, hlk, hw, hca, hwm, hwe, hwd]
    exact ⟨by omega, by omega, nofun, k4, k5, k6⟩
  · cases h

/-- Back from `GetContentAfterWait`: the woken caller takes `mu_` to decrement `wait_num`, and the
last caller registered erases the key and deletes the `Waiter`. -/
theorem Sys.Inv.relockWaiter_sid (hi : s.Inv) (hc : s.callers t = some c) {d : Nat}
    (hpc : c.pc = .relockWaiter d) (h : s.threadStep t c = some s') : SidInv s' c.sid := by
  have hl := hi.at_sid c.sid
  have hR := count_pos (hi.lt hc) hc (P := DsPc.registered) (by simp [hpc])
  obtain ⟨w, hw, hwd⟩ :=
    hl.key.of_woken (Nat.pos_iff_ne_zero.mp (count_pos (hi.lt hc) hc (by simp [hpc])))
  have hWR := count_le_count (P := DsPc.woken) (Q := DsPc.registered)
    (fun pc => by cases pc <;> simp) s c.sid
  have hk := hl.key
  simp only [KeyOk, hw] at hk
  obtain ⟨k1, k2, -, k4, k5, -⟩ := hk
  rw [if_pos hwd] at k2
  simp only [Sys.threadStep, hpc, Sys.unregister, hw, Option.some.injEq] at h
  split at h <;> rename_i h1
  all_goals
    obtain ⟨hcs, hn, hlk, hca, hrf, hrl, hwm, hwe⟩ := fields_of_setCaller h
    try dsimp only at hcs hn hlk hca hrf hrl hwm hwe
    obtain ⟨dR, dL, dW, dI, dH⟩ := hi.counts_move hc hcs rfl hn
    simp only [hpc, DsPc.registered, DsPc.leads, DsPc.woken, DsPc.inReload, DsPc.holds,
      Bool.toNat_true, Bool.toNat_false, add_zero] at dR dL dW dI dH
    refine ⟨by rw [hrl, hca]; exact hl.reloads_eq,
      hl.dataSet_move hcs (fun _ => by rw [hca]) fun _ _ h => by
        cases h; rw [hca]; exact hl.dataSet_cached t c d hc rfl (by simp [hpc]),
      fun h => by rw [hca] at h; have := hl.reload_uncached h; omega,
      by rw [hrf, hl.refs_eq]; omega, ?_⟩
    simp only [KeyOk, hlk, update_same, hca, hwm, hwe]
  · -- the last one out erases the key
    simp only [bump, update_same]
    exact ⟨by omega, by omega, by omega, by omega⟩
  · rw [if_pos hwd]
    exact ⟨by omega, by omega, fun h => absurd (hwd.symm.trans h) Bool.noConfusion, k4, k5, by omega⟩

/-- `PutContentAfterLock`: the leader looks the data set up again, and goes on to `ReloadDataSet`
if it is still missing. -/
theorem Sys.Inv.putting_sid (hi : s.Inv) (hc : s.callers t = some c) (hpc : c.pc = .putting)
    (h : s.threadStep t c = some s') : SidInv s' c.sid := by
  have hl := hi.at_sid c.sid
  simp only [Sys.threadStep, hpc] at h
  split at h <;> rename_i hd <;> simp only [Option.some.injEq] at h
  all_goals
    obtain ⟨hcs, hn, hlk, hca, hrf, hrl, hwm, hwe⟩ := fields_of_setCaller h
    try dsimp only at hcs hn hlk hca hrf hrl hwm hwe
    obtain ⟨dR, dL, dW, dI, dH⟩ := hi.counts_move hc hcs rfl hn
    simp only [hpc, DsPc.registered, DsPc.leads, DsPc.woken, DsPc.inReload, DsPc.holds,
      Bool.toNat_true, Bool.toNat_false, add_zero] at dR dL dW dI dH
    refine ⟨by rw [hrl, hca]; exact hl.reloads_eq, hl.dataSet_move hcs (fun _ => by rw [hca]) ?_,
      fun h => ?_, ?_, hl.key.congr (by rw [hlk]) (by rw [hca]; exact id) (by rw [hwm]) (by rw [hwe])
        (by omega) (by omega) (by omega)⟩
  -- found: a handle of the cached data set
  · intro _ _ h; cases h; rw [hca]; exact hd
  · rw [hca] at h; have := hl.reload_uncached h; omega
  · rw [hrf, bump, update_same, hl.refs_eq]; omega
  -- missing: `ReloadDataSet`
  · intro _ _ h; cases h
  · rw [hca] at h; exact absurd hd h
  · rw [hrf, hl.refs_eq]; omega

/-- `ReloadDataSet` builds a new `DataSet` and inserts it into `data_set_cache_`; the leader gets
a handle of it. -/
theorem Sys.Inv.reloading_sid (hi : s.Inv) (hc : s.callers t = some c) (hpc : c.pc = .reloading)
    (h : s.threadStep t c = some s') : SidInv s' c.sid := by
  have hl := hi.at_sid c.sid
  have hI := count_pos (hi.lt hc) hc (P := DsPc.inReload) (by simp [hpc])
  have hnone : s.cache c.sid = none := by
    by_contra hne; have := hl.reload_uncached hne; omega
  have hIL := count_le_count (P := DsPc.inReload) (Q := DsPc.leads)
    (fun pc => by cases pc <;> simp) s c.sid
  have hL1 := hl.key.leads_le_one
  simp only [Sys.threadStep, hpc, Option.some.injEq] at h
  obtain ⟨hcs, hn, hlk, hca, hrf, hrl, hwm, hwe⟩ := fields_of_setCaller h
  try dsimp only at hcs hn hlk hca hrf hrl hwm hwe
  obtain ⟨dR, dL, dW, dI, dH⟩ := hi.counts_move hc hcs rfl hn
  simp only [hpc, DsPc.registered, DsPc.leads, DsPc.woken, DsPc.inReload, DsPc.holds,
    Bool.toNat_true, Bool.toNat_false, add_zero] at dR dL dW dI dH
  have hca' : s'.cache c.sid = some s.nextDataSet := by rw [hca, update_same]
  refine ⟨by simp [hrl, hca', bump, hl.reloads_eq, hnone],
    hl.dataSet_move hcs (fun h => absurd hnone h) fun _ _ h => by cases h; exact hca',
    fun _ => by omega, by rw [hrf, bump, update_same, hl.refs_eq]; omega,
    hl.key.congr (by rw [hlk]) (fun _ => by simp [hca']) (by rw [hwm]) (by rw [hwe]) (by omega)
      (by omega) (by omega)⟩

/-- Back from `PutContentAfterLock`: the leader takes `mu_` to decrement `wait_num`. If it was the
last caller registered it erases the key; otherwise it is left to signal the waiters. -/
theorem Sys.Inv.relockOwner_sid (hi : s.Inv) (hc : s.callers t = some c) {d : Nat}
    (hpc : c.pc = .relockOwner d) (h : s.threadStep t c = some s') : SidInv s' c.sid := by
  have hl := hi.at_sid c.sid
  have hR := count_pos (hi.lt hc) hc (P := DsPc.registered) (by simp [hpc])
  obtain ⟨w, hw, hwd, hL⟩ :=
    hl.key.of_leads (Nat.pos_iff_ne_zero.mp (count_pos (hi.lt hc) hc (by simp [hpc])))
  have hk := hl.key
  simp only [KeyOk, hw] at hk
  obtain ⟨k1, -, k3, -, k5, -⟩ := hk
  have hW := k3 hwd
  simp only [Sys.threadStep, hpc, Sys.unregister, hw] at h
  split at h <;> rename_i h1 <;> simp only [h1, if_true, if_false, Option.some.injEq] at h
  all_goals
    obtain ⟨hcs, hn, hlk, hca, hrf, hrl, hwm, hwe⟩ := fields_of_setCaller h
    try dsimp only at hcs hn hlk hca hrf hrl hwm hwe
    obtain ⟨dR, dL, dW, dI, dH⟩ := hi.counts_move hc hcs rfl hn
    simp only [hpc, DsPc.registered, DsPc.leads, DsPc.woken, DsPc.inReload, DsPc.holds,
      Bool.toNat_true, Bool.toNat_false, add_zero] at dR dL dW dI dH
    refine ⟨by rw [hrl, hca]; exact hl.reloads_eq,
      hl.dataSet_move hcs (fun _ => by rw [hca]) fun _ _ h => by
        cases h; rw [hca]; exact hl.dataSet_cached t c d hc rfl (by simp [hpc]),
      fun h => by rw [hca] at h; have := hl.reload_uncached h; omega,
      by rw [hrf, hl.refs_eq]; omega, ?_⟩
    simp only [KeyOk, hlk, update_same, hca, hwm, hwe]
  · -- the last one out erases the key
    simp only [bump, update_same]
    exact ⟨by omega, by omega, by omega, by omega⟩
  · rw [if_neg (by simp [hwd])]
    exact ⟨by omega, by omega, fun _ => by omega, fun h => absurd (hwd.symm.trans h) nofun, k5,
      by omega⟩

theorem Sys.Inv.signalling_sid (hi : s.Inv) (hc : s.callers t = some c) {d : Nat}
    (hpc : c.pc = .signalling d) (h : s.threadStep t c = some s') : SidInv s' c.sid := by
  have hl := hi.at_sid c.sid
  have hd := hl.dataSet_cached t c d hc rfl (by simp [hpc])
  obtain ⟨w, hw, hwd, hL⟩ :=
    hl.key.of_leads (Nat.pos_iff_ne_zero.mp (count_pos (hi.lt hc) hc (by simp [hpc])))
  have hk := hl.key
  simp only [KeyOk, hw] at hk
  obtain ⟨k1, -, -, -, k5, k6⟩ := hk
  simp only [Sys.threadStep, hpc, hw, Option.some.injEq] at h
  obtain ⟨hcs, hn, hlk, hca, hrf, hrl, hwm, hwe⟩ := fields_of_setCaller h
  try dsimp only at hcs hn hlk hca hrf hrl hwm hwe
  obtain ⟨dR, dL, dW, dI, dH⟩ := hi.counts_move hc hcs rfl hn
  simp only [hpc, DsPc.registered, DsPc.leads, DsPc.woken, DsPc.inReload, DsPc.holds,
    Bool.toNat_true, Bool.toNat_false, add_zero] at dR dL dW dI dH
  refine ⟨by rw [hrl, hca]; exact hl.reloads_eq,
    hl.dataSet_move hcs (fun _ => by rw [hca]) fun _ _ h => by cases h; rw [hca]; exact hd,
    fun h => by rw [hca] at h; have := hl.reload_uncached h; omega,
    by rw [hrf, hl.refs_eq]; omega, ?_⟩
  simp only [KeyOk, hlk, update_same, hca, hwm, hwe, eq_self_iff_true, if_true]
  exact ⟨by omega, by omega, nofun, fun _ => by simp [hd], k5, k6⟩

theorem Sys.Inv.allocating_sid (hi : s.Inv) (hc : s.callers t = some c) {d : Nat}
    (hpc : c.pc = .allocating d) (h : s.threadStep t c = some s') : SidInv s' c.sid := by
  have hl := hi.at_sid c.sid
  have hH := count_pos (hi.lt hc) hc (P := DsPc.holds) (by simp [hpc])
  simp only [Sys.threadStep, hpc, Option.some.injEq] at h
  obtain ⟨hcs, hn, hlk, hca, hrf, hrl, hwm, hwe⟩ := fields_of_setCaller h
  try dsimp only at hcs hn hlk hca hrf hrl hwm hwe
  obtain ⟨dR, dL, dW, dI, dH⟩ := hi.counts_move hc hcs rfl hn
  simp only [hpc, DsPc.registered, DsPc.leads, DsPc.woken, DsPc.inReload, DsPc.holds,
    Bool.toNat_true, Bool.toNat_false, add_zero] at dR dL dW dI dH
  refine ⟨by rw [hrl, hca]; exact hl.reloads_eq,
    hl.dataSet_move hcs (fun _ => by rw [hca]) fun _ _ h => by
      cases h; rw [hca]; exact hl.dataSet_cached t c d hc rfl (by simp [hpc]),
    fun h => by rw [hca] at h; have := hl.reload_uncached h; omega,
    by rw [hrf, update_same, hl.refs_eq]; omega,
    hl.key.congr (by rw [hlk]) (by rw [hca]; exact id) (by rw [hwm]) (by rw [hwe]) (by omega)
      (by omega) (by omega)⟩

/-! ## Every run -/

theorem Sys.Inv.threadStep (hi : s.Inv) (hc : s.callers t = some c)
    (h : s.threadStep t c = some s') : s'.Inv := by
  obtain ⟨c', hsid, hrel, hcs, hn, hother⟩ := threadStep_frame (hi.released t c hc) h
  refine hi.of_move hc hsid hrel hn hcs hother ?_
  cases hpc : c.pc with
  | locking => exact hi.locking_sid hc hpc h
  | waiting => exact hi.waiting_sid hc hpc h
  | relockWaiter d => exact hi.relockWaiter_sid hc hpc h
  | putting => exact hi.putting_sid hc hpc h
  | reloading => exact hi.reloading_sid hc hpc h
  | relockOwner d => exact hi.relockOwner_sid hc hpc h
  | signalling d => exact hi.signalling_sid hc hpc h
  | allocating d => exact hi.allocating_sid hc hpc h
  | done d => simp [Sys.threadStep, hpc] at h

theorem Sys.Inv.step (hi : s.Inv) {e : DsEvent} (h : s.step e = some s') : s'.Inv := by
  cases e with
  | call sid => exact hi.call h
  | run t =>
    simp only [Sys.step] at h
    split at h
    · exact hi.threadStep ‹_› h
    · cases h

theorem Sys.Inv.run (hi : s.Inv) {es : List DsEvent} (h : s.run es = some s') : s'.Inv := by
  induction es generalizing s with
  | nil => cases h; exact hi
  | cons e es ih =>
    obtain ⟨s₁, h₁, h⟩ := Option.bind_eq_some.mp h
    exact ih (hi.step h₁) h

/-! ## No caller waits forever -/

theorem Sys.Inv.threadStep_ne_none (hi : s.Inv) (hc : s.callers t = some c)
    (hfin : c.pc.finished = false)
    (hwait : c.pc = .waiting → (s.lockKey c.sid).any Waiter.done = true) :
    s.threadStep t c ≠ none := by
  have hl := hi.at_sid c.sid
  have hkey : c.pc.leads = true → ∃ w, s.lockKey c.sid = some w := fun hL =>
    let ⟨w, hw, _⟩ := hl.key.of_leads (Nat.pos_iff_ne_zero.mp (count_pos (hi.lt hc) hc hL))
    ⟨w, hw⟩
  cases hpc : c.pc with
  | waiting =>
    have hdone := hwait hpc
    cases hw : s.lockKey c.sid with
    | none => simp [hw] at hdone
    | some w =>
      have hk := hl.key
      simp only [KeyOk, hw] at hk
      obtain ⟨d, hd⟩ := Option.ne_none_iff_exists'.mp (hk.2.2.2.1 (by simpa [hw] using hdone))
      simp [Sys.threadStep, hpc, hdone, hd]
  | relockOwner d =>
    obtain ⟨w, hw⟩ := hkey (by simp [hpc])
    simp only [Sys.threadStep, hpc, hw]
    split <;> simp
  | signalling d =>
    obtain ⟨w, hw⟩ := hkey (by simp [hpc])
    simp [Sys.threadStep, hpc, hw]
  | done d => simp [hpc] at hfin
  | locking => simp only [Sys.threadStep, hpc]; split <;> simp
  | putting => simp only [Sys.threadStep, hpc]; split <;> simp
  | _ => simp [Sys.threadStep, hpc]

/-- A state in which no caller can take a step has every caller done: a caller waits only on a
`Waiter` whose leader can go on. -/
theorem Sys.Inv.stuck (hi : s.Inv) (h : ∀ t, s.step (.run t) = none) :
    ∀ t c, s.callers t = some c → c.pc.finished = true := by
  have hstep : ∀ t c, s.callers t = some c → s.threadStep t c = none := fun t c hc => by
    simpa [Sys.step, hc] using h t
  intro t c hc
  by_contra hfin
  rw [Bool.not_eq_true] at hfin
  refine hi.threadStep_ne_none hc hfin (fun hpc => ?_) (hstep t c hc)
  by_contra hnd
  rw [Bool.not_eq_true] at hnd
  obtain ⟨w, hw, hR⟩ := (hi.at_sid c.sid).key.of_registered
    (Nat.pos_iff_ne_zero.mp (count_pos (hi.lt hc) hc (by simp [hpc])))
  have hk := (hi.at_sid c.sid).key
  simp only [KeyOk, hw] at hk
  have hwd : w.done = false := by simpa [hw] using hnd
  obtain ⟨t₂, c₂, hc₂, hs₂, hL₂⟩ := exists_of_count_ne_zero (P := DsPc.leads)
    (by rw [hk.2.1, hwd]; simp)
  refine hi.threadStep_ne_none hc₂ ?_ (fun hpc₂ => by simp [hpc₂] at hL₂) (hstep t₂ c₂ hc₂)
  revert hL₂; cases c₂.pc <;> simp

/-- No caller on `sid` of which `P` holds, when `P` holds of no finished caller and every caller
is finished. -/
theorem count_eq_zero_of_finished (hfin : ∀ t c, s.callers t = some c → c.pc.finished = true)
    {P : DsPc → Bool} (hP : ∀ d, P (.done d) = false) : count P s sid = 0 := by
  by_contra hne
  obtain ⟨t, c, hc, -, hPc⟩ := exists_of_count_ne_zero hne
  have := hfin t c hc
  revert hPc this; cases c.pc <;> simp [hP]

/-- Once every caller is done, no key is locked, every `Waiter` made has been erased, and no
handle is held. -/
theorem Sys.Inv.all_done (hi : s.Inv)
    (hfin : ∀ t c, s.callers t = some c → c.pc.finished = true) (sid : Nat) :
    s.lockKey sid = none ∧ s.waitersErased sid = s.waitersMade sid ∧ s.refs sid = 0 := by
  have hR : count DsPc.registered s sid = 0 := count_eq_zero_of_finished hfin fun _ => rfl
  have hk := (hi.at_sid sid).key
  refine ⟨?_, ?_, by rw [(hi.at_sid sid).refs_eq]; exact count_eq_zero_of_finished hfin fun _ => rfl⟩
  all_goals
    unfold KeyOk at hk
    split at hk
    · omega
    · first | assumption | exact hk.2.2.2

/-- Only the last caller registered on a key erases it: the step that deletes a `Waiter` is a
registered caller's `--wait_num` that leaves none. -/
theorem Sys.Inv.erase_by_last (hi : s.Inv) (hc : s.callers t = some c)
    (h : s.threadStep t c = some s') (he : s.waitersErased sid < s'.waitersErased sid) :
    c.sid = sid ∧ c.pc.registered = true ∧ count DsPc.registered s sid = 1 := by
  obtain ⟨c', -, -, -, -, hother⟩ := threadStep_frame (hi.released t c hc) h
  by_cases hs : sid = c.sid
  swap
  · rw [(hother sid hs).2.2.2.2.2] at he; exact absurd he (lt_irrefl _)
  subst hs
  have hk := (hi.at_sid c.sid).key
  simp only [Sys.threadStep, Sys.unregister] at h
  split at h <;> (repeat' split at h) <;>
    simp only [Option.some.injEq, Option.map_eq_some', reduceCtorEq] at h
  all_goals
    try obtain ⟨_, -, h⟩ : ∃ _, _ ∧ _ := h
    subst h
    simp only [Sys.setCaller, bump, update_same, lt_self_iff_false] at he
  all_goals
    simp only [KeyOk, ‹s.lockKey c.sid = some _›] at hk
    obtain ⟨hR, -, -, -, -, hpos⟩ := hk
    refine ⟨rfl, by rw [‹c.pc = _›]; rfl, ?_⟩
    simp_all only [Option.some.injEq]
    omega

/-! ## `GetDataSet` under any interleaving -/

/-- For every interleaving of `GetAndAllocBlock` calls: `ReloadDataSet` has run at most once for
each data set, and callers of one data set got the same `DataSet`; every `Waiter` made is erased
at most once, and only by the last caller registered on it; a caller has released its handle once
when it is done and never before; and once no caller can go on, every caller is done and has
released its handle, every key is unlocked and every `Waiter` made has been erased. -/
theorem getDataSet_reloads_once (es : List DsEvent) (s : Sys) (h : Sys.init.run es = some s) :
    (∀ sid, s.reloads sid ≤ 1) ∧
    (∀ t t' c c' d d', s.callers t = some c → s.callers t' = some c' → c.sid = c'.sid →
      c.pc.dataSet = some d → c'.pc.dataSet = some d' → d = d') ∧
    (∀ sid, s.waitersErased sid + (if s.lockKey sid = none then 0 else 1) = s.waitersMade sid) ∧
    (∀ t c s'' sid, s.callers t = some c → s.step (.run t) = some s'' →
      s.waitersErased sid < s''.waitersErased sid →
      c.sid = sid ∧ c.pc.registered = true ∧ count DsPc.registered s sid = 1) ∧
    (∀ t c, s.callers t = some c → c.released = if c.pc.finished then 1 else 0) ∧
    ((∀ t, s.step (.run t) = none) →
      (∀ t c, s.callers t = some c → c.pc.finished = true ∧ c.released = 1) ∧
      ∀ sid, s.lockKey sid = none ∧ s.waitersErased sid = s.waitersMade sid ∧ s.refs sid = 0) := by
  have hi := Sys.Inv.init.run h
  refine ⟨fun sid => ?_, fun t t' c c' d d' hc hc' hs hd hd' => ?_,
    fun sid => (hi.at_sid sid).key.waiters, fun t c s'' sid hc hs'' he => ?_, hi.released,
    fun hstuck => ⟨fun t c hc => ?_, hi.all_done (hi.stuck hstuck)⟩⟩
  · rw [(hi.at_sid sid).reloads_eq]; split <;> omega
  · have h₁ := (hi.at_sid c.sid).dataSet_cached t c d hc rfl hd
    rw [(hi.at_sid c.sid).dataSet_cached t' c' d' hc' hs.symm hd'] at h₁
    exact (Option.some.inj h₁).symm
  · simp only [Sys.step, hc] at hs''
    exact hi.erase_by_last hc hs'' he
  · have hfin := hi.stuck hstuck t c hc
    exact ⟨hfin, by rw [hi.released t c hc, hfin]; rfl⟩

/-- Two callers of one data set: the second registers while the first is in
`PutContentAfterLock`, is woken by `SignalAll` and is the last one out. -/
theorem getDataSet_reloads_once_two_callers :
    let race : List DsEvent := [.call 0, .call 0, .run 0, .run 1, .run 0, .run 0, .run 0, .run 0,
      .run 1, .run 1, .run 0, .run 1]
    ∃ s, Sys.init.run race = some s ∧ s.reloads 0 = 1 ∧ s.lockKey 0 = none ∧
      s.waitersErased 0 = s.waitersMade 0 ∧ ∀ t c, s.callers t = some c → c.released = 1 := by
  intro race
  obtain ⟨-, -, -, -, -, h⟩ := getDataSet_reloads_once race _ rfl
  have hstuck := h fun t => by rcases t with _ | _ | t <;> rfl
  exact ⟨_, rfl, rfl, (hstuck.2 0).1, (hstuck.2 0).2.1, fun t c hc => (hstuck.1 t c hc).2⟩

end Leveldb.BlockCache.DataSets
