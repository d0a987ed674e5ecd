import Mathlib.Data.Finset.Basic
import Mathlib.Logic.Function.Basic

/-!
# `DeleteObsoleteFiles` against flushes and compactions

Table files are named by their full numbers. `pending_outputs_` holds the numbers of outputs
being written; a `Version` is a set of files, and the live versions are `current` and those a
`Ref` keeps (an iterator, a `Get`, a compaction's input version). A flush (`WriteLevel0Table` +
`CompactMemTable`) and a compaction (`OpenCompactionOutputFile`, `InstallCompactionResults` with
`LogAndApply`, `CleanupCompaction`) release `mutex_` where the code does, and so does each run of
`DeleteObsoleteFiles`: for the directory listing and for each `DeleteFile`. `NewFileNumber`
hands out the numbers above every file in the directory of the opened engine.
-/
namespace Leveldb.ObsoleteFiles

open Function (update)

/-- Where a flush is: in `BuildTable` for file `n` (`created` once the file exists), or in
`LogAndApply` of the edit that adds `n` if `added` (a non-empty table was built). -/
inductive FlushPc where
  | idle
  | building (n : Nat) (created : Bool)
  | logging (n : Nat) (added : Bool)
  deriving DecidableEq

/-- Where a compaction is: running `HandleCompactionWork` over `inputs` of the pinned
`version`, with its outputs (number, created); in `LogAndApply` of its edit; or about to run
`CleanupCompaction`. -/
inductive CompactPc where
  | idle
  | running (inputs version : Finset Nat) (outputs : List (Nat × Bool))
  | installing (inputs version : Finset Nat) (outputs : List (Nat × Bool))
  | cleaning (version : Finset Nat) (outputs : List (Nat × Bool))
  deriving DecidableEq

/-- Where a run of `DeleteObsoleteFiles` is: after `GetChildren` returned `listed`; or walking
the rest of the listing with the live set it computed. -/
inductive CleanerPc where
  | idle
  | listed (names : List Nat)
  | deleting (live : Finset Nat) (names : List Nat)
  deriving DecidableEq

/-- An iterator or a `Get` holding a `Ref` on a version. -/
inductive ReaderPc where
  | idle
  | holding (version : Finset Nat)
  deriving DecidableEq

structure Sys where
  dir : List Nat
  nextFileNumber : Nat
  pending : Finset Nat
  current : Finset Nat
  refs : List (Finset Nat)
  flushPc : Nat → FlushPc
  compactPc : Nat → CompactPc
  cleanerPc : Nat → CleanerPc
  readerPc : Nat → ReaderPc

/-- An opened engine: its directory, `next_file_number` and current version; nothing runs. -/
def Sys.opened (dir : List Nat) (nextFileNumber : Nat) (current : Finset Nat) : Sys where
  dir := dir
  nextFileNumber := nextFileNumber
  pending := ∅
  current := current
  refs := []
  flushPc := fun _ => .idle
  compactPc := fun _ => .idle
  cleanerPc := fun _ => .idle
  readerPc := fun _ => .idle

/-- The files of the versions a `Ref` keeps alive. -/
def refFiles : List (Finset Nat) → Finset Nat
  | [] => ∅
  | v :: refs => v ∪ refFiles refs

theorem mem_refFiles {f : Nat} : ∀ {refs : List (Finset Nat)}, f ∈ refFiles refs ↔ ∃ v ∈ refs, f ∈ v
  | [] => by simp [refFiles]
  | v :: refs => by simp [refFiles, mem_refFiles]

/-- `live`: `pending_outputs_` with `VersionSet::AddLiveFiles`. -/
def Sys.liveSet (s : Sys) : Finset Nat := s.pending ∪ s.current ∪ refFiles s.refs

def Sys.InLiveVersion (s : Sys) (f : Nat) : Prop := f ∈ s.current ∨ ∃ v ∈ s.refs, f ∈ v

def createdOutputs (outputs : List (Nat × Bool)) : Finset Nat :=
  (outputs.filter (·.2)).map Prod.fst |>.toFinset

/-- One step of one thread. -/
inductive Action where
  | flushBegin (i : Nat)
  | flushCreate (i : Nat)
  | flushBuilt (i : Nat) (ok added : Bool)
  | flushLogged (i : Nat) (ok : Bool)
  | compactPick (j : Nat) (inputs : Finset Nat)
  | compactOpen (j : Nat)
  | compactCreate (j : Nat)
  | compactDone (j : Nat) (ok : Bool)
  | compactInstall (j : Nat) (ok : Bool)
  | compactMove (j : Nat)
  | compactCleanup (j : Nat)
  | readerPin (r : Nat)
  | readerUnpin (r : Nat)
  | dofList (k : Nat)
  | dofLive (k : Nat)
  | dofStep (k : Nat)
  | dofEnd (k : Nat)

/-- Marks the last output as created: `NewWritableFile` succeeded. -/
def markLastCreated : List (Nat × Bool) → List (Nat × Bool)
  | [] => []
  | [(n, _)] => [(n, true)]
  | o :: os => o :: markLastCreated os

/-- The state after one step, or `none` when the step cannot be taken.
* `flushBegin`: `NewFileNumber`, `pending_outputs_.insert`, then `BuildTable` without the mutex.
* `flushBuilt`: `pending_outputs_.erase`; on success `CompactMemTable` inserts the number again
  before `LogAndApply`, which releases the mutex; `added` says that the table is not empty.
* `flushLogged`: the new version holds the file if `LogAndApply` succeeded; the number leaves
  `pending_outputs_` either way.
* `compactPick`: the picker takes files of `current` and pins it as the input version.
* `compactOpen` / `compactCreate`: `OpenCompactionOutputFile`, then `NewWritableFile`.
* `compactInstall`: `InstallCompactionResults`' edit applied to `current` by `LogAndApply`.
* `compactMove`: a trivial move's `LogAndApply` moves its input file to the next level, which
  leaves the files of `current` as they are.
* `compactCleanup`: `CleanupCompaction` and `ReleaseInputs`.
* `dofList` / `dofLive` / `dofStep`: `GetChildren` without the mutex, the live set under it,
  then one name of the listing at a time, deleted without the mutex if not live. -/
def Sys.step (s : Sys) : Action → Option Sys
  | .flushBegin i =>
    if s.flushPc i = .idle then
      some { s with nextFileNumber := s.nextFileNumber + 1,
                    pending := insert s.nextFileNumber s.pending,
                    flushPc := update s.flushPc i (.building s.nextFileNumber false) }
    else none
  | .flushCreate i =>
    match s.flushPc i with
    | .building n false =>
      some { s with dir := n :: s.dir, flushPc := update s.flushPc i (.building n true) }
    | _ => none
  | .flushBuilt i ok added =>
    match s.flushPc i with
    | .building n created =>
      if ok then
        some { s with pending := insert n (s.pending.erase n),
                      flushPc := update s.flushPc i (.logging n (added && created)) }
      else some { s with pending := s.pending.erase n, flushPc := update s.flushPc i .idle }
    | _ => none
  | .flushLogged i ok =>
    match s.flushPc i with
    | .logging n added =>
      some { s with current := if ok && added then insert n s.current else s.current,
                    pending := s.pending.erase n, flushPc := update s.flushPc i .idle }
    | _ => none
  | .compactPick j inputs =>
    if s.compactPc j = .idle ∧ inputs ⊆ s.current then
      some { s with refs := s.current :: s.refs,
                    compactPc := update s.compactPc j (.running inputs s.current []) }
    else none
  | .compactOpen j =>
    match s.compactPc j with
    | .running inputs v outs =>
      some { s with nextFileNumber := s.nextFileNumber + 1,
                    pending := insert s.nextFileNumber s.pending,
                    compactPc := update s.compactPc j
                      (.running inputs v (outs ++ [(s.nextFileNumber, false)])) }
    | _ => none
  | .compactCreate j =>
    match s.compactPc j with
    | .running inputs v outs =>
      match outs.getLast? with
      | some (n, false) =>
        some { s with dir := n :: s.dir,
                      compactPc := update s.compactPc j (.running inputs v (markLastCreated outs)) }
      | _ => none
    | _ => none
  | .compactDone j ok =>
    match s.compactPc j with
    | .running inputs v outs =>
      let next : CompactPc := if ok then .installing inputs v outs else .cleaning v outs
      some { s with compactPc := update s.compactPc j next }
    | _ => none
  | .compactInstall j ok =>
    match s.compactPc j with
    | .installing inputs v outs =>
      some { s with current := if ok then (s.current \ inputs) ∪ createdOutputs outs
                      else s.current,
                    compactPc := update s.compactPc j (.cleaning v outs) }
    | _ => none
  | .compactMove j =>
    match s.compactPc j with
    | .running _ v [] => some { s with compactPc := update s.compactPc j (.cleaning v []) }
    | _ => none
  | .compactCleanup j =>
    match s.compactPc j with
    | .cleaning v outs =>
      some { s with pending := s.pending \ (outs.map Prod.fst).toFinset, refs := s.refs.erase v,
                    compactPc := update s.compactPc j .idle }
    | _ => none
  | .readerPin r =>
    if s.readerPc r = .idle then
      some { s with refs := s.current :: s.refs, readerPc := update s.readerPc r (.holding s.current) }
    else none
  | .readerUnpin r =>
    match s.readerPc r with
    | .holding v => some { s with refs := s.refs.erase v, readerPc := update s.readerPc r .idle }
    | .idle => none
  | .dofList k =>
    if s.cleanerPc k = .idle then
      some { s with cleanerPc := update s.cleanerPc k (.listed s.dir) }
    else none
  | .dofLive k =>
    match s.cleanerPc k with
    | .listed names => some { s with cleanerPc := update s.cleanerPc k (.deleting s.liveSet names) }
    | _ => none
  | .dofStep k =>
    match s.cleanerPc k with
    | .deleting live (f :: names) =>
      some { s with dir := if f ∈ live then s.dir else s.dir.erase f,
                    cleanerPc := update s.cleanerPc k (.deleting live names) }
    | _ => none
  | .dofEnd k =>
    match s.cleanerPc k with
    | .deleting _ [] => some { s with cleanerPc := update s.cleanerPc k .idle }
    | _ => none

def Sys.run (s : Sys) : List Action → Option Sys
  | [] => some s
  | a :: as => (s.step a).bind fun s' => s'.run as

/-! ## The invariant -/

def FlushPc.output : FlushPc → Option Nat
  | .idle => none
  | .building n _ => some n
  | .logging n _ => some n

def FlushPc.createdOutput : FlushPc → Option Nat
  | .building n true => some n
  | .logging n true => some n
  | _ => none

def CompactPc.outputs : CompactPc → List (Nat × Bool)
  | .idle => []
  | .running _ _ os => os
  | .installing _ _ os => os
  | .cleaning _ os => os

/-- A thread that allocates output numbers. -/
inductive Owner where
  | flush (i : Nat)
  | compaction (j : Nat)
  deriving DecidableEq

def Owns (fp : Nat → FlushPc) (cp : Nat → CompactPc) : Owner → Nat → Prop
  | .flush i, n => (fp i).output = some n
  | .compaction j, n => n ∈ (cp j).outputs.map Prod.fst

def Created (fp : Nat → FlushPc) (cp : Nat → CompactPc) : Owner → Nat → Prop
  | .flush i, n => (fp i).createdOutput = some n
  | .compaction j, n => (n, true) ∈ (cp j).outputs

/-- What every reachable state satisfies. -/
structure Sys.Inv (s : Sys) : Prop where
  dir_below : ∀ f ∈ s.dir, f < s.nextFileNumber
  owned_below : ∀ o n, Owns s.flushPc s.compactPc o n → n < s.nextFileNumber
  owned_pending : ∀ o n, Owns s.flushPc s.compactPc o n → n ∈ s.pending
  owned_unique : ∀ o o' n, Owns s.flushPc s.compactPc o n → Owns s.flushPc s.compactPc o' n →
    o = o'
  created_exists : ∀ o n, Created s.flushPc s.compactPc o n → n ∈ s.dir
  live_exists : ∀ f, s.InLiveVersion f → f ∈ s.dir
  listed_below : ∀ k names, s.cleanerPc k = .listed names → ∀ f ∈ names, f < s.nextFileNumber
  deleting_dead : ∀ k live names, s.cleanerPc k = .deleting live names → ∀ f ∈ names, f ∉ live →
    f < s.nextFileNumber ∧ f ∉ s.pending ∧ ¬s.InLiveVersion f

theorem owns_update_flush {fp : Nat → FlushPc} {cp : Nat → CompactPc} {i n : Nat} {p : FlushPc}
    {o : Owner} : Owns (update fp i p) cp o n ↔
      (o = .flush i ∧ p.output = some n) ∨ (o ≠ .flush i ∧ Owns fp cp o n) := by
  cases o with
  | flush i' => by_cases h : i' = i <;> simp [Owns, Function.update_apply, h]
  | compaction j => simp [Owns]

theorem owns_update_compact {fp : Nat → FlushPc} {cp : Nat → CompactPc} {j n : Nat}
    {p : CompactPc} {o : Owner} : Owns fp (update cp j p) o n ↔
      (o = .compaction j ∧ n ∈ p.outputs.map Prod.fst) ∨
        (o ≠ .compaction j ∧ Owns fp cp o n) := by
  cases o with
  | flush i => simp [Owns]
  | compaction j' => by_cases h : j' = j <;> simp [Owns, Function.update_apply, h]

theorem created_update_flush {fp : Nat → FlushPc} {cp : Nat → CompactPc} {i n : Nat}
    {p : FlushPc} {o : Owner} : Created (update fp i p) cp o n ↔
      (o = .flush i ∧ p.createdOutput = some n) ∨ (o ≠ .flush i ∧ Created fp cp o n) := by
  cases o with
  | flush i' => by_cases h : i' = i <;> simp [Created, Function.update_apply, h]
  | compaction j => simp [Created]

theorem created_update_compact {fp : Nat → FlushPc} {cp : Nat → CompactPc} {j n : Nat}
    {p : CompactPc} {o : Owner} : Created fp (update cp j p) o n ↔
      (o = .compaction j ∧ (n, true) ∈ p.outputs) ∨ (o ≠ .compaction j ∧ Created fp cp o n) := by
  cases o with
  | flush i => simp [Created]
  | compaction j' => by_cases h : j' = j <;> simp [Created, Function.update_apply, h]

theorem owns_of_created {fp : Nat → FlushPc} {cp : Nat → CompactPc} {o : Owner} {n : Nat}
    (h : Created fp cp o n) : Owns fp cp o n := by
  cases o with
  | flush i =>
    simp only [Created, Owns] at h ⊢
    cases hp : fp i with
    | idle => simp [hp, FlushPc.createdOutput] at h
    | building m c => cases c <;> simp_all [FlushPc.createdOutput, FlushPc.output]
    | logging m a => cases a <;> simp_all [FlushPc.createdOutput, FlushPc.output]
  | compaction j => exact List.mem_map.mpr ⟨_, h, rfl⟩

theorem inv_opened {dir : List Nat} {next : Nat} {current : Finset Nat}
    (hbelow : ∀ f ∈ dir, f < next) (hcur : ∀ f ∈ current, f ∈ dir) :
    (Sys.opened dir next current).Inv where
  dir_below := hbelow
  owned_below o n h := by cases o <;> simp [Owns, Sys.opened, FlushPc.output, CompactPc.outputs] at h
  owned_pending o n h := by cases o <;> simp [Owns, Sys.opened, FlushPc.output, CompactPc.outputs] at h
  owned_unique o o' n h := by
    cases o <;> simp [Owns, Sys.opened, FlushPc.output, CompactPc.outputs] at h
  created_exists o n h := by
    cases o <;> simp [Created, Sys.opened, FlushPc.createdOutput, CompactPc.outputs] at h
  live_exists f h := by
    rcases h with h | ⟨v, hv, -⟩
    · exact hcur f h
    · simp [Sys.opened] at hv
  listed_below k names h := by simp [Sys.opened] at h
  deleting_dead k live names h := by simp [Sys.opened] at h

theorem owns_update_flush_same {fp : Nat → FlushPc} {cp : Nat → CompactPc} {i : Nat}
    {p : FlushPc} (h : p.output = (fp i).output) : Owns (update fp i p) cp = Owns fp cp := by
  funext o n
  cases o with
  | flush i' => by_cases he : i' = i <;> simp [Owns, Function.update_apply, he, h]
  | compaction j => rfl

theorem owns_update_compact_same (fp : Nat → FlushPc) (cp : Nat → CompactPc) {j : Nat}
    {p : CompactPc} (h : p.outputs.map Prod.fst = (cp j).outputs.map Prod.fst) :
    Owns fp (update cp j p) = Owns fp cp := by
  funext o n
  cases o with
  | flush i => rfl
  | compaction j' => by_cases he : j' = j <;> simp [Owns, Function.update_apply, he, h]

theorem created_update_compact_same (fp : Nat → FlushPc) (cp : Nat → CompactPc) {j : Nat}
    {p : CompactPc} (h : p.outputs = (cp j).outputs) :
    Created fp (update cp j p) = Created fp cp := by
  funext o n
  cases o with
  | flush i => rfl
  | compaction j' => by_cases he : j' = j <;> simp [Created, Function.update_apply, he, h]

variable {s s' : Sys}

/-- A step that leaves the runs of `DeleteObsoleteFiles` alone, does not lower the next file
number, adds to `pending_outputs_` only fresh numbers, and adds to the live versions only
pending files, keeps every file those runs will delete dead. -/
theorem Sys.Inv.dead_of_frame (hi : s.Inv) (hc : s'.cleanerPc = s.cleanerPc)
    (hn : s.nextFileNumber ≤ s'.nextFileNumber)
    (hp : ∀ f, f < s.nextFileNumber → f ∉ s.pending → f ∉ s'.pending)
    (hl : ∀ f, f ∉ s.pending → ¬s.InLiveVersion f → ¬s'.InLiveVersion f) :
    ∀ k live names, s'.cleanerPc k = .deleting live names → ∀ f ∈ names, f ∉ live →
      f < s'.nextFileNumber ∧ f ∉ s'.pending ∧ ¬s'.InLiveVersion f := by
  intro k live names hk f hf hlive
  rw [hc] at hk
  obtain ⟨hlt, hpen, hdead⟩ := hi.deleting_dead k live names hk f hf hlive
  exact ⟨by omega, hp f hlt hpen, hl f hpen hdead⟩

theorem Sys.Inv.listed_of_frame (hi : s.Inv) (hc : s'.cleanerPc = s.cleanerPc)
    (hn : s.nextFileNumber ≤ s'.nextFileNumber) :
    ∀ k names, s'.cleanerPc k = .listed names → ∀ f ∈ names, f < s'.nextFileNumber := by
  intro k names hk f hf
  rw [hc] at hk
  have := hi.listed_below k names hk f hf
  omega

/-! ### Ownership helpers -/

theorem Sys.Inv.ne_of_owns (hi : s.Inv) {o o' : Owner} {m n : Nat}
    (ho : Owns s.flushPc s.compactPc o m) (ho' : Owns s.flushPc s.compactPc o' n) (hne : o ≠ o') :
    m ≠ n := fun h => hne (hi.owned_unique o o' n (h ▸ ho) ho')

theorem Sys.Inv.owned_alloc (hi : s.Inv) {own : Owner → Nat → Prop} (o₀ : Owner)
    (h : ∀ o m, own o m → Owns s.flushPc s.compactPc o m ∨ (o = o₀ ∧ m = s.nextFileNumber)) :
    (∀ o m, own o m → m < s.nextFileNumber + 1) ∧
      (∀ o m, own o m → m ∈ insert s.nextFileNumber s.pending) ∧
      (∀ o o' m, own o m → own o' m → o = o') := by
  have fresh : ∀ o, ¬Owns s.flushPc s.compactPc o s.nextFileNumber := fun o ho =>
    lt_irrefl _ (hi.owned_below o _ ho)
  refine ⟨fun o m ho => ?_, fun o m ho => ?_, fun o o' m ho ho' => ?_⟩
  · rcases h o m ho with ho | ⟨-, rfl⟩
    · exact Nat.lt_succ_of_lt (hi.owned_below o m ho)
    · exact Nat.lt_succ_self _
  · rcases h o m ho with ho | ⟨-, rfl⟩
    · exact Finset.mem_insert_of_mem (hi.owned_pending o m ho)
    · exact Finset.mem_insert_self _ _
  · rcases h o m ho with ho | ⟨rfl, hm⟩ <;> rcases h o' m ho' with ho' | ⟨rfl, hm'⟩
    · exact hi.owned_unique o o' m ho ho'
    · exact absurd (hm' ▸ ho) (fresh o)
    · exact absurd (hm ▸ ho') (fresh o')
    · rfl

theorem Sys.Inv.owned_release (hi : s.Inv) {own : Owner → Nat → Prop} (o₀ : Owner)
    (gone : Nat → Prop) (h : ∀ o m, own o m → o ≠ o₀ ∧ Owns s.flushPc s.compactPc o m)
    (hgone : ∀ m, gone m → Owns s.flushPc s.compactPc o₀ m) :
    (∀ o m, own o m → m < s.nextFileNumber) ∧
      (∀ o m, own o m → m ∈ s.pending ∧ ¬gone m) ∧
      (∀ o o' m, own o m → own o' m → o = o') := by
  refine ⟨fun o m ho => hi.owned_below o m (h o m ho).2, fun o m ho => ?_,
    fun o o' m ho ho' => hi.owned_unique o o' m (h o m ho).2 (h o' m ho').2⟩
  obtain ⟨hne, ho⟩ := h o m ho
  exact ⟨hi.owned_pending o m ho, fun hg => hi.ne_of_owns ho (hgone m hg) hne rfl⟩

theorem owns_update_flush_idle {fp : Nat → FlushPc} {cp : Nat → CompactPc} {i n : Nat}
    {o : Owner} (h : Owns (update fp i .idle) cp o n) : o ≠ .flush i ∧ Owns fp cp o n := by
  rcases owns_update_flush.mp h with ⟨-, h⟩ | h
  · cases h
  · exact h

theorem owns_update_compact_idle {fp : Nat → FlushPc} {cp : Nat → CompactPc} {j n : Nat}
    {o : Owner} (h : Owns fp (update cp j .idle) o n) : o ≠ .compaction j ∧ Owns fp cp o n := by
  rcases owns_update_compact.mp h with ⟨-, h⟩ | h
  · cases h
  · exact h

theorem created_update_flush_idle {fp : Nat → FlushPc} {cp : Nat → CompactPc} {i n : Nat}
    {o : Owner} (h : Created (update fp i .idle) cp o n) : Created fp cp o n := by
  rcases created_update_flush.mp h with ⟨-, h⟩ | h
  · cases h
  · exact h.2

theorem created_update_compact_idle {fp : Nat → FlushPc} {cp : Nat → CompactPc} {j n : Nat}
    {o : Owner} (h : Created fp (update cp j .idle) o n) : Created fp cp o n := by
  rcases created_update_compact.mp h with ⟨-, h⟩ | h
  · cases h
  · exact h.2

/-! ### Live versions and the cleaner's states -/

theorem inLive_pin {c : Finset Nat} {refs : List (Finset Nat)} {f : Nat} :
    (f ∈ c ∨ ∃ v ∈ c :: refs, f ∈ v) ↔ (f ∈ c ∨ ∃ v ∈ refs, f ∈ v) := by
  simp only [List.mem_cons, exists_eq_or_imp, ← or_assoc, or_self]

theorem inLive_unpin {c : Finset Nat} {refs : List (Finset Nat)} {v : Finset Nat} {f : Nat}
    (h : f ∈ c ∨ ∃ w ∈ refs.erase v, f ∈ w) : f ∈ c ∨ ∃ w ∈ refs, f ∈ w :=
  h.imp_right fun ⟨w, hw, hf⟩ => ⟨w, List.mem_of_mem_erase hw, hf⟩

theorem mem_createdOutputs {f : Nat} {os : List (Nat × Bool)} :
    f ∈ createdOutputs os ↔ (f, true) ∈ os := by
  simp [createdOutputs]

theorem Sys.Inv.listed_update (hi : s.Inv) {k : Nat} {p : CleanerPc}
    (hp : ∀ names, p = .listed names → ∀ f ∈ names, f < s.nextFileNumber) :
    ∀ k' names, update s.cleanerPc k p k' = .listed names → ∀ f ∈ names, f < s.nextFileNumber := by
  intro k' names hk
  by_cases he : k' = k
  · subst he; exact hp names (by simpa using hk)
  · exact hi.listed_below k' names (by simpa [Function.update_apply, he] using hk)

theorem Sys.Inv.deleting_update (hi : s.Inv) {k : Nat} {p : CleanerPc}
    (hp : ∀ live names, p = .deleting live names → ∀ f ∈ names, f ∉ live →
      f < s.nextFileNumber ∧ f ∉ s.pending ∧ ¬s.InLiveVersion f) :
    ∀ k' live names, update s.cleanerPc k p k' = .deleting live names → ∀ f ∈ names, f ∉ live →
      f < s.nextFileNumber ∧ f ∉ s.pending ∧ ¬s.InLiveVersion f := by
  intro k' live names hk
  by_cases he : k' = k
  · subst he; exact hp live names (by simpa using hk)
  · exact hi.deleting_dead k' live names (by simpa [Function.update_apply, he] using hk)

/-! ### Flush steps -/

theorem inv_flushBegin (hi : s.Inv) {i : Nat} (h : s.step (.flushBegin i) = some s') : s'.Inv := by
  simp only [Sys.step] at h
  split at h
  next hidle =>
    cases h
    obtain ⟨hbelow, hpend, huniq⟩ := hi.owned_alloc (.flush i) fun o m
        (ho : Owns (update s.flushPc i (.building s.nextFileNumber false)) s.compactPc o m) => by
      rcases owns_update_flush.mp ho with ⟨rfl, hm⟩ | ⟨-, ho⟩
      · simp only [FlushPc.output, Option.some.injEq] at hm; exact .inr ⟨rfl, hm.symm⟩
      · exact .inl ho
    exact {
      dir_below := fun f hf => Nat.lt_succ_of_lt (hi.dir_below f hf)
      owned_below := hbelow
      owned_pending := hpend
      owned_unique := huniq
      created_exists := fun o n hcr => by
        rcases created_update_flush.mp hcr with ⟨-, hn⟩ | ⟨-, hcr⟩
        · cases hn
        · exact hi.created_exists o n hcr
      live_exists := hi.live_exists
      listed_below := hi.listed_of_frame rfl (Nat.le_succ _)
      deleting_dead := hi.dead_of_frame rfl (Nat.le_succ _)
        (fun f hf hp => by simp [hp, Nat.ne_of_lt hf]) (fun _ _ h => h) }
  next => cases h

theorem inv_flushCreate (hi : s.Inv) {i : Nat} (h : s.step (.flushCreate i) = some s') :
    s'.Inv := by
  simp only [Sys.step] at h
  split at h
  next n hp =>
    cases h
    have hown : Owns (update s.flushPc i (.building n true)) s.compactPc =
        Owns s.flushPc s.compactPc := owns_update_flush_same (by simp [hp, FlushPc.output])
    exact {
      dir_below := fun f hf => by
        rcases List.mem_cons.mp hf with rfl | hf
        · exact hi.owned_below (.flush i) f (by simp [Owns, hp, FlushPc.output])
        · exact hi.dir_below f hf
      owned_below := hown ▸ hi.owned_below
      owned_pending := hown ▸ hi.owned_pending
      owned_unique := hown ▸ hi.owned_unique
      created_exists := fun o m hcr => by
        rcases created_update_flush.mp hcr with ⟨-, hm⟩ | ⟨-, hcr⟩
        · cases hm; exact List.mem_cons_self _ _
        · exact List.mem_cons_of_mem _ (hi.created_exists o m hcr)
      live_exists := fun f hf => List.mem_cons_of_mem _ (hi.live_exists f hf)
      listed_below := hi.listed_below
      deleting_dead := hi.deleting_dead }
  next => cases h

theorem inv_flushBuilt (hi : s.Inv) {i : Nat} {ok added : Bool}
    (h : s.step (.flushBuilt i ok added) = some s') : s'.Inv := by
  simp only [Sys.step] at h
  split at h
  next n c hp =>
    have hown : Owns s.flushPc s.compactPc (.flush i) n := by simp [Owns, hp, FlushPc.output]
    cases ok
    · -- `BuildTable` failed: the number leaves `pending_outputs_` and the flush ends.
      cases h
      obtain ⟨hbelow, hpend, huniq⟩ := hi.owned_release (.flush i) (· = n)
        (fun o m ho => owns_update_flush_idle ho) (fun m hm => hm ▸ hown)
      exact {
        dir_below := hi.dir_below
        owned_below := hbelow
        owned_pending := fun o m ho => Finset.mem_erase.mpr ((hpend o m ho).imp_left id).symm
        owned_unique := huniq
        created_exists := fun o m hcr => hi.created_exists o m (created_update_flush_idle hcr)
        live_exists := hi.live_exists
        listed_below := hi.listed_below
        deleting_dead := hi.dead_of_frame rfl le_rfl
          (fun f _ hf h => hf (Finset.mem_of_mem_erase h)) (fun _ _ h => h) }
    · -- `CompactMemTable` puts the number back before `LogAndApply`.
      cases h
      rw [Finset.insert_erase (hi.owned_pending _ _ hown)]
      have hsame : Owns (update s.flushPc i (.logging n (added && c))) s.compactPc =
          Owns s.flushPc s.compactPc := owns_update_flush_same (by simp [hp, FlushPc.output])
      exact {
        dir_below := hi.dir_below
        owned_below := hsame ▸ hi.owned_below
        owned_pending := hsame ▸ hi.owned_pending
        owned_unique := hsame ▸ hi.owned_unique
        created_exists := fun o m hcr => by
          rcases created_update_flush.mp hcr with ⟨rfl, hm⟩ | ⟨-, hcr⟩
          · have hc : c = true ∧ n = m := by
              cases c <;> cases added <;> simp [FlushPc.createdOutput] at hm ⊢
              exact hm
            obtain ⟨rfl, rfl⟩ := hc
            exact hi.created_exists (.flush i) n (by simp [Created, hp, FlushPc.createdOutput])
          · exact hi.created_exists o m hcr
        live_exists := hi.live_exists
        listed_below := hi.listed_below
        deleting_dead := hi.deleting_dead }
  next => cases h

theorem inv_flushLogged (hi : s.Inv) {i : Nat} {ok : Bool}
    (h : s.step (.flushLogged i ok) = some s') : s'.Inv := by
  simp only [Sys.step] at h
  split at h
  next n a hp =>
    cases h
    have hown : Owns s.flushPc s.compactPc (.flush i) n := by simp [Owns, hp, FlushPc.output]
    have hn := hi.owned_pending _ _ hown
    obtain ⟨hbelow, hpend, huniq⟩ := hi.owned_release (.flush i) (· = n)
      (fun o m ho => owns_update_flush_idle ho) (fun m hm => hm ▸ hown)
    have hcur : ∀ f, f ∈ (if (ok && a) = true then insert n s.current else s.current) →
        f ∈ s.current ∨ (f = n ∧ a = true) := fun f hf => by
      split at hf
      · rcases Finset.mem_insert.mp hf with rfl | hf
        · exact .inr ⟨rfl, by simp_all⟩
        · exact .inl hf
      · exact .inl hf
    exact {
      dir_below := hi.dir_below
      owned_below := hbelow
      owned_pending := fun o m ho => Finset.mem_erase.mpr ((hpend o m ho).imp_left id).symm
      owned_unique := huniq
      created_exists := fun o m hcr => hi.created_exists o m (created_update_flush_idle hcr)
      live_exists := fun f hf => by
        rcases hf with hf | hf
        · rcases hcur f hf with hf | ⟨rfl, rfl⟩
          · exact hi.live_exists f (.inl hf)
          · exact hi.created_exists (.flush i) f (by simp [Created, hp, FlushPc.createdOutput])
        · exact hi.live_exists f (.inr hf)
      listed_below := hi.listed_below
      deleting_dead := hi.dead_of_frame rfl le_rfl
        (fun f _ hf h => hf (Finset.mem_of_mem_erase h)) fun f hf hdead hl => by
          rcases hl with hl | hl
          · rcases hcur f hl with hl | ⟨rfl, -⟩
            · exact hdead (.inl hl)
            · exact hf hn
          · exact hdead (.inr hl) }
  next => cases h

/-! ### Compaction steps -/

@[simp] theorem map_fst_markLastCreated :
    ∀ os : List (Nat × Bool), (markLastCreated os).map Prod.fst = os.map Prod.fst
  | [] => rfl
  | [(_, _)] => rfl
  | o :: o' :: os => congrArg (o.1 :: ·) (map_fst_markLastCreated (o' :: os))

theorem mem_markLastCreated {n : Nat} : ∀ {os : List (Nat × Bool)},
    (n, true) ∈ markLastCreated os → (n, true) ∈ os ∨ ∃ b, os.getLast? = some (n, b)
  | [], h => by cases h
  | [(m, b)], h => .inr ⟨b, by simp_all [markLastCreated]⟩
  | o :: o' :: os, h => by
    rcases List.mem_cons.mp h with h | h
    · exact .inl (h ▸ List.mem_cons_self _ _)
    · rcases mem_markLastCreated h with h | h
      · exact .inl (List.mem_cons_of_mem _ h)
      · exact .inr (by simpa using h)

theorem inv_compactPick (hi : s.Inv) {j : Nat} {inputs : Finset Nat}
    (h : s.step (.compactPick j inputs) = some s') : s'.Inv := by
  simp only [Sys.step] at h
  split at h
  next hg =>
    cases h
    have hout : (CompactPc.running inputs s.current []).outputs = (s.compactPc j).outputs := by
      simp [hg.1, CompactPc.outputs]
    have hown := owns_update_compact_same s.flushPc _ (congrArg (List.map Prod.fst) hout)
    have hcr := created_update_compact_same s.flushPc _ hout
    exact {
      dir_below := hi.dir_below
      owned_below := hown ▸ hi.owned_below
      owned_pending := hown ▸ hi.owned_pending
      owned_unique := hown ▸ hi.owned_unique
      created_exists := hcr ▸ hi.created_exists
      live_exists := fun f hf => hi.live_exists f (inLive_pin.mp hf)
      listed_below := hi.listed_below
      deleting_dead := hi.dead_of_frame rfl le_rfl (fun _ _ h => h)
        fun _ _ hd hl => hd (inLive_pin.mp hl) }
  next => cases h

theorem inv_compactOpen (hi : s.Inv) {j : Nat} (h : s.step (.compactOpen j) = some s') :
    s'.Inv := by
  simp only [Sys.step] at h
  split at h
  next inputs v outs hp =>
    cases h
    obtain ⟨hbelow, hpend, huniq⟩ := hi.owned_alloc (.compaction j) fun o m
        (ho : Owns s.flushPc (update s.compactPc j
          (.running inputs v (outs ++ [(s.nextFileNumber, false)]))) o m) => by
      rcases owns_update_compact.mp ho with ⟨rfl, hm⟩ | ⟨-, ho⟩
      · simp only [CompactPc.outputs, List.map_append, List.map_cons, List.map_nil,
          List.mem_append, List.mem_singleton] at hm
        rcases hm with hm | hm
        · exact .inl (by simpa [Owns, hp, CompactPc.outputs] using hm)
        · exact .inr ⟨rfl, hm⟩
      · exact .inl ho
    exact {
      dir_below := fun f hf => Nat.lt_succ_of_lt (hi.dir_below f hf)
      owned_below := hbelow
      owned_pending := hpend
      owned_unique := huniq
      created_exists := fun o m hcr => by
        rcases created_update_compact.mp hcr with ⟨rfl, hm⟩ | ⟨-, hcr⟩
        · simp only [CompactPc.outputs, List.mem_append, List.mem_singleton, Prod.mk.injEq,
            Bool.true_eq_false, and_false, or_false] at hm
          exact hi.created_exists (.compaction j) m (by simpa [Created, hp, CompactPc.outputs])
        · exact hi.created_exists o m hcr
      live_exists := hi.live_exists
      listed_below := hi.listed_of_frame rfl (Nat.le_succ _)
      deleting_dead := hi.dead_of_frame rfl (Nat.le_succ _)
        (fun f hf hp => by simp [hp, Nat.ne_of_lt hf]) (fun _ _ h => h) }
  next => cases h

theorem inv_compactCreate (hi : s.Inv) {j : Nat} (h : s.step (.compactCreate j) = some s') :
    s'.Inv := by
  simp only [Sys.step] at h
  split at h
  next inputs v outs hp =>
    split at h
    next n hlast =>
      cases h
      have hown := owns_update_compact_same s.flushPc s.compactPc (j := j)
        (p := .running inputs v (markLastCreated outs)) (by simp [hp, CompactPc.outputs])
      have hn : n < s.nextFileNumber := hi.owned_below (.compaction j) n <| by
        simpa [Owns, hp, CompactPc.outputs] using
          List.mem_map_of_mem Prod.fst (List.mem_of_mem_getLast? hlast)
      exact {
        dir_below := fun f hf => by
          rcases List.mem_cons.mp hf with rfl | hf
          · exact hn
          · exact hi.dir_below f hf
        owned_below := hown ▸ hi.owned_below
        owned_pending := hown ▸ hi.owned_pending
        owned_unique := hown ▸ hi.owned_unique
        created_exists := fun o m hcr => by
          rcases created_update_compact.mp hcr with ⟨rfl, hm⟩ | ⟨-, hcr⟩
          · rcases mem_markLastCreated hm with hm | ⟨b, hb⟩
            · exact List.mem_cons_of_mem _
                (hi.created_exists (.compaction j) m (by simpa [Created, hp, CompactPc.outputs]))
            · rw [hlast] at hb
              cases hb
              exact List.mem_cons_self _ _
          · exact List.mem_cons_of_mem _ (hi.created_exists o m hcr)
        live_exists := fun f hf => List.mem_cons_of_mem _ (hi.live_exists f hf)
        listed_below := hi.listed_below
        deleting_dead := hi.deleting_dead }
    next => cases h
  next => cases h

theorem inv_compactDone (hi : s.Inv) {j : Nat} {ok : Bool}
    (h : s.step (.compactDone j ok) = some s') : s'.Inv := by
  simp only [Sys.step] at h
  split at h
  next inputs v outs hp =>
    cases h
    have hout : (if ok = true then CompactPc.installing inputs v outs else .cleaning v outs).outputs =
        (s.compactPc j).outputs := by
      cases ok <;> simp [hp, CompactPc.outputs]
    have hown := owns_update_compact_same s.flushPc _ (congrArg (List.map Prod.fst) hout)
    have hcr := created_update_compact_same s.flushPc _ hout
    exact { hi with
      owned_below := hown ▸ hi.owned_below
      owned_pending := hown ▸ hi.owned_pending
      owned_unique := hown ▸ hi.owned_unique
      created_exists := hcr ▸ hi.created_exists }
  next => cases h

theorem inv_compactInstall (hi : s.Inv) {j : Nat} {ok : Bool}
    (h : s.step (.compactInstall j ok) = some s') : s'.Inv := by
  simp only [Sys.step] at h
  split at h
  next inputs v outs hp =>
    cases h
    have hout : (CompactPc.cleaning v outs).outputs = (s.compactPc j).outputs := by
      simp [hp, CompactPc.outputs]
    have hown := owns_update_compact_same s.flushPc _ (congrArg (List.map Prod.fst) hout)
    have hcr := created_update_compact_same s.flushPc _ hout
    -- The new files of `current` are the outputs the compaction created.
    have hcur : ∀ f, f ∈ (if ok = true then (s.current \ inputs) ∪ createdOutputs outs
        else s.current) → f ∈ s.current ∨ Created s.flushPc s.compactPc (.compaction j) f :=
      fun f hf => by
        split at hf
        · rcases Finset.mem_union.mp hf with hf | hf
          · exact .inl (Finset.mem_sdiff.mp hf).1
          · exact .inr (by simpa [Created, hp, CompactPc.outputs, mem_createdOutputs] using hf)
        · exact .inl hf
    exact {
      dir_below := hi.dir_below
      owned_below := hown ▸ hi.owned_below
      owned_pending := hown ▸ hi.owned_pending
      owned_unique := hown ▸ hi.owned_unique
      created_exists := hcr ▸ hi.created_exists
      live_exists := fun f hf => by
        rcases hf with hf | hf
        · rcases hcur f hf with hf | hf
          · exact hi.live_exists f (.inl hf)
          · exact hi.created_exists _ f hf
        · exact hi.live_exists f (.inr hf)
      listed_below := hi.listed_below
      deleting_dead := hi.dead_of_frame rfl le_rfl (fun _ _ h => h) fun f hf hdead hl => by
        rcases hl with hl | hl
        · rcases hcur f hl with hl | hl
          · exact hdead (.inl hl)
          · exact hf (hi.owned_pending _ f (owns_of_created hl))
        · exact hdead (.inr hl) }
  next => cases h

theorem inv_compactMove (hi : s.Inv) {j : Nat} (h : s.step (.compactMove j) = some s') :
    s'.Inv := by
  simp only [Sys.step] at h
  split at h
  next inputs v hp =>
    cases h
    have hout : (CompactPc.cleaning v []).outputs = (s.compactPc j).outputs := by
      simp [hp, CompactPc.outputs]
    have hown := owns_update_compact_same s.flushPc _ (congrArg (List.map Prod.fst) hout)
    have hcr := created_update_compact_same s.flushPc _ hout
    exact { hi with
      owned_below := hown ▸ hi.owned_below
      owned_pending := hown ▸ hi.owned_pending
      owned_unique := hown ▸ hi.owned_unique
      created_exists := hcr ▸ hi.created_exists }
  next => cases h

theorem inv_compactCleanup (hi : s.Inv) {j : Nat} (h : s.step (.compactCleanup j) = some s') :
    s'.Inv := by
  simp only [Sys.step] at h
  split at h
  next v outs hp =>
    cases h
    obtain ⟨hbelow, hpend, huniq⟩ := hi.owned_release (.compaction j)
      (· ∈ (outs.map Prod.fst).toFinset) (fun o m ho => owns_update_compact_idle ho)
      (fun m hm => by simpa [Owns, hp, CompactPc.outputs] using hm)
    exact {
      dir_below := hi.dir_below
      owned_below := hbelow
      owned_pending := fun o m ho => Finset.mem_sdiff.mpr (hpend o m ho)
      owned_unique := huniq
      created_exists := fun o m hcr => hi.created_exists o m (created_update_compact_idle hcr)
      live_exists := fun f hf => hi.live_exists f (inLive_unpin hf)
      listed_below := hi.listed_below
      deleting_dead := hi.dead_of_frame rfl le_rfl (fun f _ hf h => hf (Finset.mem_sdiff.mp h).1)
        fun _ _ hd hl => hd (inLive_unpin hl) }
  next => cases h

/-! ### Readers and `DeleteObsoleteFiles` -/

theorem inv_readerPin (hi : s.Inv) {r : Nat} (h : s.step (.readerPin r) = some s') : s'.Inv := by
  simp only [Sys.step] at h
  split at h
  next =>
    cases h
    exact { hi with
      live_exists := fun f hf => hi.live_exists f (inLive_pin.mp hf)
      deleting_dead := hi.dead_of_frame rfl le_rfl (fun _ _ h => h)
        fun _ _ hd hl => hd (inLive_pin.mp hl) }
  next => cases h

theorem inv_readerUnpin (hi : s.Inv) {r : Nat} (h : s.step (.readerUnpin r) = some s') :
    s'.Inv := by
  simp only [Sys.step] at h
  split at h
  next =>
    cases h
    exact { hi with
      live_exists := fun f hf => hi.live_exists f (inLive_unpin hf)
      deleting_dead := hi.dead_of_frame rfl le_rfl (fun _ _ h => h)
        fun _ _ hd hl => hd (inLive_unpin hl) }
  next => cases h

theorem inv_dofList (hi : s.Inv) {k : Nat} (h : s.step (.dofList k) = some s') : s'.Inv := by
  simp only [Sys.step] at h
  split at h
  next =>
    cases h
    exact { hi with
      listed_below := hi.listed_update fun _ hn => by cases hn; exact hi.dir_below
      deleting_dead := hi.deleting_update fun _ _ hn => by cases hn }
  next => cases h

/-- The live set is computed under the mutex after the listing: a name of the listing outside it
is below `next_file_number`, not pending and in no live version. -/
theorem inv_dofLive (hi : s.Inv) {k : Nat} (h : s.step (.dofLive k) = some s') : s'.Inv := by
  simp only [Sys.step] at h
  split at h
  next names hk =>
    cases h
    exact { hi with
      listed_below := hi.listed_update fun _ hn => by cases hn
      deleting_dead := hi.deleting_update fun _ _ hn => by
        cases hn
        intro f hf hlive
        simp only [Sys.liveSet, Finset.mem_union, not_or, mem_refFiles] at hlive
        exact ⟨hi.listed_below k names hk f hf, hlive.1.1, fun hl => hl.elim hlive.1.2 hlive.2⟩ }
  next => cases h

theorem inv_dofStep (hi : s.Inv) {k : Nat} (h : s.step (.dofStep k) = some s') : s'.Inv := by
  simp only [Sys.step] at h
  split at h
  next live f names hk =>
    cases h
    have dead := hi.deleting_dead k live (f :: names) hk f (List.mem_cons_self _ _)
    have keep : ∀ g ∈ s.dir, (f ∉ live → g ≠ f) →
        g ∈ (if f ∈ live then s.dir else s.dir.erase f) := fun g hg hne => by
      split
      · exact hg
      · exact (List.mem_erase_of_ne (hne ‹_›)).mpr hg
    have sub : ∀ g ∈ (if f ∈ live then s.dir else s.dir.erase f), g ∈ s.dir := fun g hg => by
      split at hg
      · exact hg
      · exact List.mem_of_mem_erase hg
    exact { hi with
      dir_below := fun g hg => hi.dir_below g (sub g hg)
      created_exists := fun o m hcr => keep m (hi.created_exists o m hcr) fun hf hm =>
        (dead hf).2.1 (hm ▸ hi.owned_pending o m (owns_of_created hcr))
      live_exists := fun g hg => keep g (hi.live_exists g hg) fun hf hgf => (dead hf).2.2 (hgf ▸ hg)
      listed_below := hi.listed_update fun _ hn => by cases hn
      deleting_dead := hi.deleting_update fun _ _ hn => by
        cases hn
        exact fun g hg => hi.deleting_dead k live (f :: names) hk g (List.mem_cons_of_mem _ hg) }
  next => cases h

theorem inv_dofEnd (hi : s.Inv) {k : Nat} (h : s.step (.dofEnd k) = some s') : s'.Inv := by
  simp only [Sys.step] at h
  split at h
  next =>
    cases h
    exact { hi with
      listed_below := hi.listed_update fun _ hn => by cases hn
      deleting_dead := hi.deleting_update fun _ _ hn => by cases hn }
  next => cases h

/-! ## Every run -/

theorem inv_step (hi : s.Inv) {a : Action} (h : s.step a = some s') : s'.Inv := by
  cases a with
  | flushBegin _ => exact inv_flushBegin hi h
  | flushCreate _ => exact inv_flushCreate hi h
  | flushBuilt _ _ _ => exact inv_flushBuilt hi h
  | flushLogged _ _ => exact inv_flushLogged hi h
  | compactPick _ _ => exact inv_compactPick hi h
  | compactOpen _ => exact inv_compactOpen hi h
  | compactCreate _ => exact inv_compactCreate hi h
  | compactDone _ _ => exact inv_compactDone hi h
  | compactInstall _ _ => exact inv_compactInstall hi h
  | compactMove _ => exact inv_compactMove hi h
  | compactCleanup _ => exact inv_compactCleanup hi h
  | readerPin _ => exact inv_readerPin hi h
  | readerUnpin _ => exact inv_readerUnpin hi h
  | dofList _ => exact inv_dofList hi h
  | dofLive _ => exact inv_dofLive hi h
  | dofStep _ => exact inv_dofStep hi h
  | dofEnd _ => exact inv_dofEnd hi h

theorem inv_run : ∀ {as : List Action} {s s' : Sys}, s.Inv → s.run as = some s' → s'.Inv
  | [], _, _, hi, h => by cases h; exact hi
  | a :: _, s, _, hi, h => by
    obtain ⟨s₁, h₁, h⟩ := Option.bind_eq_some.mp h
    exact inv_run (inv_step hi h₁) h

/-- Only `DeleteObsoleteFiles` removes a file, one name of its listing at a time, and only a name
outside the live set it computed. -/
theorem step_dir {a : Action} (h : s.step a = some s') :
    (∀ f ∈ s.dir, f ∈ s'.dir) ∨ ∃ k live g names, s.cleanerPc k = .deleting live (g :: names) ∧
      g ∉ live ∧ s'.dir = s.dir.erase g := by
  cases a with
  | dofStep k =>
    simp only [Sys.step] at h
    split at h
    next live g names hk =>
      cases h
      by_cases hg : g ∈ live
      · exact .inl fun f hf => by simpa [hg] using hf
      · exact .inr ⟨k, live, g, names, hk, hg, by simp [hg]⟩
    next => cases h
  | _ =>
    left
    simp only [Sys.step] at h
    repeat' split at h
    all_goals (try cases h)
    all_goals first
      | exact fun _ hf => hf
      | exact fun _ hf => List.mem_cons_of_mem _ hf

/-- A step that removes a file from the directory removes one that is neither pending nor in a
live version. -/
theorem Sys.Inv.removed_dead (hi : s.Inv) {a : Action} (h : s.step a = some s') {f : Nat}
    (hf : f ∈ s.dir) (hf' : f ∉ s'.dir) : f ∉ s.pending ∧ ¬s.InLiveVersion f := by
  rcases step_dir h with hsub | ⟨k, live, g, names, hk, hg, hdir⟩
  · exact absurd (hsub f hf) hf'
  · have hfg : f = g := by
      by_contra hne
      exact hf' (hdir ▸ (List.mem_erase_of_ne hne).mpr hf)
    subst hfg
    exact (hi.deleting_dead k live (f :: names) hk f (List.mem_cons_self _ _) hg).2

/-- From an opened engine whose file numbers are all below `next_file_number` and whose current
version's files are all in the directory, under any interleaving of flushes, compactions,
trivial moves, readers and runs of `DeleteObsoleteFiles`: no step deletes a file whose number is
pending or that a live version holds, and every file of every live version exists. -/
theorem deleteObsoleteFiles_spares_live_files {dir : List Nat} {next : Nat}
    {current : Finset Nat} (hbelow : ∀ f ∈ dir, f < next) (hcur : ∀ f ∈ current, f ∈ dir)
    {as : List Action} {s : Sys} (h : (Sys.opened dir next current).run as = some s) :
    (∀ a s', s.step a = some s' → ∀ f ∈ s.dir, f ∉ s'.dir → f ∉ s.pending ∧ ¬s.InLiveVersion f) ∧
      ∀ f, s.InLiveVersion f → f ∈ s.dir :=
  have hi := inv_run (inv_opened hbelow hcur) h
  ⟨fun _ _ hs _ hf hf' => hi.removed_dead hs hf hf', hi.live_exists⟩

/-- A flush creates file 2 while `DeleteObsoleteFiles` lists the directory and walks it. -/
theorem deleteObsoleteFiles_spares_live_files_flush_race :
    let race : List Action := [.flushBegin 0, .flushCreate 0, .dofList 0, .dofLive 0, .dofStep 0,
      .flushBuilt 0 true true, .dofStep 0]
    ∃ s, (Sys.opened [1] 2 {1}).run race = some s ∧
      (∀ a s', s.step a = some s' → ∀ f ∈ s.dir, f ∉ s'.dir →
        f ∉ s.pending ∧ ¬s.InLiveVersion f) ∧ ∀ f, s.InLiveVersion f → f ∈ s.dir := by
  intro race
  exact ⟨_, rfl,
    @deleteObsoleteFiles_spares_live_files [1] 2 {1} (by decide) (by decide) race _ rfl⟩

end Leveldb.ObsoleteFiles
