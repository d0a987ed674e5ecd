import Mathlib.Logic.Function.Basic
import Mathlib.Data.Nat.Defs

/-!
# The flash mirror of `FlashEnv`: `CopyToLocal`, `FlashRandomAccessFile` and `UpdateFlashFile`

A table file on the DFS is mirrored at one local path. `CopyToLocal` keeps the local file when
its size is `fsize`, and otherwise deletes it, creates it anew and appends the DFS file to it
chunk by chunk; a copy that ends short deletes it again. A `FlashRandomAccessFile` serves its
reads from the local file once `FlashFileIdentical` (the local size equals `fsize`) held and the
file was opened. Copies run in the constructors (`ForceReadFromCache`) and in `UpdateFlashFile`
tasks, which `ScheduleUpdateFlash` keeps to one per file name.

The local file system follows POSIX, as `env_posix.cc` is not in the source tree: a path names
an inode; `NewWritableFile` opens the path with `O_CREAT | O_TRUNC`, so it empties an inode that
is there; each writer appends at its own offset, and a write past the end leaves zeros before
it. Each call on a file is one step. `served` records every read served from the local file.
-/
namespace Leveldb.Flash

open Function (update)

/-- A byte. -/
abbrev Byte := UInt8

/-- `write` of `d` at offset `pos` of a file holding `f`; a gap past the end reads as zeros. -/
def writeAt (f : List Byte) (pos : Nat) (d : List Byte) : List Byte :=
  let f := f ++ List.replicate (pos - f.length) 0
  f.take pos ++ d ++ f.drop (pos + d.length)

/-- The local file system as the mirror uses it: the inode at `local_fname`, if any, and every
inode's bytes. Modelled from POSIX: `env_posix.cc` is not in the source tree. -/
structure LocalFs where
  path : Option Nat
  inode : Nat → List Byte
  nextInode : Nat

/-- The size `GetFileSize(local_fname)` returns, `none` if there is no file. -/
def LocalFs.size (fs : LocalFs) : Option Nat := fs.path.map fun i => (fs.inode i).length

/-- Where a `CopyToLocal` is. -/
inductive CopyPc where
  | checkSize
  | delete
  | openDfs
  | openLocal
  | copy
  | checkDfsSize
  | deleteMismatch
  | done (ok : Bool)
  deriving DecidableEq, Repr

/-- A `CopyToLocal` run: the inode `local_file` writes and `local_size`, which is also the
offset it writes at and the offset of the DFS file it reads. `task` marks a run of an
`UpdateFlashFile` task. -/
structure Copier where
  inode : Nat
  localSize : Nat
  task : Bool
  pc : CopyPc
  deriving DecidableEq, Repr

/-- Where a `FlashRandomAccessFile` is: its constructor waits for its copy, checks
`FlashFileIdentical`, opens the local file; `ready` is an object whose reads run; `recheckOpen`
is the half of `Read`'s periodic check that opens the local file. -/
inductive FilePc where
  | ctorCopy
  | ctorCheck
  | ctorOpen
  | ready
  | recheckOpen
  deriving DecidableEq, Repr

/-- A `FlashRandomAccessFile`: `flash` is the inode `flash_file_` reads, if it was opened, and
`readDfsCount` is `read_dfs_count_`, the reads served from the DFS since the last check. -/
structure FlashFile where
  flash : Option Nat
  pc : FilePc
  readDfsCount : Nat
  deriving DecidableEq, Repr

/-- A read served from the local file: offset, length and the bytes returned. -/
structure Served where
  offset : Nat
  n : Nat
  bytes : List Byte
  deriving DecidableEq, Repr

/-- The system for one file `fname` of size `fsize`: the local file system, the copies, the
open files, `update_flash_waiting_files_[fname]` (its priority, if the name is there), whether
an `UpdateFlashFile` task is queued, and the reads served from the local file. -/
structure Sys where
  fs : LocalFs
  copiers : Nat → Option Copier
  files : Nat → Option FlashFile
  waiting : Option Nat
  queued : Bool
  served : List Served

/-- A step. `openFile r` constructs a `FlashRandomAccessFile` on thread `r`, which runs its own
copy as copier `r` when `ForceReadFromCache`; `copier c ok` is a step of copy `c` with the
outcome of its call; `copy c k` is one iteration of the copy loop whose DFS `Read` of up to
1048576 bytes returned `k` bytes (0 ends the loop, as a failed read or append does);
`file r` is a step of the constructor or of `Read`'s check; `recheck r` is a `Read` whose
periodic check is due; `read r offset n` is a `Read` past its check; `taskStart c` runs the queued
`UpdateFlashFile` task as copier `c`, and `taskEnd c` its end after the copy. -/
inductive Event where
  | openFile (r : Nat)
  | copier (c : Nat) (ok : Bool)
  | copy (c k : Nat)
  | file (r : Nat)
  | recheck (r : Nat)
  | read (r offset n : Nat)
  | taskStart (c : Nat)
  | taskEnd (c : Nat)
  deriving DecidableEq, Repr

/-- What the mirror runs against: the DFS file's bytes (its size is `fsize`) and
`ForceReadFromCache`. -/
structure Setting where
  dfs : List Byte
  forceReadFromCache : Bool

section Steps

variable (S : Setting)

namespace Sys

def init : Sys :=
  ⟨⟨none, fun _ => [], 0⟩, fun _ => none, fun _ => none, none, false, []⟩

def setCopier (sys : Sys) (c : Nat) (cp : Copier) : Sys :=
  { sys with copiers := update sys.copiers c (some cp) }

def setFile (sys : Sys) (r : Nat) (f : FlashFile) : Sys :=
  { sys with files := update sys.files r (some f) }

/-- `DeleteFile(local_fname)`. -/
def unlink (sys : Sys) : Sys := { sys with fs := { sys.fs with path := none } }

/-- `ScheduleUpdateFlash(fname, fsize, priority)`: queue an `UpdateFlashFile` task unless the
name is waiting already, in which case its priority grows. -/
def scheduleUpdateFlash (sys : Sys) (priority : Nat) : Sys :=
  match sys.waiting with
  | none => { sys with waiting := some priority, queued := true }
  | some p => { sys with waiting := some (p + priority) }

/-- One step of `CopyToLocal` outside its copy loop; `ok` is the outcome of the call the step
makes, where it can fail. -/
def copierStep (sys : Sys) (c : Nat) (cp : Copier) (ok : Bool) : Option Sys :=
  let fsize := S.dfs.length
  match cp.pc with
  | .checkSize =>
    some (sys.setCopier c { cp with pc := if sys.fs.size = some fsize then .done true else .delete })
  | .delete => some (sys.unlink.setCopier c { cp with pc := .openDfs })
  | .openDfs => some (sys.setCopier c { cp with pc := if ok then .openLocal else .done false })
  | .openLocal =>
    if ok then
      match sys.fs.path with
      | some i =>
        some ({ sys with fs := { sys.fs with inode := update sys.fs.inode i [] } }.setCopier c
          { cp with inode := i, localSize := 0, pc := .copy })
      | none =>
        let i := sys.fs.nextInode
        some ({ sys with fs := { path := some i, inode := update sys.fs.inode i [],
                                 nextInode := i + 1 } }.setCopier c
          { cp with inode := i, localSize := 0, pc := .copy })
    else some (sys.setCopier c { cp with pc := .done false })
  | .checkDfsSize =>
    some (sys.setCopier c { cp with pc := if ok then .deleteMismatch else .done false })
  | .deleteMismatch => some (sys.unlink.setCopier c { cp with pc := .done false })
  | _ => none

/-- One iteration of the copy loop: the DFS read returned `k` bytes; a non-empty chunk is
appended at `local_size`; an empty one ends the loop, and a copy that reached `fsize` returns
OK. -/
def copyStep (sys : Sys) (c : Nat) (cp : Copier) (k : Nat) : Sys :=
  let chunk := ((S.dfs.drop cp.localSize).take (min k 1048576))
  if chunk = [] then
    sys.setCopier c { cp with pc := if cp.localSize = S.dfs.length then .done true else .checkDfsSize }
  else
    let bytes := writeAt (sys.fs.inode cp.inode) cp.localSize chunk
    { sys with fs := { sys.fs with inode := update sys.fs.inode cp.inode bytes } }.setCopier c
      { cp with localSize := cp.localSize + chunk.length }

/-- A step of the constructor, or the open of `Read`'s check: `FlashFileIdentical` then
`NewRandomAccessFile(local_fname)`; when either fails, `ScheduleUpdateFlash` and the DFS, with
priority 1 in the constructor and `read_dfs_count_` in the check, which then resets it. -/
def fileStep (sys : Sys) (r : Nat) (f : FlashFile) : Option Sys :=
  match f.pc with
  | .ctorCopy =>
    match sys.copiers r with
    | some { pc := .done _, .. } => some (sys.setFile r { f with pc := .ctorCheck })
    | _ => none
  | .ctorCheck =>
    if sys.fs.size = some S.dfs.length then some (sys.setFile r { f with pc := .ctorOpen })
    else some ((sys.scheduleUpdateFlash 1).setFile r { f with pc := .ready })
  | .ctorOpen =>
    match sys.fs.path with
    | some i => some (sys.setFile r { f with flash := some i, pc := .ready })
    | none => some ((sys.scheduleUpdateFlash 1).setFile r { f with pc := .ready })
  | .recheckOpen =>
    match sys.fs.path with
    | some i => some (sys.setFile r { f with flash := some i, pc := .ready })
    | none => some ((sys.scheduleUpdateFlash f.readDfsCount).setFile r
        { f with pc := .ready, readDfsCount := 0 })
  | .ready => none

/-- The end of an `UpdateFlashFile` task whose copy returned `ok`: on success the name stops
waiting; otherwise its priority halves, and the task is queued again while it is positive. -/
def taskEnd (sys : Sys) (c : Nat) (ok : Bool) : Sys :=
  let sys := { sys with copiers := update sys.copiers c none }
  if ok then { sys with waiting := none }
  else
    match sys.waiting with
    | some p => if p / 2 > 0 then { sys with waiting := some (p / 2), queued := true }
      else { sys with waiting := none }
    | none => sys

def step (sys : Sys) : Event → Option Sys
  | .openFile r =>
    match sys.files r, sys.copiers r with
    | none, none =>
      if S.forceReadFromCache then
        some ((sys.setCopier r ⟨0, 0, false, .checkSize⟩).setFile r ⟨none, .ctorCopy, 0⟩)
      else some (sys.setFile r ⟨none, .ctorCheck, 0⟩)
    | _, _ => none
  | .copier c ok =>
    match sys.copiers c with
    | some cp => sys.copierStep S c cp ok
    | none => none
  | .copy c k =>
    match sys.copiers c with
    | some cp => if cp.pc = .copy then some (sys.copyStep S c cp k) else none
    | none => none
  | .file r =>
    match sys.files r with
    | some f => sys.fileStep S r f
    | none => none
  | .recheck r =>
    match sys.files r with
    | some f@{ flash := none, pc := .ready, .. } =>
      if sys.fs.size = some S.dfs.length then some (sys.setFile r { f with pc := .recheckOpen })
      else some ((sys.scheduleUpdateFlash f.readDfsCount).setFile r { f with readDfsCount := 0 })
    | _ => none
  | .read r offset n =>
    match sys.files r with
    | some { flash := some i, pc := .ready, .. } =>
      some { sys with served := sys.served ++ [⟨offset, n, ((sys.fs.inode i).drop offset).take n⟩] }
    | some f@{ flash := none, pc := .ready, .. }
    | some f@{ flash := none, pc := .recheckOpen, .. } =>
      some (sys.setFile r { f with readDfsCount := f.readDfsCount + 1 })
    | _ => none
  | .taskStart c =>
    match sys.copiers c with
    | none => if sys.queued then some ({ sys with queued := false }.setCopier c ⟨0, 0, true, .checkSize⟩) else none
    | some _ => none
  | .taskEnd c =>
    match sys.copiers c with
    | some { task := true, pc := .done ok, .. } => some (sys.taskEnd c ok)
    | _ => none

def run (sys : Sys) : List Event → Option Sys
  | [] => some sys
  | e :: es => (sys.step S e).bind fun sys' => sys'.run es

end Sys

end Steps

/-- Every read served from the local file returned the DFS bytes at its offset and length. -/
def Sys.ServedDfsBytes (S : Setting) (sys : Sys) : Prop :=
  ∀ r ∈ sys.served, r.bytes = (S.dfs.drop r.offset).take r.n

instance (S : Setting) (sys : Sys) : Decidable (sys.ServedDfsBytes S) :=
  inferInstanceAs (Decidable (∀ r ∈ sys.served, _))

def twoByteFile : Setting := ⟨[1, 2], true⟩

/-- Two `FlashRandomAccessFile`s of a two-byte file are constructed at once and both copy. Both
find no local file; the first creates it and appends the first byte; the second's
`NewWritableFile` empties that inode; the first appends the second byte at offset 1, after a
zero. The file has `fsize` bytes, so the first constructor opens it and its read of the whole
file returns `[0, 2]` for the DFS bytes `[1, 2]`. No call fails. -/
theorem mirror_read_after_racing_copies :
    ∃ sys, Sys.init.run twoByteFile [.openFile 0, .openFile 1, .copier 0 true, .copier 0 true,
      .copier 1 true, .copier 1 true, .copier 0 true, .copier 0 true, .copy 0 1, .copier 1 true,
      .copier 1 true, .copy 0 1, .copy 0 1, .file 0, .file 0, .file 0, .read 0 0 2] = some sys ∧
      ¬sys.ServedDfsBytes twoByteFile :=
  ⟨_, rfl, by decide⟩

/-! ## Copies by `UpdateFlashFile` tasks only

Without `ForceReadFromCache` every copy is an `UpdateFlashFile` task, and
`update_flash_waiting_files_` keeps those to one at a time: a task is queued only when the name
is not waiting, and the name stops waiting only when a task ends. One copy at a time writes the
local file from its start with no gap, so every inode holds a prefix of the DFS file, and one of
`fsize` bytes holds all of it. -/

namespace Sys

@[simp] theorem setCopier_fs (sys : Sys) (c : Nat) (cp : Copier) : (sys.setCopier c cp).fs = sys.fs := rfl
@[simp] theorem setCopier_files (sys : Sys) (c : Nat) (cp : Copier) :
    (sys.setCopier c cp).files = sys.files := rfl
@[simp] theorem setCopier_copiers (sys : Sys) (c : Nat) (cp : Copier) :
    (sys.setCopier c cp).copiers = update sys.copiers c (some cp) := rfl
@[simp] theorem setCopier_waiting (sys : Sys) (c : Nat) (cp : Copier) :
    (sys.setCopier c cp).waiting = sys.waiting := rfl
@[simp] theorem setCopier_queued (sys : Sys) (c : Nat) (cp : Copier) :
    (sys.setCopier c cp).queued = sys.queued := rfl
@[simp] theorem setCopier_served (sys : Sys) (c : Nat) (cp : Copier) :
    (sys.setCopier c cp).served = sys.served := rfl
@[simp] theorem setFile_fs (sys : Sys) (r : Nat) (f : FlashFile) : (sys.setFile r f).fs = sys.fs := rfl
@[simp] theorem setFile_files (sys : Sys) (r : Nat) (f : FlashFile) :
    (sys.setFile r f).files = update sys.files r (some f) := rfl
@[simp] theorem setFile_copiers (sys : Sys) (r : Nat) (f : FlashFile) :
    (sys.setFile r f).copiers = sys.copiers := rfl
@[simp] theorem setFile_waiting (sys : Sys) (r : Nat) (f : FlashFile) :
    (sys.setFile r f).waiting = sys.waiting := rfl
@[simp] theorem setFile_queued (sys : Sys) (r : Nat) (f : FlashFile) :
    (sys.setFile r f).queued = sys.queued := rfl
@[simp] theorem setFile_served (sys : Sys) (r : Nat) (f : FlashFile) :
    (sys.setFile r f).served = sys.served := rfl

@[simp] theorem scheduleUpdateFlash_fs (sys : Sys) (p : Nat) : (sys.scheduleUpdateFlash p).fs = sys.fs := by
  unfold scheduleUpdateFlash; split <;> rfl
@[simp] theorem scheduleUpdateFlash_files (sys : Sys) (p : Nat) :
    (sys.scheduleUpdateFlash p).files = sys.files := by
  unfold scheduleUpdateFlash; split <;> rfl

end Sys

theorem writeAt_of_length {f d : List Byte} {pos : Nat} (h : f.length = pos) :
    writeAt f pos d = f ++ d := by
  subst h
  simp [writeAt]

theorem LocalFs.size_eq_some {fs : LocalFs} {n : Nat} :
    fs.size = some n ↔ ∃ i, fs.path = some i ∧ (fs.inode i).length = n := by
  simp [LocalFs.size]

/-- What a copy needs of the local file system at its point: after its check and its delete
there is no file; while it copies, the path names its inode, which holds the DFS bytes it has
copied; from its delete to its end, short of its last chunk, the local file is not `fsize` bytes
long. -/
def Copier.Holds (S : Setting) (fs : LocalFs) (cp : Copier) : Prop :=
  match cp.pc with
  | .openDfs | .openLocal => fs.path = none
  | .copy => fs.path = some cp.inode ∧ cp.localSize ≤ S.dfs.length ∧
      fs.inode cp.inode = S.dfs.take cp.localSize
  | .delete | .checkDfsSize | .deleteMismatch => fs.size ≠ some S.dfs.length
  | .checkSize | .done _ => True

/-- The invariant of the mirror when only tasks copy. -/
structure Sys.MirrorInv (S : Setting) (sys : Sys) : Prop where
  inode_prefix : ∀ i, sys.fs.inode i <+: S.dfs
  path_lt : ∀ i, sys.fs.path = some i → i < sys.fs.nextInode
  flash_full : ∀ r f i, sys.files r = some f → f.flash = some i →
    sys.fs.inode i = S.dfs ∧ i < sys.fs.nextInode
  opening : ∀ r f, sys.files r = some f → f.pc = .ctorOpen ∨ f.pc = .recheckOpen →
    sys.fs.size = some S.dfs.length
  copier_holds : ∀ c cp, sys.copiers c = some cp → cp.Holds S sys.fs
  one_copier : ∀ c cp, sys.copiers c = some cp →
    sys.queued = false ∧ sys.waiting.isSome ∧ ∀ c' cp', sys.copiers c' = some cp' → c' = c
  queued_idle : sys.queued → sys.waiting.isSome ∧ ∀ c, sys.copiers c = none
  served : sys.ServedDfsBytes S

namespace Sys.MirrorInv

variable {S : Setting} {sys : Sys}

theorem init : Sys.init.MirrorInv S where
  inode_prefix _ := List.nil_prefix
  path_lt _ h := by simp [Sys.init] at h
  flash_full _ _ _ h := by simp [Sys.init] at h
  opening _ _ h := by simp [Sys.init] at h
  copier_holds _ _ h := by simp [Sys.init] at h
  one_copier _ _ h := by simp [Sys.init] at h
  queued_idle h := by simp [Sys.init] at h
  served _ h := by simp [Sys.init] at h

theorem inode_eq_dfs (hi : sys.MirrorInv S) {i : Nat}
    (h : (sys.fs.inode i).length = S.dfs.length) : sys.fs.inode i = S.dfs :=
  (hi.inode_prefix i).eq_of_length h

/-- While the local file is not `fsize` bytes long, no file is between its check and its
open. -/
theorem not_opening (hi : sys.MirrorInv S) (hne : sys.fs.size ≠ some S.dfs.length) {r : Nat}
    {f : FlashFile} (hf : sys.files r = some f) : f.pc ≠ .ctorOpen ∧ f.pc ≠ .recheckOpen :=
  ⟨fun h => hne (hi.opening r f hf (.inl h)), fun h => hne (hi.opening r f hf (.inr h))⟩

theorem copier_eq (hi : sys.MirrorInv S) {c c' : Nat} {cp cp' : Copier}
    (hc : sys.copiers c = some cp) (hc' : sys.copiers c' = some cp') : c' = c :=
  (hi.one_copier c cp hc).2.2 c' cp' hc'

/-- A step of the one copier `c` that changes only its point and the local file system keeps
the invariant when the new point holds, the files reading a changed inode keep the DFS bytes,
and the files about to open still find a file of `fsize` bytes. -/
theorem setCopier (hi : sys.MirrorInv S) {c : Nat} {cp cp' : Copier} (fs : LocalFs)
    (hc : sys.copiers c = some cp) (hold : cp'.Holds S fs)
    (hpre : ∀ i, fs.inode i <+: S.dfs)
    (hpath : ∀ i, fs.path = some i → i < fs.nextInode)
    (hflash : ∀ r f i, sys.files r = some f → f.flash = some i →
      fs.inode i = S.dfs ∧ i < fs.nextInode)
    (hopen : ∀ r f, sys.files r = some f → f.pc = .ctorOpen ∨ f.pc = .recheckOpen →
      fs.size = some S.dfs.length) :
    ({ sys with fs := fs }.setCopier c cp').MirrorInv S where
  inode_prefix := hpre
  path_lt := hpath
  flash_full := hflash
  opening := hopen
  copier_holds c₁ cp₁ h := by
    by_cases hc₁ : c₁ = c
    · subst hc₁
      simp only [Sys.setCopier_copiers, Function.update_same, Option.some.injEq] at h
      exact h ▸ hold
    · simp only [Sys.setCopier_copiers, Function.update_noteq hc₁] at h
      exact absurd (hi.copier_eq hc h) hc₁
  one_copier c₁ cp₁ h := by
    have hq := hi.one_copier c cp hc
    refine ⟨hq.1, hq.2.1, fun c₂ cp₂ h₂ => ?_⟩
    have e₁ : c₁ = c := by
      by_cases hc₁ : c₁ = c
      · exact hc₁
      · simp only [Sys.setCopier_copiers, Function.update_noteq hc₁] at h
        exact hi.copier_eq hc h
    have e₂ : c₂ = c := by
      by_cases hc₂ : c₂ = c
      · exact hc₂
      · simp only [Sys.setCopier_copiers, Function.update_noteq hc₂] at h₂
        exact hi.copier_eq hc h₂
    rw [e₁, e₂]
  queued_idle h := by
    have := (hi.one_copier c cp hc).1
    simp_all
  served := hi.served

/-- Setting a file keeps the invariant when the inode it reads holds the DFS bytes and, if it
is about to open, the local file has `fsize` bytes. -/
theorem setFile (hi : sys.MirrorInv S) {r : Nat} {f : FlashFile}
    (hflash : ∀ i, f.flash = some i → sys.fs.inode i = S.dfs ∧ i < sys.fs.nextInode)
    (hopen : f.pc = .ctorOpen ∨ f.pc = .recheckOpen → sys.fs.size = some S.dfs.length) :
    (sys.setFile r f).MirrorInv S :=
  { hi with
    flash_full := fun r₁ f₁ i h₁ hi₁ => by
      by_cases hr : r₁ = r
      · subst hr
        simp only [Sys.setFile_files, Function.update_same, Option.some.injEq] at h₁
        exact hflash i (h₁ ▸ hi₁)
      · simp only [Sys.setFile_files, Function.update_noteq hr] at h₁
        exact hi.flash_full r₁ f₁ i h₁ hi₁
    opening := fun r₁ f₁ h₁ hp => by
      by_cases hr : r₁ = r
      · subst hr
        simp only [Sys.setFile_files, Function.update_same, Option.some.injEq] at h₁
        exact hopen (h₁ ▸ hp)
      · simp only [Sys.setFile_files, Function.update_noteq hr] at h₁
        exact hi.opening r₁ f₁ h₁ hp }

theorem scheduleUpdateFlash (hi : sys.MirrorInv S) (priority : Nat) :
    (sys.scheduleUpdateFlash priority).MirrorInv S := by
  unfold Sys.scheduleUpdateFlash
  cases hw : sys.waiting with
  | none =>
    have idle : ∀ c, sys.copiers c = none := fun c => by
      cases hc : sys.copiers c with
      | none => rfl
      | some cp => simpa [hw] using (hi.one_copier c cp hc).2.1
    exact { hi with
      one_copier := fun c cp h => by simp [idle c] at h
      queued_idle := fun _ => ⟨rfl, idle⟩ }
  | some p =>
    exact { hi with
      one_copier := fun c cp h => by
        obtain ⟨hq, -, hu⟩ := hi.one_copier c cp h
        exact ⟨hq, rfl, hu⟩
      queued_idle := fun h => ⟨rfl, (hi.queued_idle h).2⟩ }

theorem copierStep (hi : sys.MirrorInv S) {c : Nat} {cp : Copier} {ok : Bool} {sys' : Sys}
    (hc : sys.copiers c = some cp) (h : sys.copierStep S c cp ok = some sys') :
    sys'.MirrorInv S := by
  have hold := hi.copier_holds c cp hc
  unfold Sys.copierStep at h
  cases hpc : cp.pc with
  | checkSize =>
    simp only [hpc, Option.some.injEq] at h
    subst h
    refine hi.setCopier sys.fs hc ?_ hi.inode_prefix hi.path_lt hi.flash_full hi.opening
    by_cases hs : sys.fs.size = some S.dfs.length <;> simp [Copier.Holds, hs]
  | delete =>
    simp only [hpc, Option.some.injEq] at h
    subst h
    simp only [Copier.Holds, hpc] at hold
    exact hi.setCopier _ hc rfl hi.inode_prefix (fun _ h => by simp at h) hi.flash_full
      fun r f hf hp => absurd hp (by simpa using hi.not_opening hold hf)
  | openDfs =>
    simp only [hpc, Option.some.injEq] at h
    subst h
    simp only [Copier.Holds, hpc] at hold
    refine hi.setCopier sys.fs hc ?_ hi.inode_prefix hi.path_lt hi.flash_full hi.opening
    cases ok <;> simp [Copier.Holds, hold]
  | openLocal =>
    simp only [Copier.Holds, hpc] at hold
    simp only [hpc, hold] at h
    cases ok with
    | false =>
      simp only [Bool.false_eq_true, ↓reduceIte, Option.some.injEq] at h
      subst h
      exact hi.setCopier sys.fs hc trivial hi.inode_prefix hi.path_lt hi.flash_full hi.opening
    | true =>
      simp only [↓reduceIte, Option.some.injEq] at h
      subst h
      have hnone : sys.fs.size ≠ some S.dfs.length := by simp [LocalFs.size, hold]
      refine hi.setCopier _ hc ⟨rfl, Nat.zero_le _, by simp⟩ (fun i => ?_) (fun i h => ?_)
        (fun r f j hf hj => ?_) fun r f hf hp => absurd hp (by simpa using hi.not_opening hnone hf)
      · by_cases hi' : i = sys.fs.nextInode
        · subst hi'; simp
        · simpa [Function.update_noteq hi'] using hi.inode_prefix i
      · simp only [Option.some.injEq] at h
        subst h
        exact Nat.lt_succ_self _
      · obtain ⟨hfull, hlt⟩ := hi.flash_full r f j hf hj
        simp only [Function.update_noteq (Nat.ne_of_lt hlt)]
        exact ⟨hfull, by omega⟩
  | checkDfsSize =>
    simp only [hpc, Option.some.injEq] at h
    subst h
    simp only [Copier.Holds, hpc] at hold
    refine hi.setCopier sys.fs hc ?_ hi.inode_prefix hi.path_lt hi.flash_full hi.opening
    cases ok <;> simp [Copier.Holds, hold]
  | deleteMismatch =>
    simp only [hpc, Option.some.injEq] at h
    subst h
    simp only [Copier.Holds, hpc] at hold
    exact hi.setCopier _ hc trivial hi.inode_prefix (fun _ h => by simp at h) hi.flash_full
      fun r f hf hp => absurd hp (by simpa using hi.not_opening hold hf)
  | copy => simp [hpc] at h
  | done => simp [hpc] at h

/-- A copy's iteration appends the next chunk of the DFS file right after what it has copied,
or ends the loop. Its inode cannot be one a file reads or one about to be opened: those hold
`fsize` bytes, and a copy that has all of them appends nothing. -/
theorem copyStep (hi : sys.MirrorInv S) {c : Nat} {cp : Copier} (k : Nat)
    (hc : sys.copiers c = some cp) (hpc : cp.pc = .copy) : (sys.copyStep S c cp k).MirrorInv S := by
  have hold := hi.copier_holds c cp hc
  simp only [Copier.Holds, hpc] at hold
  obtain ⟨hpath, hle, hbytes⟩ := hold
  have htake : (S.dfs.take cp.localSize).length = cp.localSize := by
    rw [List.length_take]; omega
  have hlen : (sys.fs.inode cp.inode).length = cp.localSize := hbytes ▸ htake
  by_cases hchunk : (S.dfs.drop cp.localSize).take (min k 1048576) = []
  · simp only [Sys.copyStep, hchunk, ↓reduceIte]
    refine hi.setCopier sys.fs hc ?_ hi.inode_prefix hi.path_lt hi.flash_full hi.opening
    by_cases hN : cp.localSize = S.dfs.length
    · simp [Copier.Holds, hN]
    · simp [Copier.Holds, hN, LocalFs.size, hpath, hlen]
  · simp only [Sys.copyStep, hchunk, ↓reduceIte, hbytes, writeAt_of_length htake]
    -- the copied bytes and the chunk read from the DFS file at `local_size`
    have hpre : S.dfs.take cp.localSize ++ (S.dfs.drop cp.localSize).take (min k 1048576) <+: S.dfs := by
      conv => rhs; rw [← List.take_append_drop cp.localSize S.dfs]
      exact (List.prefix_append_right_inj _).mpr (List.take_prefix _ _)
    have hfull : (sys.fs.inode cp.inode).length ≠ S.dfs.length := fun h => hchunk (by
      rw [List.drop_eq_nil_of_le (by omega), List.take_nil])
    refine hi.setCopier _ hc ?_ (fun i => ?_) hi.path_lt (fun r f j hf hj => ?_)
      fun r f hf hp => ?_
    · simp only [Copier.Holds, hpc, Function.update_same]
      have hl := hpre.length_le
      rw [List.length_append, htake] at hl
      refine ⟨hpath, hl, ?_⟩
      rw [List.prefix_iff_eq_take.mp hpre, List.length_append, htake]
    · by_cases hj : i = cp.inode
      · subst hj; simpa using hpre
      · simpa [Function.update_noteq hj] using hi.inode_prefix i
    · obtain ⟨hd, hlt⟩ := hi.flash_full r f j hf hj
      have hj : j ≠ cp.inode := fun e => hfull (by rw [← e, hd])
      simpa [Function.update_noteq hj] using And.intro hd hlt
    · obtain ⟨i, hp, hl⟩ := LocalFs.size_eq_some.mp (hi.opening r f hf hp)
      rw [hpath, Option.some.injEq] at hp
      exact absurd (hp ▸ hl) hfull

theorem fileStep (hi : sys.MirrorInv S) {r : Nat} {f : FlashFile} {sys' : Sys}
    (hf : sys.files r = some f) (h : sys.fileStep S r f = some sys') : sys'.MirrorInv S := by
  have keep := fun i (h : f.flash = some i) => hi.flash_full r f i hf h
  -- the open that follows a check that found `fsize` bytes
  have opened : ∀ {i}, f.pc = .ctorOpen ∨ f.pc = .recheckOpen → sys.fs.path = some i →
      (sys.setFile r { f with flash := some i, pc := .ready }).MirrorInv S := fun hp hpath =>
    hi.setFile (fun j hj => by
      obtain ⟨i', hp', hl⟩ := LocalFs.size_eq_some.mp (hi.opening r f hf hp)
      simp only [Option.some.injEq] at hj
      rw [hpath, Option.some.injEq] at hp'
      subst hj hp'
      exact ⟨hi.inode_eq_dfs hl, hi.path_lt _ hpath⟩) (by simp)
  unfold Sys.fileStep at h
  cases hpc : f.pc with
  | ctorCopy =>
    simp only [hpc] at h
    split at h
    · cases h
      exact hi.setFile keep (by simp)
    · cases h
  | ctorCheck =>
    simp only [hpc] at h
    split at h <;> cases h
    · exact hi.setFile keep (by simp [*])
    · exact (hi.scheduleUpdateFlash 1).setFile (by simpa using keep) (by simp)
  | ctorOpen =>
    simp only [hpc] at h
    split at h <;> cases h
    · exact opened (.inl hpc) ‹_›
    · exact (hi.scheduleUpdateFlash 1).setFile (by simpa using keep) (by simp)
  | recheckOpen =>
    simp only [hpc] at h
    split at h <;> cases h
    · exact opened (.inr hpc) ‹_›
    · exact (hi.scheduleUpdateFlash _).setFile (by simpa using keep) (by simp)
  | ready => simp [hpc] at h

theorem taskStart (hi : sys.MirrorInv S) {c : Nat} (hq : sys.queued = true) :
    ({ sys with queued := false }.setCopier c ⟨0, 0, true, .checkSize⟩).MirrorInv S := by
  obtain ⟨hw, idle⟩ := hi.queued_idle hq
  have only : ∀ c₁ cp₁, update sys.copiers c (some (⟨0, 0, true, .checkSize⟩ : Copier)) c₁ = some cp₁ →
      c₁ = c ∧ cp₁ = ⟨0, 0, true, .checkSize⟩ := fun c₁ cp₁ h => by
    by_cases hc : c₁ = c
    · subst hc; simpa using h.symm
    · simp [Function.update_noteq hc, idle c₁] at h
  exact { hi with
    copier_holds := fun c₁ cp₁ h => by
      obtain ⟨-, rfl⟩ := only c₁ cp₁ h
      trivial
    one_copier := fun c₁ cp₁ h =>
      ⟨rfl, hw, fun c₂ cp₂ h₂ => (only c₂ cp₂ h₂).1.trans (only c₁ cp₁ h).1.symm⟩
    queued_idle := fun h => absurd h Bool.false_ne_true }

theorem taskEnd (hi : sys.MirrorInv S) {c : Nat} {cp : Copier} (ok : Bool)
    (hc : sys.copiers c = some cp) : (sys.taskEnd c ok).MirrorInv S := by
  obtain ⟨hq, hw, huniq⟩ := hi.one_copier c cp hc
  have idle : ∀ c₁, update sys.copiers c none c₁ = none := fun c₁ => by
    by_cases h₁ : c₁ = c
    · subst h₁; simp
    · cases h₂ : sys.copiers c₁ with
      | none => simp [Function.update_noteq h₁, h₂]
      | some cp₂ => exact absurd (huniq c₁ cp₂ h₂) h₁
  -- with the copy dropped, only the waiting entry and the queue change
  have drop : ∀ (w : Option Nat) (q : Bool), (q → w.isSome) →
      ({ sys with copiers := update sys.copiers c none, waiting := w, queued := q }).MirrorInv S :=
    fun w q hwq =>
      { hi with
        copier_holds := fun c₁ cp₁ h => by simp [idle c₁] at h
        one_copier := fun c₁ cp₁ h => by simp [idle c₁] at h
        queued_idle := fun h => ⟨hwq h, idle⟩ }
  obtain ⟨p, hp⟩ := Option.isSome_iff_exists.mp hw
  unfold Sys.taskEnd
  cases ok with
  | true => exact drop none _ (by simp [hq])
  | false =>
    simp only [Bool.false_eq_true, ↓reduceIte, hp]
    split
    · exact drop (some (p / 2)) true (fun _ => rfl)
    · exact drop none _ (by simp [hq])

theorem step (hforce : S.forceReadFromCache = false) (hi : sys.MirrorInv S) {e : Event}
    {sys' : Sys} (h : sys.step S e = some sys') : sys'.MirrorInv S := by
  cases e with
  | openFile r =>
    simp only [Sys.step, hforce] at h
    split at h
    · cases h
      exact hi.setFile (by simp) (by simp)
    · cases h
  | copier c ok =>
    simp only [Sys.step] at h
    split at h
    · exact hi.copierStep ‹_› h
    · cases h
  | copy c k =>
    simp only [Sys.step] at h
    split at h
    · split at h
      · cases h
        exact hi.copyStep k ‹_› ‹_›
      · cases h
    · cases h
  | file r =>
    simp only [Sys.step] at h
    split at h
    · exact hi.fileStep ‹_› h
    · cases h
  | recheck r =>
    simp only [Sys.step] at h
    split at h
    · split at h <;> cases h
      · exact hi.setFile (by simp) (by simp [*])
      · exact (hi.scheduleUpdateFlash _).setFile (by simp) (by simp)
    · cases h
  | read r offset n =>
    simp only [Sys.step] at h
    split at h
    · cases h
      rename_i i _ hf
      have hd := (hi.flash_full r _ i hf rfl).1
      exact { hi with
        served := fun x hx => by
          rcases List.mem_append.mp hx with hx | hx
          · exact hi.served x hx
          · simp only [List.mem_singleton] at hx
            subst hx
            simp [hd] }
    · cases h
      exact hi.setFile (by simp) (by simp)
    · cases h
      exact hi.setFile (by simp) (fun _ => hi.opening r _ ‹_› (.inr rfl))
    · cases h
  | taskStart c =>
    simp only [Sys.step] at h
    split at h
    · split at h
      · cases h
        exact hi.taskStart ‹_›
      · cases h
    · cases h
  | taskEnd c =>
    simp only [Sys.step] at h
    split at h
    · cases h
      exact hi.taskEnd _ ‹_›
    · cases h

theorem run (hforce : S.forceReadFromCache = false) (hi : sys.MirrorInv S) {es : List Event}
    {sys' : Sys} (h : sys.run S es = some sys') : sys'.MirrorInv S := by
  induction es generalizing sys with
  | nil => exact Option.some.inj h ▸ hi
  | cons e es ih =>
    obtain ⟨s₁, h₁, h₂⟩ := Option.bind_eq_some.mp h
    exact ih (hi.step hforce h₁) h₂

end Sys.MirrorInv

/-- Without `ForceReadFromCache`, every copy is an `UpdateFlashFile` task, and
`update_flash_waiting_files_` keeps them to one at a time: then, in every run, every read served
from the local file returns the DFS bytes at its offset and length, whatever the DFS reads
return and whichever calls fail. -/
theorem served_reads_match_dfs_of_task_copies {S : Setting} (hforce : S.forceReadFromCache = false)
    {es : List Event} {sys : Sys} (h : Sys.init.run S es = some sys) : sys.ServedDfsBytes S :=
  (Sys.MirrorInv.init.run hforce h).served

end Leveldb.Flash
