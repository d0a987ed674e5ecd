import Tera.Leveldb.WriterQueue
import Mathlib.Data.Multiset.Basic

/-!
# Snapshots mirrored into the memtables

With `use_memtable_on_leveldb`, a memtable is a small LSM of its own and keeps the snapshots it
must not compact away. `DBImpl::GetSnapshot` and `ReleaseSnapshot` forward the sequence to
`mem_` and to `imm_` before they change `snapshots_`, and `NewMemTable` registers every element
of `snapshots_` in the memtable it makes. The engine is the writer-queue model of
`Tera.Leveldb.WriterQueue`; on top of it sit `snapshots_` and each memtable's own multiset of
snapshots. `MemTableOnLevelDB` is not part of the repository: its `GetSnapshot` and
`ReleaseSnapshot` are modelled from the spec, as adding and removing one occurrence.
-/
namespace Leveldb.Snapshots

open Function (update update_same update_noteq)
open WriterQueue

/-! ## How the engine moves its memtables -/

/-- The steps that call `NewMemTable`: the swaps of `MakeRoomForWrite` and of `Shutdown1`. -/
def newMemTable : Action → Bool
  | .makeRoomSwap _ | .shutdown1Swap => true
  | _ => false

section Engine

variable {s s' : Sys}

/-- A step that keeps `mem_` and may drop `imm_`. -/
def Keeps (s s' : Sys) : Prop :=
  s'.nextMemTable = s.nextMemTable ∧ s'.mem = s.mem ∧ (s'.imm = s.imm ∨ s'.imm = none)

theorem Keeps.refl (s : Sys) : Keeps s s := ⟨rfl, rfl, .inl rfl⟩

theorem keeps_compactMemTable (s : Sys) (t : Nat) : Keeps s (s.compactMemTable t) := by
  unfold Sys.compactMemTable
  split
  · exact Keeps.refl s
  · split
    · exact ⟨rfl, rfl, .inl rfl⟩
    · split
      · exact ⟨rfl, rfl, .inr rfl⟩
      · exact ⟨rfl, rfl, .inl rfl⟩

theorem keeps_afterMakeRoom (s : Sys) (w : Nat) (b ok : Bool) : Keeps s (s.afterMakeRoom w b ok) := by
  unfold Sys.afterMakeRoom
  split
  · split <;> exact Keeps.refl _
  · exact Keeps.refl _

/-- Every step of the engine moves its memtables in one of three ways: a swap makes memtable
`nextMemTable` the new `mem_` and hands the old one to `imm_` (which a flush may drop at once);
`Shutdown2` hands `mem_` to `imm_` and leaves `mem_` NULL; every other step keeps `mem_` and
at most drops `imm_`. -/
theorem step_memtables {a : Action} (h : s.step a = some s') :
    (newMemTable a = true ∧ s'.nextMemTable = s.nextMemTable + 1 ∧
      s'.mem = some s.nextMemTable ∧ (s'.imm = s.mem ∨ s'.imm = none)) ∨
    (newMemTable a = false ∧ Keeps s s') ∨
    (newMemTable a = false ∧ s'.nextMemTable = s.nextMemTable ∧ s'.mem = none ∧
      (s'.imm = s.mem ∨ s'.imm = none)) := by
  cases a with
  | makeRoomSwap w =>
    simp only [Sys.step] at h
    split at h
    · split at h
      · cases h; exact .inl ⟨rfl, rfl, rfl, .inl rfl⟩
      · cases h
    · cases h
  | shutdown1Swap =>
    simp only [Sys.step] at h
    split at h
    · cases h
      obtain ⟨h1, h2, h3⟩ := keeps_compactMemTable
        { s with imm := s.mem, mem := some s.nextMemTable, nextMemTable := s.nextMemTable + 1 } 0
      exact .inl ⟨rfl, h1, h2, h3⟩
    · cases h
  | shutdown2 =>
    simp only [Sys.step] at h
    split at h
    · cases h
      split
      · exact .inr (.inl ⟨rfl, Keeps.refl _⟩)
      · obtain ⟨h1, h2, h3⟩ := keeps_compactMemTable { s with imm := s.mem, mem := none } 0
        exact .inr (.inr ⟨rfl, h1, h2, h3⟩)
    · cases h
  | _ =>
    refine .inr (.inl ⟨rfl, ?_⟩)
    simp only [Sys.step] at h
    repeat' split at h
    all_goals first
      | cases h; done
      | cases h; first
          | exact Keeps.refl _
          | exact ⟨rfl, rfl, .inr rfl⟩
          | exact keeps_afterMakeRoom _ _ _ _
          | exact keeps_compactMemTable _ _

end Engine

/-! ## The snapshots of `DBImpl` and of each memtable -/

/-- `MemTableOnLevelDB::GetSnapshot`: the memtable's multiset gains one occurrence of `seq`. -/
def memGetSnapshot (seq : Nat) (ms : Multiset Nat) : Multiset Nat := seq ::ₘ ms

/-- `MemTableOnLevelDB::ReleaseSnapshot`: the memtable's multiset loses one occurrence of
`seq`. -/
def memReleaseSnapshot (seq : Nat) (ms : Multiset Nat) : Multiset Nat := ms.erase seq

/-- `if (m) m->...`: apply `f` to the multiset of the memtable `m` points to, if any. -/
def onMem (f : Multiset Nat → Multiset Nat) (snaps : Nat → Multiset Nat) :
    Option Nat → Nat → Multiset Nat
  | some m => update snaps m (f (snaps m))
  | none => snaps

/-- The engine with `snapshots_` and, for every memtable, the snapshots it has registered. -/
structure SnapSys where
  sys : Sys
  snapshots : Multiset Nat
  memSnaps : Nat → Multiset Nat

/-- A step of the engine, or one of the two snapshot calls. -/
inductive SnapAction where
  | engine (a : Action)
  | getSnapshot (seq : Nat)
  | releaseSnapshot (seq : Nat)

namespace SnapSys

variable {s : SnapSys}

def init (dumpMemOnShutdown : Bool) (maxBackgroundCompactions : Nat) : SnapSys :=
  ⟨Sys.init dumpMemOnShutdown maxBackgroundCompactions, 0, fun _ => 0⟩

/-- `DBImpl::GetSnapshot(last_sequence)`, for the flag `use_memtable_on_leveldb`. -/
def getSnapshot (onLeveldb : Bool) (s : SnapSys) (seq : Nat) : SnapSys :=
  let memSnaps :=
    if onLeveldb then onMem (memGetSnapshot seq) (onMem (memGetSnapshot seq) s.memSnaps s.sys.mem)
      s.sys.imm
    else s.memSnaps
  { s with memSnaps := memSnaps, snapshots := seq ::ₘ s.snapshots }

/-- `DBImpl::ReleaseSnapshot(sequence_number)`; `none` where its `assert` on `snapshots_.find`
fails. -/
def releaseSnapshot (onLeveldb : Bool) (s : SnapSys) (seq : Nat) : Option SnapSys :=
  if seq ∈ s.snapshots then
    let memSnaps :=
      if onLeveldb then
        onMem (memReleaseSnapshot seq) (onMem (memReleaseSnapshot seq) s.memSnaps s.sys.mem)
          s.sys.imm
      else s.memSnaps
    some { s with memSnaps := memSnaps, snapshots := s.snapshots.erase seq }
  else none

/-- What `NewMemTable` registers in the memtable it makes: every element of `snapshots_` with
`use_memtable_on_leveldb`, nothing otherwise. -/
def newMemTableSnaps (onLeveldb : Bool) (snapshots : Multiset Nat) : Multiset Nat :=
  if onLeveldb then snapshots else 0

/-- One step; a step of the engine that calls `NewMemTable` registers the snapshots in the
memtable numbered `nextMemTable`. -/
def step (onLeveldb : Bool) (s : SnapSys) : SnapAction → Option SnapSys
  | .engine a => (s.sys.step a).map fun sys' =>
    let memSnaps := if newMemTable a then
        update s.memSnaps s.sys.nextMemTable (newMemTableSnaps onLeveldb s.snapshots)
      else s.memSnaps
    { s with sys := sys', memSnaps := memSnaps }
  | .getSnapshot seq => some (s.getSnapshot onLeveldb seq)
  | .releaseSnapshot seq => s.releaseSnapshot onLeveldb seq

def run (onLeveldb : Bool) (s : SnapSys) : List SnapAction → Option SnapSys
  | [] => some s
  | a :: as => (s.step onLeveldb a).bind fun s' => s'.run onLeveldb as

/-- Both installed memtables hold exactly `snapshots_`; they are distinct and older than the
next memtable `NewMemTable` will make. -/
structure Mirrored (s : SnapSys) : Prop where
  mem_lt : ∀ m, s.sys.mem = some m → m < s.sys.nextMemTable
  imm_lt : ∀ m, s.sys.imm = some m → m < s.sys.nextMemTable
  mem_ne_imm : ∀ m, s.sys.mem = some m → s.sys.imm ≠ some m
  snaps : ∀ m, (s.sys.mem = some m ∨ s.sys.imm = some m) → s.memSnaps m = s.snapshots

theorem Mirrored.init (d : Bool) (k : Nat) : (init d k).Mirrored where
  mem_lt := by simp [SnapSys.init, Sys.init]
  imm_lt := by simp [SnapSys.init, Sys.init]
  mem_ne_imm := by simp [SnapSys.init, Sys.init]
  snaps := fun _ _ => rfl

theorem onMem_of_ne {f : Multiset Nat → Multiset Nat} {snaps : Nat → Multiset Nat}
    {o : Option Nat} {m : Nat} (h : o ≠ some m) : onMem f snaps o m = snaps m := by
  cases o with
  | none => rfl
  | some x => exact update_noteq (fun hm => h (by rw [hm])) _ _

theorem onMem_self (f : Multiset Nat → Multiset Nat) (snaps : Nat → Multiset Nat) (m : Nat) :
    onMem f snaps (some m) m = f (snaps m) := update_same _ _ _

theorem Mirrored.onMem_both (hi : s.Mirrored) (f : Multiset Nat → Multiset Nat) {m : Nat}
    (hm : s.sys.mem = some m ∨ s.sys.imm = some m) :
    onMem f (onMem f s.memSnaps s.sys.mem) s.sys.imm m = f (s.memSnaps m) := by
  rcases hm with hm | hm
  · rw [onMem_of_ne (hi.mem_ne_imm m hm), hm, onMem_self]
  · have hne : s.sys.mem ≠ some m := fun h => hi.mem_ne_imm m h hm
    rw [hm, onMem_self, onMem_of_ne hne]

theorem Mirrored.getSnapshot (hi : s.Mirrored) (seq : Nat) :
    (s.getSnapshot true seq).Mirrored := by
  refine ⟨hi.mem_lt, hi.imm_lt, hi.mem_ne_imm, fun m hm => ?_⟩
  simp only [SnapSys.getSnapshot, if_true]
  rw [hi.onMem_both _ hm, memGetSnapshot, hi.snaps m hm]

theorem Mirrored.releaseSnapshot (hi : s.Mirrored) {seq : Nat} {s' : SnapSys}
    (h : s.releaseSnapshot true seq = some s') : s'.Mirrored := by
  simp only [SnapSys.releaseSnapshot, if_true] at h
  split at h
  · cases h
    refine ⟨hi.mem_lt, hi.imm_lt, hi.mem_ne_imm, fun m hm => ?_⟩
    simp only
    rw [hi.onMem_both _ hm, memReleaseSnapshot, hi.snaps m hm]
  · cases h

theorem Mirrored.engine (hi : s.Mirrored) {a : Action} {s' : SnapSys}
    (h : s.step true (.engine a) = some s') : s'.Mirrored := by
  obtain ⟨sys', hstep, rfl⟩ := Option.map_eq_some'.mp h
  rcases step_memtables hstep with ⟨ha, hn, hm, him⟩ | ⟨ha, hn, hm, him⟩ | ⟨ha, hn, hm, him⟩
  · have hold : ∀ x, s.sys.mem = some x → x ≠ s.sys.nextMemTable :=
      fun x hx => (hi.mem_lt x hx).ne
    refine ⟨fun x hx => ?_, fun x hx => ?_, fun x hx => ?_, fun x hx => ?_⟩ <;>
      simp only [ha, if_true] at hx ⊢
    · rw [hm] at hx; cases hx; omega
    · rcases him with him | him <;> rw [him] at hx
      · have := hi.mem_lt x hx; omega
      · cases hx
    · rw [hm] at hx; cases hx
      rcases him with him | him <;> rw [him]
      · exact fun h => hold _ h rfl
      · nofun
    · rcases hx with hx | hx
      · rw [hm] at hx; cases hx; rw [update_same]; rfl
      · rcases him with him | him <;> rw [him] at hx
        · rw [update_noteq (hold x hx), hi.snaps x (.inl hx)]
        · cases hx
  · refine ⟨fun x hx => ?_, fun x hx => ?_, fun x hx => ?_, fun x hx => ?_⟩ <;>
      simp only [ha, hn, Bool.false_eq_true, if_false] at hx ⊢
    · rw [hm] at hx; exact hi.mem_lt x hx
    · rcases him with him | him <;> rw [him] at hx
      · exact hi.imm_lt x hx
      · cases hx
    · rw [hm] at hx
      rcases him with him | him <;> rw [him]
      · exact hi.mem_ne_imm x hx
      · nofun
    · rw [hm] at hx
      rcases him with him | him <;> rw [him] at hx
      · exact hi.snaps x hx
      · exact hi.snaps x (hx.imp_right nofun)
  · refine ⟨fun x hx => ?_, fun x hx => ?_, fun x hx => ?_, fun x hx => ?_⟩ <;>
      simp only [ha, hn, Bool.false_eq_true, if_false] at hx ⊢
    · rw [hm] at hx; cases hx
    · rcases him with him | him <;> rw [him] at hx
      · exact hi.mem_lt x hx
      · cases hx
    · rw [hm] at hx; cases hx
    · rw [hm] at hx
      rcases him with him | him <;> rw [him] at hx
      · exact hi.snaps x (.inl (hx.resolve_left nofun))
      · rcases hx with hx | hx <;> cases hx

theorem Mirrored.run (hi : s.Mirrored) {acts : List SnapAction} {s' : SnapSys}
    (h : s.run true acts = some s') : s'.Mirrored := by
  induction acts generalizing s with
  | nil => cases h; exact hi
  | cons a acts ih =>
    obtain ⟨s₁, h₁, h₂⟩ := Option.bind_eq_some.mp h
    refine ih ?_ h₂
    cases a with
    | engine a => exact hi.engine h₁
    | getSnapshot seq => cases h₁; exact hi.getSnapshot seq
    | releaseSnapshot seq => exact hi.releaseSnapshot h₁

end SnapSys

/-- With `use_memtable_on_leveldb`, in every state an opened engine reaches: both installed
memtables have registered exactly the multiset `snapshots_`; a step that calls `NewMemTable`
installs a memtable that registers `snapshots_`; and a `GetSnapshot` or `ReleaseSnapshot` adds
or removes the sequence once in each installed memtable. -/
theorem memtables_mirror_snapshots (d : Bool) (k : Nat) (acts : List SnapAction) (s : SnapSys)
    (h : (SnapSys.init d k).run true acts = some s) :
    (∀ m, (s.sys.mem = some m ∨ s.sys.imm = some m) → s.memSnaps m = s.snapshots) ∧
    (∀ a s', s.step true (.engine a) = some s' → newMemTable a = true →
      s'.sys.mem = some s.sys.nextMemTable ∧ s'.memSnaps s.sys.nextMemTable = s.snapshots) ∧
    (∀ seq m, (s.sys.mem = some m ∨ s.sys.imm = some m) →
      (s.getSnapshot true seq).memSnaps m = seq ::ₘ s.memSnaps m ∧
      ∀ s', s.step true (.releaseSnapshot seq) = some s' →
        s'.memSnaps m = (s.memSnaps m).erase seq) := by
  have hi := (SnapSys.Mirrored.init d k).run h
  refine ⟨hi.snaps, fun a s' hs ha => ?_, fun seq m hm => ⟨?_, fun s' hs => ?_⟩⟩
  · obtain ⟨sys', hstep, rfl⟩ := Option.map_eq_some'.mp hs
    rcases step_memtables hstep with ⟨-, -, hm, -⟩ | ⟨ha', -⟩ | ⟨ha', -⟩
    · refine ⟨hm, ?_⟩
      simp only [ha, if_true, update_same, SnapSys.newMemTableSnaps]
    all_goals rw [ha] at ha'; cases ha'
  · simp only [SnapSys.getSnapshot, if_true]
    exact hi.onMem_both _ hm
  · simp only [SnapSys.step, SnapSys.releaseSnapshot, if_true] at hs
    split at hs
    · cases hs; exact hi.onMem_both _ hm
    · cases hs

/-- A memtable swap between a `GetSnapshot` and its `ReleaseSnapshot`, with a second snapshot
taken after the swap. -/
theorem memtables_mirror_snapshots_swap_between :
    let acts : List SnapAction := [.getSnapshot 5, .engine (.enqueue 1 true),
      .engine (.becomeHead 1), .engine (.makeRoomSwap 1), .getSnapshot 7, .releaseSnapshot 5]
    ∃ s, (SnapSys.init false 1).run true acts = some s ∧ s.sys.mem = some 1 ∧
      s.sys.imm = some 0 ∧ s.memSnaps 0 = s.snapshots ∧ s.memSnaps 1 = s.snapshots := by
  intro acts
  have h := memtables_mirror_snapshots false 1 acts _ rfl
  exact ⟨_, rfl, rfl, rfl, h.1 0 (.inr rfl), h.1 1 (.inl rfl)⟩

end Leveldb.Snapshots
