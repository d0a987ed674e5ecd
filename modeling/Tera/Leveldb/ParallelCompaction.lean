import Tera.Leveldb.Compaction
import Mathlib.Data.Finset.Basic

/-!
# Sub-compactions of `DBImpl::ParallelCompaction`

`GenerateSubCompaction` (not under src/) cuts the input of a compaction at internal-key
boundaries. Each sub-compaction runs `HandleCompactionWork` over its range with the same
`smallest_snapshot` and a strategy object of its own from `NewCompactStrategy`; their outputs
are merged into one `CompactionState`, installed by a single `LogAndApply` when every
sub-compaction succeeded, and removed from `pending_outputs_` by `CleanupCompaction` in every
case.
-/
namespace Leveldb

variable {κ σ : Type}

/-- The sub-compactions over `[start, b₀), [b₀, b₁), ..., [bₙ, end)`; the `i`-th one creates its
files through `envs i` and gets a new strategy object. -/
def subCompactions [LinearOrder κ] (envs : Nat → OutputEnv κ) (c : DropContext κ)
    (factory : Option (Nat → CompactStrategy κ σ)) (input : List (Entry κ)) :
    Nat → Option (InternalKey κ) → List (InternalKey κ) → List (CompactionState κ)
  | i, start, [] =>
    [handleCompactionWork (envs i) c (newCompactStrategy factory c.smallestSnapshot) start none
      input]
  | i, start, b :: bs =>
    handleCompactionWork (envs i) c (newCompactStrategy factory c.smallestSnapshot) start (some b)
      input :: subCompactions envs c factory input (i + 1) (some b) bs

/-- `VersionEdit` of a compaction: deleted files as `(level, number)`, added files with their
level. File numbers are the full numbers `BuildFullFileNumber` makes. -/
structure VersionEdit (κ : Type) where
  deletedFiles : List (Nat × Nat)
  newFiles : List (Nat × Output κ)

/-- A `Version`'s table files with their levels. -/
abbrev Version (κ : Type) := List (Nat × Output κ)

/-- `LogAndApply` of an edit that succeeds: deleted files leave, new files join. -/
def Version.apply (v : Version κ) (e : VersionEdit κ) : Version κ :=
  v.filter (fun f => (f.1, f.2.number) ∉ e.deletedFiles) ++ e.newFiles

/-- A compaction: its level and its input files (`inputs_[0]` and `inputs_[1]`). -/
structure Compaction (κ : Type) where
  level : Nat
  inputs : List (Nat × Output κ)

def Compaction.outputLevel (c : Compaction κ) : Nat := c.level + 1

/-- `InstallCompactionResults`' edit: `AddInputDeletions`, then `AddFile` for every output,
skipping those without entries. -/
def installCompactionResults (c : Compaction κ) (outputs : List (Output κ)) : VersionEdit κ :=
  ⟨c.inputs.map (fun f => (f.1, f.2.number)),
    (outputs.filter fun o => !o.entries.isEmpty).map fun o => (c.outputLevel, o)⟩

/-- `CleanupCompaction`: every output number leaves `pending_outputs_`. -/
def cleanupCompaction (st : CompactionState κ) (pending : Finset Nat) : Finset Nat :=
  st.allOutputs.foldl (fun p o => p.erase o.number) pending

theorem foldl_erase_subset (L : List (Output κ)) (P : Finset Nat) :
    L.foldl (fun p o => p.erase o.number) P ⊆ P := by
  induction L generalizing P with
  | nil => exact Finset.Subset.refl _
  | cons o os ih => exact (ih _).trans (Finset.erase_subset _ _)

theorem not_mem_foldl_erase (L : List (Output κ)) (P : Finset Nat) (o : Output κ) (ho : o ∈ L) :
    o.number ∉ L.foldl (fun p o => p.erase o.number) P := by
  induction L generalizing P with
  | nil => simp at ho
  | cons o' os ih =>
    rw [List.foldl_cons]
    rcases List.mem_cons.mp ho with rfl | ho
    · exact fun h => Finset.not_mem_erase _ _ (foldl_erase_subset os _ h)
    · exact ih _ ho

theorem not_mem_cleanupCompaction (st : CompactionState κ) (P : Finset Nat) (o : Output κ)
    (ho : o ∈ st.allOutputs) : o.number ∉ cleanupCompaction st P :=
  not_mem_foldl_erase _ _ o ho

/-- What `ParallelCompaction` leaves behind. -/
structure ParallelResult (κ : Type) where
  ok : Bool
  outputs : List (Output κ)
  version : Version κ
  pendingOutputs : Finset Nat

/-- `DBImpl::ParallelCompaction` of compaction `c` whose merged input is `input`, cut at `bs`.
`OpenCompactionOutputFile` has put every output number into `pending_outputs_`; the merged
status is the first failure of a sub-compaction; `logAndApplyOk` says whether `LogAndApply`
succeeds. -/
def parallelCompaction [LinearOrder κ] (envs : Nat → OutputEnv κ) (dc : DropContext κ)
    (factory : Option (Nat → CompactStrategy κ σ)) (c : Compaction κ) (bs : List (InternalKey κ))
    (input : List (Entry κ)) (logAndApplyOk : Bool) (version : Version κ) (pending : Finset Nat) :
    ParallelResult κ :=
  let shards := subCompactions envs dc factory input 0 none bs
  let compact : CompactionState κ :=
    ⟨KeyState.init, shards.flatMap CompactionState.allOutputs, none, shards.all (·.ok)⟩
  let opened := pending ∪ (compact.outputs.map Output.number).toFinset
  let installed := compact.ok && logAndApplyOk
  ⟨installed, compact.outputs,
    if installed then version.apply (installCompactionResults c compact.outputs) else version,
    cleanupCompaction compact (shards.foldl (fun p st => cleanupCompaction st p) opened)⟩

/-! ## Sub-compactions cut at user-key boundaries -/

/-- The boundaries increase, from the start of the first range on. -/
def Increasing [LinearOrder κ] : Option (InternalKey κ) → List (InternalKey κ) → Prop
  | some a, bs => bs.Chain ikeyLE a
  | none, bs => bs.Chain' ikeyLE

instance [LinearOrder κ] : ∀ (start : Option (InternalKey κ)) (bs : List (InternalKey κ)),
    Decidable (Increasing start bs)
  | some a, bs => inferInstanceAs (Decidable (List.Chain _ a bs))
  | none, bs => inferInstanceAs (Decidable (List.Chain' _ bs))

/-- Boundary `b` puts all entries of each user key of the input on one side. -/
def Aligned [LinearOrder κ] (b : InternalKey κ) (input : List (Entry κ)) : Prop :=
  ∀ x ∈ input, ∀ y ∈ input, x.userKey = y.userKey →
    (ikeyLE b x.toInternalKey ↔ ikeyLE b y.toInternalKey)

instance [LinearOrder κ] (b : InternalKey κ) (input : List (Entry κ)) :
    Decidable (Aligned b input) :=
  inferInstanceAs (Decidable (∀ x ∈ input, ∀ y ∈ input, _))

theorem dropWhile_dropWhile_of_imp {α : Type} (p q : α → Bool) (h : ∀ x, q x = true → p x = true) :
    ∀ l : List α, (l.dropWhile q).dropWhile p = l.dropWhile p
  | [] => rfl
  | x :: l => by
    by_cases hq : q x = true
    · simp [List.dropWhile_cons, hq, h x hq, dropWhile_dropWhile_of_imp p q h l]
    · simp [List.dropWhile_cons, hq]

theorem seekTo_seekTo [LinearOrder κ] {a b : InternalKey κ} (h : ikeyLE a b) (l : List (Entry κ)) :
    seekTo (some b) (seekTo (some a) l) = seekTo (some b) l := by
  simp only [seekTo]
  apply dropWhile_dropWhile_of_imp
  intro x hx
  simp only [Bool.not_eq_true', decide_eq_false_iff_not] at hx ⊢
  exact fun hb => hx (ikeyLE_trans h hb)

variable [LinearOrder κ]

/-- Sub-compactions that all end OK write, together, what one pass keeps from their whole
range, when no boundary splits the entries of a user key. -/
theorem subCompactions_written (envs : Nat → OutputEnv κ) (c : DropContext κ)
    (input : List (Entry κ)) :
    ∀ (i : Nat) (start : Option (InternalKey κ)) (bs : List (InternalKey κ)),
      Increasing start bs → (∀ b ∈ bs, Aligned b input) →
      (∀ st ∈ subCompactions envs c noFactory input i start bs, st.ok = true) →
      (subCompactions envs c noFactory input i start bs).flatMap CompactionState.written =
        keptEntries c KeyState.init (seekTo start input)
  | i, start, [], _, _, hok => by
    have h := hok _ (List.mem_singleton_self _)
    rw [newCompactStrategy_none, handleCompactionWork_slice, takeWhile_not_reachedEnd_none] at h
    simp only [subCompactions, List.flatMap_cons, List.flatMap_nil, List.append_nil]
    rw [newCompactStrategy_none, handleCompactionWork_slice, takeWhile_not_reachedEnd_none,
      handleCompactionWork_written _ _ _ h]
  | i, start, b :: bs, hinc, hal, hok => by
    have hinc' : Increasing (some b) bs := by
      cases start with
      | none => exact hinc
      | some a => exact (List.chain_cons.mp hinc).2
    have hseek : seekTo (some b) input = seekTo (some b) (seekTo start input) := by
      cases start with
      | none => rfl
      | some a => rw [seekTo_seekTo (List.chain_cons.mp hinc).1]
    have ih := subCompactions_written envs c input (i + 1) (some b) bs hinc'
      (fun b' hb' => hal b' (.tail _ hb')) (fun st hst => hok st (.tail _ hst))
    have h0 := hok _ (List.mem_cons_self _ _)
    rw [newCompactStrategy_none, handleCompactionWork_slice] at h0
    simp only [subCompactions, List.flatMap_cons]
    rw [ih, newCompactStrategy_none, handleCompactionWork_slice, handleCompactionWork_written _ _ _ h0,
      hseek]
    generalize hR : seekTo start input = R
    have hsub : R.Sublist input := by
      rw [← hR]; cases start <;> simp only [seekTo]
      · exact List.Sublist.refl _
      · exact List.dropWhile_sublist _
    rw [← keptEntries_append_fresh, seekTo]
    · simp [reachedEnd]
    · intro x hx y hy hxy
      have hxm := List.mem_of_getLast?_eq_some hx
      have hym := List.mem_of_mem_head? hy
      have hxb : ¬ikeyLE b x.toInternalKey := by
        simpa [reachedEnd] using List.mem_takeWhile_imp hxm
      have hyb : ikeyLE b y.toInternalKey := by
        have := List.head?_dropWhile_not (fun e => !decide (ikeyLE b e.toInternalKey)) R
        simp only [seekTo] at hy
        rw [hy] at this
        simpa using this
      exact hxb ((hal b (List.mem_cons_self _ _) x
        (hsub.subset ((List.takeWhile_sublist _).subset hxm)) y
        (hsub.subset ((List.dropWhile_sublist _).subset hym)) hxy).mpr hyb)

/-! ## What `ParallelCompaction` installs -/

theorem subCompactions_filled (envs : Nat → OutputEnv κ) (c : DropContext κ)
    (factory : Option (Nat → CompactStrategy κ σ)) (input : List (Entry κ)) :
    ∀ (i : Nat) (start : Option (InternalKey κ)) (bs : List (InternalKey κ)),
      ∀ st ∈ subCompactions envs c factory input i start bs, st.ok = true → st.Filled
  | i, start, [], st, hst => by
    simp only [subCompactions, List.mem_singleton] at hst
    rw [hst]
    exact handleCompactionWork_filled _ _ _ _ _ _
  | i, start, b :: bs, st, hst => by
    rcases List.mem_cons.mp hst with rfl | hst
    · exact handleCompactionWork_filled _ _ _ _ _ _
    · exact subCompactions_filled envs c factory input (i + 1) (some b) bs st hst

/-- A strategy that drops nothing and merges an entry at or below the snapshot with the entry
after it, as `MergeAtomicOPs` merges a run of atomic operations on one cell. -/
def mergeNext : Nat → CompactStrategy Nat Unit := fun _ =>
  ⟨(), fun s _ _ _ => (false, s), fun s e rest =>
    (rest.head?.map fun x => ({ e with value := e.value ++ x.value }, 1), s)⟩

section Install

variable (envs : Nat → OutputEnv κ) (dc : DropContext κ) (c : Compaction κ)
  (bs : List (InternalKey κ)) (input : List (Entry κ)) (logAndApplyOk : Bool)
  (version : Version κ) (pending : Finset Nat)

theorem parallelCompaction_written (hinc : Increasing none bs) (hal : ∀ b ∈ bs, Aligned b input)
    (hok : ∀ st ∈ subCompactions envs dc noFactory input 0 none bs, st.ok = true) :
    (parallelCompaction envs dc noFactory c bs input logAndApplyOk version pending).outputs.flatMap
      Output.entries = keptEntries dc KeyState.init input := by
  simp only [parallelCompaction, List.flatMap_assoc]
  exact subCompactions_written envs dc input 0 none bs hinc hal hok

/-- When every sub-compaction ends OK, no output is empty, so the edit adds all of them. -/
theorem parallelCompaction_edit (factory : Option (Nat → CompactStrategy κ σ))
    (hok : ∀ st ∈ subCompactions envs dc factory input 0 none bs, st.ok = true) :
    installCompactionResults c (parallelCompaction envs dc factory c bs input logAndApplyOk version
      pending).outputs = ⟨c.inputs.map (fun f => (f.1, f.2.number)),
        (parallelCompaction envs dc factory c bs input logAndApplyOk version pending).outputs.map
          fun o => (c.outputLevel, o)⟩ := by
  simp only [installCompactionResults, VersionEdit.mk.injEq, true_and]
  congr 1
  apply List.filter_eq_self.mpr
  intro o ho
  simp only [parallelCompaction, List.mem_flatMap] at ho
  obtain ⟨st, hst, ho⟩ := ho
  simpa [List.isEmpty_iff] using
    subCompactions_filled envs dc factory input 0 none bs st hst (hok st hst) o ho

theorem parallelCompaction_ordered (hsort : StrictInternalOrder input) (hinc : Increasing none bs)
    (hal : ∀ b ∈ bs, Aligned b input)
    (hok : ∀ st ∈ subCompactions envs dc noFactory input 0 none bs, st.ok = true) :
    (parallelCompaction envs dc noFactory c bs input logAndApplyOk version pending).outputs.Pairwise
      fun o o' => ∀ x ∈ o.entries, ∀ y ∈ o'.entries, ikeyLT x.toInternalKey y.toInternalKey := by
  have h : StrictInternalOrder (keptEntries dc KeyState.init input) :=
    List.Pairwise.sublist (keptEntries_sublist dc KeyState.init input) hsort
  unfold StrictInternalOrder at h
  rw [← parallelCompaction_written envs dc c bs input logAndApplyOk version pending hinc hal hok,
    List.flatMap_def, List.pairwise_flatten, List.pairwise_map] at h
  exact h.2

theorem parallelCompaction_pending (factory : Option (Nat → CompactStrategy κ σ)) (o : Output κ)
    (ho : o ∈ (parallelCompaction envs dc factory c bs input logAndApplyOk version pending).outputs) :
    o.number ∉
      (parallelCompaction envs dc factory c bs input logAndApplyOk version pending).pendingOutputs :=
  not_mem_cleanupCompaction _ _ o (by simpa [CompactionState.allOutputs, parallelCompaction] using ho)

theorem parallelCompaction_failed (factory : Option (Nat → CompactStrategy κ σ))
    (hfail : ∃ st ∈ subCompactions envs dc factory input 0 none bs, st.ok = false) :
    (parallelCompaction envs dc factory c bs input logAndApplyOk version pending).version =
      version := by
  obtain ⟨st, hst, hf⟩ := hfail
  have : (subCompactions envs dc factory input 0 none bs).all (·.ok) = false :=
    List.all_eq_false.mpr ⟨st, hst, by simp [hf]⟩
  simp [parallelCompaction, this]

/-- What `ParallelCompaction` does with the outputs of its sub-compactions, whatever the
strategy. -/
structure InstallsAtomically (factory : Option (Nat → CompactStrategy κ σ)) : Prop where
  /-- When every sub-compaction ends OK, the one edit deletes every input and adds every output,
  in order, and `LogAndApply` installs it. -/
  edit : (∀ st ∈ subCompactions envs dc factory input 0 none bs, st.ok = true) →
    installCompactionResults c (parallelCompaction envs dc factory c bs input logAndApplyOk version
      pending).outputs = ⟨c.inputs.map (fun f => (f.1, f.2.number)),
        (parallelCompaction envs dc factory c bs input logAndApplyOk version pending).outputs.map
          fun o => (c.outputLevel, o)⟩ ∧
    (parallelCompaction envs dc factory c bs input logAndApplyOk version pending).version =
      if logAndApplyOk then version.apply (installCompactionResults c
        (parallelCompaction envs dc factory c bs input logAndApplyOk version pending).outputs)
      else version
  failed : (∃ st ∈ subCompactions envs dc factory input 0 none bs, st.ok = false) →
    (parallelCompaction envs dc factory c bs input logAndApplyOk version pending).version = version
  pending : ∀ o ∈ (parallelCompaction envs dc factory c bs input logAndApplyOk version
      pending).outputs,
    o.number ∉
      (parallelCompaction envs dc factory c bs input logAndApplyOk version pending).pendingOutputs

/-- What the sub-compactions of one compaction with no strategy promise against a single pass
over its input. -/
structure MatchesSinglePass : Prop where
  /-- When every sub-compaction ends OK, the outputs hold what the drop rules keep from the
  whole input: what a single pass writes whenever it ends OK. -/
  written : (∀ st ∈ subCompactions envs dc noFactory input 0 none bs, st.ok = true) →
    (parallelCompaction envs dc noFactory c bs input logAndApplyOk version pending).outputs.flatMap
      Output.entries = keptEntries dc KeyState.init input ∧
    ∀ env, (handleCompactionWork env dc noStrategy none none input).ok = true →
      (handleCompactionWork env dc noStrategy none none input).written =
        (parallelCompaction envs dc noFactory c bs input logAndApplyOk version pending).outputs.flatMap
          Output.entries
  /-- The outputs' internal-key ranges strictly increase and do not overlap. -/
  ordered : (∀ st ∈ subCompactions envs dc noFactory input 0 none bs, st.ok = true) →
    (parallelCompaction envs dc noFactory c bs input logAndApplyOk version pending).outputs.Pairwise
      fun o o' => ∀ x ∈ o.entries, ∀ y ∈ o'.entries, ikeyLT x.toInternalKey y.toInternalKey

end Install

end Leveldb
