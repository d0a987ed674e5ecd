import Tera.Leveldb.Format

/-!
# The compaction loop of `DBImpl::HandleCompactionWork`

One pass walks its input in internal-key order from `sub_compact_start_` up to
`sub_compact_end_`, decides for each entry whether it is dropped, and adds every kept entry to
the current output table, opening and finishing output files on the way. A compaction strategy,
when one is configured, has the last word on dropping an entry at or below `smallest_snapshot`,
and may merge such an entry with the entries after it (`MergeAtomicOPs`), moving the input on
itself. The table-file side (`ShouldStopBefore`, the size limit, the numbers `NewFileNumber` hands
out and whether file operations succeed) and the strategy's class are not under src/ and are
parameters, so every result below holds for whatever they do. Every input key parses, and the
pass is not shut down and reads no corrupt block.
-/
namespace Leveldb

variable {κ σ : Type}

/-- `has_current_user_key`, `current_user_key` and `last_sequence_for_key`. -/
structure KeyState (κ : Type) where
  currentUserKey : Option κ
  lastSequenceForKey : Nat
  deriving DecidableEq, Repr

def KeyState.init : KeyState κ := ⟨none, kMaxSequenceNumber⟩

/-- What the drop rules read: `smallest_snapshot`, `rollbacks_`,
`drop_base_level_del_in_compaction`, `Compaction::IsBaseLevelForKey` and
`Compaction::drop_lower_bound`. -/
structure DropContext (κ : Type) where
  smallestSnapshot : Nat
  rollbacks : Rollbacks
  dropBaseLevelDel : Bool
  isBaseLevelForKey : κ → Bool
  dropLowerBound : String

/-- A `CompactStrategy` object: its state and what its methods do with it. `drop` is
`Drop(user_key, sequence, lower_bound)`. `mergeAtomicOPs s e rest` is
`MergeAtomicOPs(input, &merged_value, &merged_key)` with the input at `e`, followed by `rest`:
`some (m, n)` when it merged into the entry `m`, having moved the input past `e` and `n` more
entries. `CheckTag` only counts deletions and TTLs for a table file's metadata, which the model
leaves out. -/
structure CompactStrategy (κ σ : Type) where
  state : σ
  drop : σ → κ → Nat → String → Bool × σ
  mergeAtomicOPs : σ → Entry κ → List (Entry κ) → Option (Entry κ × Nat) × σ

/-- `NewCompactStrategy`: a new object of `compact_strategy_factory` after
`SetSnapshot(smallest_snapshot)`, or NULL when no factory is configured. -/
def newCompactStrategy (factory : Option (Nat → CompactStrategy κ σ)) (smallestSnapshot : Nat) :
    Option (CompactStrategy κ σ) :=
  factory.map (· smallestSnapshot)

/-- The drop rules the loop tries before the strategy: a rollback window; rule (A), hidden by a
newer entry of the same key at or below `smallest_snapshot`; an obsolete base-level deletion. -/
def dropRules (c : DropContext κ) (lastSequenceForKey : Nat) (e : Entry κ) : Bool :=
  if rollbackDrop e.sequence c.rollbacks then true
  else if lastSequenceForKey ≤ c.smallestSnapshot ∧ lastSequenceForKey ≠ kMaxSequenceNumber then
    true
  else decide (e.type = .deletion) && decide (e.sequence ≤ c.smallestSnapshot) &&
    c.dropBaseLevelDel && c.isBaseLevelForKey e.userKey

/-- The loop's decision: the rules, then, for an entry at or below `smallest_snapshot`, the
strategy's `Drop`, given `drop_lower_bound()` when `drop_base_level_del_in_compaction` is set. -/
def shouldDrop (c : DropContext κ) (strategy : Option (CompactStrategy κ σ))
    (lastSequenceForKey : Nat) (e : Entry κ) : Bool × Option (CompactStrategy κ σ) :=
  if dropRules c lastSequenceForKey e then (true, strategy)
  else match strategy with
    | some cs =>
      if e.sequence ≤ c.smallestSnapshot then
        let r := cs.drop cs.state e.userKey e.sequence
          (if c.dropBaseLevelDel then c.dropLowerBound else "")
        (r.1, some { cs with state := r.2 })
      else (false, some cs)
    | none => (false, none)

/-- `if (compact_strategy && ikey.sequence <= smallest_snapshot) MergeAtomicOPs(...)`. -/
def mergeAtomicOPs (c : DropContext κ) (strategy : Option (CompactStrategy κ σ)) (e : Entry κ)
    (rest : List (Entry κ)) : Option (Entry κ × Nat) × Option (CompactStrategy κ σ) :=
  match strategy with
  | some cs =>
    if e.sequence ≤ c.smallestSnapshot then
      let r := cs.mergeAtomicOPs cs.state e rest
      (r.1, some { cs with state := r.2 })
    else (none, some cs)
  | none => (none, none)

/-- `last_sequence_for_key` as the rules read it: the first entry of a user key resets it. -/
def lastSequenceFor [DecidableEq κ] (st : KeyState κ) (e : Entry κ) : Nat :=
  if st.currentUserKey = some e.userKey then st.lastSequenceForKey else kMaxSequenceNumber

/-- One entry through the per-key state with no strategy; whatever the rules decide, the entry's
sequence becomes the new `last_sequence_for_key`. -/
def dropStep [DecidableEq κ] (c : DropContext κ) (st : KeyState κ) (e : Entry κ) :
    Bool × KeyState κ :=
  (dropRules c (lastSequenceFor st e) e, ⟨some e.userKey, e.sequence⟩)

@[simp] theorem shouldDrop_none [DecidableEq κ] (c : DropContext κ) (st : KeyState κ)
    (e : Entry κ) :
    shouldDrop c (none : Option (CompactStrategy κ σ)) (lastSequenceFor st e) e =
      ((dropStep c st e).1, none) := by
  unfold shouldDrop; split <;> simp_all [dropStep]

@[simp] theorem mergeAtomicOPs_none (c : DropContext κ) (e : Entry κ) (rest : List (Entry κ)) :
    mergeAtomicOPs c (none : Option (CompactStrategy κ σ)) e rest = (none, none) := rfl

/-- `CompactionState::Output`: the file number and the entries added to its table builder. -/
structure Output (κ : Type) where
  number : Nat
  entries : List (Entry κ)
  deriving DecidableEq, Repr

/-- The table-file side of a pass, none of it under src/: `Compaction::ShouldStopBefore`,
`builder->FileSize() >= MaxOutputFileSize()` on the entries added so far, the number
`NewFileNumber` gives the `n`-th output, and whether creating and finishing it succeed. -/
structure OutputEnv (κ : Type) where
  shouldStopBefore : Entry κ → Bool
  full : List (Entry κ) → Bool
  fileNumber : Nat → Nat
  openOk : Nat → Bool
  finishOk : Nat → Bool

/-- `CompactionState`: per-key state, the outputs (`current` is the one whose builder is
open, not yet in `outputs`) and whether `status` is still OK. -/
structure CompactionState (κ : Type) where
  key : KeyState κ
  outputs : List (Output κ)
  current : Option (Output κ)
  ok : Bool
  deriving DecidableEq, Repr

def CompactionState.init : CompactionState κ := ⟨KeyState.init, [], none, true⟩

/-- Every output the pass opened, the one still open last: `compact->outputs`. -/
def CompactionState.allOutputs (st : CompactionState κ) : List (Output κ) :=
  st.outputs ++ st.current.toList

def CompactionState.written (st : CompactionState κ) : List (Entry κ) :=
  st.allOutputs.flatMap Output.entries

/-- `OpenCompactionOutputFile`: the new number is pushed to `outputs` before the file is
created, so a failed creation leaves it there with no builder. -/
def openCompactionOutputFile (env : OutputEnv κ) (st : CompactionState κ) :
    CompactionState κ :=
  let n := st.outputs.length
  let out : Output κ := ⟨env.fileNumber n, []⟩
  if env.openOk n then { st with current := some out }
  else { st with outputs := st.outputs ++ [out], ok := false }

/-- `FinishCompactionOutputFile`: the builder is closed whether or not finishing succeeds. -/
def finishCompactionOutputFile (env : OutputEnv κ) (st : CompactionState κ) :
    CompactionState κ :=
  match st.current with
  | some out =>
    { st with outputs := st.outputs ++ [out], current := none,
              ok := env.finishOk st.outputs.length }
  | none => st

/-- `compact->builder->Add(key, value)`. -/
def addToBuilder (st : CompactionState κ) (e : Entry κ) : CompactionState κ :=
  { st with current := st.current.map fun out => { out with entries := out.entries ++ [e] } }

/-- `Compare(input->key(), end_key) >= 0` with a non-empty `sub_compact_end_`. -/
def reachedEnd [LinearOrder κ] (endKey : Option (InternalKey κ)) (e : Entry κ) : Bool :=
  match endKey with
  | some b => decide (ikeyLE b e.toInternalKey)
  | none => false

/-- `if (ShouldStopBefore(key) && builder != NULL) FinishCompactionOutputFile(...)`. -/
def stopBefore (env : OutputEnv κ) (e : Entry κ) (st : CompactionState κ) : CompactionState κ :=
  if env.shouldStopBefore e && st.current.isSome then finishCompactionOutputFile env st else st

/-- `if (builder == NULL) OpenCompactionOutputFile(compact)`. -/
def ensureBuilder (env : OutputEnv κ) (st : CompactionState κ) : CompactionState κ :=
  if st.current.isSome then st else openCompactionOutputFile env st

/-- `if (builder->FileSize() >= MaxOutputFileSize()) FinishCompactionOutputFile(...)`. -/
def finishIfFull (env : OutputEnv κ) (st : CompactionState κ) : CompactionState κ :=
  if env.full ((st.current.map Output.entries).getD []) then finishCompactionOutputFile env st
  else st

/-- The body of the `for` loop, entry by entry; a failed file operation breaks out. A merge adds
the merged entry in place of `e`, and the loop goes on where `MergeAtomicOPs` left the input. -/
def compactionLoop [LinearOrder κ] (env : OutputEnv κ) (c : DropContext κ)
    (endKey : Option (InternalKey κ)) :
    CompactionState κ → Option (CompactStrategy κ σ) → List (Entry κ) → CompactionState κ
  | st, _, [] => st
  | st, strategy, e :: rest =>
    if reachedEnd endKey e then st else
    let st₁ := stopBefore env e st
    if !st₁.ok then st₁ else
    let d := shouldDrop c strategy (lastSequenceFor st₁.key e) e
    let key : KeyState κ := ⟨some e.userKey, e.sequence⟩
    if d.1 then compactionLoop env c endKey { st₁ with key := key } d.2 rest else
    let st₂ := ensureBuilder env { st₁ with key := key }
    if !st₂.ok then st₂ else
    let m := mergeAtomicOPs c d.2 e rest
    let st₃ := finishIfFull env (addToBuilder st₂ ((m.1.map Prod.fst).getD e))
    if !st₃.ok then st₃ else
    compactionLoop env c endKey st₃ m.2 (rest.drop ((m.1.map Prod.snd).getD 0))
termination_by _ _ l => l.length
decreasing_by all_goals simp_wf <;> omega

/-- `input->Seek(sub_compact_start_)`, or `SeekToFirst` when the start is empty. -/
def seekTo [LinearOrder κ] (start : Option (InternalKey κ)) (input : List (Entry κ)) :
    List (Entry κ) :=
  match start with
  | some b => input.dropWhile fun e => !decide (ikeyLE b e.toInternalKey)
  | none => input

/-- `DBImpl::HandleCompactionWork(compact, compact_strategy)` over the merged input of the
compaction. -/
def handleCompactionWork [LinearOrder κ] (env : OutputEnv κ) (c : DropContext κ)
    (strategy : Option (CompactStrategy κ σ)) (start endKey : Option (InternalKey κ))
    (input : List (Entry κ)) : CompactionState κ :=
  let st := compactionLoop env c endKey CompactionState.init strategy (seekTo start input)
  if st.ok && st.current.isSome then finishCompactionOutputFile env st else st

/-- NULL `compact_strategy`: no `compact_strategy_factory` is configured. -/
abbrev noStrategy : Option (CompactStrategy κ Unit) := none

/-- No `compact_strategy_factory` is configured. -/
abbrev noFactory : Option (Nat → CompactStrategy κ Unit) := none

@[simp] theorem newCompactStrategy_none (s : Nat) :
    newCompactStrategy (none : Option (Nat → CompactStrategy κ σ)) s = none := rfl

@[simp] theorem compactionLoop_nil [LinearOrder κ] (env : OutputEnv κ) (c : DropContext κ)
    (endKey : Option (InternalKey κ)) (st : CompactionState κ)
    (strategy : Option (CompactStrategy κ σ)) : compactionLoop env c endKey st strategy [] = st := by
  rw [compactionLoop]

/-- With no strategy the loop drops by the rules alone and adds each kept entry as it is. -/
theorem compactionLoop_cons_noStrategy [LinearOrder κ] (env : OutputEnv κ) (c : DropContext κ)
    (endKey : Option (InternalKey κ)) (st : CompactionState κ) (e : Entry κ)
    (rest : List (Entry κ)) :
    compactionLoop env c endKey st noStrategy (e :: rest) =
      if reachedEnd endKey e then st else
      let st₁ := stopBefore env e st
      if !st₁.ok then st₁ else
      let r := dropStep c st₁.key e
      if r.1 then compactionLoop env c endKey { st₁ with key := r.2 } noStrategy rest else
      let st₂ := ensureBuilder env { st₁ with key := r.2 }
      if !st₂.ok then st₂ else
      let st₃ := finishIfFull env (addToBuilder st₂ e)
      if !st₃.ok then st₃ else compactionLoop env c endKey st₃ noStrategy rest := by
  rw [compactionLoop]
  simp only [shouldDrop_none, mergeAtomicOPs_none, Option.map_none', Option.getD_none,
    List.drop_zero]
  rfl

/-! ## What a pass writes -/

/-- The entries the drop rules keep, in order, starting from key state `st`. -/
def keptEntries [DecidableEq κ] (c : DropContext κ) : KeyState κ → List (Entry κ) → List (Entry κ)
  | _, [] => []
  | st, e :: rest =>
    if (dropStep c st e).1 then keptEntries c (dropStep c st e).2 rest
    else e :: keptEntries c (dropStep c st e).2 rest

theorem keptEntries_sublist [DecidableEq κ] (c : DropContext κ) :
    ∀ (st : KeyState κ) (input : List (Entry κ)), (keptEntries c st input).Sublist input
  | _, [] => List.Sublist.slnil
  | st, e :: rest => by
    unfold keptEntries
    split
    · exact (keptEntries_sublist c _ rest).cons e
    · exact (keptEntries_sublist c _ rest).cons₂ e

@[simp] theorem dropStep_snd [DecidableEq κ] (c : DropContext κ) (st : KeyState κ) (e : Entry κ) :
    (dropStep c st e).2 = ⟨some e.userKey, e.sequence⟩ := rfl

theorem keptEntries_cons [DecidableEq κ] (c : DropContext κ) (st : KeyState κ) (e : Entry κ)
    (rest : List (Entry κ)) :
    keptEntries c st (e :: rest) =
      (if (dropStep c st e).1 then [] else [e]) ++ keptEntries c ⟨some e.userKey, e.sequence⟩ rest := by
  simp only [keptEntries, dropStep_snd]
  split <;> rfl

@[simp] theorem written_finish (env : OutputEnv κ) (st : CompactionState κ) :
    (finishCompactionOutputFile env st).written = st.written := by
  unfold finishCompactionOutputFile
  split <;> simp_all [CompactionState.written, CompactionState.allOutputs]

@[simp] theorem key_finish (env : OutputEnv κ) (st : CompactionState κ) :
    (finishCompactionOutputFile env st).key = st.key := by
  unfold finishCompactionOutputFile; split <;> rfl

theorem ok_finish (env : OutputEnv κ) (st : CompactionState κ)
    (h : (finishCompactionOutputFile env st).ok = true) (hst : st.current = none) :
    st.ok = true := by
  simpa [finishCompactionOutputFile, hst] using h

theorem open_of_openOk (env : OutputEnv κ) (st : CompactionState κ)
    (h : env.openOk st.outputs.length = true) :
    openCompactionOutputFile env st =
      { st with current := some ⟨env.fileNumber st.outputs.length, []⟩ } := by
  simp [openCompactionOutputFile, h]

theorem open_of_not_openOk (env : OutputEnv κ) (st : CompactionState κ)
    (h : env.openOk st.outputs.length = false) :
    openCompactionOutputFile env st =
      { st with outputs := st.outputs ++ [⟨env.fileNumber st.outputs.length, []⟩],
                ok := false } := by
  simp [openCompactionOutputFile, h]

@[simp] theorem key_open (env : OutputEnv κ) (st : CompactionState κ) :
    (openCompactionOutputFile env st).key = st.key := by
  cases h : env.openOk st.outputs.length
  · rw [open_of_not_openOk env st h]
  · rw [open_of_openOk env st h]

theorem written_open (env : OutputEnv κ) (st : CompactionState κ) (h : st.current = none) :
    (openCompactionOutputFile env st).written = st.written := by
  cases ho : env.openOk st.outputs.length
  · simp [open_of_not_openOk env st ho, CompactionState.written, CompactionState.allOutputs, h]
  · simp [open_of_openOk env st ho, CompactionState.written, CompactionState.allOutputs, h]

theorem open_current (env : OutputEnv κ) (st : CompactionState κ)
    (h : (openCompactionOutputFile env st).ok = true) :
    (openCompactionOutputFile env st).current.isSome = true := by
  cases ho : env.openOk st.outputs.length
  · simp [open_of_not_openOk env st ho] at h
  · simp [open_of_openOk env st ho]

theorem written_add (st : CompactionState κ) (e : Entry κ) (h : st.current.isSome = true) :
    (addToBuilder st e).written = st.written ++ [e] := by
  obtain ⟨out, hout⟩ := Option.isSome_iff_exists.mp h
  simp [addToBuilder, CompactionState.written, CompactionState.allOutputs, hout]

@[simp] theorem written_eta (st : CompactionState κ) (k : KeyState κ) (b : Bool) :
    (CompactionState.mk k st.outputs st.current b).written = st.written := rfl

@[simp] theorem written_stopBefore (env : OutputEnv κ) (e : Entry κ) (st : CompactionState κ) :
    (stopBefore env e st).written = st.written := by
  unfold stopBefore; split <;> simp

@[simp] theorem key_stopBefore (env : OutputEnv κ) (e : Entry κ) (st : CompactionState κ) :
    (stopBefore env e st).key = st.key := by
  unfold stopBefore; split <;> simp

@[simp] theorem written_ensureBuilder (env : OutputEnv κ) (st : CompactionState κ) :
    (ensureBuilder env st).written = st.written := by
  unfold ensureBuilder
  split
  · rfl
  · next h => exact written_open env st (by simpa using h)

@[simp] theorem key_ensureBuilder (env : OutputEnv κ) (st : CompactionState κ) :
    (ensureBuilder env st).key = st.key := by
  unfold ensureBuilder; split <;> simp

theorem ensureBuilder_current (env : OutputEnv κ) (st : CompactionState κ)
    (h : (ensureBuilder env st).ok = true) : (ensureBuilder env st).current.isSome = true := by
  unfold ensureBuilder at h ⊢
  split
  · assumption
  · rw [if_neg ‹_›] at h; exact open_current env st h

@[simp] theorem written_finishIfFull (env : OutputEnv κ) (st : CompactionState κ) :
    (finishIfFull env st).written = st.written := by
  unfold finishIfFull; split <;> simp

@[simp] theorem key_finishIfFull (env : OutputEnv κ) (st : CompactionState κ) :
    (finishIfFull env st).key = st.key := by
  unfold finishIfFull; split <;> simp

@[simp] theorem key_add (st : CompactionState κ) (e : Entry κ) :
    (addToBuilder st e).key = st.key := rfl

@[simp] theorem reachedEnd_none [LinearOrder κ] (e : Entry κ) : reachedEnd none e = false := rfl

/-- Every output holds an entry: `InstallCompactionResults` then skips none of them. -/
def CompactionState.Filled (st : CompactionState κ) : Prop :=
  ∀ o ∈ st.allOutputs, o.entries ≠ []

@[simp] theorem allOutputs_finish (env : OutputEnv κ) (st : CompactionState κ) :
    (finishCompactionOutputFile env st).allOutputs = st.allOutputs := by
  unfold finishCompactionOutputFile
  split <;> simp_all [CompactionState.allOutputs]

@[simp] theorem allOutputs_stopBefore (env : OutputEnv κ) (e : Entry κ) (st : CompactionState κ) :
    (stopBefore env e st).allOutputs = st.allOutputs := by
  unfold stopBefore; split <;> simp

@[simp] theorem allOutputs_finishIfFull (env : OutputEnv κ) (st : CompactionState κ) :
    (finishIfFull env st).allOutputs = st.allOutputs := by
  unfold finishIfFull; split <;> simp

@[simp] theorem allOutputs_eta (st : CompactionState κ) (k : KeyState κ) (b : Bool) :
    (CompactionState.mk k st.outputs st.current b).allOutputs = st.allOutputs := rfl

theorem filled_add_ensure (env : OutputEnv κ) (st : CompactionState κ) (e : Entry κ)
    (hf : st.Filled) (hok : (ensureBuilder env st).ok = true) :
    (addToBuilder (ensureBuilder env st) e).Filled := by
  unfold ensureBuilder at hok ⊢
  cases hc : st.current with
  | some out =>
    intro o ho
    simp only [hc, Option.isSome_some, ↓reduceIte, addToBuilder, CompactionState.allOutputs,
      Option.map_some', Option.toList_some, List.mem_append, List.mem_singleton] at ho
    rcases ho with ho | rfl
    · exact hf o (by simp [CompactionState.allOutputs, ho])
    · simp
  | none =>
    simp only [hc, Option.isSome_none, Bool.false_eq_true, ↓reduceIte] at hok ⊢
    cases ho : env.openOk st.outputs.length
    · simp [open_of_not_openOk env st ho] at hok
    · intro o hmem
      simp only [open_of_openOk env st ho, addToBuilder, CompactionState.allOutputs,
        Option.map_some', Option.toList_some, List.mem_append, List.mem_singleton] at hmem
      rcases hmem with hmem | rfl
      · exact hf o (by simp [CompactionState.allOutputs, hmem])
      · simp

/-- Whatever the strategy does, a pass that ends with OK status leaves an entry in every output
it opened. -/
theorem compactionLoop_filled [LinearOrder κ] (env : OutputEnv κ) (c : DropContext κ)
    (endKey : Option (InternalKey κ)) :
    ∀ (st : CompactionState κ) (strategy : Option (CompactStrategy κ σ)) (input : List (Entry κ)),
      st.Filled → (compactionLoop env c endKey st strategy input).ok = true →
      (compactionLoop env c endKey st strategy input).Filled
  | st, _, [], hf, _ => by simpa using hf
  | st, strategy, e :: rest, hf, hok => by
    rw [compactionLoop] at hok ⊢
    dsimp only at hok ⊢
    by_cases hend : reachedEnd endKey e = true
    · simpa [hend] using hf
    have h₁ : (stopBefore env e st).ok = true := by
      by_contra h
      simp [hend, h] at hok
    have hf₁ : ∀ k b, (CompactionState.mk k (stopBefore env e st).outputs
        (stopBefore env e st).current b).Filled :=
      fun _ _ o ho => hf o (allOutputs_stopBefore env e st ▸ ho)
    simp only [hend, h₁, Bool.not_true, Bool.false_eq_true, ↓reduceIte] at hok ⊢
    split at hok
    · rw [if_pos ‹_›]
      exact compactionLoop_filled env c endKey _ _ rest (hf₁ _ _) hok
    rw [if_neg ‹_›]
    split at hok
    · simp_all
    rename_i h₂
    rw [if_neg h₂]
    split at hok
    · simp_all
    rw [if_neg ‹_›]
    refine compactionLoop_filled env c endKey _ _ _ ?_ hok
    intro o ho
    rw [allOutputs_finishIfFull] at ho
    exact filled_add_ensure env _ _ (hf₁ _ _) (by simpa using h₂) o ho
termination_by _ _ l => l.length
decreasing_by all_goals simp_wf <;> omega

/-- `InstallCompactionResults` skips no output of a pass that ended with OK status. -/
theorem handleCompactionWork_filled [LinearOrder κ] (env : OutputEnv κ) (c : DropContext κ)
    (strategy : Option (CompactStrategy κ σ)) (start endKey : Option (InternalKey κ))
    (input : List (Entry κ))
    (hok : (handleCompactionWork env c strategy start endKey input).ok = true) :
    (handleCompactionWork env c strategy start endKey input).Filled := by
  have hinit : (CompactionState.init : CompactionState κ).Filled := by
    simp [CompactionState.Filled, CompactionState.allOutputs, CompactionState.init]
  simp only [handleCompactionWork] at hok ⊢
  split at hok
  · rename_i h
    rw [if_pos h]
    intro o ho
    rw [allOutputs_finish] at ho
    exact compactionLoop_filled env c endKey _ _ _ hinit (Bool.and_eq_true _ _ |>.mp h).1 o ho
  · rw [if_neg ‹_›]
    exact compactionLoop_filled env c endKey _ _ _ hinit hok

/-- A pass with no strategy and no end key that ends with OK status has written exactly the
entries the drop rules keep. -/
theorem compactionLoop_written [LinearOrder κ] (env : OutputEnv κ) (c : DropContext κ) :
    ∀ (st : CompactionState κ) (input : List (Entry κ)),
      (compactionLoop env c none st noStrategy input).ok = true →
      (compactionLoop env c none st noStrategy input).written =
        st.written ++ keptEntries c st.key input
  | st, [], _ => by simp [keptEntries]
  | st, e :: rest, hok => by
    simp only [compactionLoop_cons_noStrategy, reachedEnd_none, Bool.false_eq_true,
      ↓reduceIte] at hok ⊢
    have h₁ : (stopBefore env e st).ok = true := by
      by_contra h
      simp [h] at hok
    simp only [h₁, Bool.not_true, Bool.false_eq_true, ↓reduceIte, key_stopBefore] at hok ⊢
    by_cases hd : (dropStep c st.key e).1 = true
    · simp only [hd, ↓reduceIte] at hok ⊢
      rw [compactionLoop_written env c _ rest hok]
      simp [keptEntries, hd]
    simp only [hd, Bool.false_eq_true, ↓reduceIte] at hok ⊢
    generalize hB : ensureBuilder env ⟨(dropStep c st.key e).2, (stopBefore env e st).outputs,
      (stopBefore env e st).current, true⟩ = st₂ at hok ⊢
    have h₂ : st₂.ok = true := by
      by_contra h
      simp [h] at hok
    have hcur : st₂.current.isSome = true := hB ▸ ensureBuilder_current env _ (hB ▸ h₂)
    simp only [h₂, Bool.not_true, Bool.false_eq_true, ↓reduceIte] at hok ⊢
    generalize hF : finishIfFull env (addToBuilder st₂ e) = st₃ at hok ⊢
    have h₃ : st₃.ok = true := by
      by_contra h
      simp [h] at hok
    have hw₃ : st₃.written = st.written ++ [e] := by
      rw [← hF, written_finishIfFull, written_add st₂ e hcur, ← hB]
      simp
    have hk₃ : st₃.key = (dropStep c st.key e).2 := by
      rw [← hF, ← hB]
      simp
    simp only [h₃, Bool.not_true, Bool.false_eq_true, ↓reduceIte] at hok ⊢
    rw [compactionLoop_written env c st₃ rest hok, hw₃, hk₃]
    simp [keptEntries, hd]

/-- A pass with no strategy over the whole input that ends with OK status has written exactly
the entries the drop rules keep, however the outputs were split into files. -/
theorem handleCompactionWork_written [LinearOrder κ] (env : OutputEnv κ) (c : DropContext κ)
    (input : List (Entry κ))
    (hok : (handleCompactionWork env c noStrategy none none input).ok = true) :
    (handleCompactionWork env c noStrategy none none input).written =
      keptEntries c KeyState.init input := by
  simp only [handleCompactionWork, seekTo] at hok ⊢
  split at hok
  · rename_i h
    rw [if_pos h, written_finish,
      compactionLoop_written env c _ input (Bool.and_eq_true _ _ |>.mp h).1]
    rfl
  · rw [if_neg ‹_›, compactionLoop_written env c _ input hok]
    rfl

theorem compactionLoop_of_kept_nil [LinearOrder κ] (env : OutputEnv κ) (c : DropContext κ) :
    ∀ (st : CompactionState κ) (input : List (Entry κ)), st.current = none → st.ok = true →
      keptEntries c st.key input = [] →
      (compactionLoop env c none st noStrategy input).outputs = st.outputs ∧
        (compactionLoop env c none st noStrategy input).current = none ∧
        (compactionLoop env c none st noStrategy input).ok = true
  | st, [], hc, hok, _ => by simpa using ⟨hc, hok⟩
  | st, e :: rest, hc, hok, h => by
    have hdrop : (dropStep c st.key e).1 = true := by
      by_contra hn
      simp [keptEntries, hn] at h
    have hrest : keptEntries c ⟨some e.userKey, e.sequence⟩ rest = [] := by
      simpa [keptEntries, hdrop] using h
    have hstop : stopBefore env e st = st := by simp [stopBefore, hc]
    simp only [compactionLoop_cons_noStrategy, reachedEnd_none, hstop, hok, hdrop, Bool.false_eq_true,
      Bool.not_true, ↓reduceIte]
    exact compactionLoop_of_kept_nil env c _ rest hc rfl hrest

theorem handleCompactionWork_of_kept_nil [LinearOrder κ] (env : OutputEnv κ) (c : DropContext κ)
    (input : List (Entry κ)) (h : keptEntries c KeyState.init input = []) :
    (handleCompactionWork env c noStrategy none none input).allOutputs = [] ∧
      (handleCompactionWork env c noStrategy none none input).ok = true := by
  obtain ⟨ho, hc, hok⟩ := compactionLoop_of_kept_nil env c CompactionState.init input rfl rfl h
  simp only [handleCompactionWork, seekTo, hc, hok, Option.isSome_none, Bool.and_false,
    Bool.false_eq_true, ↓reduceIte, CompactionState.allOutputs, ho, Option.toList, and_true]
  rfl

theorem compactionLoop_endKey [LinearOrder κ] (env : OutputEnv κ) (c : DropContext κ)
    (b : InternalKey κ) : ∀ (st : CompactionState κ) (l : List (Entry κ)),
      compactionLoop env c (some b) st noStrategy l =
        compactionLoop env c none st noStrategy (l.takeWhile fun e => !reachedEnd (some b) e)
  | st, [] => by simp
  | st, e :: rest => by
    have ih := fun st => compactionLoop_endKey env c b st rest
    by_cases h : reachedEnd (some b) e = true
    · simp [compactionLoop_cons_noStrategy, h]
    · simp only [Bool.not_eq_true] at h
      simp only [compactionLoop_cons_noStrategy, List.takeWhile_cons, h, Bool.not_false, reachedEnd_none,
        Bool.false_eq_true, ↓reduceIte, ih]

@[simp] theorem takeWhile_not_reachedEnd_none [LinearOrder κ] (l : List (Entry κ)) :
    l.takeWhile (fun e => !reachedEnd none e) = l := by
  induction l <;> simp_all [List.takeWhile_cons]

theorem handleCompactionWork_slice [LinearOrder κ] (env : OutputEnv κ) (c : DropContext κ)
    (start endKey : Option (InternalKey κ)) (input : List (Entry κ)) :
    handleCompactionWork env c noStrategy start endKey input = handleCompactionWork env c noStrategy none none
      ((seekTo start input).takeWhile fun e => !reachedEnd endKey e) := by
  cases endKey with
  | none => simp only [handleCompactionWork, takeWhile_not_reachedEnd_none, seekTo]
  | some b => simp only [handleCompactionWork, compactionLoop_endKey, seekTo]

def keyAfter (st : KeyState κ) (l : List (Entry κ)) : KeyState κ :=
  (l.getLast?.map fun e => ⟨some e.userKey, e.sequence⟩).getD st

theorem keyAfter_cons (st : KeyState κ) (e : Entry κ) (l : List (Entry κ)) :
    keyAfter st (e :: l) = keyAfter ⟨some e.userKey, e.sequence⟩ l := by
  cases l with
  | nil => rfl
  | cons x l =>
    simp only [keyAfter, List.getLast?_cons_cons, List.getLast?_eq_getLast (x :: l) (by simp),
      Option.map_some', Option.getD_some]

theorem keptEntries_append [DecidableEq κ] (c : DropContext κ) :
    ∀ (st : KeyState κ) (l₁ l₂ : List (Entry κ)),
      keptEntries c st (l₁ ++ l₂) = keptEntries c st l₁ ++ keptEntries c (keyAfter st l₁) l₂
  | st, [], l₂ => rfl
  | st, e :: l₁, l₂ => by
    rw [List.cons_append, keptEntries_cons, keptEntries_cons, keyAfter_cons,
      keptEntries_append c _ l₁ l₂, List.append_assoc]

theorem keptEntries_fresh [DecidableEq κ] (c : DropContext κ) (st : KeyState κ) (e : Entry κ)
    (rest : List (Entry κ)) (h : st.currentUserKey ≠ some e.userKey) :
    keptEntries c st (e :: rest) = keptEntries c KeyState.init (e :: rest) := by
  have : dropStep c st e = dropStep c KeyState.init e := by
    simp [dropStep, lastSequenceFor, h, KeyState.init]
  simp only [keptEntries, this]

theorem keptEntries_append_fresh [DecidableEq κ] (c : DropContext κ) (l₁ l₂ : List (Entry κ))
    (h : ∀ x ∈ l₁.getLast?, ∀ y ∈ l₂.head?, x.userKey ≠ y.userKey) :
    keptEntries c KeyState.init (l₁ ++ l₂) =
      keptEntries c KeyState.init l₁ ++ keptEntries c KeyState.init l₂ := by
  rw [keptEntries_append]
  congr 1
  cases l₂ with
  | nil => rfl
  | cons y l₂ =>
    apply keptEntries_fresh
    cases hl : l₁.getLast? with
    | none => simp [keyAfter, hl, KeyState.init]
    | some x => simpa [keyAfter, hl] using h x hl y rfl

/-! ## Entries newer than the smallest snapshot survive -/

/-- What the per-key state promises about the rest of a stream in internal-key order: no later
entry of the current user key is newer than `last_sequence_for_key`. -/
def KeyState.Bounds (st : KeyState κ) (rest : List (Entry κ)) : Prop :=
  ∀ k, st.currentUserKey = some k → ∀ e ∈ rest, e.userKey = k →
    e.sequence ≤ st.lastSequenceForKey

/-- When rule (A) cannot fire, only the rollback window and the base-level deletion rule drop. -/
theorem dropStep_fst_of_newer [DecidableEq κ] (c : DropContext κ) (st : KeyState κ) (e : Entry κ)
    (h : st.currentUserKey = some e.userKey → c.smallestSnapshot < st.lastSequenceForKey) :
    (dropStep c st e).1 = (rollbackDrop e.sequence c.rollbacks ||
      (decide (e.type = .deletion) && decide (e.sequence ≤ c.smallestSnapshot) &&
        c.dropBaseLevelDel && c.isBaseLevelForKey e.userKey)) := by
  have hA : ¬(lastSequenceFor st e ≤ c.smallestSnapshot ∧
      lastSequenceFor st e ≠ kMaxSequenceNumber) := by
    unfold lastSequenceFor
    split
    · next hk => have := h hk; omega
    · simp
  simp only [dropStep, dropRules, hA, ↓reduceIte]
  cases rollbackDrop e.sequence c.rollbacks <;> rfl

/-- The rules never drop an entry newer than `smallest_snapshot` outside every rollback window,
as long as no earlier entry of its key was older. -/
theorem dropStep_keeps_newer [DecidableEq κ] (c : DropContext κ) (st : KeyState κ) (e : Entry κ)
    (hS : c.smallestSnapshot < e.sequence) (hR : rollbackDrop e.sequence c.rollbacks = false)
    (hb : st.currentUserKey = some e.userKey → e.sequence ≤ st.lastSequenceForKey) :
    (dropStep c st e).1 = false := by
  rw [dropStep_fst_of_newer c st e fun h => lt_of_lt_of_le hS (hb h), hR]
  simp [Nat.not_le.mpr hS]

theorem keptEntries_keeps_newer [LinearOrder κ] (c : DropContext κ) :
    ∀ (st : KeyState κ) (input : List (Entry κ)), InternalOrder input → st.Bounds input →
    ∀ e ∈ input, c.smallestSnapshot < e.sequence → rollbackDrop e.sequence c.rollbacks = false →
      e ∈ keptEntries c st input
  | st, [], _, _ => by simp
  | st, e' :: rest, hsort, hb => by
    intro e he hS hR
    have ⟨hhead, hrest⟩ := List.pairwise_cons.mp hsort
    have hb' : (dropStep c st e').2.Bounds rest := by
      intro k hk x hx hxk
      simp only [dropStep, Option.some.injEq] at hk
      exact ikeyLE_sequence (hhead x hx) (hk.trans hxk.symm)
    have ih := keptEntries_keeps_newer c _ rest hrest hb'
    rcases List.mem_cons.mp he with rfl | he
    · have hkeep := dropStep_keeps_newer c st e hS hR fun h => hb _ h e (List.mem_cons_self _ _) rfl
      simp [keptEntries, hkeep]
    · unfold keptEntries
      split
      · exact ih e he hS hR
      · exact List.mem_cons_of_mem _ (ih e he hS hR)

/-- Part (i) of the compaction contract: a pass that ends with OK status writes every input
entry newer than `smallest_snapshot` that lies in no rollback window. -/
theorem handleCompactionWork_keeps_newer [LinearOrder κ] (env : OutputEnv κ)
    (c : DropContext κ) (input : List (Entry κ)) (hsort : InternalOrder input)
    (hok : (handleCompactionWork env c noStrategy none none input).ok = true) (e : Entry κ) (he : e ∈ input)
    (hS : c.smallestSnapshot < e.sequence) (hR : rollbackDrop e.sequence c.rollbacks = false) :
    e ∈ (handleCompactionWork env c noStrategy none none input).written := by
  rw [handleCompactionWork_written env c input hok]
  exact keptEntries_keeps_newer c _ input hsort (fun k hk => by simp [KeyState.init] at hk)
    e he hS hR

/-! ## Reads at or above the smallest snapshot -/

theorem dropStep_hidden [DecidableEq κ] (c : DropContext κ) (st : KeyState κ) (e : Entry κ)
    (hk : st.currentUserKey = some e.userKey) (hS : st.lastSequenceForKey ≤ c.smallestSnapshot)
    (hmax : st.lastSequenceForKey < kMaxSequenceNumber) : (dropStep c st e).1 = true := by
  simp [dropStep, dropRules, lastSequenceFor, hk, hS, Nat.ne_of_lt hmax]

section Newest

variable [DecidableEq κ] (R : Rollbacks) (s : Nat) (k : κ)

theorem newestVisible_cons_of_ne (e : Entry κ) (es : List (Entry κ)) (h : e.userKey ≠ k) :
    newestVisible R s k (e :: es) = newestVisible R s k es := by
  simp [newestVisible, h]

theorem newestVisible_cons_of_invisible (e : Entry κ) (es : List (Entry κ))
    (h : visibleAt R s e = false) : newestVisible R s k (e :: es) = newestVisible R s k es := by
  simp [newestVisible, h]

theorem newestVisible_cons_self (e : Entry κ) (es : List (Entry κ)) (hk : e.userKey = k)
    (h : visibleAt R s e = true) : newestVisible R s k (e :: es) = some e := by
  simp [newestVisible, hk, h]

theorem newestVisible_eq_none (es : List (Entry κ)) (h : ∀ x ∈ es, x.userKey ≠ k) :
    newestVisible R s k es = none := by
  simp only [newestVisible, List.find?_eq_none, Bool.and_eq_true, decide_eq_true_eq, not_and]
  exact fun x hx hk => absurd hk (h x hx)

theorem newestVisible_append_of_not_visible (es fs : List (Entry κ))
    (h : ∀ x ∈ es, x.userKey = k → visibleAt R s x = false) :
    newestVisible R s k (es ++ fs) = newestVisible R s k fs := by
  simp only [newestVisible, List.find?_append]
  rw [List.find?_eq_none.mpr]
  · rfl
  · intro x hx
    by_cases hk : x.userKey = k <;> simp [hk, h x hx]

end Newest

/-- An entry a read at a snapshot at or above `smallest_snapshot` skips is newer than
`smallest_snapshot`, when every rollback window opens at or above it. -/
theorem newer_of_invisible (c : DropContext κ) (hwin : ∀ w ∈ c.rollbacks, c.smallestSnapshot ≤ w.1) {s : Nat}
    (hs : c.smallestSnapshot ≤ s) (e : Entry κ) (hv : visibleAt c.rollbacks s e = false) :
    c.smallestSnapshot < e.sequence := by
  simp only [visibleAt, Bool.and_eq_false_iff, decide_eq_false_iff_not, Nat.not_le,
    Bool.not_eq_false'] at hv
  rcases hv with hv | hv
  · omega
  · obtain ⟨w, hw, h1, -⟩ := (rollbackDrop_iff _ _).mp hv
    have := hwin w hw
    omega

variable [LinearOrder κ] (c : DropContext κ)

/-- Once an entry of `k` at or below `smallest_snapshot` has gone by, the pass writes no more
entries of `k`. -/
theorem keptEntries_after_hidden (k : κ) :
    ∀ (st : KeyState κ) (input : List (Entry κ)), InternalOrder input →
      (∀ e ∈ input, e.sequence < kMaxSequenceNumber) → st.Bounds input →
      (∀ e ∈ input, k ≤ e.userKey) → st.currentUserKey = some k →
      st.lastSequenceForKey ≤ c.smallestSnapshot → st.lastSequenceForKey < kMaxSequenceNumber →
      ∀ x ∈ keptEntries c st input, x.userKey ≠ k
  | _, [], _, _, _, _, _, _, _ => by simp [keptEntries]
  | st, e :: rest, hsort, hseq, hb, hkey, hcur, hS, hmax => by
    have ⟨hhead, hrest⟩ := List.pairwise_cons.mp hsort
    rw [keptEntries_cons]
    by_cases he : e.userKey = k
    · have hd := dropStep_hidden c st e (hcur.trans (congrArg some he.symm)) hS hmax
      have hle := hb k hcur e (List.mem_cons_self _ _) he
      simp only [hd, ↓reduceIte, List.nil_append]
      refine keptEntries_after_hidden k _ rest hrest (fun x hx => hseq x (.tail _ hx)) ?_
        (fun x hx => he ▸ ikeyLE_userKey (hhead x hx)) (by rw [he])
        (show e.sequence ≤ c.smallestSnapshot by omega) (hseq e (List.mem_cons_self _ _))
      intro k' hk' x hx hxk
      exact ikeyLE_sequence (hhead x hx) (by simp at hk'; rw [hk', hxk])
    · intro x hx
      have hx' := (List.Sublist.append (List.Sublist.refl _) (keptEntries_sublist c _ rest)).subset hx
      have hsub : (if (dropStep c st e).1 then [] else [e]).Sublist [e] := by
        split
        · exact List.nil_sublist _
        · exact List.Sublist.refl _
      rcases List.mem_append.mp hx' with hx' | hx'
      · rw [List.mem_singleton.mp (hsub.subset hx')]; exact he
      · have h1 := hkey e (List.mem_cons_self _ _)
        have h2 := ikeyLE_userKey (hhead x hx')
        exact fun hxk => he (le_antisymm (hxk ▸ h2) h1)

/-- With every rollback window opening at or above `smallest_snapshot` and no entry at
`kMaxSequenceNumber`, the kept entries answer every read at a snapshot at or above
`smallest_snapshot` as the input does, a deletion counting as no entry. -/
theorem keptEntries_newest (hwin : ∀ w ∈ c.rollbacks, c.smallestSnapshot ≤ w.1) (k : κ) (s : Nat)
    (hs : c.smallestSnapshot ≤ s) :
    ∀ (st : KeyState κ) (input : List (Entry κ)), InternalOrder input →
      (∀ e ∈ input, e.sequence < kMaxSequenceNumber) →
      (st.currentUserKey = some k → c.smallestSnapshot < st.lastSequenceForKey) →
      liveEntry (newestVisible c.rollbacks s k (keptEntries c st input)) =
        liveEntry (newestVisible c.rollbacks s k input)
  | _, [], _, _, _ => by simp [keptEntries]
  | st, e :: rest, hsort, hseq, hst => by
    have ⟨hhead, hrest⟩ := List.pairwise_cons.mp hsort
    have hseq' : ∀ x ∈ rest, x.sequence < kMaxSequenceNumber := fun x hx => hseq x (.tail _ hx)
    rw [keptEntries_cons]
    by_cases he : e.userKey = k
    · cases hv : visibleAt c.rollbacks s e
      · have ih := keptEntries_newest hwin k s hs ⟨some e.userKey, e.sequence⟩ rest hrest hseq'
          (fun _ => newer_of_invisible c hwin hs e hv)
        rw [newestVisible_cons_of_invisible _ _ _ _ _ hv, ← ih]
        split
        · rfl
        · rw [List.singleton_append, newestVisible_cons_of_invisible _ _ _ _ _ hv]
      · rw [newestVisible_cons_self _ _ _ _ _ he hv]
        split
        · next hd =>
          rw [dropStep_fst_of_newer c st e (fun h => hst (he ▸ h))] at hd
          simp only [visibleAt, Bool.and_eq_true, decide_eq_true_eq, Bool.not_eq_true'] at hv
          simp only [hv.2, Bool.false_or, Bool.and_eq_true, decide_eq_true_eq] at hd
          have hnone := keptEntries_after_hidden c k ⟨some e.userKey, e.sequence⟩ rest hrest hseq'
            (fun k' hk' x hx hxk => ikeyLE_sequence (hhead x hx) (by simp at hk'; rw [hk', hxk]))
            (fun x hx => he ▸ ikeyLE_userKey (hhead x hx)) (by rw [he]) hd.1.1.2
            (hseq e (List.mem_cons_self _ _))
          rw [List.nil_append, newestVisible_eq_none _ _ _ _ hnone]
          simp [liveEntry, hd.1.1.1]
        · rw [List.singleton_append, newestVisible_cons_self _ _ _ _ _ he hv]
    · have ih := keptEntries_newest hwin k s hs ⟨some e.userKey, e.sequence⟩ rest hrest hseq'
        (fun h => absurd (Option.some.inj h) he)
      rw [newestVisible_cons_of_ne _ _ _ _ _ he, ← ih]
      split
      · rfl
      · rw [List.singleton_append, newestVisible_cons_of_ne _ _ _ _ _ he]

/-- Part (ii) of the compaction contract as the code meets it: a pass that ends with OK status
changes no read at a snapshot at or above `smallest_snapshot`, provided every rollback window
opens at or above `smallest_snapshot` and no entry carries `kMaxSequenceNumber`. -/
theorem handleCompactionWork_newest (env : OutputEnv κ) (input : List (Entry κ))
    (hsort : InternalOrder input) (hseq : ∀ e ∈ input, e.sequence < kMaxSequenceNumber)
    (hwin : ∀ w ∈ c.rollbacks, c.smallestSnapshot ≤ w.1)
    (hok : (handleCompactionWork env c noStrategy none none input).ok = true) (k : κ) (s : Nat)
    (hs : c.smallestSnapshot ≤ s) :
    liveEntry (newestVisible c.rollbacks s k
        (handleCompactionWork env c noStrategy none none input).written) =
      liveEntry (newestVisible c.rollbacks s k input) := by
  rw [handleCompactionWork_written env c input hok]
  exact keptEntries_newest c hwin k s hs _ input hsort hseq (fun h => by simp [KeyState.init] at h)

/-- The pass at a failing input of part (ii): a value at sequence 2 inside the rollback window
`(1, 2]` over an older value at sequence 1, with no snapshot held. The pass ends OK and writes
nothing, because the rolled-back entry still sets `last_sequence_for_key` and rule (A) then
drops the value at sequence 1, which a read at `kMaxSequenceNumber` returns from the input. -/
theorem handleCompactionWork_rollback_drops_visible (env : OutputEnv Nat) :
    (handleCompactionWork env ⟨kMaxSequenceNumber, [(1, 2)], false, fun _ => true, ""⟩ noStrategy
        none none [⟨⟨0, 2, .value⟩, "v2"⟩, ⟨⟨0, 1, .value⟩, "v1"⟩]).ok = true ∧
    (handleCompactionWork env ⟨kMaxSequenceNumber, [(1, 2)], false, fun _ => true, ""⟩ noStrategy
        none none [⟨⟨0, 2, .value⟩, "v2"⟩, ⟨⟨0, 1, .value⟩, "v1"⟩]).written = [] ∧
    liveEntry (newestVisible [(1, 2)] kMaxSequenceNumber 0
        [(⟨⟨0, 2, .value⟩, "v2"⟩ : Entry Nat), ⟨⟨0, 1, .value⟩, "v1"⟩]) =
      some ⟨⟨0, 1, .value⟩, "v1"⟩ := by
  refine ⟨?_, ?_, by decide⟩ <;>
  simp [handleCompactionWork, seekTo, compactionLoop_cons_noStrategy, stopBefore,
    CompactionState.init, dropStep, dropRules, lastSequenceFor, rollbackDrop, KeyState.init,
    CompactionState.written, CompactionState.allOutputs, kMaxSequenceNumber]

end Leveldb
