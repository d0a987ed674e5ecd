import Tera.Leveldb.Engine
import Mathlib.Data.List.Chain

/-!
# Log replay: `RecoverInsertMem` and `RecoverLastDumpToLevel0`

Recovery hands the batches of the write-ahead logs, in replay order, to `RecoverInsertMem`.
It skips a batch whose sequence is not above the last sequence of `recover_mem_`, inserts the
others, and when the recovery memtable grows beyond `write_buffer_size` it sets the edit's
`LastSequence` and writes the memtable as a level-0 table. `RecoverLastDumpToLevel0` does the
same for what is left, and the edit is then committed. `ApproximateMemoryUsage` is not under
src/: it is a parameter. `inserted` records the batches `InsertInto` ran on.
-/
namespace Leveldb

variable {κ : Type}

/-- `last_sequence = Sequence(batch) + Count(batch) - 1`. -/
def WriteBatch.lastSequence (b : WriteBatch κ) : Nat := b.sequence + b.ops.length - 1

/-- What recovery runs with: `options_.write_buffer_size` and the memtable's
`ApproximateMemoryUsage`. -/
structure RecoverSetting (κ : Type) where
  writeBufferSize : Nat
  approximateMemoryUsage : MemTable κ → Nat

/-- The state of a replay: `recover_mem_`, the `LastSequence` the edit carries (`none` until
`SetLastSequence`), the level-0 tables `WriteLevel0Table` added to the edit, and the batches
inserted so far. -/
structure Recovery (κ : Type) where
  recoverMem : Option (MemTable κ)
  lastSequence : Option Nat
  tables : List (List (Entry κ))
  inserted : List (WriteBatch κ)

namespace Recovery

def init : Recovery κ := ⟨none, none, [], []⟩

/-- `edit->SetLastSequence(mem->GetLastSequence())` and `WriteLevel0Table(mem, edit)`, with
`ok` its status; an OK dump drops `recover_mem_`. -/
def dump (st : Recovery κ) (mem : MemTable κ) (ok : Bool) : Recovery κ × Bool :=
  let st := { st with lastSequence := some mem.lastSequence }
  if ok then ({ st with tables := st.tables ++ [mem.table], recoverMem := none }, true)
  else (st, false)

/-- `DBImpl::RecoverInsertMem(batch, edit)`; `ok` is the status of a `WriteLevel0Table` it
calls. The second component is whether the status is OK. -/
def recoverInsertMem [LinearOrder κ] (R : RecoverSetting κ) (st : Recovery κ) (b : WriteBatch κ)
    (ok : Bool) : Recovery κ × Bool :=
  let mem := st.recoverMem.getD MemTable.empty
  if b.sequence ≤ mem.lastSequence then ({ st with recoverMem := some mem }, true)
  else
    let mem := insertInto b mem
    let st := { st with recoverMem := some mem, inserted := st.inserted ++ [b] }
    if R.writeBufferSize < R.approximateMemoryUsage mem then st.dump mem ok else (st, true)

/-- `DBImpl::RecoverLastDumpToLevel0(edit)` up to `LogAndApply`: a non-empty `recover_mem_` is
dumped, and `recover_mem_` is dropped in any case. -/
def recoverLastDumpToLevel0 (st : Recovery κ) (ok : Bool) : Recovery κ × Bool :=
  match st.recoverMem with
  | none => (st, true)
  | some mem =>
    if 0 < mem.lastSequence then
      let r := st.dump mem ok
      ({ r.1 with recoverMem := none }, r.2)
    else ({ st with recoverMem := none }, true)

/-- Replay batches, each with the outcome of a `WriteLevel0Table` it may call; `none` once a
status is not OK, which fails `DB::Open`. -/
def replay [LinearOrder κ] (R : RecoverSetting κ) : Recovery κ → List (WriteBatch κ × Bool) →
    Option (Recovery κ)
  | st, [] => some st
  | st, (b, ok) :: bs =>
    match st.recoverInsertMem R b ok with
    | (st', true) => replay R st' bs
    | (_, false) => none

end Recovery

/-- A whole recovery: replay, then `RecoverLastDumpToLevel0` with the outcome `ok` of its
`WriteLevel0Table`. The result is the state whose edit `LogAndApply` commits. -/
def recoverLogs [LinearOrder κ] (R : RecoverSetting κ) (bs : List (WriteBatch κ × Bool))
    (ok : Bool) : Option (Recovery κ) :=
  (Recovery.init.replay R bs).bind fun st =>
    match st.recoverLastDumpToLevel0 ok with
    | (st', true) => some st'
    | (_, false) => none

/-- `A` (sequence 1) and `B` (sequence 2) replayed as `A, B, A`, with a write buffer of one
entry. `B` fills the recovery memtable, which is flushed with `LastSequence = 2` and reset; the
second `A` is then above the fresh memtable's last sequence 0, so it is inserted again, and
`RecoverLastDumpToLevel0` commits `LastSequence = 1`, below `B`'s last sequence. -/
theorem recovery_reinserts_batch_after_flush :
    let A : WriteBatch Nat := ⟨1, [.put 0 "a"]⟩
    let B : WriteBatch Nat := ⟨2, [.put 1 "b"]⟩
    ∃ st, recoverLogs ⟨1, fun m => m.table.length⟩ [(A, true), (B, true), (A, true)] true = some st ∧
      st.inserted.map WriteBatch.sequence = [1, 2, 1] ∧
      ∃ b ∈ st.inserted, st.lastSequence.getD 0 < b.lastSequence :=
  ⟨_, rfl, rfl, _, .tail _ (.head _), by decide⟩

/-! ## Replay without reappearances -/

theorem batchEntries_getLast? (seq : Nat) {ops : List (BatchOp κ)} (h : ops ≠ []) :
    ((batchEntries seq ops).getLast?).map (·.sequence) = some (seq + ops.length - 1) := by
  induction ops generalizing seq with
  | nil => exact absurd rfl h
  | cons op ops ih =>
    by_cases hops : ops = []
    · subst hops; cases op <;> rfl
    · obtain ⟨x, hx, hxs⟩ := Option.map_eq_some'.mp (ih (seq + 1) hops)
      have := List.length_pos.mpr hops
      cases op <;> simp [batchEntries, List.getLast?_cons, hx, hxs]

section Increasing

variable [LinearOrder κ]

theorem foldl_add_lastSequence (m : MemTable κ) (l : List (Entry κ)) :
    (l.foldl MemTable.add m).lastSequence = ((l.getLast?).map (·.sequence)).getD m.lastSequence := by
  induction l generalizing m with
  | nil => rfl
  | cons e l ih =>
    rw [List.foldl_cons, ih, List.getLast?_cons]
    cases l.getLast? <;> rfl

theorem insertInto_lastSequence {b : WriteBatch κ} (hb : b.ops ≠ []) (m : MemTable κ) :
    (insertInto b m).lastSequence = b.lastSequence := by
  rw [insertInto, foldl_add_lastSequence, batchEntries_getLast? _ hb]
  rfl

/-- `recover_mem_` and the edit's `LastSequence` agree with `L`, the last sequence of the last
batch inserted (0 before the first). -/
def Recovery.Tracks (st : Recovery κ) (L : Nat) : Prop :=
  match st.recoverMem with
  | none => st.lastSequence.getD 0 = L
  | some mem => mem.lastSequence = L ∧ 0 < L

/-- A non-empty batch above every sequence inserted before is inserted, whatever the memtable
and the flush. -/
theorem Recovery.recoverInsertMem_above {R : RecoverSetting κ} {st : Recovery κ} {L : Nat}
    {b : WriteBatch κ} (ht : st.Tracks L) (hL : L < b.sequence) (hb : b.ops ≠ []) :
    ∃ st', st.recoverInsertMem R b true = (st', true) ∧ st'.Tracks b.lastSequence ∧
      st'.inserted = st.inserted ++ [b] := by
  have hlast := insertInto_lastSequence hb
  have hpos : 0 < b.lastSequence := by
    have : b.ops.length ≠ 0 := fun h => hb (List.length_eq_zero.mp h)
    simp only [WriteBatch.lastSequence]; omega
  have hskip : ¬b.sequence ≤ (st.recoverMem.getD MemTable.empty).lastSequence := by
    unfold Recovery.Tracks at ht
    split at ht <;> rename_i hm <;> simp only [hm, Option.getD_none, Option.getD_some, MemTable.empty] <;>
      omega
  simp only [Recovery.recoverInsertMem, hskip, ↓reduceIte]
  split
  · exact ⟨_, rfl, by simp [Recovery.Tracks, Recovery.dump, hlast], rfl⟩
  · exact ⟨_, rfl, by simp [Recovery.Tracks, hlast, hpos], rfl⟩

/-- Replay of batches in increasing order, each non-empty and with its writes OK, inserts each
of them once, and the edit `RecoverLastDumpToLevel0` leaves carries the last sequence of the last
batch, the largest of all. -/
theorem recoverLogs_of_increasing {R : RecoverSetting κ} {bs : List (WriteBatch κ × Bool)}
    (hok : ∀ p ∈ bs, p.2 = true) (hne : ∀ p ∈ bs, 0 < p.1.sequence ∧ p.1.ops ≠ [])
    (hinc : (bs.map Prod.fst).Chain' fun a b => a.lastSequence < b.sequence) :
    ∃ st, recoverLogs R bs true = some st ∧ st.inserted = bs.map Prod.fst ∧
      ∀ b ∈ st.inserted, b.lastSequence ≤ st.lastSequence.getD 0 := by
  -- the replay keeps `Tracks L` with every inserted batch at most `L`
  have hrun : ∀ (bs : List (WriteBatch κ × Bool)) (st : Recovery κ) (L : Nat),
      (∀ p ∈ bs, p.2 = true) → (∀ p ∈ bs, 0 < p.1.sequence ∧ p.1.ops ≠ []) →
      (bs.map Prod.fst).Chain' (fun a b => a.lastSequence < b.sequence) →
      (∀ b ∈ (bs.map Prod.fst).head?, L < b.sequence) → st.Tracks L →
      (∀ b ∈ st.inserted, b.lastSequence ≤ L) →
      ∃ st' L', st.replay R bs = some st' ∧ st'.Tracks L' ∧
        st'.inserted = st.inserted ++ bs.map Prod.fst ∧ ∀ b ∈ st'.inserted, b.lastSequence ≤ L' := by
    intro bs
    induction bs with
    | nil => exact fun st L _ _ _ _ ht hins => ⟨st, L, rfl, ht, by simp, hins⟩
    | cons p bs ih =>
      obtain ⟨b, ok⟩ := p
      intro st L hok hne hinc hfirst ht hins
      obtain rfl : ok = true := hok _ (List.mem_cons_self _ _)
      obtain ⟨-, hb⟩ := hne _ (List.mem_cons_self _ _)
      obtain ⟨st₁, h₁, ht₁, hins₁⟩ :=
        Recovery.recoverInsertMem_above (R := R) ht (hfirst b rfl) hb
      have hle : L ≤ b.lastSequence := by
        have := hfirst b rfl
        have : b.ops.length ≠ 0 := fun h => hb (List.length_eq_zero.mp h)
        simp only [WriteBatch.lastSequence]; omega
      obtain ⟨st', L', h', ht', hins', hle'⟩ := ih st₁ b.lastSequence
        (fun q hq => hok q (List.mem_cons_of_mem _ hq)) (fun q hq => hne q (List.mem_cons_of_mem _ hq))
        (List.chain'_cons'.mp hinc).2 (fun c hc => (List.chain'_cons'.mp hinc).1 c hc) ht₁
        (by
          rw [hins₁]
          intro c hc
          rcases List.mem_append.mp hc with hc | hc
          · exact (hins c hc).trans hle
          · rw [List.mem_singleton.mp hc])
      refine ⟨st', L', ?_, ht', by simp [hins', hins₁], hle'⟩
      simp only [Recovery.replay, h₁, h']
  obtain ⟨st, L, h, ht, hins, hle⟩ :=
    hrun bs Recovery.init 0 hok hne hinc (fun b hb => by
      cases bs with
      | nil => cases hb
      | cons p _ => cases hb; exact (hne p (List.mem_cons_self _ _)).1) rfl (by simp [Recovery.init])
  unfold Recovery.Tracks at ht
  cases hmem : st.recoverMem with
  | none =>
    simp only [hmem] at ht
    simp only [recoverLogs, h, Option.some_bind, Recovery.recoverLastDumpToLevel0, hmem]
    exact ⟨st, rfl, by simpa [Recovery.init] using hins, ht ▸ hle⟩
  | some mem =>
    simp only [hmem] at ht
    simp only [recoverLogs, h, Option.some_bind, Recovery.recoverLastDumpToLevel0, hmem, ht.1, ht.2,
      ↓reduceIte, Recovery.dump]
    exact ⟨_, rfl, by simpa [Recovery.init] using hins, by simpa [ht.1] using hle⟩

end Increasing

end Leveldb
