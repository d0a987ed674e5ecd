import Mathlib.Data.Nat.Defs
import Mathlib.Algebra.Group.Nat.Basic
import Mathlib.Order.Lattice

/-!
# Internal keys, sequence numbers and rollback windows

A memtable or a table stores parsed internal keys `(user_key, sequence, type)` with a value.
The user comparator is pluggable, so user keys range over any linearly ordered type. A
rollback window `(snapshot_seq, rollback_point]` of the engine's `rollbacks_` map hides every
entry whose sequence lies in it, for reads and for compactions alike.
-/
namespace Leveldb

/-- `kMaxSequenceNumber = (1 << 56) - 1`; also the "no previous entry" mark of compaction. -/
def kMaxSequenceNumber : Nat := 2 ^ 56 - 1

inductive ValueType where
  | deletion
  | value
  deriving DecidableEq, Repr

/-- `kTypeDeletion = 0`, `kTypeValue = 1`. -/
def ValueType.tag : ValueType → Nat
  | .deletion => 0
  | .value => 1

/-- `ParsedInternalKey`. -/
structure InternalKey (κ : Type) where
  userKey : κ
  sequence : Nat
  type : ValueType
  deriving DecidableEq, Repr

/-- A parsed internal key together with the value stored under it. -/
structure Entry (κ : Type) extends InternalKey κ where
  value : String
  deriving DecidableEq, Repr

variable {κ : Type}

/-- `InternalKeyComparator::Compare(a, b) <= 0`: user key ascending, then sequence descending,
then type descending. -/
def ikeyLE [LinearOrder κ] (a b : InternalKey κ) : Prop :=
  a.userKey < b.userKey ∨ (a.userKey = b.userKey ∧
    (b.sequence < a.sequence ∨ (a.sequence = b.sequence ∧ b.type.tag ≤ a.type.tag)))

instance [LinearOrder κ] (a b : InternalKey κ) : Decidable (ikeyLE a b) :=
  inferInstanceAs (Decidable (_ ∨ _))

/-- `InternalKeyComparator::Compare(a, b) < 0`. -/
def ikeyLT [LinearOrder κ] (a b : InternalKey κ) : Prop := ikeyLE a b ∧ ¬ikeyLE b a

instance [LinearOrder κ] (a b : InternalKey κ) : Decidable (ikeyLT a b) :=
  inferInstanceAs (Decidable (_ ∧ _))

/-- A stream as a merging iterator yields it: in `InternalKeyComparator` order. -/
def InternalOrder [LinearOrder κ] (es : List (Entry κ)) : Prop :=
  es.Pairwise fun a b => ikeyLE a.toInternalKey b.toInternalKey

/-- A stream with no internal key repeated, in `InternalKeyComparator` order. -/
def StrictInternalOrder [LinearOrder κ] (es : List (Entry κ)) : Prop :=
  es.Pairwise fun a b => ikeyLT a.toInternalKey b.toInternalKey

instance [LinearOrder κ] (es : List (Entry κ)) : Decidable (StrictInternalOrder es) :=
  inferInstanceAs (Decidable (List.Pairwise _ _))

theorem StrictInternalOrder.internalOrder [LinearOrder κ] {es : List (Entry κ)}
    (h : StrictInternalOrder es) : InternalOrder es :=
  h.imp fun h => h.1

theorem ikeyLE_sequence [LinearOrder κ] {a b : InternalKey κ} (h : ikeyLE a b)
    (hk : a.userKey = b.userKey) : b.sequence ≤ a.sequence := by
  rcases h with h | ⟨-, h | h⟩
  · exact absurd hk (ne_of_lt h)
  · exact Nat.le_of_lt h
  · exact Nat.le_of_eq h.1.symm

theorem ikeyLE_trans [LinearOrder κ] {a b d : InternalKey κ} (h₁ : ikeyLE a b)
    (h₂ : ikeyLE b d) : ikeyLE a d := by
  unfold ikeyLE at *
  rcases h₁ with h₁ | ⟨e₁, h₁⟩ <;> rcases h₂ with h₂ | ⟨e₂, h₂⟩
  · exact .inl (lt_trans h₁ h₂)
  · exact .inl (e₂ ▸ h₁)
  · exact .inl (e₁ ▸ h₂)
  · exact .inr ⟨e₁.trans e₂, by omega⟩

theorem ikeyLE_userKey [LinearOrder κ] {a b : InternalKey κ} (h : ikeyLE a b) :
    a.userKey ≤ b.userKey := by
  rcases h with h | ⟨h, -⟩
  · exact le_of_lt h
  · exact le_of_eq h

/-- The engine's `rollbacks_` map, `snapshot_seq ↦ rollback_point`, as a list of pairs. -/
abbrev Rollbacks := List (Nat × Nat)

/-- Modelled from the spec: `RollbackDrop` (db/dbformat.h) is not under src/. The spec says
that reads and compactions hide the entries whose sequence lies in `(snapshot_seq,
rollback_point]` for some entry of `rollbacks_`. -/
def rollbackDrop (sequence : Nat) (rollbacks : Rollbacks) : Bool :=
  rollbacks.any fun w => decide (w.1 < sequence) && decide (sequence ≤ w.2)

@[simp] theorem rollbackDrop_nil (sequence : Nat) : rollbackDrop sequence [] = false := rfl

theorem rollbackDrop_iff (sequence : Nat) (rollbacks : Rollbacks) :
    rollbackDrop sequence rollbacks = true ↔
      ∃ w ∈ rollbacks, w.1 < sequence ∧ sequence ≤ w.2 := by
  simp [rollbackDrop]

/-- An entry a read at snapshot `s` may return: not newer than `s`, in no rollback window. -/
def visibleAt (rollbacks : Rollbacks) (s : Nat) (e : Entry κ) : Bool :=
  decide (e.sequence ≤ s) && !rollbackDrop e.sequence rollbacks

/-- The first entry of `k` visible at `s`; in a stream in internal-key order it is the newest. -/
def newestVisible [DecidableEq κ] (rollbacks : Rollbacks) (s : Nat) (k : κ)
    (es : List (Entry κ)) : Option (Entry κ) :=
  es.find? fun e => decide (e.userKey = k) && visibleAt rollbacks s e

/-- What a lookup reports: a deletion reads as no entry at all. -/
def liveEntry : Option (Entry κ) → Option (Entry κ)
  | some e => if e.type = .deletion then none else some e
  | none => none

@[simp] theorem liveEntry_none : liveEntry (none : Option (Entry κ)) = none := rfl

end Leveldb
