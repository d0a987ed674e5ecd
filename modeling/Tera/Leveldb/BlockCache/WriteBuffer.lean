import Mathlib.Data.List.Nodup
import Mathlib.Logic.Function.Basic
import Mathlib.Algebra.Group.Nat.Basic

/-!
# `BlockCacheWriteBuffer` and the flushes of `BlockCacheWritableFile`

A table file being written goes to the DFS and, block by block, to the SSD cache. The write
buffer cuts the appended bytes into blocks of `block_size_` bytes. `BGFlush` tasks take full
blocks from the front with their running index `block_idx_`. `Close` takes the last block from
the back with index `offset_ / block_size_`. Both hand the block to `FillCache`. The offset is a
`uint64_t` and the block indices `begin` and `end` of an `Append` are `uint32_t`.

Blocks are `std::string`s on the heap: `heap p` is the string at pointer `p`, so that
`tmp_storage_` is a pointer that aliases the back of `block_list_`, as in the code.
-/
namespace Leveldb.BlockCache

open Function (update)

variable {α : Type}

/-- `BlockCacheWriteBuffer`; `nextPtr` is the next pointer `new std::string()` returns. -/
structure WriteBuffer (α : Type) where
  offset : Nat
  blockSize : Nat
  blockIdx : Nat
  tmpStorage : Option Nat
  blockList : List Nat
  heap : Nat → List α
  nextPtr : Nat

def WriteBuffer.init (blockSize : Nat) : WriteBuffer α where
  offset := 0
  blockSize := blockSize
  blockIdx := 0
  tmpStorage := none
  blockList := []
  heap := fun _ => []
  nextPtr := 0

def WriteBuffer.blocks (b : WriteBuffer α) : List (List α) := b.blockList.map b.heap

/-- `tmp_storage_ = new std::string(); block_list_.push_back(tmp_storage_);` -/
def WriteBuffer.pushNew (b : WriteBuffer α) : WriteBuffer α :=
  { b with tmpStorage := some b.nextPtr, blockList := b.blockList ++ [b.nextPtr],
           heap := update b.heap b.nextPtr [], nextPtr := b.nextPtr + 1 }

/-- `tmp_storage_->append(data)`. -/
def WriteBuffer.appendTmp (b : WriteBuffer α) (data : List α) : WriteBuffer α :=
  match b.tmpStorage with
  | some p => { b with heap := update b.heap p (b.heap p ++ data) }
  | none => b

/-- The number of iterations of `for (uint32_t i = begin + 1; i <= end; ++i)`, `none` when the
loop never ends: if `end` is `UINT32_MAX`, `i <= end` holds for every `i`. -/
def loopCount (beginIdx endIdx : UInt32) : Option Nat :=
  if beginIdx + 1 ≤ endIdx then
    if endIdx = 0xFFFFFFFF then none else some (endIdx.toNat - (beginIdx + 1).toNat + 1)
  else some 0

/-- The loop's `n` iterations: each pushes a new block, which takes `block_size_` bytes of `buf`
while `i < end` and all that is left in the last iteration. -/
def WriteBuffer.pushBlocks (b : WriteBuffer α) (buf : List α) : Nat → WriteBuffer α
  | 0 => b
  | 1 => b.pushNew.appendTmp buf
  | n + 2 => (b.pushNew.appendTmp (buf.take b.blockSize)).pushBlocks (buf.drop b.blockSize) (n + 1)

/-- `BlockCacheWriteBuffer::Append`, `none` when its loop never ends. -/
def WriteBuffer.append (b : WriteBuffer α) (data : List α) : Option (WriteBuffer α) :=
  let b := if b.tmpStorage = none then b.pushNew else b
  let beginIdx := UInt32.ofNat (b.offset / b.blockSize)
  let endIdx := UInt32.ofNat ((b.offset + data.length) / b.blockSize)
  if beginIdx = endIdx then
    some { b.appendTmp data with offset := b.offset + data.length }
  else
    let tmpSize := b.blockSize - b.offset % b.blockSize
    (loopCount beginIdx endIdx).map fun n =>
      { (b.appendTmp (data.take tmpSize)).pushBlocks (data.drop tmpSize) n with
        offset := b.offset + data.length }

def WriteBuffer.numFullBlock (b : WriteBuffer α) : Nat :=
  match b.blockList.getLast? with
  | none => 0
  | some p => if (b.heap p).length < b.blockSize then b.blockList.length - 1 else b.blockList.length

/-- `PopFrontBlock`: the front block and its index if it is full. The block is given by its
bytes when it is taken. -/
def WriteBuffer.popFrontBlock (b : WriteBuffer α) : Option (Nat × List α) × WriteBuffer α :=
  match b.blockList with
  | [] => (none, b)
  | p :: rest =>
    if (b.heap p).length ≠ b.blockSize then (none, b)
    else (some (b.blockIdx, b.heap p), { b with blockList := rest, blockIdx := b.blockIdx + 1 })

/-- `PopBackBlock`: the back block, with index `offset_ / block_size_`. -/
def WriteBuffer.popBackBlock (b : WriteBuffer α) : Option (Nat × List α) × WriteBuffer α :=
  match b.blockList.getLast? with
  | none => (none, b)
  | some p => (some (b.offset / b.blockSize, b.heap p), { b with blockList := b.blockList.dropLast })

/-! ## The file and its `BGFlush` tasks -/

/-- Where the thread that owns the file is: between calls; after `write_buffer_.Append` and
before `MaybeScheduleBGFlush`; in `Close` after `PopBackBlock` and its `FillCache`, waiting for
`bg_block_flush_` to reach zero; or returned from `Close`. -/
inductive WriterPc where
  | idle
  | appended
  | closing
  | closed
  deriving DecidableEq

/-- `BlockCacheWritableFile`: `scheduled` counts the `BGFlush` tasks queued in the thread pool,
`stream` the bytes of every `Append` whose DFS write succeeded, `flushed` and `closeBlock` the
blocks handed to `FillCache` by `BGFlush` and by `Close`. -/
structure WritableFile (α : Type) where
  buffer : WriteBuffer α
  bgBlockFlush : Nat
  pendingBlockNum : Nat
  scheduled : Nat
  writer : WriterPc
  stream : List α
  flushed : List (Nat × List α)
  closeBlock : Option (Nat × List α)

def WritableFile.init (blockSize : Nat) : WritableFile α where
  buffer := .init blockSize
  bgBlockFlush := 0
  pendingBlockNum := 0
  scheduled := 0
  writer := .idle
  stream := []
  flushed := []
  closeBlock := none

/-- `MaybeScheduleBGFlush`: one task per missing unit of `NumFullBlock() + pending_block_num_`.
The loop reads `NumFullBlock()` again at each turn, but an `Append` it overlaps only moves the
loop's end, so the loop is one step here. -/
def WritableFile.maybeScheduleBGFlush (f : WritableFile α) : WritableFile α :=
  let need := f.buffer.numFullBlock + f.pendingBlockNum
  if f.bgBlockFlush < need then
    { f with bgBlockFlush := need, scheduled := f.scheduled + (need - f.bgBlockFlush) }
  else f

/-- One step of the owner thread or of a `BGFlush` task. -/
inductive Action (α : Type) where
  | append (data : List α)
  | schedule
  | close
  | closeReturn
  | bgStart
  | bgFinish

/-- The state after one step, `none` when it cannot be taken.
* `append`: `write_buffer_.Append` after a successful DFS append.
* `schedule`: the rest of `Append`, `MaybeScheduleBGFlush` under `mu_`.
* `close` / `closeReturn`: `PopBackBlock` and its `FillCache`; the wait for `bg_block_flush_`.
* `bgStart`: a queued task runs `PopFrontBlock`; with a block it counts it in
  `pending_block_num_` and calls `FillCache` without `mu_`, otherwise it ends at once.
* `bgFinish`: a task back from `FillCache` takes `mu_` and ends. -/
def WritableFile.step (f : WritableFile α) : Action α → Option (WritableFile α)
  | .append data =>
    if f.writer = .idle then
      (f.buffer.append data).map fun b =>
        { f with buffer := b, writer := .appended, stream := f.stream ++ data }
    else none
  | .schedule =>
    if f.writer = .appended then some { f.maybeScheduleBGFlush with writer := .idle } else none
  | .close =>
    if f.writer = .idle then
      some { f with buffer := f.buffer.popBackBlock.2, closeBlock := f.buffer.popBackBlock.1,
                    writer := .closing }
    else none
  | .closeReturn =>
    if f.writer = .closing ∧ f.bgBlockFlush = 0 then some { f with writer := .closed } else none
  | .bgStart =>
    if 0 < f.scheduled then
      match f.buffer.popFrontBlock with
      | (some blk, b) =>
        some { f with buffer := b, scheduled := f.scheduled - 1,
                      pendingBlockNum := f.pendingBlockNum + 1, flushed := f.flushed ++ [blk] }
      | (none, _) =>
        some { f with scheduled := f.scheduled - 1,
                      bgBlockFlush := f.bgBlockFlush - 1 }.maybeScheduleBGFlush
    else none
  | .bgFinish =>
    if 0 < f.pendingBlockNum then
      some { f with pendingBlockNum := f.pendingBlockNum - 1,
                    bgBlockFlush := f.bgBlockFlush - 1 }.maybeScheduleBGFlush
    else none

def WritableFile.run (f : WritableFile α) : List (Action α) → Option (WritableFile α)
  | [] => some f
  | a :: as => (f.step a).bind fun f' => f'.run as

/-! ## Blocks as cuts of the stream -/

/-- The blocks the loop's `n` iterations fill from `buf`. -/
def pieces (B : Nat) (buf : List α) : Nat → List (List α)
  | 0 => []
  | 1 => [buf]
  | n + 2 => buf.take B :: pieces B (buf.drop B) (n + 1)

@[simp] theorem length_pieces (B : Nat) : ∀ (buf : List α) (n : Nat), (pieces B buf n).length = n
  | _, 0 => rfl
  | _, 1 => rfl
  | buf, n + 2 => by simp [pieces, length_pieces B (buf.drop B) (n + 1)]

theorem flatten_pieces (B : Nat) : ∀ (buf : List α) (n : Nat), (pieces B buf (n + 1)).flatten = buf
  | _, 0 => by simp [pieces]
  | buf, n + 1 => by simp [pieces, flatten_pieces B (buf.drop B) n]

theorem pieces_ne_nil (B : Nat) (buf : List α) (n : Nat) : pieces B buf (n + 1) ≠ [] := by
  cases n <;> simp [pieces]

theorem getLast?_pieces (B : Nat) :
    ∀ (buf : List α) (n : Nat), (pieces B buf (n + 1)).getLast? = some (buf.drop (n * B))
  | _, 0 => by simp [pieces]
  | buf, n + 1 => by
    rw [pieces, List.getLast?_cons, getLast?_pieces B (buf.drop B) n, List.drop_drop]
    simp [Nat.succ_mul, Nat.add_comm]

theorem pieces_full (B : Nat) : ∀ (buf : List α) (n : Nat), n * B ≤ buf.length →
    ∀ c ∈ (pieces B buf (n + 1)).dropLast, c.length = B
  | _, 0, _ => by simp [pieces]
  | buf, n + 1, h => by
    rw [pieces, List.dropLast_cons_of_ne_nil (pieces_ne_nil B _ n)]
    rintro c (_ | ⟨_, hc⟩)
    · simp only [List.length_take]; rw [Nat.succ_mul] at h; omega
    · exact pieces_full B (buf.drop B) n (by simp [Nat.succ_mul] at h ⊢; omega) c hc

def chunk (B : Nat) (stream : List α) (i : Nat) : List α := (stream.drop (i * B)).take B

theorem flatten_chunks (B : Nat) (stream : List α) :
    ∀ k, ((List.range k).map (chunk B stream)).flatten = stream.take (k * B)
  | 0 => by simp
  | k + 1 => by
    rw [List.range_succ, List.map_append, List.flatten_append, flatten_chunks B stream k,
      Nat.succ_mul, List.take_add]
    simp [chunk]

/-- `blocks` is `stream` from block `first` on, cut every `B` bytes: full blocks, then a last
one shorter than `B`. -/
structure Cut (B first : Nat) (stream : List α) (blocks : List (List α)) : Prop where
  ne_nil : blocks ≠ []
  flatten_eq : blocks.flatten = stream.drop (first * B)
  full : ∀ c ∈ blocks.dropLast, c.length = B
  last_lt : ∀ c ∈ blocks.getLast?, c.length < B
  length_eq : first + blocks.length = stream.length / B + 1

theorem length_flatten_of_full {B : Nat} :
    ∀ {l : List (List α)}, (∀ c ∈ l, c.length = B) → l.flatten.length = l.length * B
  | [], _ => by simp
  | c :: l, h => by
    rw [List.flatten_cons, List.length_append, h c (List.mem_cons_self _ _),
      length_flatten_of_full fun c hc => h c (List.mem_cons_of_mem _ hc)]
    simp [Nat.succ_mul, Nat.add_comm]

theorem chunk_append {B i : Nat} {stream : List α} (h : (i + 1) * B ≤ stream.length)
    (data : List α) : chunk B (stream ++ data) i = chunk B stream i := by
  rw [Nat.succ_mul] at h
  simp only [chunk]
  rw [List.drop_append_of_le_length (by omega), List.take_append_of_le_length (by simp; omega)]

theorem length_chunk {B i : Nat} {stream : List α} (h : (i + 1) * B ≤ stream.length) :
    (chunk B stream i).length = B := by
  rw [Nat.succ_mul] at h
  simp only [chunk, List.length_take, List.length_drop]
  omega

namespace Cut

variable {B first : Nat} {stream : List α}

theorem empty (hB : 0 < B) : Cut B 0 ([] : List α) [[]] where
  ne_nil := List.cons_ne_nil _ _
  flatten_eq := by simp
  full := by simp
  last_lt := by simpa using hB
  length_eq := by simp

theorem first_le {blocks : List (List α)} (h : Cut B first stream blocks) :
    first * B ≤ stream.length := by
  have hlen : first ≤ stream.length / B := by
    have := h.length_eq
    have := List.length_pos.mpr h.ne_nil
    omega
  exact (Nat.mul_le_mul_right B hlen).trans (Nat.div_mul_le_self _ _)

theorem last_eq {init : List (List α)} {t : List α} (h : Cut B first stream (init ++ [t])) :
    t = stream.drop (stream.length / B * B) ∧ first + init.length = stream.length / B := by
  have hfull : ∀ c ∈ init, c.length = B := by simpa using h.full
  have hlen := h.length_eq
  simp only [List.length_append, List.length_singleton] at hlen
  refine ⟨?_, by omega⟩
  have hf := h.flatten_eq
  rw [List.flatten_append, List.flatten_singleton] at hf
  have ht := congrArg (List.drop (init.length * B)) hf
  rw [List.drop_left' (length_flatten_of_full hfull), List.drop_drop] at ht
  rw [ht, ← Nat.add_mul, show first + init.length = stream.length / B by omega]

theorem length_last {init : List (List α)} {t : List α} (h : Cut B first stream (init ++ [t])) :
    t.length + stream.length / B * B = stream.length := by
  rw [h.last_eq.1, List.length_drop]
  have := Nat.div_mul_le_self stream.length B
  omega

theorem popFront {c : List α} {rest : List (List α)} (h : Cut B first stream (c :: rest))
    (hc : c.length = B) : c = chunk B stream first ∧ rest ≠ [] ∧ Cut B (first + 1) stream rest := by
  have hf := h.flatten_eq
  rw [List.flatten_cons] at hf
  have hrest : rest ≠ [] := by
    rintro rfl
    have := h.last_lt c (by simp)
    omega
  refine ⟨?_, hrest, ⟨hrest, ?_, ?_, ?_, ?_⟩⟩
  · rw [chunk, ← hf, List.take_left' hc]
  · rw [Nat.succ_mul, ← List.drop_drop, ← hf, List.drop_left' hc]
  · intro d hd
    exact h.full d (by rw [List.dropLast_cons_of_ne_nil hrest]; exact List.mem_cons_of_mem _ hd)
  · intro d hd
    obtain ⟨x, hx⟩ := List.getLast?_isSome.mpr hrest |> Option.isSome_iff_exists.mp
    exact h.last_lt d (by rw [List.getLast?_cons, hx]; simpa [hx] using hd)
  · have := h.length_eq
    simp only [List.length_cons] at this
    omega

theorem appendSame (hB : 0 < B) {init : List (List α)} {t data : List α}
    (h : Cut B first stream (init ++ [t]))
    (hsame : (stream.length + data.length) / B = stream.length / B) :
    Cut B first (stream ++ data) (init ++ [t ++ data]) where
  ne_nil := by simp
  flatten_eq := by
    have hf := h.flatten_eq
    rw [List.flatten_append, List.flatten_singleton] at hf ⊢
    rw [← List.append_assoc, hf, List.drop_append_of_le_length (h.first_le)]
  full := by simpa using h.full
  last_lt := by
    intro c hc
    simp only [List.getLast?_append, List.getLast?_singleton, Option.or_some,
      Option.mem_def, Option.some.injEq] at hc
    subst hc
    have := h.length_last
    have := Nat.lt_div_mul_add (a := stream.length + data.length) hB
    rw [hsame] at this
    simp only [List.length_append]
    omega
  length_eq := by
    have := h.length_eq
    simp only [List.length_append, List.length_singleton] at this ⊢
    omega

/-- An `Append` that fills the last block and goes on for `e - q` more blocks, where `q` and `e`
are the blocks of its first byte and of the end of the stream. -/
theorem appendCross (hB : 0 < B) {init : List (List α)} {t data : List α}
    (h : Cut B first stream (init ++ [t]))
    (hlt : stream.length / B < (stream.length + data.length) / B) :
    Cut B first (stream ++ data) (init ++ [t ++ data.take (B - stream.length % B)] ++
      pieces B (data.drop (B - stream.length % B))
        ((stream.length + data.length) / B - stream.length / B)) := by
  obtain ⟨m, hm⟩ : ∃ m, (stream.length + data.length) / B - stream.length / B = m + 1 :=
    ⟨_, (Nat.succ_pred_eq_of_pos (Nat.sub_pos_of_lt hlt)).symm⟩
  rw [hm]
  -- The arithmetic of the cut, with `q * B` and `e * B` as atoms.
  have hq := Nat.div_add_mod' stream.length B
  have hr := Nat.mod_lt stream.length hB
  have he₁ := Nat.div_mul_le_self (stream.length + data.length) B
  have he₂ := Nat.lt_div_mul_add (a := stream.length + data.length) hB
  have hmB : m * B + stream.length / B * B + B = (stream.length + data.length) / B * B := by
    rw [← Nat.add_mul, ← Nat.succ_mul]; congr 1; omega
  have ht := h.length_last
  have hfull : ∀ c ∈ init, c.length = B := by simpa using h.full
  obtain ⟨-, hfirst⟩ := h.last_eq
  refine ⟨by simp, ?_, ?_, ?_, ?_⟩
  · have hf := h.flatten_eq
    rw [List.flatten_append, List.flatten_singleton] at hf
    rw [List.flatten_append, List.flatten_append, List.flatten_singleton, flatten_pieces,
      List.append_assoc, List.append_assoc, List.take_append_drop, ← List.append_assoc, hf,
      List.drop_append_of_le_length (h.first_le)]
  · rw [List.dropLast_append_of_ne_nil _ (pieces_ne_nil B _ m)]
    intro c hc
    rcases List.mem_append.mp hc with hc | hc
    · rcases List.mem_append.mp hc with hc | hc
      · exact hfull c hc
      · rw [List.mem_singleton.mp hc, List.length_append, List.length_take]
        omega
    · exact pieces_full B _ m (by simp only [List.length_drop]; omega) c hc
  · intro c hc
    rw [List.getLast?_append, getLast?_pieces] at hc
    simp only [Option.or_some, Option.mem_def, Option.some.injEq] at hc
    subst hc
    simp only [List.length_drop]
    omega
  · simp only [List.length_append, List.length_singleton, length_pieces]
    omega

end Cut

/-! ## `Append` below `2^32 - 1` blocks -/

theorem toNat_ofNat_add_one {q : Nat} (h : q + 1 < 2 ^ 32) :
    (UInt32.ofNat q + 1).toNat = q + 1 := by
  rw [UInt32.toNat, UInt32.add_def]
  simp only [BitVec.toNat_add,
    UInt32.toBitVec_eq_of_lt (show q < UInt32.size by simp [UInt32.size]; omega)]
  simp
  omega

theorem ofNat_uint32_inj {q e : Nat} (hq : q < 2 ^ 32) (he : e < 2 ^ 32) :
    UInt32.ofNat q = UInt32.ofNat e ↔ q = e := by
  refine ⟨fun h => ?_, fun h => h ▸ rfl⟩
  have := congrArg UInt32.toNat h
  rwa [UInt32.toNat_ofNat_of_lt (by simpa [UInt32.size] using hq),
    UInt32.toNat_ofNat_of_lt (by simpa [UInt32.size] using he)] at this

theorem loopCount_of_lt {q e : Nat} (hqe : q < e) (he : e < 2 ^ 32 - 1) :
    loopCount (UInt32.ofNat q) (UInt32.ofNat e) = some (e - q) := by
  have h₁ := toNat_ofNat_add_one (q := q) (by omega)
  have h₂ : (UInt32.ofNat e).toNat = e :=
    UInt32.toNat_ofNat_of_lt (by simp [UInt32.size]; omega)
  have hle : UInt32.ofNat q + 1 ≤ UInt32.ofNat e := by
    rw [UInt32.le_def, BitVec.le_def]
    change (UInt32.ofNat q + 1).toNat ≤ (UInt32.ofNat e).toNat
    omega
  have hne : UInt32.ofNat e ≠ 0xFFFFFFFF := fun h => by
    have := congrArg UInt32.toNat h
    rw [h₂] at this
    simp at this
    omega
  simp only [loopCount, hle, hne, h₁, h₂, if_true, if_false]
  congr 1
  omega

/-- `block_list_` holds distinct pointers, all below `nextPtr`, and `tmp_storage_` is its back. -/
structure WriteBuffer.Linked (b : WriteBuffer α) : Prop where
  nodup : b.blockList.Nodup
  lt_next : ∀ q ∈ b.blockList, q < b.nextPtr
  tmp_last : b.tmpStorage = b.blockList.getLast?

namespace WriteBuffer

variable {b : WriteBuffer α}

@[simp] theorem pushNew_blockSize : b.pushNew.blockSize = b.blockSize := rfl
@[simp] theorem pushNew_offset : b.pushNew.offset = b.offset := rfl
@[simp] theorem pushNew_blockIdx : b.pushNew.blockIdx = b.blockIdx := rfl

@[simp] theorem appendTmp_blockSize (d : List α) : (b.appendTmp d).blockSize = b.blockSize := by
  unfold appendTmp; split <;> rfl
@[simp] theorem appendTmp_offset (d : List α) : (b.appendTmp d).offset = b.offset := by
  unfold appendTmp; split <;> rfl
@[simp] theorem appendTmp_blockIdx (d : List α) : (b.appendTmp d).blockIdx = b.blockIdx := by
  unfold appendTmp; split <;> rfl
theorem appendTmp_heap {p : Nat} (ht : b.tmpStorage = some p) (d : List α) :
    (b.appendTmp d).heap p = b.heap p ++ d := by
  simp [appendTmp, ht]

@[simp] theorem appendTmp_tmpStorage (d : List α) :
    (b.appendTmp d).tmpStorage = b.tmpStorage := by
  unfold appendTmp; split <;> rfl

theorem pushBlocks_fields (b : WriteBuffer α) (buf : List α) :
    ∀ n, (b.pushBlocks buf n).blockSize = b.blockSize ∧ (b.pushBlocks buf n).offset = b.offset ∧
      (b.pushBlocks buf n).blockIdx = b.blockIdx
  | 0 => ⟨rfl, rfl, rfl⟩
  | 1 => by simp [pushBlocks]
  | n + 2 => by
    have := pushBlocks_fields (b.pushNew.appendTmp (buf.take b.blockSize)) (buf.drop b.blockSize)
      (n + 1)
    simp_all [pushBlocks]

theorem Linked.pushNew (h : b.Linked) :
    b.pushNew.Linked ∧ b.blockList.map b.pushNew.heap = b.blocks ∧ b.pushNew.heap b.nextPtr = [] := by
  have fresh : b.nextPtr ∉ b.blockList := fun hn => lt_irrefl _ (h.lt_next _ hn)
  refine ⟨⟨?_, ?_, by simp [WriteBuffer.pushNew]⟩, ?_, by simp [WriteBuffer.pushNew]⟩
  · exact h.nodup.append (List.nodup_singleton _) (by simpa using fresh)
  · intro q hq
    rcases List.mem_append.mp hq with hq | hq
    · exact Nat.lt_succ_of_lt (h.lt_next q hq)
    · simp_all [WriteBuffer.pushNew]
  · exact List.map_congr_left fun q hq => Function.update_noteq (ne_of_mem_of_not_mem hq fresh) _ _

theorem Linked.appendTmp (h : b.Linked) {ptrs : List Nat} {p : Nat}
    (hl : b.blockList = ptrs ++ [p]) (d : List α) :
    (b.appendTmp d).Linked ∧ (b.appendTmp d).blockList = b.blockList ∧
      (b.appendTmp d).blocks = ptrs.map b.heap ++ [b.heap p ++ d] := by
  have ht : b.tmpStorage = some p := by rw [h.tmp_last, hl]; simp
  have hp : p ∉ ptrs := by
    have := h.nodup
    rw [hl, List.nodup_append] at this
    exact fun hp => this.2.2 hp (List.mem_singleton_self p)
  have e : b.appendTmp d = { b with heap := update b.heap p (b.heap p ++ d) } := by
    simp [WriteBuffer.appendTmp, ht]
  rw [e]
  refine ⟨⟨h.nodup, h.lt_next, h.tmp_last⟩, rfl, ?_⟩
  simp only [blocks, hl, List.map_append, List.map_singleton, Function.update_same]
  congr 1
  exact List.map_congr_left fun q hq => Function.update_noteq (ne_of_mem_of_not_mem hq hp) _ _

theorem Linked.pushNew_appendTmp (h : b.Linked) (d : List α) :
    (b.pushNew.appendTmp d).Linked ∧ (b.pushNew.appendTmp d).blocks = b.blocks ++ [d] := by
  obtain ⟨h₁, hmap, hnew⟩ := h.pushNew
  obtain ⟨h₂, -, hb₂⟩ :=
    h₁.appendTmp (show b.pushNew.blockList = b.blockList ++ [b.nextPtr] from rfl) d
  exact ⟨h₂, by rw [hb₂, hmap, hnew, List.nil_append]⟩

theorem Linked.pushBlocks {b : WriteBuffer α} (h : b.Linked) (buf : List α) :
    ∀ n, (b.pushBlocks buf n).Linked ∧
      (b.pushBlocks buf n).blocks = b.blocks ++ pieces b.blockSize buf n
  | 0 => ⟨h, by simp [WriteBuffer.pushBlocks, pieces]⟩
  | 1 => by simpa [WriteBuffer.pushBlocks, pieces] using h.pushNew_appendTmp buf
  | n + 2 => by
    obtain ⟨h₁, hb₁⟩ := h.pushNew_appendTmp (buf.take b.blockSize)
    obtain ⟨h₂, hb₂⟩ := h₁.pushBlocks (buf.drop b.blockSize) (n + 1)
    refine ⟨h₂, ?_⟩
    rw [WriteBuffer.pushBlocks, hb₂, hb₁]
    simp [pieces]

/-- A buffer that holds the bytes `stream`: linked, its blocks `stream` cut from block
`block_idx_` on, or untouched if `tmp_storage_` is `NULL`. -/
structure Holds (b : WriteBuffer α) (stream : List α) : Prop where
  pos : 0 < b.blockSize
  linked : b.Linked
  offset_eq : b.offset = stream.length
  cut : b.tmpStorage ≠ none → Cut b.blockSize b.blockIdx stream b.blocks
  fresh : b.tmpStorage = none → stream = [] ∧ b.blockList = [] ∧ b.blockIdx = 0

theorem Holds.started {b : WriteBuffer α} {stream : List α} (h : b.Holds stream) :
    ∃ ptrs p, (if b.tmpStorage = none then b.pushNew else b).blockList = ptrs ++ [p] ∧
      (if b.tmpStorage = none then b.pushNew else b).Linked ∧
      Cut b.blockSize b.blockIdx stream (if b.tmpStorage = none then b.pushNew else b).blocks := by
  by_cases ht : b.tmpStorage = none
  · obtain ⟨rfl, hl, hi⟩ := h.fresh ht
    obtain ⟨hlink, hmap, hnew⟩ := h.linked.pushNew
    refine ⟨[], b.nextPtr, by simp [ht, WriteBuffer.pushNew, hl], by simpa [ht] using hlink, ?_⟩
    simp only [ht, if_true, blocks, WriteBuffer.pushNew, hl, List.nil_append, List.map_singleton,
      Function.update_same, hi]
    exact Cut.empty h.pos
  · obtain ⟨p, hp⟩ := Option.ne_none_iff_exists'.mp ht
    obtain ⟨ptrs, hl⟩ := List.getLast?_eq_some_iff.mp (h.linked.tmp_last ▸ hp)
    exact ⟨ptrs, p, by simp [ht, hl], by simpa [ht] using h.linked, by simpa [ht] using h.cut ht⟩

theorem Linked.tmp_ne_none {b : WriteBuffer α} (h : b.Linked) (hne : b.blocks ≠ []) :
    b.tmpStorage ≠ none := by
  rw [h.tmp_last]
  simpa [blocks] using hne

theorem Holds.of_cut {X : WriteBuffer α} {s : List α} {B first o : Nat} (hl : X.Linked)
    (hB : 0 < B) (hXB : X.blockSize = B) (hXi : X.blockIdx = first) (ho : o = s.length)
    (hcut : Cut B first s X.blocks) : ({ X with offset := o } : WriteBuffer α).Holds s where
  pos := hXB ▸ hB
  linked := ⟨hl.1, hl.2, hl.3⟩
  offset_eq := ho
  cut _ := hXB ▸ hXi ▸ hcut
  fresh h := absurd h (hl.tmp_ne_none hcut.ne_nil)

/-- `Append` while the stream stays below `2^32 - 1` blocks: it returns, and the buffer holds
the stream with `data` after it. -/
theorem Holds.append {b : WriteBuffer α} {stream : List α} (h : b.Holds stream) (data : List α)
    (hbound : (stream ++ data).length < (2 ^ 32 - 1) * b.blockSize) :
    ∃ b', b.append data = some b' ∧ b'.Holds (stream ++ data) ∧ b'.tmpStorage ≠ none ∧
      b'.blockSize = b.blockSize ∧ b'.blockIdx = b.blockIdx := by
  obtain ⟨ptrs, p, hl, hlink, hcut⟩ := h.started
  have hB := h.pos
  have hfields : (if b.tmpStorage = none then b.pushNew else b).blockSize = b.blockSize ∧
      (if b.tmpStorage = none then b.pushNew else b).offset = b.offset ∧
      (if b.tmpStorage = none then b.pushNew else b).blockIdx = b.blockIdx := by
    split <;> simp
  simp only [WriteBuffer.append]
  generalize (if b.tmpStorage = none then b.pushNew else b) = b₀ at hl hlink hcut hfields
  obtain ⟨hbs, hbo, hbi⟩ := hfields
  rw [hbs, hbo, h.offset_eq]
  rw [show b₀.blocks = ptrs.map b₀.heap ++ [b₀.heap p] by simp [blocks, hl]] at hcut
  rw [List.length_append] at hbound
  have he : (stream.length + data.length) / b.blockSize < 2 ^ 32 - 1 :=
    (Nat.div_lt_iff_lt_mul hB).mpr hbound
  have hq : stream.length / b.blockSize ≤ (stream.length + data.length) / b.blockSize :=
    Nat.div_le_div_right (Nat.le_add_right _ _)
  have ht : b₀.tmpStorage ≠ none := by rw [hlink.tmp_last, hl]; simp
  by_cases hqe : stream.length / b.blockSize = (stream.length + data.length) / b.blockSize
  · -- The bytes stay in the back block.
    rw [if_pos ((ofNat_uint32_inj (by omega) (by omega)).mpr hqe)]
    obtain ⟨hlink', -, hblocks'⟩ := hlink.appendTmp hl data
    have hcut' := hcut.appendSame hB hqe.symm
    rw [← hblocks'] at hcut'
    exact ⟨_, rfl, Holds.of_cut hlink' hB (by simp [hbs]) (by simp [hbi]) (by simp) hcut',
      by simpa using ht, by simp [hbs], by simp [hbi]⟩
  · -- The back block is filled and the loop pushes `end - begin` more.
    rw [if_neg (mt (ofNat_uint32_inj (by omega) (by omega)).mp hqe),
      loopCount_of_lt (by omega) he]
    obtain ⟨hlink', -, hblocks'⟩ :=
      hlink.appendTmp hl (data.take (b.blockSize - stream.length % b.blockSize))
    obtain ⟨hlink'', hblocks''⟩ := hlink'.pushBlocks
      (data.drop (b.blockSize - stream.length % b.blockSize))
      ((stream.length + data.length) / b.blockSize - stream.length / b.blockSize)
    obtain ⟨hf₁, -, hf₃⟩ := pushBlocks_fields
      (b₀.appendTmp (data.take (b.blockSize - stream.length % b.blockSize)))
      (data.drop (b.blockSize - stream.length % b.blockSize))
      ((stream.length + data.length) / b.blockSize - stream.length / b.blockSize)
    simp only [appendTmp_blockSize, appendTmp_blockIdx, hbs, hbi] at hf₁ hf₃ hblocks''
    have hcut' := hcut.appendCross hB (lt_of_le_of_ne hq hqe)
    rw [← hblocks', ← hblocks''] at hcut'
    exact ⟨_, rfl, Holds.of_cut hlink'' hB hf₁ hf₃ (by simp) hcut',
      hlink''.tmp_ne_none hcut'.ne_nil, by simp [hf₁], by simp [hf₃]⟩

theorem numFullBlock_eq (b : WriteBuffer α) : b.numFullBlock =
    match b.blocks.getLast? with
    | none => 0
    | some c => if c.length < b.blockSize then b.blocks.length - 1 else b.blocks.length := by
  unfold numFullBlock blocks
  rw [List.getLast?_map]
  cases b.blockList.getLast? <;> simp

theorem numFullBlock_of_cut {b : WriteBuffer α} {B first : Nat} {s : List α} (hB : b.blockSize = B)
    (h : Cut B first s b.blocks) : b.numFullBlock = b.blocks.length - 1 := by
  rw [numFullBlock_eq]
  cases hl : b.blocks.getLast? with
  | none => simp [List.getLast?_eq_none_iff.mp hl]
  | some c => simp [h.last_lt c hl, hB]

theorem numFullBlock_of_full {b : WriteBuffer α} (h : ∀ c ∈ b.blocks, c.length = b.blockSize) :
    b.numFullBlock = b.blocks.length := by
  rw [numFullBlock_eq]
  cases hl : b.blocks.getLast? with
  | none => simp [List.getLast?_eq_none_iff.mp hl]
  | some c => simp [h c (List.mem_of_getLast?_eq_some hl)]

theorem popFrontBlock_some {b b' : WriteBuffer α} {blk : Nat × List α}
    (h : b.popFrontBlock = (some blk, b')) : ∃ c rest, b.blocks = c :: rest ∧ c.length = b.blockSize ∧
      blk = (b.blockIdx, c) ∧ b'.blocks = rest ∧ b'.blockIdx = b.blockIdx + 1 ∧
      b'.blockSize = b.blockSize ∧ b'.offset = b.offset ∧ b'.tmpStorage = b.tmpStorage ∧
      b'.nextPtr = b.nextPtr ∧ b'.blockList = b.blockList.tail := by
  unfold popFrontBlock at h
  split at h
  · cases h
  · next p rest hl =>
    split at h
    · cases h
    · next hc =>
      cases h
      exact ⟨_, _, by simp [blocks, hl], not_not.mp hc, rfl, rfl, rfl, rfl, rfl, rfl, rfl,
        by simp [hl]⟩

theorem popBackBlock_of_last {b : WriteBuffer α} {ptrs : List Nat} {p : Nat}
    (hl : b.blockList = ptrs ++ [p]) :
    b.popBackBlock = (some (b.offset / b.blockSize, b.heap p), { b with blockList := ptrs }) := by
  simp [WriteBuffer.popBackBlock, hl]

theorem numFullBlock_popFront {b b' : WriteBuffer α} {c : List α} {rest : List (List α)}
    (hb : b.blocks = c :: rest) (hc : c.length = b.blockSize) (hb' : b'.blocks = rest)
    (hs : b'.blockSize = b.blockSize) : b.numFullBlock = b'.numFullBlock + 1 := by
  rw [numFullBlock_eq, numFullBlock_eq, hb, hb', hs]
  cases rest with
  | nil => simp [hc]
  | cons d rest =>
    rw [List.getLast?_cons_cons]
    cases hl : (d :: rest).getLast? with
    | none => simp at hl
    | some x => simp only [List.length_cons]; split <;> omega

theorem append_blockSize {b b' : WriteBuffer α} {d : List α} (h : b.append d = some b') :
    b'.blockSize = b.blockSize := by
  have hb : (if b.tmpStorage = none then b.pushNew else b).blockSize = b.blockSize := by
    split <;> rfl
  simp only [WriteBuffer.append] at h
  generalize (if b.tmpStorage = none then b.pushNew else b) = b₀ at h hb
  split at h
  · cases h; simpa using hb
  · obtain ⟨n, -, rfl⟩ := Option.map_eq_some'.mp h
    simpa [(pushBlocks_fields _ _ n).1] using hb

@[simp] theorem popFrontBlock_blockSize (b : WriteBuffer α) :
    b.popFrontBlock.2.blockSize = b.blockSize := by
  unfold popFrontBlock; split
  · rfl
  · split <;> rfl

@[simp] theorem popBackBlock_blockSize (b : WriteBuffer α) :
    b.popBackBlock.2.blockSize = b.blockSize := by
  unfold popBackBlock; split <;> rfl

end WriteBuffer

/-! ## What every run below `2^32 - 1` blocks keeps -/

namespace WritableFile

variable {f g : WritableFile α}

def tail (f : WritableFile α) : List (List α) := (f.closeBlock.map Prod.snd).toList

@[simp] theorem maybeScheduleBGFlush_fields :
    f.maybeScheduleBGFlush.buffer = f.buffer ∧ f.maybeScheduleBGFlush.pendingBlockNum = f.pendingBlockNum ∧
      f.maybeScheduleBGFlush.writer = f.writer ∧ f.maybeScheduleBGFlush.stream = f.stream ∧
      f.maybeScheduleBGFlush.flushed = f.flushed ∧ f.maybeScheduleBGFlush.closeBlock = f.closeBlock := by
  simp only [maybeScheduleBGFlush]; split <;> simp

/-- `MaybeScheduleBGFlush` counts each task it schedules in `bg_block_flush_`, and stops once
that covers the full blocks and the blocks in `FillCache`. -/
theorem maybeScheduleBGFlush_counts (h : f.bgBlockFlush = f.scheduled + f.pendingBlockNum) :
    f.maybeScheduleBGFlush.bgBlockFlush = f.maybeScheduleBGFlush.scheduled + f.pendingBlockNum ∧
      f.buffer.numFullBlock + f.pendingBlockNum ≤ f.maybeScheduleBGFlush.bgBlockFlush := by
  simp only [maybeScheduleBGFlush]
  split
  · exact ⟨by dsimp only; omega, by dsimp only; omega⟩
  · exact ⟨h, by omega⟩

/-- What every state of a run below `2^32 - 1` blocks satisfies. The blocks not yet handed over,
with the one `Close` took, are the stream cut from block `block_idx_` on; `BGFlush` handed over
the blocks before it, in order; `bg_block_flush_` counts the queued tasks and those in
`FillCache`, and except between `write_buffer_.Append` and `MaybeScheduleBGFlush` it covers the
full blocks too. -/
structure Inv (f : WritableFile α) : Prop where
  pos : 0 < f.buffer.blockSize
  offset_eq : f.buffer.offset = f.stream.length
  fresh : f.buffer.tmpStorage = none →
    f.stream = [] ∧ f.buffer.blockList = [] ∧ f.buffer.blockIdx = 0 ∧ f.closeBlock = none
  cut : f.buffer.tmpStorage ≠ none →
    Cut f.buffer.blockSize f.buffer.blockIdx f.stream (f.buffer.blocks ++ f.tail)
  opened : f.writer = .idle ∨ f.writer = .appended → f.buffer.Linked ∧ f.closeBlock = none
  taken : f.writer = .closing ∨ f.writer = .closed → f.buffer.tmpStorage ≠ none →
    f.closeBlock ≠ none
  close_idx : ∀ blk ∈ f.closeBlock, blk.1 = f.stream.length / f.buffer.blockSize
  flushed_eq : f.flushed =
    (List.range f.buffer.blockIdx).map fun i => (i, chunk f.buffer.blockSize f.stream i)
  tasks : f.bgBlockFlush = f.scheduled + f.pendingBlockNum
  enough : f.writer ≠ .appended → f.buffer.numFullBlock + f.pendingBlockNum ≤ f.bgBlockFlush
  closed_idle : f.writer = .closed → f.bgBlockFlush = 0

theorem inv_init {B : Nat} (hB : 0 < B) : (init B : WritableFile α).Inv where
  pos := hB
  offset_eq := rfl
  fresh _ := ⟨rfl, rfl, rfl, rfl⟩
  cut h := absurd rfl h
  opened _ := ⟨⟨List.nodup_nil, by simp [init, WriteBuffer.init], rfl⟩, rfl⟩
  taken h := by simp [init] at h
  close_idx _ h := by cases h
  flushed_eq := rfl
  tasks := rfl
  enough _ := by simp [init, WriteBuffer.init, WriteBuffer.numFullBlock]
  closed_idle h := by cases h

theorem Inv.holds (hi : f.Inv) (hw : f.writer = .idle ∨ f.writer = .appended) :
    f.buffer.Holds f.stream where
  pos := hi.pos
  linked := (hi.opened hw).1
  offset_eq := hi.offset_eq
  cut ht := by simpa [tail, (hi.opened hw).2] using hi.cut ht
  fresh ht := (hi.fresh ht).elim fun h₁ h₂ => ⟨h₁, h₂.1, h₂.2.1⟩

theorem Inv.first_le (hi : f.Inv) : f.buffer.blockIdx * f.buffer.blockSize ≤ f.stream.length := by
  by_cases ht : f.buffer.tmpStorage = none
  · simp [(hi.fresh ht).2.2.1]
  · exact (hi.cut ht).first_le

theorem chunks_append {B k : Nat} {s : List α} (hk : k * B ≤ s.length) (d : List α) :
    (List.range k).map (fun i => (i, chunk B (s ++ d) i)) =
      (List.range k).map fun i => (i, chunk B s i) :=
  List.map_congr_left fun i hi => by
    rw [chunk_append (le_trans (Nat.mul_le_mul_right B (List.mem_range.mp hi)) hk)]

/-- A step that leaves the buffer, the stream and the handed-over blocks alone, and moves the
owner thread at most from `appended` to `idle` or from `closing` to `closed`, keeps the
invariant if it keeps the task counts. -/
theorem Inv.of_counters (hi : f.Inv) (hbuf : g.buffer = f.buffer) (hs : g.stream = f.stream)
    (hfl : g.flushed = f.flushed) (hc : g.closeBlock = f.closeBlock)
    (hw : g.writer = f.writer ∨ (f.writer = .appended ∧ g.writer = .idle) ∨
      (f.writer = .closing ∧ g.writer = .closed))
    (ht : g.bgBlockFlush = g.scheduled + g.pendingBlockNum)
    (he : g.writer ≠ .appended → g.buffer.numFullBlock + g.pendingBlockNum ≤ g.bgBlockFlush)
    (hz : g.writer = .closed → g.bgBlockFlush = 0) : g.Inv := by
  have hopen : g.writer = .idle ∨ g.writer = .appended → f.writer = .idle ∨ f.writer = .appended := by
    rcases hw with h | ⟨h₁, -⟩ | ⟨h₁, h₂⟩
    · rw [h]; exact id
    · exact fun _ => .inr h₁
    · rw [h₂]; rintro (h | h) <;> cases h
  have hclose : g.writer = .closing ∨ g.writer = .closed →
      f.writer = .closing ∨ f.writer = .closed := by
    rcases hw with h | ⟨-, h₂⟩ | ⟨h₁, -⟩
    · rw [h]; exact id
    · rw [h₂]; rintro (h | h) <;> cases h
    · exact fun _ => .inl h₁
  obtain ⟨buffer, bg, pend, sch, writer, stream, flushed, closeBlock⟩ := g
  simp only at hbuf hs hfl hc
  subst hbuf hs hfl hc
  exact { hi with
    opened := fun h => hi.opened (hopen h)
    taken := fun h => hi.taken (hclose h)
    tasks := ht
    enough := he
    closed_idle := hz }

theorem inv_append (hi : f.Inv) {d : List α} (h : f.step (.append d) = some g)
    (hb : g.stream.length < (2 ^ 32 - 1) * f.buffer.blockSize) : g.Inv := by
  simp only [step] at h
  split at h
  next hw =>
    obtain ⟨b', hb', rfl⟩ := Option.map_eq_some'.mp h
    obtain ⟨b'', hb'', hh, ht, hbs, hbi⟩ := (hi.holds (.inl hw)).append d hb
    rw [hb'] at hb''
    cases hb''
    have hc := (hi.opened (.inl hw)).2
    exact {
      pos := hh.pos
      offset_eq := hh.offset_eq
      fresh := fun h' => absurd h' ht
      cut := fun _ => by simpa [tail, hc] using hh.cut ht
      opened := fun _ => ⟨hh.linked, hc⟩
      taken := fun h' => by rcases h' with h' | h' <;> cases h'
      close_idx := fun _ h' => by simp [hc] at h'
      flushed_eq := by
        rw [hi.flushed_eq, hbs, hbi]
        exact (chunks_append hi.first_le d).symm
      tasks := hi.tasks
      enough := fun h' => absurd rfl h'
      closed_idle := fun h' => by cases h' }
  next => cases h

theorem inv_schedule (hi : f.Inv) (h : f.step .schedule = some g) : g.Inv := by
  simp only [step] at h
  split at h
  next hw =>
    cases h
    obtain ⟨hb, hp, -, hs, hfl, hc⟩ := maybeScheduleBGFlush_fields (f := f)
    obtain ⟨ht, he⟩ := maybeScheduleBGFlush_counts hi.tasks
    exact hi.of_counters hb hs hfl hc (.inr (.inl ⟨hw, rfl⟩)) (by simpa [hp] using ht)
      (fun _ => by simpa [hb, hp] using he) fun h' => by cases h'
  next => cases h

theorem inv_closeReturn (hi : f.Inv) (h : f.step .closeReturn = some g) : g.Inv := by
  simp only [step] at h
  split at h
  next hw =>
    cases h
    exact hi.of_counters rfl rfl rfl rfl (.inr (.inr ⟨hw.1, rfl⟩)) hi.tasks
      (fun _ => hi.enough (by rw [hw.1]; exact fun h => by cases h)) fun _ => hw.2
  next => cases h

theorem Inv.reschedule (hi : f.Inv) (sch pend : Nat) (hpos : 0 < f.bgBlockFlush)
    (ht : f.bgBlockFlush - 1 = sch + pend) :
    ({ f with scheduled := sch, pendingBlockNum := pend, bgBlockFlush := f.bgBlockFlush - 1 }
      : WritableFile α).maybeScheduleBGFlush.Inv := by
  obtain ⟨hb, hp, hw, hs, hfl, hc⟩ := maybeScheduleBGFlush_fields
    (f := { f with scheduled := sch, pendingBlockNum := pend, bgBlockFlush := f.bgBlockFlush - 1 })
  obtain ⟨ht', he⟩ := maybeScheduleBGFlush_counts
    (f := { f with scheduled := sch, pendingBlockNum := pend, bgBlockFlush := f.bgBlockFlush - 1 }) ht
  exact hi.of_counters hb hs hfl hc (.inl hw) (by simpa [hp] using ht')
    (fun _ => by simpa [hb, hp] using he) fun h' => by
      rw [hw] at h'
      exact absurd (hi.closed_idle h') (Nat.pos_iff_ne_zero.mp hpos)

theorem inv_bgFinish (hi : f.Inv) (h : f.step .bgFinish = some g) : g.Inv := by
  simp only [step] at h
  split at h
  next hp =>
    cases h
    exact hi.reschedule _ _ (by have := hi.tasks; omega) (by have := hi.tasks; omega)
  next => cases h

theorem inv_close (hi : f.Inv) (h : f.step .close = some g) : g.Inv := by
  simp only [step] at h
  split at h
  next hw =>
    cases h
    obtain ⟨hlink, hc⟩ := hi.opened (.inl hw)
    by_cases ht : f.buffer.tmpStorage = none
    · -- No `Append` reached the buffer: there is no block to take.
      obtain ⟨hs, hl, hidx, -⟩ := hi.fresh ht
      have hpop : f.buffer.popBackBlock = (none, f.buffer) := by
        simp [WriteBuffer.popBackBlock, hl]
      rw [hpop]
      dsimp only
      rw [← hc]
      exact { hi with
        opened := fun h' => by rcases h' with h' | h' <;> cases h'
        taken := fun _ h' => absurd ht h'
        enough := fun _ => hi.enough (by rw [hw]; exact fun h => by cases h)
        closed_idle := fun h' => by cases h' }
    · obtain ⟨p, hp⟩ := Option.ne_none_iff_exists'.mp ht
      obtain ⟨ptrs, hl⟩ := List.getLast?_eq_some_iff.mp (hlink.tmp_last ▸ hp)
      rw [WriteBuffer.popBackBlock_of_last hl]
      have hcut := hi.cut ht
      simp only [tail, hc, Option.map_none', Option.toList_none, List.append_nil] at hcut
      have hblocks : f.buffer.blocks = ptrs.map f.buffer.heap ++ [f.buffer.heap p] := by
        simp [WriteBuffer.blocks, hl]
      have hfull : ∀ c ∈ ptrs.map f.buffer.heap, c.length = f.buffer.blockSize := by
        have := hcut.full
        rwa [hblocks, List.dropLast_concat] at this
      exact {
        pos := hi.pos
        offset_eq := hi.offset_eq
        fresh := fun h' => absurd h' ht
        cut := fun _ => by
          simpa [tail, WriteBuffer.blocks, hl] using hcut
        opened := fun h' => by rcases h' with h' | h' <;> cases h'
        taken := fun _ _ => by simp
        close_idx := fun blk h' => by
          simp only [Option.mem_def, Option.some.injEq] at h'
          subst h'
          simp [hi.offset_eq]
        flushed_eq := hi.flushed_eq
        tasks := hi.tasks
        enough := fun _ => by
          have he := hi.enough (by rw [hw]; exact fun h => by cases h)
          rw [WriteBuffer.numFullBlock_of_cut rfl hcut, hblocks] at he
          rw [WriteBuffer.numFullBlock_of_full (b := { f.buffer with blockList := ptrs }) hfull]
          simpa [WriteBuffer.blocks] using he
        closed_idle := fun h' => by cases h' }
  next => cases h

theorem getLast?_tail {β : Type} : ∀ {l : List β}, l.tail ≠ [] → l.tail.getLast? = l.getLast?
  | [], h => absurd rfl h
  | _ :: t, h => by
    simp only [List.tail_cons] at h ⊢
    obtain ⟨x, hx⟩ := Option.isSome_iff_exists.mp (List.getLast?_isSome.mpr h)
    simp [List.getLast?_cons, hx]

theorem inv_bgStart (hi : f.Inv) (h : f.step .bgStart = some g) : g.Inv := by
  simp only [step] at h
  split at h
  next hsch =>
    split at h
    next blk b' hpop =>
      -- `PopFrontBlock` took the front block: block `block_idx_` of the stream.
      cases h
      obtain ⟨c, rest, hb, hc, rfl, hb', hidx, hbs, hbo, hbt, hbn, hbl⟩ :=
        WriteBuffer.popFrontBlock_some hpop
      have ht : f.buffer.tmpStorage ≠ none := fun ht => by
        simp [WriteBuffer.blocks, (hi.fresh ht).2.1] at hb
      have hcut := hi.cut ht
      rw [hb, List.cons_append] at hcut
      obtain ⟨hchunk, hne, hcut'⟩ := hcut.popFront hc
      exact {
        pos := hbs ▸ hi.pos
        offset_eq := hbo ▸ hi.offset_eq
        fresh := fun h' => absurd (hbt ▸ h') ht
        cut := fun _ => by rw [hbs, hidx, hb']; exact hcut'
        opened := fun hw => by
          obtain ⟨hlink, hcl⟩ := hi.opened hw
          have hrest : b'.blockList ≠ [] := fun hnil => by
            simp [tail, hcl, ← hb', WriteBuffer.blocks, hnil] at hne
          refine ⟨⟨?_, fun q hq => ?_, ?_⟩, hcl⟩
          · rw [hbl]; exact hlink.nodup.sublist (List.tail_sublist _)
          · rw [hbl] at hq; rw [hbn]; exact hlink.lt_next q (List.mem_of_mem_tail hq)
          · rw [hbt, hlink.tmp_last, ← getLast?_tail (hbl ▸ hrest), hbl]
        taken := fun hw h' => hi.taken hw (hbt ▸ h')
        close_idx := by rw [hbs]; exact hi.close_idx
        flushed_eq := by
          show f.flushed ++ [(f.buffer.blockIdx, c)] =
            (List.range b'.blockIdx).map fun i => (i, chunk b'.blockSize f.stream i)
          rw [hidx, hbs, List.range_succ, List.map_append, ← hi.flushed_eq, hchunk]
          rfl
        tasks := by have := hi.tasks; dsimp only; omega
        enough := fun hw => by
          have := hi.enough hw
          rw [WriteBuffer.numFullBlock_popFront hb hc hb' hbs] at this
          dsimp only
          omega
        closed_idle := fun hw => by
          have := hi.closed_idle hw
          have := hi.tasks
          omega }
    next b' hpop =>
      -- No full block: the task ends at once.
      cases h
      exact hi.reschedule (f.scheduled - 1) f.pendingBlockNum (by have := hi.tasks; omega)
        (by have := hi.tasks; omega)
  next => cases h

theorem inv_step (hi : f.Inv) {a : Action α} (h : f.step a = some g)
    (hb : g.stream.length < (2 ^ 32 - 1) * f.buffer.blockSize) : g.Inv := by
  cases a with
  | append _ => exact inv_append hi h hb
  | schedule => exact inv_schedule hi h
  | close => exact inv_close hi h
  | closeReturn => exact inv_closeReturn hi h
  | bgStart => exact inv_bgStart hi h
  | bgFinish => exact inv_bgFinish hi h

theorem step_mono {a : Action α} (h : f.step a = some g) :
    g.buffer.blockSize = f.buffer.blockSize ∧ f.stream <+: g.stream := by
  cases a with
  | append d =>
    simp only [step] at h
    split at h
    · obtain ⟨b', hb', rfl⟩ := Option.map_eq_some'.mp h
      exact ⟨WriteBuffer.append_blockSize hb', List.prefix_append _ _⟩
    · cases h
  | bgStart =>
    simp only [step] at h
    split at h
    · split at h
      · next hpop =>
        cases h
        exact ⟨by simpa [hpop] using f.buffer.popFrontBlock_blockSize, List.prefix_refl _⟩
      · cases h; simp
    · cases h
  | _ =>
    simp only [step] at h
    split at h
    · cases h; simp
    · cases h

theorem run_mono : ∀ {as : List (Action α)} {f g : WritableFile α}, f.run as = some g →
    g.buffer.blockSize = f.buffer.blockSize ∧ f.stream <+: g.stream
  | [], _, _, h => by cases h; exact ⟨rfl, List.prefix_refl _⟩
  | _ :: _, _, _, h => by
    obtain ⟨f₁, h₁, h⟩ := Option.bind_eq_some.mp h
    obtain ⟨hs₁, hp₁⟩ := step_mono h₁
    obtain ⟨hs, hp⟩ := run_mono h
    exact ⟨hs.trans hs₁, hp₁.trans hp⟩

theorem inv_run : ∀ {as : List (Action α)} {f g : WritableFile α}, f.Inv → f.run as = some g →
    g.stream.length < (2 ^ 32 - 1) * f.buffer.blockSize → g.Inv
  | [], _, _, hi, h, _ => by cases h; exact hi
  | _ :: _, _, _, hi, h, hb => by
    obtain ⟨f₁, h₁, h⟩ := Option.bind_eq_some.mp h
    obtain ⟨hs₁, -⟩ := step_mono h₁
    obtain ⟨-, hp⟩ := run_mono h
    exact inv_run (inv_step hi h₁ (lt_of_le_of_lt hp.length_le hb)) h (hs₁ ▸ hb)

/-- The block `Close` handed over is the last block of the stream, and every block still in the
buffer is full. -/
theorem Inv.closeBlock_eq (hi : f.Inv) {blk : Nat × List α} (hc : f.closeBlock = some blk) :
    blk = (f.stream.length / f.buffer.blockSize,
      f.stream.drop (f.stream.length / f.buffer.blockSize * f.buffer.blockSize)) ∧
    (∀ c ∈ f.buffer.blocks, c.length = f.buffer.blockSize) ∧
    f.buffer.blockIdx + f.buffer.blocks.length = f.stream.length / f.buffer.blockSize := by
  have ht : f.buffer.tmpStorage ≠ none := fun ht => by simp [(hi.fresh ht).2.2.2] at hc
  have hcut := hi.cut ht
  simp only [tail, hc, Option.map_some', Option.toList_some] at hcut
  obtain ⟨hlast, hlen⟩ := hcut.last_eq
  have hfull := hcut.full
  rw [List.dropLast_concat] at hfull
  refine ⟨?_, hfull, hlen⟩
  rw [← hlast, Prod.ext_iff]
  exact ⟨hi.close_idx blk hc, rfl⟩

theorem Inv.mem_flushed (hi : f.Inv) {i : Nat} {c : List α} (h : (i, c) ∈ f.flushed) :
    c = chunk f.buffer.blockSize f.stream i ∧ (i + 1) * f.buffer.blockSize ≤ f.stream.length := by
  rw [hi.flushed_eq] at h
  obtain ⟨j, hj, hji⟩ := List.mem_map.mp h
  simp only [Prod.mk.injEq] at hji
  obtain ⟨rfl, rfl⟩ := hji
  exact ⟨rfl, (Nat.mul_le_mul_right _ (List.mem_range.mp hj)).trans hi.first_le⟩

theorem map_fst_flushed (hi : f.Inv) : f.flushed.map Prod.fst = List.range f.buffer.blockIdx := by
  rw [hi.flushed_eq, List.map_map]
  exact List.map_id' _

theorem run_append (f : WritableFile α) :
    ∀ as bs : List (Action α), f.run (as ++ bs) = (f.run as).bind (·.run bs)
  | [], _ => rfl
  | a :: as, bs => by
    simp only [List.cons_append, run]
    cases f.step a with
    | none => rfl
    | some f' => exact run_append f' as bs

theorem run_append_schedule {d : List α} {b : WriteBuffer α} (hw : f.writer = .idle)
    (hb : f.buffer.append d = some b) :
    ∃ g, f.run [.append d, .schedule] = some g ∧ g.buffer = b ∧ g.writer = .idle ∧
      g.stream = f.stream ++ d ∧ g.closeBlock = f.closeBlock := by
  refine ⟨{ ({ f with buffer := b, writer := .appended, stream := f.stream ++ d } : WritableFile α)
    |>.maybeScheduleBGFlush with writer := .idle }, ?_, maybeScheduleBGFlush_fields.1, rfl,
    maybeScheduleBGFlush_fields.2.2.2.1, maybeScheduleBGFlush_fields.2.2.2.2.2⟩
  simp only [run, step, hw, ↓reduceIte, hb, Option.map_some', Option.some_bind]

/-- After `2^32 - 2` full blocks of 4096 bytes the indices `begin` and `end` of the next
`Append` wrap. -/
theorem append_past_uint32_blocks_of_length {d₁ d₂ e : List α}
    (h₁ : d₁.length = (2 ^ 32 - 2) * 4096) (h₂ : d₂.length = 4096) (he : e.length = 2 * 4096) :
    (∃ f, (init 4096).run [.append d₁, .schedule] = some f ∧ f.step (.append d₂) = none) ∧
    ∃ f, (init 4096).run [.append d₁, .schedule, .append e, .schedule, .close] = some f ∧
      f.stream.length = 2 ^ 32 * 4096 ∧ f.closeBlock = some (2 ^ 32, e.take 4096) := by
  obtain ⟨b₁, hb₁, hh₁, ht₁, hbs₁, -⟩ := ((inv_init (α := α) (B := 4096) (by decide)).holds
    (.inl rfl)).append d₁
    (by show ([] ++ d₁).length < (2 ^ 32 - 1) * 4096; rw [List.nil_append, h₁]; decide)
  obtain ⟨f₁, hrun₁, hbuf₁, hw₁, hs₁, -⟩ := run_append_schedule (f := init 4096) rfl hb₁
  have hs₀ : (init 4096 : WritableFile α).stream = [] := rfl
  rw [hs₀, List.nil_append] at hh₁ hs₁
  have hoff : b₁.offset = (2 ^ 32 - 2) * 4096 := by rw [hh₁.offset_eq, h₁]
  have hbs : b₁.blockSize = 4096 := hbs₁
  obtain ⟨p, hp⟩ := Option.ne_none_iff_exists'.mp ht₁
  obtain ⟨ptrs, hl⟩ := List.getLast?_eq_some_iff.mp (hh₁.linked.tmp_last ▸ hp)
  -- The back block is empty: the first `Append` ended on a block boundary.
  have hp_nil : b₁.heap p = [] := by
    have hcut := hh₁.cut ht₁
    rw [show b₁.blocks = ptrs.map b₁.heap ++ [b₁.heap p] by simp [WriteBuffer.blocks, hl]] at hcut
    rw [hcut.last_eq.1, hbs, h₁]
    exact List.drop_eq_nil_of_le (by omega)
  have hpre : (if b₁.tmpStorage = none then b₁.pushNew else b₁) = b₁ := by simp [hp]
  refine ⟨⟨f₁, hrun₁, ?_⟩, ?_⟩
  · -- `end` is `UINT32_MAX`: the loop never ends.
    have hnone : b₁.append d₂ = none := by
      simp only [WriteBuffer.append, hpre, hoff, hbs, h₂]
      rw [if_neg (by decide),
        show loopCount (UInt32.ofNat ((2 ^ 32 - 2) * 4096 / 4096))
          (UInt32.ofNat (((2 ^ 32 - 2) * 4096 + 4096) / 4096)) = none by decide]
      rfl
    simp only [step, hw₁, ↓reduceIte, hbuf₁, hnone, Option.map_none']
  · -- `end` wraps to 0: the loop does not run and the second block is lost.
    have hsome : b₁.append e = some { b₁.appendTmp (e.take 4096) with
        offset := (2 ^ 32 - 2) * 4096 + e.length } := by
      simp only [WriteBuffer.append, hpre, hoff, hbs, he]
      rw [if_neg (by decide),
        show loopCount (UInt32.ofNat ((2 ^ 32 - 2) * 4096 / 4096))
          (UInt32.ofNat (((2 ^ 32 - 2) * 4096 + 2 * 4096) / 4096)) = some 0 by decide]
      rfl
    obtain ⟨f₂, hrun₂, hbuf₂, hw₂, hs₂, -⟩ := run_append_schedule (f := f₁) hw₁ (hbuf₁ ▸ hsome)
    have hlist : (b₁.appendTmp (e.take 4096)).blockList = ptrs ++ [p] := by
      rw [(hh₁.linked.appendTmp hl _).2.1, hl]
    refine ⟨{ f₂ with
      buffer := f₂.buffer.popBackBlock.2
      closeBlock := f₂.buffer.popBackBlock.1
      writer := .closing }, ?_, ?_, ?_⟩
    · rw [show [Action.append d₁, .schedule, .append e, .schedule, .close] =
        [.append d₁, .schedule] ++ ([.append e, .schedule] ++ [.close]) from rfl, run_append,
        hrun₁, Option.some_bind, run_append, hrun₂, Option.some_bind]
      simp only [run, step, hw₂, ↓reduceIte, Option.some_bind]
    · have hsum : (2 ^ 32 - 2) * 4096 + 2 * 4096 = 2 ^ 32 * 4096 := by decide
      show f₂.stream.length = _
      rw [hs₂, hs₁, List.length_append, h₁, he, hsum]
    · show f₂.buffer.popBackBlock.1 = _
      rw [hbuf₁] at hbuf₂
      dsimp only at hbuf₂
      have hlist' : f₂.buffer.blockList = ptrs ++ [p] := by rw [hbuf₂]; exact hlist
      rw [WriteBuffer.popBackBlock_of_last hlist', hbuf₂]
      simp only [WriteBuffer.appendTmp_blockSize, hbs, WriteBuffer.appendTmp_heap hp, hp_nil,
        List.nil_append, he, Nat.reduceMul, Nat.reducePow, Nat.reduceSub, Nat.reduceAdd,
        Nat.reduceDiv]

end WritableFile

/-- Below `2^32 - 1` blocks, under any interleaving of the `BGFlush` tasks with the `Append`s and
`Close`: every block handed to `FillCache` has an index `i` and the stream's bytes from
`i * block_size_` on; every block but the one `Close` took has `block_size_` bytes; no index is
handed over twice; and once `Close` returns no full block is left in the buffer and the blocks
handed over, in order, are the whole stream. -/
theorem writableFile_hands_over_stream {B : Nat} (hB : 0 < B) {as : List (Action α)}
    {f : WritableFile α} (h : (WritableFile.init B).run as = some f)
    (hbound : f.stream.length < (2 ^ 32 - 1) * B) :
    (∀ i c, (i, c) ∈ f.flushed ++ f.closeBlock.toList → c <+: f.stream.drop (i * B)) ∧
      (∀ i c, (i, c) ∈ f.flushed → c.length = B) ∧
      ((f.flushed ++ f.closeBlock.toList).map Prod.fst).Nodup ∧
      (f.writer = .closed → f.buffer.numFullBlock = 0 ∧
        ((f.flushed ++ f.closeBlock.toList).map Prod.snd).flatten = f.stream) := by
  have hbs : f.buffer.blockSize = B := (WritableFile.run_mono h).1
  have hi := WritableFile.inv_run (WritableFile.inv_init hB) h hbound
  subst hbs
  refine ⟨fun i c hic => ?_, fun i c hic => ?_, ?_, fun hw => ?_⟩
  · rcases List.mem_append.mp hic with hic | hic
    · rw [(hi.mem_flushed hic).1]
      exact List.take_prefix _ _
    · obtain ⟨hblk, -, -⟩ := hi.closeBlock_eq (Option.mem_toList.mp hic)
      simp only [Prod.mk.injEq] at hblk
      simp only [hblk.1, hblk.2, List.prefix_refl]
  · obtain ⟨rfl, hle⟩ := hi.mem_flushed hic
    exact length_chunk hle
  · rw [List.map_append, WritableFile.map_fst_flushed hi]
    cases hc : f.closeBlock with
    | none => simpa using List.nodup_range _
    | some blk =>
      obtain ⟨rfl, -, hlen⟩ := hi.closeBlock_eq hc
      simp only [Option.toList_some, List.map_singleton]
      exact (List.nodup_range _).append (List.nodup_singleton _)
        (List.disjoint_singleton.mpr (by simp; omega))
  · have hz := hi.closed_idle hw
    have he := hi.enough (by rw [hw]; exact fun h => by cases h)
    have hn : f.buffer.numFullBlock = 0 := by omega
    refine ⟨hn, ?_⟩
    have hsnd : f.flushed.map Prod.snd =
        (List.range f.buffer.blockIdx).map (chunk f.buffer.blockSize f.stream) := by
      rw [hi.flushed_eq, List.map_map]
      rfl
    cases hc : f.closeBlock with
    | none =>
      -- No `Append` reached the buffer: nothing was handed over and the stream is empty.
      have ht : f.buffer.tmpStorage = none := by
        by_contra ht
        exact hi.taken (.inr hw) ht hc
      obtain ⟨hs, -, hidx, -⟩ := hi.fresh ht
      simp [hsnd, hidx, hs]
    | some blk =>
      obtain ⟨rfl, hfull, hlen⟩ := hi.closeBlock_eq hc
      rw [WriteBuffer.numFullBlock_of_full hfull] at hn
      rw [hn, Nat.add_zero] at hlen
      simp only [Option.toList_some, List.map_append, List.map_singleton, List.flatten_append,
        List.flatten_singleton, hsnd, flatten_chunks, hlen, List.take_append_drop]

example : ((WritableFile.init 4).run [.append [1, 2, 3, 4, 5, 6], .schedule, .bgStart, .close,
    .bgFinish, .closeReturn]).map (fun f => (f.flushed, f.closeBlock)) =
    some ([(0, [1, 2, 3, 4])], some (1, [5, 6])) := by decide

/-- With 4096-byte blocks, after `(2^32 - 2) * 4096` bytes: an `Append` of one more block never
returns, as its loop runs up to `end = UINT32_MAX`; an `Append` of two more blocks loses the
second, as `end` wraps to 0, and `Close` then hands `FillCache` the first under index `2^32`, past
the end of the stream. -/
theorem append_past_uint32_blocks :
    (∃ f, (WritableFile.init 4096).run
        [.append (List.replicate ((2 ^ 32 - 2) * 4096) (0 : UInt8)), .schedule] = some f ∧
      f.step (.append (List.replicate 4096 1)) = none) ∧
    ∃ f, (WritableFile.init 4096).run
        [.append (List.replicate ((2 ^ 32 - 2) * 4096) (0 : UInt8)), .schedule,
          .append (List.replicate (2 * 4096) 1), .schedule, .close] = some f ∧
      f.closeBlock = some (2 ^ 32, List.replicate 4096 1) ∧
      ¬List.replicate 4096 (1 : UInt8) <+: f.stream.drop (2 ^ 32 * 4096) := by
  obtain ⟨h₁, f, hf, hlen, hc⟩ := WritableFile.append_past_uint32_blocks_of_length
    (List.length_replicate ((2 ^ 32 - 2) * 4096) (0 : UInt8))
    (List.length_replicate 4096 (1 : UInt8)) (List.length_replicate (2 * 4096) (1 : UInt8))
  refine ⟨h₁, f, hf, ?_, ?_⟩
  · rw [hc, List.take_replicate]
    rfl
  · rw [List.drop_eq_nil_of_le hlen.le, List.prefix_nil, List.replicate_eq_nil_iff]
    decide

end Leveldb.BlockCache
