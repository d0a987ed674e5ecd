import Tera.Leveldb.BlockCache.Cache
import Mathlib.Data.Nat.Defs
import Mathlib.Algebra.Group.Nat.Basic

/-!
# The block range and the user-buffer fill of `BlockCacheRandomAccessFile::Read`

`Read(offset, n)` visits the blocks `begin = offset / block_size` to
`end = (offset + n) / block_size` with a `uint64_t` counter, and copies from each the part the
read covers: `remove_prefix(offset % block_size)` on the first block and
`remove_suffix(block_size - (n + offset) % block_size)` on the last, then `memcpy` at
`scratch + msize`, and last `assert(msize == n)`.

`Reader.userData` of the cache model is this loop over unbounded numbers. Over blocks of
`block_size` bytes it is the window of `n` bytes at `offset % block_size` in the blocks laid end
to end, so byte `j` of the result is byte `(offset + j) % block_size` of block
`(offset + j) / block_size`. `readFill` is the loop over `uint64_t` as the code has it, with the
assertions of `Slice::remove_prefix`, `Slice::remove_suffix` (leveldb/slice.h, not under src/:
each asserts that it removes no more than the slice holds) and of `Read`. As long as `offset + n`
does not wrap and the counter can step past `end`, it computes `Reader.userData`; when
`offset + n` wraps, `end` falls below `begin`.
-/
namespace Leveldb.BlockCache

variable {α : Type}

/-! ## Blocks laid end to end -/

theorem length_flatten_of_length {B : Nat} :
    ∀ {L : List (List α)}, (∀ x ∈ L, x.length = B) → L.flatten.length = L.length * B
  | [], _ => by simp
  | x :: L, h => by
    rw [List.flatten_cons, List.length_append, h x (List.mem_cons_self _ _),
      length_flatten_of_length fun y hy => h y (List.mem_cons_of_mem _ hy), List.length_cons,
      Nat.succ_mul, Nat.add_comm]

theorem getElem?_flatten_of_length {B : Nat} (hB : 0 < B) :
    ∀ {L : List (List α)}, (∀ x ∈ L, x.length = B) → ∀ i,
      L.flatten[i]? = L[i / B]?.bind (·[i % B]?)
  | [], _, i => by simp
  | x :: L, h, i => by
    have hx := h x (List.mem_cons_self _ _)
    rw [List.flatten_cons]
    by_cases hi : i < B
    · rw [List.getElem?_append_left (hx ▸ hi), Nat.div_eq_of_lt hi, Nat.mod_eq_of_lt hi,
        List.getElem?_cons_zero]
      rfl
    · have hdiv : i / B = (i - B) / B + 1 := Nat.div_eq_sub_div hB (by omega)
      have hmod : i % B = (i - B) % B := Nat.mod_eq_sub_mod (by omega)
      rw [List.getElem?_append_right (by omega), hx,
        getElem?_flatten_of_length hB (fun y hy => h y (List.mem_cons_of_mem _ hy)), hdiv, hmod,
        List.getElem?_cons_succ]

/-! ## The fill loop over unbounded numbers -/

section Window

variable {B : Nat} {r : Reader α} {buf : Nat → List α}

def Reader.blocks (B : Nat) (r : Reader α) (buf : Nat → List α) : List (List α) :=
  (List.range (r.endIdx B + 1 - r.beginIdx B)).map fun j => buf (r.beginIdx B + j)

theorem beginIdx_le_endIdx (r : Reader α) (B : Nat) : r.beginIdx B ≤ r.endIdx B :=
  Nat.div_le_div_right (Nat.le_add_right _ _)

theorem sliceBlock_of_ne_end {B offset n beginIdx endIdx idx : Nat} {d : List α}
    (h : idx ≠ endIdx) :
    sliceBlock B offset n beginIdx endIdx idx d =
      if idx = beginIdx then d.drop (offset % B) else d := by
  simp [sliceBlock, h]

theorem sliceBlock_end_of_ne_begin {B offset n beginIdx endIdx : Nat} {d : List α}
    (h : endIdx ≠ beginIdx) :
    sliceBlock B offset n beginIdx endIdx endIdx d =
      d.take (d.length - (B - (n + offset) % B)) := by
  simp [sliceBlock, h]

/-- Dropping bytes off the first of consecutive blocks drops them off the blocks laid end to
end. -/
theorem flatten_map_drop_head (k p : Nat) (f : Nat → List α) (hp : p ≤ (f 0).length) :
    ((List.range (k + 1)).map fun j => if j = 0 then (f j).drop p else f j).flatten =
      ((List.range (k + 1)).map f).flatten.drop p := by
  simp only [List.range_succ_eq_map, List.map_cons, List.map_map, List.flatten_cons, if_pos rfl,
    Function.comp_def, Nat.succ_ne_zero, if_false, if_true]
  rw [List.drop_append_of_le_length hp]

/-- Over blocks of `B` bytes, `Read` copies the `n` bytes at `offset % B` of the blocks
`begin ..= end` laid end to end. -/
theorem userData_eq_window (hB : 0 < B)
    (hlen : ∀ b, r.beginIdx B ≤ b → b ≤ r.endIdx B → (buf b).length = B) :
    r.userData B buf = ((r.blocks B buf).flatten.drop (r.offset % B)).take r.n := by
  have hdo := Nat.mod_add_div r.offset B
  have hde := Nat.mod_add_div (r.offset + r.n) B
  have hpo := Nat.mod_lt r.offset hB
  have hpe := Nat.mod_lt (r.offset + r.n) hB
  have hle := beginIdx_le_endIdx r B
  unfold Reader.userData Reader.blocks
  unfold Reader.beginIdx Reader.endIdx at hlen hle ⊢
  obtain ⟨k, hk⟩ := Nat.exists_eq_add_of_le hle
  rw [hk, Nat.mul_add] at hde
  rw [hk, show r.offset / B + k + 1 - r.offset / B = k + 1 by omega, List.range_succ,
    List.map_append, List.map_append, List.flatten_append, List.flatten_append]
  simp only [List.map_cons, List.map_nil, List.flatten_cons, List.flatten_nil, List.append_nil]
  have hlast := hlen (r.offset / B + k) (by omega) (by omega)
  rcases Nat.eq_zero_or_pos k with rfl | hk0
  · simp only [List.range_zero, List.map_nil, List.flatten_nil, List.nil_append,
      Nat.add_zero, Nat.mul_zero] at hlast hde ⊢
    rw [sliceBlock, if_pos rfl, if_pos rfl, List.length_drop, hlast, Nat.add_comm r.n]
    congr 1
    omega
  · have hfull : ∀ x ∈ (List.range k).map fun j => buf (r.offset / B + j), x.length = B := by
      simp only [List.mem_map, List.mem_range]
      rintro x ⟨j, hj, rfl⟩
      exact hlen _ (by omega) (by omega)
    have hmid : ((List.range k).map fun j => sliceBlock B r.offset r.n (r.offset / B)
        (r.offset / B + k) (r.offset / B + j) (buf (r.offset / B + j))) =
        (List.range k).map fun j =>
          if j = 0 then (buf (r.offset / B + j)).drop (r.offset % B) else buf (r.offset / B + j) := by
      refine List.map_congr_left fun j hj => ?_
      rw [List.mem_range] at hj
      rw [sliceBlock_of_ne_end (by omega)]
      simp
    obtain ⟨k', rfl⟩ : ∃ k', k = k' + 1 := ⟨k - 1, by omega⟩
    have hFk := length_flatten_of_length hfull
    rw [List.length_map, List.length_range, Nat.mul_comm] at hFk
    have hdrop : ((List.map (fun j => buf (r.offset / B + j)) (List.range (k' + 1))).flatten.drop
        (r.offset % B)).length ≤ r.n := by
      rw [List.length_drop, hFk]; omega
    rw [hmid, flatten_map_drop_head k' _ (fun j => buf (r.offset / B + j))
      (by simp only [Nat.add_zero]; rw [hlen _ le_rfl (by omega)]; omega),
      sliceBlock_end_of_ne_begin (by omega), hlast,
      List.drop_append_of_le_length (by rw [hFk, Nat.mul_succ]; omega),
      List.take_append_eq_append_take, List.take_of_length_le hdrop, List.length_drop, hFk,
      Nat.add_comm r.n]
    congr 2
    have hM : B ≤ B * (k' + 1) := Nat.le_mul_of_pos_right _ (Nat.succ_pos _)
    omega

/-- Over blocks of `B` bytes `Read` copies `n` bytes, byte `j` being byte `(offset + j) % B` of
block `(offset + j) / B`. -/
theorem userData_spec (hB : 0 < B)
    (hlen : ∀ b, r.beginIdx B ≤ b → b ≤ r.endIdx B → (buf b).length = B) :
    (r.userData B buf).length = r.n ∧
      ∀ j < r.n, (r.userData B buf)[j]? = (buf ((r.offset + j) / B))[(r.offset + j) % B]? := by
  have hdo := Nat.mod_add_div r.offset B
  have hde := Nat.mod_add_div (r.offset + r.n) B
  have hpe := Nat.mod_lt (r.offset + r.n) hB
  have hall : ∀ x ∈ r.blocks B buf, x.length = B := by
    simp only [Reader.blocks, List.mem_map, List.mem_range]
    rintro x ⟨j, hj, rfl⟩
    exact hlen _ (Nat.le_add_right _ _) (by omega)
  have hF := length_flatten_of_length hall
  obtain ⟨k, hk⟩ := Nat.exists_eq_add_of_le (beginIdx_le_endIdx r B)
  unfold Reader.beginIdx Reader.endIdx at hk
  rw [hk, Nat.mul_add] at hde
  have hnum : (r.blocks B buf).length = k + 1 := by
    simp only [Reader.blocks, Reader.beginIdx, Reader.endIdx, List.length_map, List.length_range]
    omega
  rw [hnum, Nat.succ_mul, Nat.mul_comm] at hF
  have hwin : r.offset % B + r.n < B * k + B := by omega
  rw [userData_eq_window hB hlen]
  refine ⟨by rw [List.length_take, List.length_drop, hF]; omega, fun j hj => ?_⟩
  have hidx : (r.offset % B + j) / B < r.endIdx B + 1 - r.beginIdx B := by
    unfold Reader.beginIdx Reader.endIdx
    rw [hk, show r.offset / B + k + 1 - r.offset / B = k + 1 by omega,
      Nat.div_lt_iff_lt_mul hB, Nat.succ_mul, Nat.mul_comm]
    omega
  have hsplit : r.offset + j = r.offset % B + j + B * (r.offset / B) := by omega
  rw [List.getElem?_take_of_lt hj, List.getElem?_drop, getElem?_flatten_of_length hB hall,
    Reader.blocks, List.getElem?_map, List.getElem?_range hidx, hsplit,
    Nat.add_mul_div_left _ _ hB, Nat.add_mul_mod_self_left, Nat.add_comm _ (r.offset / B)]
  rfl

end Window

/-! ## The loop over `uint64_t` -/

/-- `Slice::remove_prefix(k)`: `assert(k <= size())`, then the slice without its first `k`
bytes. -/
def removePrefix (k : Nat) (s : List α) : Option (List α) :=
  if k ≤ s.length then some (s.drop k) else none

/-- `Slice::remove_suffix(k)`: `assert(k <= size())`, then the slice without its last `k`
bytes. -/
def removeSuffix (k : Nat) (s : List α) : Option (List α) :=
  if k ≤ s.length then some (s.take (s.length - k)) else none

/-- `for (block_idx = begin; block_idx <= end; ++block_idx)` with a `uint64_t` counter: the
indices the loop visits from `blockIdx`, or `none` if it has not stopped after `fuel` rounds. -/
def blockIdxLoop (endIdx : UInt64) : Nat → UInt64 → Option (List UInt64)
  | 0, _ => none
  | fuel + 1, blockIdx =>
    if blockIdx ≤ endIdx then (blockIdxLoop endIdx fuel (blockIdx + 1)).map (blockIdx :: ·)
    else some []

/-- The body of the fill loop at `block_idx`: the data of `block_queue[block_idx - begin]`,
trimmed by `remove_prefix` on the first block and `remove_suffix` on the last. -/
def trimBlock (B offset n beginIdx endIdx : UInt64) (blockQueue : List (List α))
    (blockIdx : UInt64) : Option (List α) := do
  let dataBlock ← blockQueue[(blockIdx - beginIdx).toNat]?
  let dataBlock ← if blockIdx = beginIdx then removePrefix (offset % B).toNat dataBlock
    else some dataBlock
  if blockIdx = endIdx then removeSuffix (B - (n + offset) % B).toNat dataBlock
  else some dataBlock

/-- The fill-user-memory loop over the indices visited, each trimmed block copied to
`scratch + msize`. -/
def fillUserMem (B offset n beginIdx endIdx : UInt64) (blockQueue : List (List α)) :
    List UInt64 → List α → Option (List α)
  | [], scratch => some scratch
  | blockIdx :: rest, scratch =>
    (trimBlock B offset n beginIdx endIdx blockQueue blockIdx).bind fun dataBlock =>
      fillUserMem B offset n beginIdx endIdx blockQueue rest (scratch ++ dataBlock)

/-- `Read(offset, n)` from `begin` and `end` to `assert(msize == n)`: `assert(begin <= end)`,
the loop that queues the blocks `begin ..= end`, whose data after the I/O is `dataBlock`, and the
fill loop over the same indices. `none` where an assertion fails or a loop does not stop. -/
def readFill (B offset n : UInt64) (dataBlock : UInt64 → List α) : Option (List α) :=
  let beginIdx := offset / B
  let endIdx := (offset + n) / B
  if beginIdx ≤ endIdx then
    (blockIdxLoop endIdx UInt64.size beginIdx).bind fun idxs =>
      (fillUserMem B offset n beginIdx endIdx (idxs.map dataBlock) idxs []).bind fun scratch =>
        if UInt64.ofNat scratch.length = n then some scratch else none
  else none

/-! ## From `uint64_t` to the numbers -/

theorem toNat_add_uint64 (a b : UInt64) : (a + b).toNat = (a.toNat + b.toNat) % 2 ^ 64 :=
  BitVec.toNat_add _ _

theorem le_iff_toNat_le_uint64 {a b : UInt64} : a ≤ b ↔ a.toNat ≤ b.toNat := by
  rw [UInt64.le_def, BitVec.le_def]; rfl

theorem ofNat_toNat_uint64 (a : UInt64) : UInt64.ofNat a.toNat = a :=
  UInt64.toNat.inj (UInt64.toNat_ofNat_of_lt a.toNat_lt_size)

theorem ofNat_eq_iff_uint64 {m : Nat} (hm : m < 2 ^ 64) (a : UInt64) :
    UInt64.ofNat m = a ↔ m = a.toNat :=
  ⟨fun h => h ▸ (UInt64.toNat_ofNat_of_lt hm).symm, fun h => by rw [h, ofNat_toNat_uint64]⟩

theorem removePrefix_eq {k : Nat} {s : List α} (h : k ≤ s.length) :
    removePrefix k s = some (s.drop k) := if_pos h

theorem removeSuffix_eq {k : Nat} {s : List α} (h : k ≤ s.length) :
    removeSuffix k s = some (s.take (s.length - k)) := if_pos h

theorem blockIdxLoop_eq {endIdx : UInt64} (hend : endIdx.toNat + 1 < 2 ^ 64) :
    ∀ fuel (blockIdx : UInt64), blockIdx.toNat ≤ endIdx.toNat + 1 →
      endIdx.toNat + 1 - blockIdx.toNat < fuel →
      blockIdxLoop endIdx fuel blockIdx =
        some ((List.range' blockIdx.toNat (endIdx.toNat + 1 - blockIdx.toNat)).map UInt64.ofNat)
  | 0, _, _, hfuel => absurd hfuel (Nat.not_lt_zero _)
  | fuel + 1, blockIdx, hidx, hfuel => by
    rw [blockIdxLoop]
    by_cases hle : blockIdx ≤ endIdx
    · have hle' := le_iff_toNat_le_uint64.mp hle
      have hsucc : (blockIdx + 1).toNat = blockIdx.toNat + 1 := by
        rw [toNat_add_uint64, show (1 : UInt64).toNat = 1 from rfl, Nat.mod_eq_of_lt (by omega)]
      rw [if_pos hle, blockIdxLoop_eq hend fuel (blockIdx + 1) (by omega) (by omega), hsucc,
        show endIdx.toNat + 1 - blockIdx.toNat = endIdx.toNat + 1 - (blockIdx.toNat + 1) + 1 by
          omega, List.range'_succ, List.map_cons, ofNat_toNat_uint64]
      rfl
    · have hgt : blockIdx.toNat = endIdx.toNat + 1 := by
        have := mt le_iff_toNat_le_uint64.mpr hle; omega
      rw [if_neg hle, hgt, Nat.sub_self]
      rfl

theorem blockIdxLoop_eq_none_of_max {endIdx : UInt64} (hend : endIdx.toNat = 2 ^ 64 - 1) :
    ∀ fuel blockIdx, blockIdxLoop endIdx fuel blockIdx = none
  | 0, _ => rfl
  | fuel + 1, blockIdx => by
    have hle : blockIdx ≤ endIdx :=
      le_iff_toNat_le_uint64.mpr (by rw [hend]; exact Nat.le_pred_of_lt blockIdx.toNat_lt_size)
    rw [blockIdxLoop, if_pos hle, blockIdxLoop_eq_none_of_max hend fuel]
    rfl

section Fill

variable {B offset n : UInt64}

theorem toNat_endIdx (hsum : offset.toNat + n.toNat < 2 ^ 64) :
    ((offset + n) / B).toNat = (offset.toNat + n.toNat) / B.toNat := by
  rw [UInt64.toNat_div, toNat_add_uint64, Nat.mod_eq_of_lt hsum]

theorem length_dataBlock_ofNat (hsum : offset.toNat + n.toNat < 2 ^ 64)
    {dataBlock : UInt64 → List α} (hlen : ∀ b : UInt64, offset.toNat / B.toNat ≤ b.toNat →
      b.toNat ≤ (offset.toNat + n.toNat) / B.toNat → (dataBlock b).length = B.toNat)
    (s : Nat) (h0 : offset.toNat / B.toNat ≤ s) (h1 : s ≤ (offset.toNat + n.toNat) / B.toNat) :
    (dataBlock (UInt64.ofNat s)).length = B.toNat := by
  have hs : (UInt64.ofNat s).toNat = s := UInt64.toNat_ofNat_of_lt
    (show s < 2 ^ 64 from lt_of_le_of_lt h1 (lt_of_le_of_lt (Nat.div_le_self _ _) hsum))
  exact hlen _ (by rwa [hs]) (by rwa [hs])

variable (hB : 0 < B.toNat) (hsum : offset.toNat + n.toNat < 2 ^ 64)
include hB hsum

/-- One round of the fill loop: at a block of `begin ..= end` of length `B`, neither
`remove_prefix` nor `remove_suffix` asserts, and the bytes copied are those of `sliceBlock`. -/
theorem trimBlock_eq {blockQueue : List (List α)} {s : Nat} {d : List α}
    (hs0 : offset.toNat / B.toNat ≤ s) (hs1 : s ≤ (offset.toNat + n.toNat) / B.toNat)
    (hq : blockQueue[s - offset.toNat / B.toNat]? = some d) (hd : d.length = B.toNat) :
    trimBlock B offset n (offset / B) ((offset + n) / B) blockQueue (UInt64.ofNat s) =
      some (sliceBlock B.toNat offset.toNat n.toNat (offset.toNat / B.toNat)
        ((offset.toNat + n.toNat) / B.toNat) s d) := by
  have hs : s < 2 ^ 64 := lt_of_le_of_lt hs1 (lt_of_le_of_lt (Nat.div_le_self _ _) hsum)
  have hsNat : (UInt64.ofNat s).toNat = s := UInt64.toNat_ofNat_of_lt hs
  have hbeg : (offset / B).toNat = offset.toNat / B.toNat := UInt64.toNat_div _ _
  have hidx : (UInt64.ofNat s - offset / B).toNat = s - offset.toNat / B.toNat := by
    rw [UInt64.toNat_sub_of_le _ _ (le_iff_toNat_le_uint64.mpr (by rw [hbeg, hsNat]; exact hs0)),
      hsNat, hbeg]
  have hmod : ((n + offset) % B).toNat = (n.toNat + offset.toNat) % B.toNat := by
    rw [UInt64.toNat_mod, toNat_add_uint64,
      Nat.mod_eq_of_lt (show n.toNat + offset.toNat < 2 ^ 64 by omega)]
  have hsuf : (B - (n + offset) % B).toNat = B.toNat - (n.toNat + offset.toNat) % B.toNat := by
    rw [UInt64.toNat_sub_of_le _ _
      (le_iff_toNat_le_uint64.mpr (by rw [hmod]; exact Nat.le_of_lt (Nat.mod_lt _ hB))), hmod]
  have hp : offset.toNat % B.toNat ≤ d.length := by rw [hd]; exact Nat.le_of_lt (Nat.mod_lt _ hB)
  simp only [trimBlock, hidx, hq, ofNat_eq_iff_uint64 hs, hbeg, toNat_endIdx hsum,
    UInt64.toNat_mod, hsuf, sliceBlock, Option.bind_eq_bind, Option.some_bind]
  by_cases h0 : s = offset.toNat / B.toNat <;> by_cases h1 : s = (offset.toNat + n.toNat) / B.toNat
  · -- the only block: the end lies past the start within it
    have hdo := Nat.div_add_mod offset.toNat B.toNat
    have hde := Nat.div_add_mod (offset.toNat + n.toNat) B.toNat
    rw [← h1, h0] at hde
    simp only [h0, ← h1, if_true, removePrefix_eq hp, Option.some_bind]
    rw [removeSuffix_eq (by rw [List.length_drop, Nat.add_comm n.toNat]; omega)]
  · subst h0
    simp only [h1, if_true, if_false, removePrefix_eq hp, Option.some_bind]
  · subst h1
    simp only [h0, if_true, if_false, Option.some_bind]
    exact removeSuffix_eq (by rw [hd]; exact Nat.sub_le _ _)
  · simp only [h0, h1, if_false, Option.some_bind]

theorem fillUserMem_eq {blockQueue : List (List α)} {buf : Nat → List α}
    (hq : ∀ s, offset.toNat / B.toNat ≤ s → s ≤ (offset.toNat + n.toNat) / B.toNat →
      blockQueue[s - offset.toNat / B.toNat]? = some (buf s))
    (hlen : ∀ s, offset.toNat / B.toNat ≤ s → s ≤ (offset.toNat + n.toNat) / B.toNat →
      (buf s).length = B.toNat) :
    ∀ m s (scratch : List α), offset.toNat / B.toNat ≤ s →
      s + m = (offset.toNat + n.toNat) / B.toNat + 1 →
      fillUserMem B offset n (offset / B) ((offset + n) / B) blockQueue
          ((List.range' s m).map UInt64.ofNat) scratch =
        some (scratch ++ ((List.range' s m).map fun i => sliceBlock B.toNat offset.toNat n.toNat
          (offset.toNat / B.toNat) ((offset.toNat + n.toNat) / B.toNat) i (buf i)).flatten)
  | 0, _, scratch, _, _ => by simp [fillUserMem]
  | m + 1, s, scratch, hs, hm => by
    rw [List.range'_succ, List.map_cons, List.map_cons, List.flatten_cons, fillUserMem,
      trimBlock_eq hB hsum hs (by omega) (hq s hs (by omega)) (hlen s hs (by omega)),
      Option.some_bind, fillUserMem_eq hq hlen m (s + 1) _ (by omega) (by omega),
      List.append_assoc]

/-- Where `offset + n` and `end + 1` fit in 64 bits, the `uint64_t` loops pass their assertions
and copy the `userData` of any reader of the same `offset` and `n`. -/
theorem readFill_eq_userData (hend : (offset.toNat + n.toNat) / B.toNat + 1 < 2 ^ 64)
    {dataBlock : UInt64 → List α}
    (hlen : ∀ b : UInt64, offset.toNat / B.toNat ≤ b.toNat →
      b.toNat ≤ (offset.toNat + n.toNat) / B.toNat → (dataBlock b).length = B.toNat)
    (r : Reader α) (hoff : r.offset = offset.toNat) (hn : r.n = n.toNat) :
    readFill B offset n dataBlock =
      some (r.userData B.toNat fun b => dataBlock (UInt64.ofNat b)) := by
  have hbeg : (offset / B).toNat = offset.toNat / B.toNat := UInt64.toNat_div _ _
  have hendN := toNat_endIdx (B := B) hsum
  have hle : offset.toNat / B.toNat ≤ (offset.toNat + n.toNat) / B.toNat :=
    Nat.div_le_div_right (Nat.le_add_right _ _)
  have hq : ∀ s, offset.toNat / B.toNat ≤ s → s ≤ (offset.toNat + n.toNat) / B.toNat →
      (((List.range' (offset.toNat / B.toNat) ((offset.toNat + n.toNat) / B.toNat + 1 -
        offset.toNat / B.toNat)).map UInt64.ofNat).map dataBlock)[s - offset.toNat / B.toNat]? =
        some (dataBlock (UInt64.ofNat s)) := fun s h0 h1 => by
    rw [List.map_map, List.getElem?_map, List.getElem?_range' _ _ (by omega), Option.map_some',
      Function.comp_apply, Nat.one_mul, Nat.add_sub_cancel' h0]
  have hlength := (userData_spec (r := r) hB fun b h0 h1 => length_dataBlock_ofNat hsum hlen b
    (by rwa [Reader.beginIdx, hoff] at h0) (by rwa [Reader.endIdx, hoff, hn] at h1)).1
  simp only [readFill]
  rw [if_pos (le_iff_toNat_le_uint64.mpr (by rwa [hbeg, hendN])),
    blockIdxLoop_eq (by rwa [hendN]) _ _ (by rw [hbeg, hendN]; omega)
      (by rw [hbeg, hendN]; exact Nat.lt_of_le_of_lt (Nat.sub_le _ _) hend),
    Option.some_bind, hbeg, hendN,
    fillUserMem_eq hB hsum hq (length_dataBlock_ofNat hsum hlen) _ _ _ le_rfl
      (Nat.add_sub_cancel' (Nat.le_succ_of_le hle)), Option.some_bind, List.nil_append,
    List.range'_eq_map_range, List.map_map, ← hoff, ← hn]
  show (if UInt64.ofNat (r.userData B.toNat fun b => dataBlock (UInt64.ofNat b)).length = n
    then _ else none) = _
  rw [hlength, if_pos (by rw [hn, ofNat_toNat_uint64])]
  rfl

end Fill

/-! ## What `Read` copies -/

end Leveldb.BlockCache
