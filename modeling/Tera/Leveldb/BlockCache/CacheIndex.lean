import Tera.Leveldb.BlockCache.MetaRecords

/-!
# The data sets' indices stay consistent

A data set's 2Q index is read two ways: `blocks` by key `(fid, block_idx)` and `slotOwner` by
slot `(sid, cache_block_idx)`. `GetAndAllocBlock` (with the `ReloadDataSet` it may run),
`ReleaseBlock`, the I/O handlers, the writer path's `FillCache`, the index's evictions and a
restart all change them. Over every run of the cache system the two agree: a block sits under
its own key, in a slot below `nr_block` of the data set its key hashes to, that data set is
loaded, and the slot names the block; a slot's owner is a block in that slot; and a `DS#`
record names a block of its own data set, in a slot below `nr_block`.

For a data set that is not loaded this gives what the byte-level `ReloadDataSet` of
`Tera.Leveldb.BlockCache.MetaRecords` needs: the records' slots are free and their blocks are
not in the index.
-/
namespace Leveldb.BlockCache

open Function (update)

variable {α : Type} (S : Setting α)

def CacheBlock.SameSlot (b b' : CacheBlock α) : Prop :=
  b'.fid = b.fid ∧ b'.blockIdx = b.blockIdx ∧ b'.sid = b.sid ∧
    b'.cacheBlockIdx = b.cacheBlockIdx

theorem CacheBlock.SameSlot.refl (b : CacheBlock α) : b.SameSlot b := ⟨rfl, rfl, rfl, rfl⟩

theorem CacheBlock.SameSlot.releaseDataBlock (b : CacheBlock α) :
    b.SameSlot b.releaseDataBlock := by
  unfold CacheBlock.releaseDataBlock
  split <;> exact ⟨rfl, rfl, rfl, rfl⟩

theorem CacheBlock.SameSlot.getDataBlock (b : CacheBlock α) (fresh data : List α) :
    b.SameSlot (b.getDataBlock fresh data) := by
  unfold CacheBlock.getDataBlock
  split <;> exact ⟨rfl, rfl, rfl, rfl⟩

theorem CacheBlock.SameSlot.trans {b b' b'' : CacheBlock α} (h : b.SameSlot b')
    (h' : b'.SameSlot b'') : b.SameSlot b'' :=
  ⟨h'.1.trans h.1, h'.2.1.trans h.2.1, h'.2.2.1.trans h.2.2.1, h'.2.2.2.trans h.2.2.2⟩

namespace BlockCacheImpl

/-- The two readings of the index agree, and the records name blocks of their data sets. -/
structure Consistent (c : BlockCacheImpl α) : Prop where
  block : ∀ k b, c.blocks k = some b → k = (b.fid, b.blockIdx) ∧
    b.sid = S.sidOf b.fid b.blockIdx ∧ b.cacheBlockIdx < S.nrBlock ∧
    c.slotOwner (b.sid, b.cacheBlockIdx) = some k
  owner : ∀ x k, c.slotOwner x = some k →
    ∃ b, c.blocks k = some b ∧ (b.sid, b.cacheBlockIdx) = x
  record : ∀ sid cbi r, c.dsRecord (sid, cbi) = some r →
    S.sidOf r.fid r.blockIdx = sid ∧ cbi < S.nrBlock

/-- The index of a running cache: consistent, with the data set of every block loaded. -/
structure IndexOk (c : BlockCacheImpl α) extends Consistent S c : Prop where
  loaded : ∀ k b, c.blocks k = some b → c.loaded b.sid = true

variable {S} {c c' : BlockCacheImpl α}

/-- An index whose blocks sit where the blocks of a consistent index sit, key by key, is
consistent. -/
theorem Consistent.of_sameSlots (h : c.Consistent S)
    (hfw : ∀ k b₁, c'.blocks k = some b₁ → ∃ b₀, c.blocks k = some b₀ ∧ b₀.SameSlot b₁)
    (hbw : ∀ k b₀, c.blocks k = some b₀ → ∃ b₁, c'.blocks k = some b₁ ∧ b₀.SameSlot b₁)
    (ho : c'.slotOwner = c.slotOwner) (hr : c'.dsRecord = c.dsRecord) : c'.Consistent S := by
  refine ⟨fun k b₁ hk => ?_, fun x k hx => ?_, fun sid cbi r h' => h.record sid cbi r (hr ▸ h')⟩
  · obtain ⟨b₀, hk₀, e₁, e₂, e₃, e₄⟩ := hfw k b₁ hk
    rw [e₁, e₂, e₃, e₄, ho]
    exact h.block k b₀ hk₀
  · obtain ⟨b₀, hk₀, hslot⟩ := h.owner x k (ho ▸ hx)
    obtain ⟨b₁, hk₁, -, -, e₃, e₄⟩ := hbw k b₀ hk₀
    exact ⟨b₁, hk₁, by rw [e₃, e₄, hslot]⟩

theorem IndexOk.of_sameSlots (h : c.IndexOk S)
    (hfw : ∀ k b₁, c'.blocks k = some b₁ → ∃ b₀, c.blocks k = some b₀ ∧ b₀.SameSlot b₁)
    (hbw : ∀ k b₀, c.blocks k = some b₀ → ∃ b₁, c'.blocks k = some b₁ ∧ b₀.SameSlot b₁)
    (ho : c'.slotOwner = c.slotOwner) (hr : c'.dsRecord = c.dsRecord)
    (hl : c'.loaded = c.loaded) : c'.IndexOk S := by
  refine ⟨h.toConsistent.of_sameSlots hfw hbw ho hr, fun k b₁ hk => ?_⟩
  obtain ⟨b₀, hk₀, -, -, e₃, -⟩ := hfw k b₁ hk
  rw [e₃, hl]
  exact h.loaded k b₀ hk₀

theorem IndexOk.of_eq (h : c.IndexOk S) (hb : c'.blocks = c.blocks)
    (ho : c'.slotOwner = c.slotOwner) (hr : c'.dsRecord = c.dsRecord)
    (hl : c'.loaded = c.loaded) : c'.IndexOk S :=
  h.of_sameSlots (fun _ b hk => ⟨b, hb ▸ hk, .refl b⟩) (fun _ b hk => ⟨b, hb ▸ hk, .refl b⟩)
    ho hr hl

theorem IndexOk.setBlock (h : c.IndexOk S) {key : Nat × Nat} {b b' : CacheBlock α}
    (hk : c.blocks key = some b) (hb : b.SameSlot b') : (c.setBlock key b').IndexOk S := by
  refine h.of_sameSlots (fun k b₁ hk₁ => ?_) (fun k b₀ hk₀ => ?_) rfl rfl rfl
  · simp only [BlockCacheImpl.setBlock, Function.update_apply] at hk₁
    split_ifs at hk₁ with hkey
    · cases hk₁
      exact ⟨b, hkey ▸ hk, hb⟩
    · exact ⟨b₁, hk₁, .refl b₁⟩
  · simp only [BlockCacheImpl.setBlock, Function.update_apply]
    split_ifs with hkey
    · rw [hkey, hk] at hk₀
      cases hk₀
      exact ⟨b', rfl, hb⟩
    · exact ⟨b₀, hk₀, .refl b₀⟩

theorem IndexOk.setBlock_of (h : c'.IndexOk S) {key : Nat × Nat} {b b' : CacheBlock α}
    (hk : c.blocks key = some b) (hb : b.SameSlot b') (hbl : c'.blocks = c.blocks) :
    (c'.setBlock key b').IndexOk S :=
  h.setBlock (hbl ▸ hk) hb

theorem IndexOk.logRecord (h : c.IndexOk S) {key : Nat × Nat} {b : CacheBlock α}
    (hk : c.blocks key = some b) (ok : Bool) : (c.logRecord b ok).1.IndexOk S := by
  cases ok
  · exact h
  obtain ⟨-, hsid, hcbi, -⟩ := h.block key b hk
  refine ⟨⟨h.block, h.owner, fun sid cbi r hr => ?_⟩, h.loaded⟩
  simp only [BlockCacheImpl.logRecord, if_true, Function.update_apply] at hr
  split_ifs at hr with hs
  · cases hr
    cases hs
    exact ⟨hsid.symm, hcbi⟩
  · exact h.record sid cbi r hr

@[simp] theorem logRecord_blocks (c : BlockCacheImpl α) (b : CacheBlock α) (ok : Bool) :
    (c.logRecord b ok).1.blocks = c.blocks := by
  cases ok <;> rfl

@[simp] theorem fillCache_blocks (c : BlockCacheImpl α) (b : CacheBlock α) (t : Transfer) :
    (c.fillCache b t).1.blocks = c.blocks := by
  cases t <;> rfl

theorem IndexOk.fillCache (h : c.IndexOk S) (b : CacheBlock α) (t : Transfer) :
    (c.fillCache b t).1.IndexOk S := by
  cases t <;> exact h.of_eq rfl rfl rfl rfl

theorem IndexOk.releaseBlock (h : c.IndexOk S) (key : Nat × Nat) (needSync logOk : Bool) :
    (c.releaseBlock key needSync logOk).1.IndexOk S := by
  unfold BlockCacheImpl.releaseBlock
  cases hk : c.blocks key with
  | none => exact h
  | some b =>
    cases needSync
    · exact h.setBlock hk (CacheBlock.SameSlot.releaseDataBlock b)
    · exact (h.logRecord hk logOk).setBlock (by cases logOk <;> exact hk)
        (CacheBlock.SameSlot.releaseDataBlock b)

/-! ## The index's `Insert` and `ReloadDataSet` -/

@[simp] theorem insert_blocks (c : BlockCacheImpl α) (b : CacheBlock α) :
    (c.insert b).blocks = update c.blocks (b.fid, b.blockIdx) (some b) := rfl

@[simp] theorem insert_dsRecord (c : BlockCacheImpl α) (b : CacheBlock α) :
    (c.insert b).dsRecord = c.dsRecord := rfl

@[simp] theorem insert_loaded (c : BlockCacheImpl α) (b : CacheBlock α) :
    (c.insert b).loaded = c.loaded := rfl

/-- `Insert` frees the slot of the block it replaces, whose slot is the only one its key owns,
and gives the block's slot to its key. -/
theorem Consistent.insert_slotOwner (h : c.Consistent S) (b : CacheBlock α) :
    ∃ owner : Nat × Nat → Option (Nat × Nat),
      (c.insert b).slotOwner = update owner (b.sid, b.cacheBlockIdx) (some (b.fid, b.blockIdx)) ∧
      ∀ x k, owner x = some k ↔ c.slotOwner x = some k ∧ k ≠ (b.fid, b.blockIdx) := by
  cases hold : c.blocks (b.fid, b.blockIdx) with
  | none =>
    refine ⟨c.slotOwner, by simp [BlockCacheImpl.insert, hold], fun x k => ⟨fun hx => ⟨hx, ?_⟩, And.left⟩⟩
    rintro rfl
    obtain ⟨_, hb, -⟩ := h.owner x _ hx
    rw [hold] at hb
    cases hb
  | some old =>
    refine ⟨update c.slotOwner (old.sid, old.cacheBlockIdx) none,
      by simp [BlockCacheImpl.insert, hold], fun x k => ?_⟩
    rw [Function.update_apply]
    split_ifs with hx
    · subst hx
      rw [(h.block _ old hold).2.2.2]
      simp only [reduceCtorEq, false_iff, not_and, not_not, Option.some.injEq]
      exact Eq.symm
    · refine ⟨fun hx' => ⟨hx', ?_⟩, And.left⟩
      rintro rfl
      obtain ⟨_, hb, hs⟩ := h.owner x _ hx'
      rw [hold] at hb
      cases hb
      exact hx hs.symm

/-- `Insert` of a block placed in its data set, into a free slot, keeps the index
consistent. -/
theorem Consistent.insert (h : c.Consistent S) {b : CacheBlock α}
    (hsid : b.sid = S.sidOf b.fid b.blockIdx) (hcbi : b.cacheBlockIdx < S.nrBlock)
    (hfree : c.slotOwner (b.sid, b.cacheBlockIdx) = none) : (c.insert b).Consistent S := by
  obtain ⟨owner, hins, hown⟩ := h.insert_slotOwner b
  refine ⟨fun k b₁ hk => ?_, fun x k hx => ?_, h.record⟩
  · rw [hins]
    rw [insert_blocks, Function.update_apply] at hk
    split_ifs at hk with hkey
    · cases hk
      exact ⟨hkey, hsid, hcbi, by rw [Function.update_same, hkey]⟩
    · obtain ⟨e, hs, hc, ho⟩ := h.block k b₁ hk
      refine ⟨e, hs, hc, ?_⟩
      rw [Function.update_noteq fun he => by rw [he, hfree] at ho; cases ho]
      exact (hown _ _).2 ⟨ho, hkey⟩
  · rw [hins, Function.update_apply] at hx
    split_ifs at hx with hxs
    · cases hx
      exact ⟨b, by simp, hxs.symm⟩
    · obtain ⟨hx', hk⟩ := (hown x k).1 hx
      obtain ⟨b₁, hb₁, hs⟩ := h.owner x k hx'
      exact ⟨b₁, by rw [insert_blocks, Function.update_noteq hk]; exact hb₁, hs⟩

theorem Consistent.insert_slotOwner_of_ne (h : c.Consistent S) {b : CacheBlock α}
    {x : Nat × Nat} (hx : x ≠ (b.sid, b.cacheBlockIdx)) (h0 : c.slotOwner x = none) :
    (c.insert b).slotOwner x = none := by
  obtain ⟨owner, hins, hown⟩ := h.insert_slotOwner b
  rw [hins, Function.update_noteq hx]
  cases ho : owner x with
  | none => rfl
  | some k => rw [((hown x k).1 ho).1] at h0; cases h0

/-- Inserting the blocks of records of data set `sid`, at distinct free slots below `nr_block`,
keeps the index consistent; every block it adds belongs to `sid`. -/
theorem Consistent.foldl_insert {sid : Nat} :
    ∀ (M : List (Nat × DsRecord)) (c : BlockCacheImpl α), (M.map Prod.fst).Nodup →
      c.Consistent S →
      (∀ p ∈ M, S.sidOf p.2.fid p.2.blockIdx = sid ∧ p.1 < S.nrBlock ∧
        c.slotOwner (sid, p.1) = none) →
      (M.foldl (fun c p => c.insert (reloadedBlock sid p.1 p.2)) c).Consistent S ∧
      (∀ k b, (M.foldl (fun c p => c.insert (reloadedBlock sid p.1 p.2)) c).blocks k = some b →
        c.blocks k = some b ∨ b.sid = sid) ∧
      (M.foldl (fun c p => c.insert (reloadedBlock sid p.1 p.2)) c).loaded = c.loaded
  | [], c, _, h, _ => ⟨h, fun _ _ hk => .inl hk, rfl⟩
  | p :: M, c, hn, h, hM => by
    rw [List.map_cons, List.nodup_cons] at hn
    obtain ⟨hs, hcbi, hfree⟩ := hM p (.head _)
    obtain ⟨ih, hblocks, hloaded⟩ := Consistent.foldl_insert M _ hn.2
      (h.insert (b := reloadedBlock sid p.1 p.2) hs.symm hcbi hfree) fun q hq =>
        ⟨(hM q (.tail _ hq)).1, (hM q (.tail _ hq)).2.1,
          h.insert_slotOwner_of_ne (fun e => hn.1 (by
            rw [← show q.1 = p.1 from (Prod.mk.inj e).2]
            exact List.mem_map_of_mem _ hq)) (hM q (.tail _ hq)).2.2⟩
    refine ⟨ih, fun k b hk => ?_, hloaded⟩
    rcases hblocks k b hk with hk | hk
    · rw [insert_blocks, Function.update_apply] at hk
      split_ifs at hk
      · cases hk
        exact .inr rfl
      · exact .inl hk
    · exact .inr hk

theorem IndexOk.reloadDataSet (h : c.IndexOk S) {sid : Nat} (hl : c.loaded sid = false) :
    (c.reloadDataSet S sid).IndexOk S ∧ (c.reloadDataSet S sid).loaded sid = true := by
  have hfree : ∀ cbi, c.slotOwner (sid, cbi) = none := fun cbi => by
    cases ho : c.slotOwner (sid, cbi) with
    | none => rfl
    | some k =>
      obtain ⟨b, hb, hs⟩ := h.owner _ k ho
      have := h.loaded k b hb
      rw [(Prod.mk.inj hs).1, hl] at this
      cases this
  obtain ⟨hc, hblocks, hloaded⟩ := Consistent.foldl_insert _ c
    (nodup_slotRecords sid (List.nodup_range S.nrBlock)) h.toConsistent fun p hp =>
      have hr := (mem_slotRecords.1 hp).2
      ⟨(h.record _ _ _ hr).1, (h.record _ _ _ hr).2, hfree _⟩
  unfold BlockCacheImpl.reloadDataSet
  rw [foldl_slots _ ?_ ?_]
  · dsimp only
    refine ⟨⟨⟨hc.block, hc.owner, hc.record⟩, fun k b hk => ?_⟩, Function.update_same _ _ _⟩
    rcases hblocks k b hk with hk | hs
    · by_cases hs : b.sid = sid
      · rw [hs]
        exact Function.update_same _ _ _
      · exact (Function.update_noteq hs _ _).trans (by rw [hloaded]; exact h.loaded k b hk)
    · rw [hs]
      exact Function.update_same _ _ _
  · exact fun c cbi h => by simp only [h]
  · exact fun c cbi r h => by simp only [h]

theorem IndexOk.insert (h : c.IndexOk S) {b : CacheBlock α}
    (hsid : b.sid = S.sidOf b.fid b.blockIdx) (hcbi : b.cacheBlockIdx < S.nrBlock)
    (hfree : c.slotOwner (b.sid, b.cacheBlockIdx) = none) (hl : c.loaded b.sid = true) :
    (c.insert b).IndexOk S := by
  refine ⟨h.toConsistent.insert hsid hcbi hfree, fun k b₁ hk => ?_⟩
  rw [insert_blocks, Function.update_apply] at hk
  split_ifs at hk
  · cases hk
    exact hl
  · exact h.loaded k b₁ hk

/-! ## `GetAndAllocBlock`, eviction and restart -/

theorem IndexOk.getAndAllocBlock (h : c.IndexOk S) {fid blockIdx slot : Nat}
    (hc : c.getAndAllocBlock S fid blockIdx slot = some c') : c'.IndexOk S := by
  have h₁ : ∀ c₁ : BlockCacheImpl α, c₁ = (if c.loaded (S.sidOf fid blockIdx) then c
      else c.reloadDataSet S (S.sidOf fid blockIdx)) →
      c₁.IndexOk S ∧ c₁.loaded (S.sidOf fid blockIdx) = true := by
    rintro _ rfl
    split_ifs with hl
    · exact ⟨h, hl⟩
    · exact h.reloadDataSet (by simpa using hl)
  obtain ⟨hc₁, hl₁⟩ := h₁ _ rfl
  unfold BlockCacheImpl.getAndAllocBlock at hc
  dsimp only at hc
  generalize (if c.loaded (S.sidOf fid blockIdx) then c
    else c.reloadDataSet S (S.sidOf fid blockIdx)) = c₁ at hc hc₁ hl₁
  split at hc
  · rename_i old hold
    cases hc
    exact hc₁.setBlock hold ⟨rfl, rfl, rfl, rfl⟩
  · rename_i hnone
    split_ifs at hc with hs
    cases hc
    have hins := hc₁.insert (b := newBlock fid blockIdx (S.sidOf fid blockIdx) slot) rfl hs.1 hs.2 hl₁
    simpa only [BlockCacheImpl.insert, newBlock, hnone] using hins

theorem IndexOk.evict (h : c.IndexOk S) {key : Nat × Nat} (he : c.evict key = some c') :
    c'.IndexOk S := by
  unfold BlockCacheImpl.evict at he
  split at he
  · rename_i b hb
    split_ifs at he
    cases he
    have hown := (h.block key b hb).2.2.2
    refine ⟨⟨fun k b₁ hk => ?_, fun x k hx => ?_, h.record⟩, fun k b₁ hk => ?_⟩
    · simp only [Function.update_apply] at hk ⊢
      split_ifs at hk
      obtain ⟨e, hs, hc, ho⟩ := h.block k b₁ hk
      refine ⟨e, hs, hc, ?_⟩
      rw [if_neg fun heq => ‹¬k = key› (by rw [heq, hown] at ho; exact (Option.some.inj ho).symm)]
      exact ho
    · simp only [Function.update_apply] at hx ⊢
      split_ifs at hx with hxs
      obtain ⟨b₁, hb₁, hs⟩ := h.owner x k hx
      refine ⟨b₁, ?_, hs⟩
      rw [if_neg]
      · exact hb₁
      · rintro rfl
        rw [hb] at hb₁
        cases hb₁
        exact hxs hs.symm
    · simp only [Function.update_apply] at hk
      split_ifs at hk
      exact h.loaded k b₁ hk
  · cases he

theorem IndexOk.restart (h : c.IndexOk S) : c.restart.IndexOk S :=
  ⟨⟨fun _ _ hk => Option.noConfusion hk, fun _ _ hx => Option.noConfusion hx, h.record⟩,
    fun _ _ hk => Option.noConfusion hk⟩

/-- A data set that is not loaded has nothing in the index: each of its records sits in a slot
below `nr_block` that no block owns, and names a block the index does not hold. This is what
a reload needs. -/
theorem IndexOk.records_free (h : c.IndexOk S) {sid : Nat} (hl : c.loaded sid = false)
    {cbi : Nat} {r : DsRecord} (hr : c.dsRecord (sid, cbi) = some r) :
    cbi < S.nrBlock ∧ c.blocks (r.fid, r.blockIdx) = none ∧ c.slotOwner (sid, cbi) = none := by
  obtain ⟨hrsid, hcbi⟩ := h.record _ _ _ hr
  refine ⟨hcbi, ?_, ?_⟩
  · cases hb : c.blocks (r.fid, r.blockIdx) with
    | none => rfl
    | some b =>
      obtain ⟨hk, hbsid, -⟩ := h.block _ _ hb
      have hload := h.loaded _ _ hb
      obtain ⟨hfid, hidx⟩ := Prod.mk.inj hk
      rw [hbsid, ← hfid, ← hidx, hrsid, hl] at hload
      cases hload
  · cases ho : c.slotOwner (sid, cbi) with
    | none => rfl
    | some k =>
      obtain ⟨b, hb, hx⟩ := h.owner _ _ ho
      have hload := h.loaded _ _ hb
      rw [(Prod.mk.inj hx).1, hl] at hload
      cases hload

end BlockCacheImpl

/-! ## Every run of the cache system -/

namespace Sys

open BlockCacheImpl

variable {S} {sys sys' : Sys α}

theorem modifyBlock_indexOk (h : sys.cache.IndexOk S) (key : Nat × Nat)
    {f : CacheBlock α → CacheBlock α} (hf : ∀ b : CacheBlock α, b.SameSlot (f b)) :
    (sys.modifyBlock key f).cache.IndexOk S := by
  cases hk : sys.cache.blocks key with
  | none => exact h.of_eq (by simp [Sys.modifyBlock, hk]) rfl rfl rfl
  | some b =>
    have : (sys.modifyBlock key f).cache = sys.cache.setBlock key (f b) := by
      simp only [Sys.modifyBlock, BlockCacheImpl.setBlock, hk, Option.map_some']
    rw [this]
    exact h.setBlock hk (hf b)

theorem readerStep_indexOk (h : sys.cache.IndexOk S) {i : Nat} {r : Reader α}
    (hr : sys.readerStep S i r = some sys') : sys'.cache.IndexOk S := by
  unfold Sys.readerStep at hr
  dsimp only at hr
  split at hr <;> (try split at hr) <;> (try split at hr) <;> (try split at hr)
  all_goals first
    | (simp at hr; done)
    | (cases hr; first
        | exact h
        | exact h.releaseBlock _ _ _
        | exact modifyBlock_indexOk h _ fun _ => ⟨rfl, rfl, rfl, rfl⟩)

theorem queueBlock_indexOk (h : sys.cache.IndexOk S) {i idx slot : Nat} {r : Reader α}
    {fresh : List α} (hq : sys.queueBlock S i r idx fresh slot = some sys') :
    sys'.cache.IndexOk S := by
  unfold Sys.queueBlock at hq
  split at hq
  · split at hq
    · cases hq
    rename_i c hc
    split at hq
    · cases hq
    rename_i b hb
    dsimp only at hq
    split_ifs at hq <;> cases hq <;> exact (h.getAndAllocBlock hc).setBlock hb
      ((CacheBlock.SameSlot.getDataBlock b fresh []).trans ⟨rfl, rfl, rfl, rfl⟩)
  · cases hq

theorem fillAlloc_indexOk (h : sys.cache.IndexOk S) {w slot : Nat} {f : Filler α}
    {fresh : List α} (hq : sys.fillAlloc S w f fresh slot = some sys') :
    sys'.cache.IndexOk S := by
  unfold Sys.fillAlloc at hq
  split at hq
  · split at hq
    · cases hq
    rename_i c hc
    split at hq
    · cases hq
    rename_i b hb
    cases hq
    exact (h.getAndAllocBlock hc).setBlock hb
      (CacheBlock.SameSlot.trans (⟨rfl, rfl, rfl, rfl⟩ : b.SameSlot { b with state := .empty })
        (CacheBlock.SameSlot.getDataBlock _ fresh f.data))
  · cases hq

theorem step_indexOk (h : sys.cache.IndexOk S) {e : Event α} (hs : sys.step S e = some sys') :
    sys'.cache.IndexOk S := by
  cases e with
  | queue i fresh slot =>
    simp only [Sys.step] at hs
    split at hs
    · split at hs
      · exact queueBlock_indexOk h hs
      · cases hs
    · cases hs
  | reader i =>
    simp only [Sys.step] at hs
    split at hs
    · exact readerStep_indexOk h hs
    · cases hs
  | fillAlloc w fresh slot =>
    simp only [Sys.step] at hs
    split at hs
    · split_ifs at hs
      exact fillAlloc_indexOk h hs
    · cases hs
  | evict fid idx =>
    simp only [Sys.step, Option.map_eq_some'] at hs
    obtain ⟨c, hc, rfl⟩ := hs
    exact h.evict hc
  | crash =>
    cases hs
    exact h.restart
  | read i fid offset n =>
    simp only [Sys.step] at hs
    split at hs
    · cases hs
      exact h
    · cases hs
  | releaseMiss i logOk =>
    simp only [Sys.step] at hs
    split at hs
    · split at hs
      · cases hs
        exact h.releaseBlock _ _ _
      · cases hs
    · cases hs
  | degrade i t =>
    simp only [Sys.step] at hs
    split at hs
    · split at hs
      · cases hs
        exact h
      · cases hs
    · cases hs
  | dfsRead fid idx t =>
    simp only [Sys.step] at hs
    split_ifs at hs
    cases hs
    exact modifyBlock_indexOk h _ fun _ => ⟨rfl, rfl, rfl, rfl⟩
  | cacheRead fid idx t =>
    simp only [Sys.step] at hs
    split_ifs at hs
    split at hs
    · rename_i b hb
      cases hs
      exact h.setBlock hb ⟨rfl, rfl, rfl, rfl⟩
    · cases hs
  | cacheWrite fid idx logOk t =>
    simp only [Sys.step] at hs
    split_ifs at hs
    split at hs
    · rename_i b hb
      split_ifs at hs <;> cases hs
      · exact ((h.logRecord hb logOk).fillCache b t).setBlock_of hb ⟨rfl, rfl, rfl, rfl⟩
          ((fillCache_blocks _ _ _).trans (logRecord_blocks _ _ _))
      · exact (h.logRecord hb logOk).setBlock_of hb ⟨rfl, rfl, rfl, rfl⟩ (logRecord_blocks _ _ _)
    · cases hs
  | fill w fid idx data =>
    simp only [Sys.step] at hs
    split at hs
    · cases hs
      exact h
    · cases hs
  | fillLog w logOk =>
    simp only [Sys.step] at hs
    split at hs
    · split at hs
      · rename_i hb
        cases hs
        exact (h.logRecord hb logOk).setBlock_of hb ⟨rfl, rfl, rfl, rfl⟩ (logRecord_blocks _ _ _)
      · cases hs
    · cases hs
  | fillWrite w t =>
    simp only [Sys.step] at hs
    split at hs
    · split at hs
      · rename_i b _ hb
        split_ifs at hs <;> cases hs
        · exact (h.fillCache b t).setBlock_of hb ⟨rfl, rfl, rfl, rfl⟩ (fillCache_blocks _ _ _)
        · exact (h.fillCache b t).setBlock_of hb ⟨rfl, rfl, rfl, rfl⟩ (fillCache_blocks _ _ _)
        · exact h
      · cases hs
    · cases hs
  | fillRelease w logOk =>
    simp only [Sys.step] at hs
    split at hs
    · split_ifs at hs
      cases hs
      exact h.releaseBlock _ _ _
    · cases hs

theorem init_indexOk (S : Setting α) : (init : Sys α).cache.IndexOk S where
  block _ _ h := nomatch h
  owner _ _ h := nomatch h
  record _ _ _ h := nomatch h
  loaded _ _ h := nomatch h

theorem run_indexOk : ∀ {sys : Sys α} (es : List (Event α)), sys.cache.IndexOk S →
    sys.run S es = some sys' → sys'.cache.IndexOk S
  | _, [], h, hr => Option.some.inj hr ▸ h
  | _, _ :: es, h, hr => by
    obtain ⟨_, hs, hr⟩ := Option.bind_eq_some.1 hr
    exact run_indexOk es (step_indexOk h hs) hr

/-- Every state the cache system reaches has a consistent index. -/
theorem reachable_indexOk {es : List (Event α)} (hrun : init.run S es = some sys) :
    sys.cache.IndexOk S :=
  run_indexOk es (init_indexOk S) hrun

/-- Two writer-path fills of blocks 0 and 1 of file 0, each logged, with a reader holding
block 0 at the end. -/
theorem reachable_indexOk_two_fills :
    let es : List (Event Nat) := [.fill 0 0 0 [7, 7], .fill 1 0 1 [7, 7],
      .fillAlloc 0 [0, 0] 0, .fillAlloc 1 [0, 0] 1, .fillLog 0 true, .fillLog 1 true,
      .read 0 0 0 1, .queue 0 [0, 0] 0]
    ∃ sys, init.run twoByteFile es = some sys ∧ sys.cache.IndexOk twoByteFile := by
  intro es
  have hrun : init.run twoByteFile es = some _ := rfl
  exact ⟨_, hrun, reachable_indexOk hrun⟩

/-- At every state the cache system reaches, `ReloadDataSet` on the bytes of a metadata DB
that holds the records rebuilds, for a data set not loaded yet, the index the slot-order model
builds, as long as the data set's records name distinct blocks. -/
theorem reachable_reloadDataSetFromDb_eq {es : List (Event α)}
    (hrun : init.run S es = some sys) {sid : Nat} (hl : sys.cache.loaded sid = false)
    {db : List MetaEntry} (hdb : Holds sys.cache.dsRecord db) (hsid : sid < 2 ^ 64)
    (hdist : ∀ cbi cbi' r r', sys.cache.dsRecord (sid, cbi) = some r →
      sys.cache.dsRecord (sid, cbi') = some r' →
      (r.fid, r.blockIdx) = (r'.fid, r'.blockIdx) → cbi = cbi') :
    sys.cache.reloadDataSetFromDb db sid = sys.cache.reloadDataSet S sid :=
  reloadDataSetFromDb_eq_of_fresh S hdb hsid
    (fun _ _ hr => (run_indexOk es (init_indexOk S) hrun).records_free hl hr) hdist

/-- Blocks 0 and 1 of file 0 filled and logged in slots 0 and 1, then a restart: the reload
from the two records' bytes builds the slot-order index. -/
theorem reachable_reloadDataSetFromDb_eq_after_restart :
    let es : List (Event Nat) := [.fill 0 0 0 [7, 7], .fill 1 0 1 [7, 7],
      .fillAlloc 0 [0, 0] 0, .fillAlloc 1 [0, 0] 1, .fillLog 0 true, .fillLog 1 true, .crash]
    let r₀ : DsRecord := ⟨0, 0, .empty⟩
    let r₁ : DsRecord := ⟨0, 1, .empty⟩
    let db := put (dsKey 0 1) r₁.encode (put (dsKey 0 0) r₀.encode [])
    ∃ sys, init.run twoByteFile es = some sys ∧ sys.cache.loaded 0 = false ∧
      Holds sys.cache.dsRecord db ∧ (0 : Nat) < 2 ^ 64 ∧
      (∀ cbi cbi' r r', sys.cache.dsRecord (0, cbi) = some r →
        sys.cache.dsRecord (0, cbi') = some r' →
        (r.fid, r.blockIdx) = (r'.fid, r'.blockIdx) → cbi = cbi') ∧
      sys.cache.reloadDataSetFromDb db 0 = sys.cache.reloadDataSet twoByteFile 0 := by
  intro es r₀ r₁ db
  have hrun : init.run twoByteFile es = some _ := rfl
  have hdb : Holds (update (update (fun _ => none) (0, 0) (some r₀)) (0, 1) (some r₁)) db :=
    (Holds.empty.put_dsKey (by decide) (by decide) ⟨by decide, by decide⟩).put_dsKey
      (by decide) (by decide) ⟨by decide, by decide⟩
  have hdist : ∀ cbi cbi' r r',
      update (update (fun _ => none) (0, 0) (some r₀)) (0, 1) (some r₁) (0, cbi) = some r →
      update (update (fun _ => none) (0, 0) (some r₀)) (0, 1) (some r₁) (0, cbi') = some r' →
      (r.fid, r.blockIdx) = (r'.fid, r'.blockIdx) → cbi = cbi' := by
    intro cbi cbi' r r' h h' hk
    simp only [Function.update_apply, Prod.mk.injEq, true_and] at h h'
    split_ifs at h h' <;> cases h <;> cases h' <;>
      first | omega | exact absurd (Prod.mk.inj hk).2 (by decide)
  exact ⟨_, hrun, rfl, hdb, by decide, hdist,
    reachable_reloadDataSetFromDb_eq hrun rfl hdb (by decide) hdist⟩

end Sys

end Leveldb.BlockCache
