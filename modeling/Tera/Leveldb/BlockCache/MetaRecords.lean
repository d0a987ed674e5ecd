import Tera.Leveldb.BlockCache.Cache
import Mathlib.Data.List.Sort
import Mathlib.Algebra.Group.Nat.Basic

/-!
# The block cache's metadata records, byte by byte

`LogRecord` writes the record of a slot to the metadata DB under the key
`"DS#" + PutFixed64(sid) + PutFixed64(cache_block_idx)`, with the value `CacheBlock::Encode`, the
`PutFixed64` of `fid`, `block_idx` and `state`. After a restart `ReloadDataSet` seeks the DB's
iterator to `"DS#" + PutFixed64(sid)` and walks forward while the key starts with `"DS#"`,
decoding the data set and the slot from the key and stopping at the first key of another data
set; each record goes back into the data set's index through `CacheBlock::DecodeFrom`.

`PutFixed64` is little-endian, so the keys of one data set are not ordered by slot, and the keys
of different data sets are not ordered by `sid`. What the scan needs is that the keys of one
data set are contiguous in the DB's byte order, and that the first key after them belongs to
another data set or is not a `DS#` key at all. Here that is proved for any sorted DB whose `DS#`
entries are `LogRecord`'s, and the index the scan rebuilds is compared with the one
`BlockCacheImpl.reloadDataSet` builds by visiting the slots in order.

`EncodeFixed64`, `DecodeFixed64` and the bytewise comparator are leveldb's `util/coding.h` and
`util/comparator.cc`, not in the source tree; they are written as leveldb defines them.
-/
namespace Leveldb.BlockCache

open Function (update)

/-! ## Fixed-width integers -/

/-- The `k` bytes of `v`, least significant first: `EncodeFixed64` for `k = 8`. -/
def fixedBytes : Nat → Nat → List UInt8
  | 0, _ => []
  | k + 1, v => UInt8.ofNat (v % 256) :: fixedBytes k (v / 256)

def fixedValue : List UInt8 → Nat
  | [] => 0
  | b :: bs => b.toNat + 256 * fixedValue bs

/-- `EncodeFixed64`: the eight bytes of a `uint64_t`, least significant first. -/
def encodeFixed64 (v : Nat) : List UInt8 := fixedBytes 8 v

/-- `DecodeFixed64`: the value of the eight bytes at the front. -/
def decodeFixed64 (bs : List UInt8) : Nat := fixedValue (bs.take 8)

theorem byte_lt (b : UInt8) : b.toNat < 256 := b.toNat_lt_size

theorem toNat_byte {n : Nat} (h : n < 256) : (UInt8.ofNat n).toNat = n :=
  UInt8.toNat_ofNat_of_lt h

@[simp] theorem length_fixedBytes : ∀ k v, (fixedBytes k v).length = k
  | 0, _ => rfl
  | k + 1, v => by simp [fixedBytes, length_fixedBytes k]

theorem fixedValue_fixedBytes : ∀ k v, fixedValue (fixedBytes k v) = v % 256 ^ k
  | 0, v => by simp [fixedBytes, fixedValue, Nat.mod_one]
  | k + 1, v => by
    have hb : (UInt8.ofNat (v % 256)).toNat = v % 256 := toNat_byte (Nat.mod_lt _ (by decide))
    rw [fixedBytes, fixedValue, hb, fixedValue_fixedBytes k, pow_succ', Nat.mod_mul]

theorem fixedValue_lt : ∀ bs : List UInt8, fixedValue bs < 256 ^ bs.length
  | [] => by simp [fixedValue]
  | b :: bs => by
    have := fixedValue_lt bs
    have := byte_lt b
    rw [fixedValue, List.length_cons, pow_succ']
    omega

theorem fixedBytes_fixedValue : ∀ bs : List UInt8, fixedBytes bs.length (fixedValue bs) = bs
  | [] => rfl
  | b :: bs => by
    have hb : UInt8.ofNat ((b.toNat + 256 * fixedValue bs) % 256) = b := by
      rw [Nat.add_mul_mod_self_left, Nat.mod_eq_of_lt (byte_lt b)]
      exact UInt8.toNat.inj (toNat_byte (byte_lt b))
    have hq : (b.toNat + 256 * fixedValue bs) / 256 = fixedValue bs := by
      have := byte_lt b; omega
    rw [List.length_cons, fixedBytes, fixedValue, hb, hq, fixedBytes_fixedValue bs]

@[simp] theorem length_encodeFixed64 (v : Nat) : (encodeFixed64 v).length = 8 :=
  length_fixedBytes 8 v

theorem decodeFixed64_encodeFixed64 (v : Nat) (h : v < 2 ^ 64) (rest : List UInt8) :
    decodeFixed64 (encodeFixed64 v ++ rest) = v := by
  rw [decodeFixed64, encodeFixed64, List.take_left' (length_fixedBytes 8 v),
    fixedValue_fixedBytes, Nat.mod_eq_of_lt (by simpa using h)]

theorem encodeFixed64_decodeFixed64 {bs : List UInt8} (h : bs.length = 8) :
    encodeFixed64 (decodeFixed64 bs) = bs := by
  rw [decodeFixed64, List.take_of_length_le (by omega), encodeFixed64, ← h,
    fixedBytes_fixedValue]

theorem decodeFixed64_lt (bs : List UInt8) : decodeFixed64 bs < 2 ^ 64 := by
  have := fixedValue_lt (bs.take 8)
  have : 256 ^ (bs.take 8).length ≤ 256 ^ 8 :=
    Nat.pow_le_pow_right (by decide) (List.length_take_le 8 bs)
  rw [decodeFixed64, show (2 : Nat) ^ 64 = 256 ^ 8 from rfl]; omega

/-! ## Records and keys -/

/-- The `state` word of a `CacheBlock`: `kCacheBlockValid = 0x1`, `kCacheBlockLocked = 0x2`,
`kCacheBlockDfsRead = 0x4`, `kCacheBlockCacheRead = 0x8` and `kCacheBlockCacheFill = 0x10`. -/
def BlockState.toBits (st : BlockState) : Nat :=
  st.valid.toNat + 2 * st.locked.toNat + 4 * st.dfsRead.toNat + 8 * st.cacheRead.toNat +
    16 * st.cacheFill.toNat

/-- `Test` of each bit of a `state` word. -/
def BlockState.ofBits (n : Nat) : BlockState :=
  ⟨n % 2 = 1, n / 2 % 2 = 1, n / 4 % 2 = 1, n / 8 % 2 = 1, n / 16 % 2 = 1⟩

theorem BlockState.ofBits_toBits (st : BlockState) : ofBits st.toBits = st := by
  obtain ⟨a, b, c, d, e⟩ := st
  revert a b c d e
  decide

theorem BlockState.toBits_lt (st : BlockState) : st.toBits < 32 := by
  obtain ⟨a, b, c, d, e⟩ := st
  cases a <;> cases b <;> cases c <;> cases d <;> cases e <;> decide

/-- `CacheBlock::Encode` of a block with the record's `fid`, `block_idx` and `state`. -/
def DsRecord.encode (r : DsRecord) : List UInt8 :=
  encodeFixed64 r.fid ++ encodeFixed64 r.blockIdx ++ encodeFixed64 r.state.toBits

/-- `CacheBlock::DecodeFrom`: `fid`, `block_idx` and `state` from the front of a record. -/
def decodeRecord (v : List UInt8) : DsRecord :=
  ⟨decodeFixed64 v, decodeFixed64 (v.drop 8), BlockState.ofBits (decodeFixed64 (v.drop 16))⟩

/-- A record whose numbers fit a `uint64_t`. -/
def DsRecord.Fits (r : DsRecord) : Prop := r.fid < 2 ^ 64 ∧ r.blockIdx < 2 ^ 64

theorem decodeRecord_encode {r : DsRecord} (h : r.Fits) : decodeRecord r.encode = r := by
  have hst : r.state.toBits < 2 ^ 64 := r.state.toBits_lt.trans (by decide)
  have hlast := decodeFixed64_encodeFixed64 _ hst []
  rw [List.append_nil] at hlast
  simp only [decodeRecord, DsRecord.encode, List.append_assoc,
    decodeFixed64_encodeFixed64 _ h.1, List.drop_left' (length_encodeFixed64 _),
    decodeFixed64_encodeFixed64 _ h.2]
  rw [show (16 : Nat) = 8 + 8 from rfl, ← List.drop_drop, List.drop_left' (length_encodeFixed64 _),
    List.drop_left' (length_encodeFixed64 _), hlast, BlockState.ofBits_toBits]

def dsTag : List UInt8 := [0x44, 0x53, 0x23]

/-- `LockContent::Encode` of data set `sid`, `"DS#" + PutFixed64(sid)`: where `ReloadDataSet`
seeks. -/
def dsPrefix (sid : Nat) : List UInt8 := dsTag ++ encodeFixed64 sid

/-- `LogRecord`'s key for slot `cbi` of data set `sid`. -/
def dsKey (sid cbi : Nat) : List UInt8 := dsPrefix sid ++ encodeFixed64 cbi

@[simp] theorem length_dsKey (sid cbi : Nat) : (dsKey sid cbi).length = 19 := by
  simp [dsKey, dsPrefix, dsTag]

/-! ## The DB's byte order -/

/-- `BytewiseComparator`: `memcmp` over the common length, then the shorter key first. -/
def bytewiseLt : List UInt8 → List UInt8 → Bool
  | _, [] => false
  | [], _ :: _ => true
  | a :: as, b :: bs => if a = b then bytewiseLt as bs else decide (a.toNat < b.toNat)

theorem bytewiseLt_irrefl : ∀ a : List UInt8, bytewiseLt a a = false
  | [] => rfl
  | a :: as => by simp [bytewiseLt, bytewiseLt_irrefl as]

theorem bytewiseLt_trans : ∀ {a b c : List UInt8}, bytewiseLt a b → bytewiseLt b c →
    bytewiseLt a c
  | _, [], _, hab, _ => by simp [bytewiseLt] at hab
  | _, _ :: _, [], _, hbc => by simp [bytewiseLt] at hbc
  | [], _ :: _, _ :: _, _, _ => rfl
  | a :: as, b :: bs, c :: cs, hab, hbc => by
    simp only [bytewiseLt] at hab hbc ⊢
    have hne : ∀ {x y : UInt8}, x ≠ y → x.toNat ≠ y.toNat := fun h h' => h (UInt8.toNat.inj h')
    by_cases h1 : a = b <;> by_cases h2 : b = c <;> simp only [h1, h2, if_true, if_false] at hab hbc
    · subst h1 h2; simpa using bytewiseLt_trans hab hbc
    · subst h1; simpa [h2] using hbc
    · subst h2; simpa [h1] using hab
    · have := hne h1; have := hne h2
      rw [if_neg (fun h => by subst h; simp at hab hbc; omega)]
      simp only [decide_eq_true_eq] at hab hbc ⊢; omega

theorem bytewiseLt_asymm {a b : List UInt8} (h : bytewiseLt a b) : bytewiseLt b a = false := by
  cases h' : bytewiseLt b a
  · rfl
  · have := bytewiseLt_trans h h'; rw [bytewiseLt_irrefl] at this; cases this

theorem bytewiseLt_eq_false_of_extends : ∀ {p k : List UInt8}, p <+: k → bytewiseLt k p = false
  | [], _, _ => by cases ‹List UInt8› <;> rfl
  | x :: p, _, ⟨t, rfl⟩ => by simp [bytewiseLt, bytewiseLt_eq_false_of_extends (List.prefix_append p t)]

/-- A key `k` not before `p` that does not extend `p` sorts after every key that extends
`p`: the keys that extend `p` are together in byte order. -/
theorem bytewiseLt_of_not_extends : ∀ {p k k' : List UInt8}, p <+: k' →
    bytewiseLt k p = false → ¬ p <+: k → bytewiseLt k' k
  | [], _, _, _, _, hk => absurd (List.nil_prefix) hk
  | x :: p, [], _, _, hlt, _ => by simp [bytewiseLt] at hlt
  | x :: p, y :: k, _, ⟨t, rfl⟩, hlt, hk => by
    by_cases hxy : y = x
    · subst hxy
      simp only [bytewiseLt, if_true] at hlt ⊢
      exact bytewiseLt_of_not_extends (List.prefix_append p t) hlt
        fun h => hk (List.cons_prefix_cons.2 ⟨rfl, h⟩)
    · simp only [bytewiseLt, hxy, if_false, decide_eq_false_iff_not, List.cons_append,
        Ne.symm hxy] at hlt ⊢
      have : y.toNat ≠ x.toNat := fun h => hxy (UInt8.toNat.inj h)
      simp only [decide_eq_true_eq]; omega

/-! ## `ReloadDataSet`'s scan -/

/-- An entry of the metadata DB: key and value. -/
abbrev MetaEntry := List UInt8 × List UInt8

/-- `db_it->Seek(key)` on the DB's entries in key order: the entries from the first key not
before `key`. -/
def seek (key : List UInt8) (db : List MetaEntry) : List MetaEntry :=
  db.dropWhile fun e => bytewiseLt e.1 key

/-- What `ReloadDataSet` takes from an entry: the slot from the key, the record from the
value. -/
def decodeEntry (e : MetaEntry) : Nat × DsRecord :=
  (decodeFixed64 (e.1.drop 11), decodeRecord e.2)

/-- The loop of `ReloadDataSet` from the iterator's position: while the key starts with
`"DS#"`, decode the data set and the slot from it, stop at another data set, and decode the
record. -/
def reloadScan (sid : Nat) : List MetaEntry → List (Nat × DsRecord)
  | [] => []
  | e :: rest =>
    if dsTag.isPrefixOf e.1 then
      if decodeFixed64 (e.1.drop 3) ≠ sid then [] else decodeEntry e :: reloadScan sid rest
    else []

/-- The DB's entries are in strictly increasing key order. -/
def KeySorted (db : List MetaEntry) : Prop := db.Pairwise fun a b => bytewiseLt a.1 b.1

/-- Every key that starts with `"DS#"` is long enough to hold a data set and a slot. -/
def DsKeysFormed (db : List MetaEntry) : Prop := ∀ e ∈ db, dsTag <+: e.1 → 11 ≤ e.1.length

/-- A `"DS#"` key long enough to hold a data set belongs to data set `sid` exactly when it
extends `sid`'s seek key. -/
theorem dsPrefix_prefix_iff {sid : Nat} (hsid : sid < 2 ^ 64) {k : List UInt8} (ht : dsTag <+: k)
    (hlen : 11 ≤ k.length) : dsPrefix sid <+: k ↔ decodeFixed64 (k.drop 3) = sid := by
  obtain ⟨t, rfl⟩ := ht
  have ht3 : dsTag.length = 3 := rfl
  rw [List.drop_left' ht3, dsPrefix, List.prefix_append_right_inj]
  constructor
  · rintro ⟨u, rfl⟩; exact decodeFixed64_encodeFixed64 sid hsid u
  · intro h
    rw [List.length_append, ht3] at hlen
    have h8 : decodeFixed64 t = decodeFixed64 (t.take 8) := by rw [decodeFixed64, decodeFixed64, List.take_take, Nat.min_self]
    refine ⟨t.drop 8, ?_⟩
    rw [← h, h8, encodeFixed64_decodeFixed64 (by simp; omega), List.take_append_drop]

/-- From a position not before `sid`'s seek key, the scan decodes exactly the entries of data
set `sid`. -/
theorem reloadScan_eq_filter {sid : Nat} (hsid : sid < 2 ^ 64) :
    ∀ {R : List MetaEntry}, KeySorted R → DsKeysFormed R →
      (∀ e ∈ R, bytewiseLt e.1 (dsPrefix sid) = false) →
      reloadScan sid R = (R.filter fun e => (dsPrefix sid).isPrefixOf e.1).map decodeEntry
  | [], _, _, _ => rfl
  | e :: rest, hs, hw, hge => by
    have hs' := List.pairwise_cons.1 hs
    by_cases hp : dsPrefix sid <+: e.1
    · have ht : dsTag <+: e.1 := (List.prefix_append _ _).trans hp
      rw [reloadScan, if_pos (List.isPrefixOf_iff_prefix.2 ht),
        if_neg (not_not.2 ((dsPrefix_prefix_iff hsid ht (hw e (.head _) ht)).1 hp)),
        reloadScan_eq_filter hsid hs'.2 (fun e' he' => hw e' (.tail _ he'))
          (fun e' he' => hge e' (.tail _ he'))]
      simp [List.filter_cons, List.isPrefixOf_iff_prefix.2 hp]
    · -- The first entry of another data set ends the scan, and nothing after it is of `sid`.
      have hnone : ∀ e' ∈ rest, ¬ dsPrefix sid <+: e'.1 := fun e' he' hp' => by
        have := bytewiseLt_of_not_extends hp' (hge e (.head _)) hp
        rw [bytewiseLt_asymm (hs'.1 e' he')] at this; cases this
      have hscan : reloadScan sid (e :: rest) = [] := by
        rw [reloadScan]
        split_ifs with ht hd
        · rfl
        · have ht' := List.isPrefixOf_iff_prefix.1 ht
          exact absurd ((dsPrefix_prefix_iff hsid ht' (hw e (.head _) ht')).2 (not_not.1 hd)) hp
        · rfl
      rw [hscan, List.filter_cons_of_neg (by simpa [List.isPrefixOf_iff_prefix] using hp),
        List.filter_eq_nil_iff.2 (by simpa [List.isPrefixOf_iff_prefix] using hnone)]
      rfl

theorem seek_not_lt {key : List UInt8} :
    ∀ {db : List MetaEntry}, KeySorted db → ∀ e ∈ seek key db, bytewiseLt e.1 key = false
  | [], _, _, he => by cases he
  | e :: rest, hs, e', he' => by
    have hs' := List.pairwise_cons.1 hs
    rw [seek, List.dropWhile_cons] at he'
    split at he'
    · exact seek_not_lt hs'.2 e' he'
    · rename_i hlt
      simp only [Bool.not_eq_true] at hlt
      rcases List.mem_cons.1 he' with rfl | he'
      · exact hlt
      · cases h : bytewiseLt e'.1 key
        · rfl
        · rw [bytewiseLt_trans (hs'.1 e' he') h] at hlt; cases hlt

theorem filter_seek (sid : Nat) (db : List MetaEntry) :
    (seek (dsPrefix sid) db).filter (fun e => (dsPrefix sid).isPrefixOf e.1) =
      db.filter fun e => (dsPrefix sid).isPrefixOf e.1 := by
  have hskip : (db.takeWhile fun e => bytewiseLt e.1 (dsPrefix sid)).filter
      (fun e => (dsPrefix sid).isPrefixOf e.1) = [] := List.filter_eq_nil_iff.2 fun e he hp => by
    have := List.mem_takeWhile_imp he
    rw [bytewiseLt_eq_false_of_extends (List.isPrefixOf_iff_prefix.1 hp)] at this
    cases this
  conv_rhs => rw [← List.takeWhile_append_dropWhile (fun e => bytewiseLt e.1 (dsPrefix sid)) db]
  rw [List.filter_append, hskip, List.nil_append, seek]

/-- `ReloadDataSet`'s seek and scan decode exactly the entries of data set `sid`, in the DB's key
order. -/
theorem reloadScan_seek {sid : Nat} (hsid : sid < 2 ^ 64) {db : List MetaEntry}
    (hs : KeySorted db) (hw : DsKeysFormed db) :
    reloadScan sid (seek (dsPrefix sid) db) =
      (db.filter fun e => (dsPrefix sid).isPrefixOf e.1).map decodeEntry := by
  have hsub : (seek (dsPrefix sid) db).Sublist db := (List.dropWhile_suffix _).sublist
  rw [reloadScan_eq_filter hsid (hs.sublist hsub) (fun e he => hw e (hsub.subset he))
    (seek_not_lt hs), filter_seek]

/-! ## The DB holds the records -/

/-- The metadata DB as `LogRecord` leaves it for the records `rec`: in key order, its `"DS#"`
entries are exactly `LogRecord`'s, one for each record, and every number fits a `uint64_t`. -/
structure Holds (rec : Nat × Nat → Option DsRecord) (db : List MetaEntry) : Prop where
  sorted : KeySorted db
  ds_entry : ∀ e ∈ db, dsTag <+: e.1 →
    ∃ sid cbi r, rec (sid, cbi) = some r ∧ e = (dsKey sid cbi, r.encode)
  complete : ∀ sid cbi r, rec (sid, cbi) = some r → (dsKey sid cbi, r.encode) ∈ db
  fits : ∀ sid cbi r, rec (sid, cbi) = some r → sid < 2 ^ 64 ∧ cbi < 2 ^ 64 ∧ r.Fits

variable {rec : Nat × Nat → Option DsRecord} {db : List MetaEntry}

theorem Holds.formed (h : Holds rec db) : DsKeysFormed db := fun e he ht => by
  obtain ⟨_, _, _, -, rfl⟩ := h.ds_entry e he ht
  simp

theorem decodeFixed64_encodeFixed64_self {v : Nat} (h : v < 2 ^ 64) :
    decodeFixed64 (encodeFixed64 v) = v := by
  simpa using decodeFixed64_encodeFixed64 v h []

theorem drop_three_dsKey (sid cbi : Nat) :
    (dsKey sid cbi).drop 3 = encodeFixed64 sid ++ encodeFixed64 cbi := by
  rw [dsKey, dsPrefix, List.append_assoc, List.drop_left' (show dsTag.length = 3 from rfl)]

theorem drop_eleven_dsKey (sid cbi : Nat) : (dsKey sid cbi).drop 11 = encodeFixed64 cbi := by
  rw [show (11 : Nat) = 3 + 8 from rfl, ← List.drop_drop, drop_three_dsKey,
    List.drop_left' (length_encodeFixed64 _)]

theorem decodeEntry_dsKey {sid cbi : Nat} {r : DsRecord} (h : cbi < 2 ^ 64) (hr : r.Fits) :
    decodeEntry (dsKey sid cbi, r.encode) = (cbi, r) := by
  rw [decodeEntry, drop_eleven_dsKey, decodeFixed64_encodeFixed64_self h, decodeRecord_encode hr]

theorem Holds.entry_of_dsPrefix (h : Holds rec db) {sid : Nat} (hsid : sid < 2 ^ 64) {e : MetaEntry}
    (he : e ∈ db) (hp : dsPrefix sid <+: e.1) :
    ∃ cbi r, rec (sid, cbi) = some r ∧ e = (dsKey sid cbi, r.encode) := by
  have ht : dsTag <+: e.1 := (List.prefix_append _ _).trans hp
  obtain ⟨sid', cbi, r, hr, rfl⟩ := h.ds_entry e he ht
  have := (dsPrefix_prefix_iff hsid ht (h.formed _ he ht)).1 hp
  rw [drop_three_dsKey, decodeFixed64_encodeFixed64 _ (h.fits _ _ _ hr).1] at this
  subst this
  exact ⟨cbi, r, hr, rfl⟩

theorem Holds.mem_reloadScan_iff (h : Holds rec db) {sid : Nat} (hsid : sid < 2 ^ 64)
    (cbi : Nat) (r : DsRecord) :
    (cbi, r) ∈ reloadScan sid (seek (dsPrefix sid) db) ↔ rec (sid, cbi) = some r := by
  rw [reloadScan_seek hsid h.sorted h.formed]
  simp only [List.mem_map, List.mem_filter, List.isPrefixOf_iff_prefix]
  constructor
  · rintro ⟨e, ⟨he, hp⟩, hd⟩
    obtain ⟨cbi', r', hr, rfl⟩ := h.entry_of_dsPrefix hsid he hp
    obtain ⟨-, h2, hfit⟩ := h.fits _ _ _ hr
    rw [decodeEntry_dsKey h2 hfit, Prod.mk.injEq] at hd
    obtain ⟨rfl, rfl⟩ := hd
    exact hr
  · intro hr
    obtain ⟨-, h2, hfit⟩ := h.fits _ _ _ hr
    exact ⟨_, ⟨h.complete _ _ _ hr, List.prefix_append _ _⟩, decodeEntry_dsKey h2 hfit⟩

theorem Holds.nodup_reloadScan (h : Holds rec db) {sid : Nat} (hsid : sid < 2 ^ 64) :
    ((reloadScan sid (seek (dsPrefix sid) db)).map Prod.fst).Nodup := by
  rw [reloadScan_seek hsid h.sorted h.formed, List.map_map, List.Nodup, List.pairwise_map]
  refine (h.sorted.sublist (List.filter_sublist _)).imp_of_mem fun {a b} ha hb hlt heq => ?_
  simp only [List.mem_filter, List.isPrefixOf_iff_prefix] at ha hb
  obtain ⟨ca, ra, hra, rfl⟩ := h.entry_of_dsPrefix hsid ha.1 ha.2
  obtain ⟨cb, rb, hrb, rfl⟩ := h.entry_of_dsPrefix hsid hb.1 hb.2
  simp only [Function.comp, decodeEntry_dsKey (h.fits _ _ _ hra).2.1 (h.fits _ _ _ hra).2.2,
    decodeEntry_dsKey (h.fits _ _ _ hrb).2.1 (h.fits _ _ _ hrb).2.2] at heq
  subst heq
  rw [bytewiseLt_irrefl] at hlt
  cases hlt

/-! ## `LogRecord`'s writes -/

/-- The metadata DB's `Put` on its entries in key order: the entry replaces the one of the same
key, or goes in before the first larger key. -/
def put (k v : List UInt8) : List MetaEntry → List MetaEntry
  | [] => [(k, v)]
  | e :: db =>
    if bytewiseLt k e.1 then (k, v) :: e :: db
    else if k = e.1 then (k, v) :: db
    else e :: put k v db

theorem bytewiseLt_total : ∀ {a b : List UInt8}, a ≠ b → bytewiseLt a b ∨ bytewiseLt b a
  | [], [], h => absurd rfl h
  | [], _ :: _, _ => .inl rfl
  | _ :: _, [], _ => .inr rfl
  | x :: xs, y :: ys, h => by
    by_cases hxy : x = y
    · subst hxy
      simp only [bytewiseLt, if_true]
      exact bytewiseLt_total fun h' => h (h' ▸ rfl)
    · have : x.toNat ≠ y.toNat := fun h' => hxy (UInt8.toNat.inj h')
      simp only [bytewiseLt, hxy, Ne.symm hxy, if_false, decide_eq_true_eq]
      omega

theorem KeySorted.mem_put_iff {k v : List UInt8} {e : MetaEntry} :
    ∀ {db : List MetaEntry}, KeySorted db → (e ∈ put k v db ↔ e = (k, v) ∨ e ∈ db ∧ e.1 ≠ k)
  | [], _ => by simp [put]
  | e' :: db, hs => by
    rw [KeySorted, List.pairwise_cons] at hs
    have ih := KeySorted.mem_put_iff (k := k) (v := v) (e := e) hs.2
    have hne : ∀ x ∈ db, bytewiseLt k e'.1 ∨ k = e'.1 → x.1 ≠ k := fun x hx h' hx' => by
      have hlt : bytewiseLt k x.1 :=
        h'.elim (fun h' => bytewiseLt_trans h' (hs.1 x hx)) fun h' => h' ▸ hs.1 x hx
      rw [hx', bytewiseLt_irrefl] at hlt
      cases hlt
    unfold put
    split_ifs with hlt heq
    · have : e'.1 ≠ k := fun h' => by rw [h', bytewiseLt_irrefl] at hlt; cases hlt
      simp only [List.mem_cons]
      constructor
      · rintro (rfl | rfl | hx)
        exacts [.inl rfl, .inr ⟨.inl rfl, this⟩, .inr ⟨.inr hx, hne e hx (.inl hlt)⟩]
      · rintro (rfl | ⟨rfl | hx, -⟩) <;> simp [*]
    · simp only [List.mem_cons]
      constructor
      · rintro (rfl | hx)
        exacts [.inl rfl, .inr ⟨.inr hx, hne e hx (.inr heq)⟩]
      · rintro (rfl | ⟨rfl | hx, hk⟩)
        exacts [.inl rfl, absurd heq.symm hk, .inr hx]
    · simp only [List.mem_cons, ih]
      constructor
      · rintro (rfl | h' | ⟨hx, hk⟩)
        exacts [.inr ⟨.inl rfl, Ne.symm heq⟩, .inl h', .inr ⟨.inr hx, hk⟩]
      · rintro (h' | ⟨rfl | hx, hk⟩)
        exacts [.inr (.inl h'), .inl rfl, .inr (.inr ⟨hx, hk⟩)]

theorem KeySorted.put {db : List MetaEntry} (k v : List UInt8) :
    KeySorted db → KeySorted (put k v db) := by
  induction db with
  | nil => intro; exact List.pairwise_singleton _ _
  | cons e db ih =>
    intro hs
    have hs' := hs
    rw [KeySorted, List.pairwise_cons] at hs'
    unfold BlockCache.put
    split_ifs with hlt heq
    · exact List.Pairwise.cons (fun x hx => (List.mem_cons.1 hx).elim (fun h => h ▸ hlt)
        fun hx => bytewiseLt_trans hlt (hs'.1 x hx)) hs
    · exact List.Pairwise.cons (fun x hx => heq ▸ hs'.1 x hx) hs'.2
    · refine List.Pairwise.cons (fun x hx => ?_) (ih hs'.2)
      rcases (KeySorted.mem_put_iff hs'.2).1 hx with rfl | ⟨hx, -⟩
      · exact (bytewiseLt_total (Ne.symm heq)).resolve_right (by simpa using hlt)
      · exact hs'.1 x hx

theorem dsKey_injective {sid cbi sid' cbi' : Nat} (hsid : sid < 2 ^ 64) (hcbi : cbi < 2 ^ 64)
    (hsid' : sid' < 2 ^ 64) (hcbi' : cbi' < 2 ^ 64) (h : dsKey sid cbi = dsKey sid' cbi') :
    (sid, cbi) = (sid', cbi') := by
  have h3 := congrArg (fun k => decodeFixed64 (k.drop 3)) h
  have h11 := congrArg (fun k => decodeFixed64 (k.drop 11)) h
  simp only [drop_three_dsKey, drop_eleven_dsKey, decodeFixed64_encodeFixed64 _ hsid,
    decodeFixed64_encodeFixed64 _ hsid', decodeFixed64_encodeFixed64_self hcbi,
    decodeFixed64_encodeFixed64_self hcbi'] at h3 h11
  rw [h3, h11]

theorem Holds.empty : Holds (fun _ => none) [] :=
  ⟨List.Pairwise.nil, nofun, (fun _ _ _ h => nomatch h), fun _ _ _ h => nomatch h⟩

/-- `LogRecord`'s `Put` of the record of slot `cbi` keeps the DB holding the records, with the
new one in place of the slot's old one. -/
theorem Holds.put_dsKey (h : Holds rec db) {sid cbi : Nat} {r : DsRecord} (hsid : sid < 2 ^ 64)
    (hcbi : cbi < 2 ^ 64) (hr : r.Fits) :
    Holds (update rec (sid, cbi) (some r)) (put (dsKey sid cbi) r.encode db) := by
  have hmem := fun {e} => KeySorted.mem_put_iff (e := e) (k := dsKey sid cbi) (v := r.encode) h.sorted
  refine ⟨h.sorted.put _ _, fun e he ht => ?_, fun sid' cbi' r' hr' => ?_, fun sid' cbi' r' hr' => ?_⟩
  · rcases hmem.1 he with rfl | ⟨he, hne⟩
    · exact ⟨sid, cbi, r, by simp, rfl⟩
    · obtain ⟨sid', cbi', r', hr', rfl⟩ := h.ds_entry e he ht
      refine ⟨sid', cbi', r', ?_, rfl⟩
      rw [Function.update_noteq fun heq => hne (by cases heq; rfl)]
      exact hr'
  · by_cases hq : (sid', cbi') = (sid, cbi)
    · cases hq
      rw [Function.update_same] at hr'
      cases hr'
      exact hmem.2 (.inl rfl)
    · rw [Function.update_noteq hq] at hr'
      obtain ⟨h1, h2, -⟩ := h.fits _ _ _ hr'
      exact hmem.2 (.inr ⟨h.complete _ _ _ hr', fun heq => hq (dsKey_injective h1 h2 hsid hcbi heq)⟩)
  · by_cases hq : (sid', cbi') = (sid, cbi)
    · cases hq
      rw [Function.update_same] at hr'
      cases hr'
      exact ⟨hsid, hcbi, hr⟩
    · rw [Function.update_noteq hq] at hr'
      exact h.fits _ _ _ hr'

/-- A `Put` of a key that is not a `"DS#"` key, such as the file-id allocator's, leaves the
records alone. -/
theorem Holds.put_other (h : Holds rec db) {k : List UInt8} (v : List UInt8) (hk : ¬ dsTag <+: k) :
    Holds rec (put k v db) := by
  have hmem := fun {e} => KeySorted.mem_put_iff (e := e) (k := k) (v := v) h.sorted
  refine ⟨h.sorted.put _ _, fun e he ht => ?_, fun sid cbi r hr => ?_, h.fits⟩
  · rcases hmem.1 he with rfl | ⟨he, -⟩
    · exact absurd ht hk
    · exact h.ds_entry e he ht
  · refine hmem.2 (.inr ⟨h.complete _ _ _ hr, fun heq => hk ?_⟩)
    rw [← heq, dsKey, dsPrefix, List.append_assoc]
    exact List.prefix_append _ _

variable {α : Type}

/-- `LogRecord` on the bytes: the `Put` of `"DS#" + PutFixed64(sid) + PutFixed64(slot)` with
the block's `Encode()`, when `Write` succeeds. -/
def logRecordDb (db : List MetaEntry) (b : CacheBlock α) (ok : Bool) : List MetaEntry :=
  if ok then put (dsKey b.sid b.cacheBlockIdx) (DsRecord.encode ⟨b.fid, b.blockIdx, b.state⟩) db
  else db

/-- The numbers of a block fit the `uint64_t`s of its key and record. -/
def CacheBlock.Fits (b : CacheBlock α) : Prop :=
  b.sid < 2 ^ 64 ∧ b.cacheBlockIdx < 2 ^ 64 ∧ b.fid < 2 ^ 64 ∧ b.blockIdx < 2 ^ 64

/-- The byte-level `LogRecord` refines the record map's: after the write the DB holds the
records with the block's in its slot. -/
theorem logRecordDb_holds {c : BlockCacheImpl α} (h : Holds c.dsRecord db) {b : CacheBlock α}
    (hb : b.Fits) (ok : Bool) :
    Holds (c.logRecord b ok).1.dsRecord (logRecordDb db b ok) := by
  cases ok
  · exact h
  · exact h.put_dsKey hb.1 hb.2.1 ⟨hb.2.2.1, hb.2.2.2⟩

theorem logRecordDb_holds_first_write :
    let c : BlockCacheImpl Nat := ⟨fun _ => none, fun _ => none, fun _ => false, fun _ => [],
      fun _ => none⟩
    let b : CacheBlock Nat := ⟨3, 9, 0, 1, .validOnly, [], 0, .ok, 0⟩
    Holds c.dsRecord [] ∧ b.Fits ∧
      Holds (c.logRecord b true).1.dsRecord (logRecordDb [] b true) := by
  intro c b
  have hb : b.Fits := ⟨by decide, by decide, by decide, by decide⟩
  exact ⟨Holds.empty, hb, logRecordDb_holds Holds.empty hb true⟩

/-- `ReloadDataSet` decodes `LogRecord`'s entry for a block back into the block's data set,
slot, file id, block index and state. -/
theorem logRecord_entry_decodes (b : CacheBlock α) (hb : b.Fits) :
    decodeFixed64 ((dsKey b.sid b.cacheBlockIdx).drop 3) = b.sid ∧
      decodeEntry (dsKey b.sid b.cacheBlockIdx, DsRecord.encode ⟨b.fid, b.blockIdx, b.state⟩) =
        (b.cacheBlockIdx, ⟨b.fid, b.blockIdx, b.state⟩) :=
  ⟨by rw [drop_three_dsKey, decodeFixed64_encodeFixed64 _ hb.1],
    decodeEntry_dsKey hb.2.1 ⟨hb.2.2.1, hb.2.2.2⟩⟩

theorem logRecord_entry_decodes_top :
    let b : CacheBlock Nat := ⟨2 ^ 64 - 1, 300, 2 ^ 63, 256, ⟨true, true, false, true, true⟩,
      [], 0, .ok, 0⟩
    b.Fits ∧ decodeFixed64 ((dsKey b.sid b.cacheBlockIdx).drop 3) = b.sid ∧
      decodeEntry (dsKey b.sid b.cacheBlockIdx, DsRecord.encode ⟨b.fid, b.blockIdx, b.state⟩) =
        (b.cacheBlockIdx, ⟨b.fid, b.blockIdx, b.state⟩) := by
  intro b
  have hb : b.Fits := ⟨by decide, by decide, by decide, by decide⟩
  exact ⟨hb, logRecord_entry_decodes b hb⟩

/-! ## What the scan reads back -/

/-- From a DB that holds the records, `ReloadDataSet`'s scan for data set `sid` yields exactly
its records, each slot once, although the little-endian keys sort neither by slot nor by data
set. -/
theorem reloadScan_exactly (h : Holds rec db) {sid : Nat} (hsid : sid < 2 ^ 64) :
    ((reloadScan sid (seek (dsPrefix sid) db)).map Prod.fst).Nodup ∧
      ∀ cbi r, (cbi, r) ∈ reloadScan sid (seek (dsPrefix sid) db) ↔ rec (sid, cbi) = some r :=
  ⟨h.nodup_reloadScan hsid, h.mem_reloadScan_iff hsid⟩

/-- Data sets 0, 256 and 1, in this byte order, and a file-id entry after them: the scan for
data set 256 stops at the key of data set 1. -/
theorem reloadScan_exactly_three_sets :
    let r : DsRecord := ⟨4, 4, .validOnly⟩
    let recs := update (update (update (fun _ => none) (0, 1) (some r)) (1, 0) (some r))
      (256, 2) (some r)
    let db := put [0x46, 0x49, 0x44, 0x23] [7] (put (dsKey 256 2) r.encode
      (put (dsKey 1 0) r.encode (put (dsKey 0 1) r.encode [])))
    Holds recs db ∧ (256 : Nat) < 2 ^ 64 ∧
      (((reloadScan 256 (seek (dsPrefix 256) db)).map Prod.fst).Nodup ∧
        ∀ cbi r', (cbi, r') ∈ reloadScan 256 (seek (dsPrefix 256) db) ↔
          recs (256, cbi) = some r') ∧
      reloadScan 256 (seek (dsPrefix 256) db) = [(2, r)] := by
  intro r recs db
  have hr : r.Fits := ⟨by decide, by decide⟩
  have h : Holds recs db :=
    (((Holds.empty.put_dsKey (by decide) (by decide) hr).put_dsKey (by decide) (by decide)
      hr).put_dsKey (by decide) (by decide) hr).put_other _ (by decide)
  exact ⟨h, by decide, reloadScan_exactly h (show (256 : Nat) < 2 ^ 64 by decide), by decide⟩

/-! ## The index `ReloadDataSet` rebuilds -/

def slotRecords (rec : Nat × Nat → Option DsRecord) (sid : Nat) (l : List Nat) :
    List (Nat × DsRecord) :=
  l.filterMap fun cbi => (rec (sid, cbi)).map fun r => (cbi, r)

theorem mem_slotRecords {sid : Nat} {l : List Nat} {p : Nat × DsRecord} :
    p ∈ slotRecords rec sid l ↔ p.1 ∈ l ∧ rec (sid, p.1) = some p.2 := by
  obtain ⟨cbi, r⟩ := p
  simp only [slotRecords, List.mem_filterMap, Option.map_eq_some', Prod.mk.injEq]
  constructor
  · rintro ⟨_, hl, r, hr, rfl, rfl⟩
    exact ⟨hl, hr⟩
  · exact fun ⟨hl, hr⟩ => ⟨cbi, hl, r, hr, rfl, rfl⟩

theorem nodup_slotRecords (sid : Nat) {l : List Nat} (hl : l.Nodup) :
    ((slotRecords rec sid l).map Prod.fst).Nodup := by
  rw [slotRecords, List.map_filterMap]
  refine hl.filterMap fun a a' p ha ha' => ?_
  simp only [Option.mem_def, Option.map_eq_some', Option.map_map] at ha ha'
  obtain ⟨_, -, rfl⟩ := ha
  obtain ⟨_, -, h⟩ := ha'
  exact h.symm

namespace BlockCacheImpl

/-- `ReloadDataSet` on the metadata DB: insert a block for each record the scan decodes, in the
DB's key order, then publish the data set. -/
def reloadDataSetFromDb (c : BlockCacheImpl α) (db : List MetaEntry) (sid : Nat) :
    BlockCacheImpl α :=
  let c := (reloadScan sid (seek (dsPrefix sid) db)).foldl
    (fun c p => c.insert (reloadedBlock sid p.1 p.2)) c
  { c with loaded := update c.loaded sid true }

def recordKey (p : Nat × DsRecord) : Nat × Nat := (p.2.fid, p.2.blockIdx)

/-- `c'` is `c` with a block for each record of `L` (slot, record) of data set `sid`: the index
has each record's block under its key and each slot owned by its record's key, and is
otherwise `c`. -/
structure Reloaded (sid : Nat) (L : List (Nat × DsRecord)) (c c' : BlockCacheImpl α) : Prop where
  blocks_mem : ∀ p ∈ L, c'.blocks (recordKey p) = some (reloadedBlock sid p.1 p.2)
  blocks_other : ∀ k, (∀ p ∈ L, recordKey p ≠ k) → c'.blocks k = c.blocks k
  owner_mem : ∀ p ∈ L, c'.slotOwner (sid, p.1) = some (recordKey p)
  owner_other : ∀ x, (∀ p ∈ L, (sid, p.1) ≠ x) → c'.slotOwner x = c.slotOwner x
  loaded : c'.loaded = c.loaded
  dataSetFile : c'.dataSetFile = c.dataSetFile
  dsRecord : c'.dsRecord = c.dsRecord

/-- Inserting blocks with distinct keys and distinct slots, none of them indexed yet, in any
order. -/
theorem reloaded_foldl_insert (sid : Nat) :
    ∀ (L : List (Nat × DsRecord)) (c : BlockCacheImpl α), (L.map recordKey).Nodup →
      (L.map Prod.fst).Nodup → (∀ p ∈ L, c.blocks (recordKey p) = none) →
      (∀ p ∈ L, c.slotOwner (sid, p.1) = none) →
      Reloaded sid L c (L.foldl (fun c p => c.insert (reloadedBlock sid p.1 p.2)) c)
  | [], c, _, _, _, _ => ⟨nofun, fun _ _ => rfl, nofun, fun _ _ => rfl, rfl, rfl, rfl⟩
  | p :: L, c, hk, hs, hfresh, hfree => by
    simp only [List.map_cons, List.nodup_cons, List.mem_map] at hk hs
    have hkp : ∀ q ∈ L, recordKey q ≠ recordKey p := fun q hq h => hk.1 ⟨q, hq, h⟩
    have hsp : ∀ q ∈ L, q.1 ≠ p.1 := fun q hq h => hs.1 ⟨q, hq, h⟩
    -- One insert of a fresh key in a free slot.
    set c₁ := c.insert (reloadedBlock sid p.1 p.2) with hc₁
    have hb₁ : ∀ k, c₁.blocks k = if k = recordKey p then some (reloadedBlock sid p.1 p.2)
        else c.blocks k := fun k => by
      simp only [hc₁, insert, reloadedBlock, recordKey, Function.update_apply]
    have ho₁ : ∀ x, c₁.slotOwner x = if x = (sid, p.1) then some (recordKey p)
        else c.slotOwner x := fun x => by
      have hnone : c.blocks (recordKey p) = none := hfresh p (.head _)
      simp only [recordKey] at hnone
      simp only [hc₁, insert, reloadedBlock, recordKey, hnone, Function.update_apply]
    have ih := reloaded_foldl_insert sid L c₁ hk.2 hs.2
      (fun q hq => by rw [hb₁, if_neg (hkp q hq)]; exact hfresh q (.tail _ hq))
      (fun q hq => by rw [ho₁, if_neg (by simpa using hsp q hq)]; exact hfree q (.tail _ hq))
    refine ⟨fun q hq => ?_, fun k hk' => ?_, fun q hq => ?_, fun x hx => ?_, ih.loaded,
      ih.dataSetFile, ih.dsRecord⟩
    · rcases List.mem_cons.1 hq with rfl | hq
      · rw [List.foldl_cons, ih.blocks_other _ fun q hq h => hkp q hq h, hb₁, if_pos rfl]
      · exact ih.blocks_mem q hq
    · rw [List.foldl_cons, ih.blocks_other k fun q hq => hk' q (.tail _ hq), hb₁,
        if_neg (Ne.symm (hk' p (.head _)))]
    · rcases List.mem_cons.1 hq with rfl | hq
      · rw [List.foldl_cons, ih.owner_other _ fun q hq h => hsp q hq (by simpa using h), ho₁,
          if_pos rfl]
      · exact ih.owner_mem q hq
    · rw [List.foldl_cons, ih.owner_other x fun q hq => hx q (.tail _ hq), ho₁,
        if_neg (Ne.symm (hx p (.head _)))]

theorem Reloaded.unique {sid : Nat} {L L' : List (Nat × DsRecord)} {c c₁ c₂ : BlockCacheImpl α}
    (h₁ : Reloaded sid L c c₁) (h₂ : Reloaded sid L' c c₂) (hL : ∀ p, p ∈ L ↔ p ∈ L') :
    c₁ = c₂ := by
  have hblocks : c₁.blocks = c₂.blocks := funext fun k => by
    by_cases hk : ∃ p ∈ L, recordKey p = k
    · obtain ⟨p, hp, rfl⟩ := hk
      rw [h₁.blocks_mem p hp, h₂.blocks_mem p ((hL p).1 hp)]
    · push_neg at hk
      rw [h₁.blocks_other k hk, h₂.blocks_other k fun p hp => hk p ((hL p).2 hp)]
  have howner : c₁.slotOwner = c₂.slotOwner := funext fun x => by
    by_cases hx : ∃ p ∈ L, (sid, p.1) = x
    · obtain ⟨p, hp, rfl⟩ := hx
      rw [h₁.owner_mem p hp, h₂.owner_mem p ((hL p).1 hp)]
    · push_neg at hx
      rw [h₁.owner_other x hx, h₂.owner_other x fun p hp => hx p ((hL p).2 hp)]
  obtain ⟨b₁, o₁, l₁, f₁, r₁⟩ := c₁
  obtain ⟨b₂, o₂, l₂, f₂, r₂⟩ := c₂
  have := h₁.loaded.trans h₂.loaded.symm
  have := h₁.dataSetFile.trans h₂.dataSetFile.symm
  have := h₁.dsRecord.trans h₂.dsRecord.symm
  simp_all

/-- `reloadDataSet`'s fold over the slots is the fold of `insert` over the slots that hold a
record. -/
theorem foldl_slots {sid : Nat} (f : BlockCacheImpl α → Nat → BlockCacheImpl α)
    (hnone : ∀ c cbi, c.dsRecord (sid, cbi) = none → f c cbi = c)
    (hsome : ∀ c cbi r, c.dsRecord (sid, cbi) = some r →
      f c cbi = c.insert (reloadedBlock sid cbi r)) :
    ∀ (l : List Nat) (c : BlockCacheImpl α), l.foldl f c =
      (slotRecords c.dsRecord sid l).foldl (fun c p => c.insert (reloadedBlock sid p.1 p.2)) c
  | [], _ => rfl
  | cbi :: l, c => by
    cases hr : c.dsRecord (sid, cbi) with
    | none =>
      simp only [List.foldl_cons, slotRecords, List.filterMap_cons, hr, Option.map_none',
        hnone c cbi hr]
      exact foldl_slots f hnone hsome l c
    | some r =>
      simp only [List.foldl_cons, slotRecords, List.filterMap_cons, hr, Option.map_some',
        hsome c cbi r hr]
      exact foldl_slots f hnone hsome l _

section Reload

variable {c : BlockCacheImpl α} {sid : Nat}

/-- Inserting each record of data set `sid` once, in any order, when the records name distinct
blocks that are not in the index and their slots are free. -/
theorem reloaded_of_records
    (hrec : ∀ cbi r, c.dsRecord (sid, cbi) = some r →
      c.blocks (r.fid, r.blockIdx) = none ∧ c.slotOwner (sid, cbi) = none)
    (hdist : ∀ cbi cbi' r r', c.dsRecord (sid, cbi) = some r → c.dsRecord (sid, cbi') = some r' →
      (r.fid, r.blockIdx) = (r'.fid, r'.blockIdx) → cbi = cbi')
    {M : List (Nat × DsRecord)} (hM : ∀ p, p ∈ M ↔ c.dsRecord (sid, p.1) = some p.2)
    (hn : M.Nodup) :
    Reloaded sid M c (M.foldl (fun c p => c.insert (reloadedBlock sid p.1 p.2)) c) := by
  have hslot : ∀ p ∈ M, ∀ q ∈ M, p.1 = q.1 → p = q := fun p hp q hq h => by
    have hp' := (hM p).1 hp
    rw [h, (hM q).1 hq] at hp'
    exact Prod.ext h (Option.some.inj hp').symm
  exact reloaded_foldl_insert sid M c
    (hn.map_on fun p hp q hq h =>
      hslot p hp q hq (hdist _ _ _ _ ((hM p).1 hp) ((hM q).1 hq) h))
    (hn.map_on hslot) (fun p hp => (hrec _ _ ((hM p).1 hp)).1)
    (fun p hp => (hrec _ _ ((hM p).1 hp)).2)

/-- `ReloadDataSet` on the bytes of the metadata DB rebuilds the index that the slot-order
model builds, whenever the DB holds the records, the data set's records sit in its slots and
name distinct blocks, and the data set is not in the index yet. -/
theorem reloadDataSetFromDb_eq_of_fresh (S : Setting α) {db : List MetaEntry}
    (hdb : Holds c.dsRecord db) (hsid : sid < 2 ^ 64)
    (hrec : ∀ cbi r, c.dsRecord (sid, cbi) = some r →
      cbi < S.nrBlock ∧ c.blocks (r.fid, r.blockIdx) = none ∧ c.slotOwner (sid, cbi) = none)
    (hdist : ∀ cbi cbi' r r', c.dsRecord (sid, cbi) = some r → c.dsRecord (sid, cbi') = some r' →
      (r.fid, r.blockIdx) = (r'.fid, r'.blockIdx) → cbi = cbi') :
    c.reloadDataSetFromDb db sid = c.reloadDataSet S sid := by
  have hscan : ∀ p, p ∈ reloadScan sid (seek (dsPrefix sid) db) ↔
      c.dsRecord (sid, p.1) = some p.2 := fun p => hdb.mem_reloadScan_iff hsid p.1 p.2
  have hslots : ∀ p, p ∈ slotRecords c.dsRecord sid (List.range S.nrBlock) ↔
      c.dsRecord (sid, p.1) = some p.2 := fun p => by
    rw [mem_slotRecords, List.mem_range]
    exact ⟨And.right, fun hr => ⟨(hrec _ _ hr).1, hr⟩⟩
  have hrec' := fun cbi r h => (hrec cbi r h).2
  have heq := (reloaded_of_records hrec' hdist hscan ((hdb.nodup_reloadScan hsid).of_map _)).unique
    (reloaded_of_records hrec' hdist hslots ((nodup_slotRecords sid (List.nodup_range _)).of_map _))
    fun p => (hscan p).trans (hslots p).symm
  unfold reloadDataSetFromDb reloadDataSet
  rw [foldl_slots _ ?_ ?_, heq]
  · exact fun c cbi h => by simp only [h]
  · exact fun c cbi r h => by simp only [h]

-- Two records, of slots 1 and 256: the DB visits slot 256 first, the model slot 1.
example :
    let r₁ : DsRecord := ⟨5, 0, .validOnly⟩
    let r₂ : DsRecord := ⟨7, 3, .empty⟩
    let c : BlockCacheImpl Nat := ⟨fun _ => none, fun _ => none, fun _ => false, fun _ => [],
      update (update (fun _ => none) (0, 1) (some r₁)) (0, 256) (some r₂)⟩
    let db := put (dsKey 0 256) r₂.encode (put (dsKey 0 1) r₁.encode [])
    db.map Prod.fst = [dsKey 0 256, dsKey 0 1] ∧
      c.reloadDataSetFromDb db 0 = c.reloadDataSet ⟨1, 257, fun _ _ => 0, fun _ => []⟩ 0 := by
  intro r₁ r₂ c db
  have hdb : Holds c.dsRecord db :=
    (Holds.empty.put_dsKey (by decide) (by decide) ⟨by decide, by decide⟩).put_dsKey
      (by decide) (by decide) ⟨by decide, by decide⟩
  refine ⟨by decide, reloadDataSetFromDb_eq_of_fresh _ hdb (by decide) (fun cbi r h => ?_)
    fun cbi cbi' r r' h h' hk => ?_⟩
  · refine ⟨show cbi < 257 from ?_, rfl, rfl⟩
    simp only [c, Function.update_apply, Prod.mk.injEq, true_and] at h
    split_ifs at h <;> omega
  · simp only [c, Function.update_apply, Prod.mk.injEq, true_and] at h h'
    split_ifs at h h' <;> cases h <;> cases h' <;> simp_all [r₁, r₂]

end Reload

end BlockCacheImpl

end Leveldb.BlockCache
