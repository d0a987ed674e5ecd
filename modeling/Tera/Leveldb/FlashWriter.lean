import Tera.Leveldb.FlashMirror
import Mathlib.Algebra.Group.Nat.Basic

/-!
# `FlashWritableFile`: the local copy written beside the DFS file

`FlashEnv::NewWritableFile` opens the DFS file and, for a file whose name ends in `.sst` by the
constructor's test, a local file at `FlashPath(fname) + fname`. `Append` appends to the DFS file
and, if that succeeded and the local file is open, to the local file; a failed local `Append`
closes and deletes the local file (`DeleteLocal`). `Flush` and `Sync` go to the DFS file only.
`Close` closes the local file, deleting it if that fails, and returns the DFS file's `Close`.

The DFS and the local `Env` are not under `src/`: each call comes with the outcomes of the calls
it makes. A DFS `Append` that fails may have written a first part of its bytes; a local
`NewWritableFile` that succeeds empties the file at the path (`O_TRUNC`), and one that fails
leaves what was there; the local `DeleteFile` removes the file.

Over every run the local file, while `flash_file_` is set, is the DFS file less the bytes that
failed DFS `Append`s wrote: so it holds the DFS bytes whenever it is as long as the DFS file,
which is what `FlashFileIdentical` checks. From a local copy written with every DFS `Append`
OK, the mirror of `Tera.Leveldb.FlashMirror` serves only DFS bytes.
-/
namespace Leveldb.Flash

/-! ## The constructor's test on the name -/

def npos : Nat := 2 ^ 64 - 1

def sstSuffix : List Byte := [0x2e, 0x73, 0x73, 0x74]

/-- `rfind`'s search for `pat` in `s`, from position `i` down to `0`. -/
def rfindFrom (s pat : List Byte) : Nat → Nat
  | 0 => if pat.isPrefixOf s then 0 else npos
  | i + 1 => if pat.isPrefixOf (s.drop (i + 1)) then i + 1 else rfindFrom s pat i

/-- `s.rfind(pat)` on the bytes of a `std::string`: the last position where `pat` occurs, or
`npos`. -/
def rfind (s pat : List Byte) : Nat := rfindFrom s pat s.length

/-- The constructor's `fname.rfind(".sst") != fname.size() - 4` on the bytes of `fname`, the
subtraction in `size_t`: true for a file that gets no local copy. -/
def skipsLocalCopy (fname : List Byte) : Bool :=
  rfind fname sstSuffix != (fname.length + 2 ^ 64 - 4) % 2 ^ 64

/-- `rfindFrom s pat i` is `npos` when `pat` occurs at no position up to `i`, and otherwise the
last position up to `i` where it occurs. -/
theorem rfindFrom_spec (s pat : List Byte) :
    ∀ i, (rfindFrom s pat i = npos ∧ ∀ j ≤ i, ¬ pat <+: s.drop j) ∨
      (rfindFrom s pat i ≤ i ∧ pat <+: s.drop (rfindFrom s pat i) ∧
        ∀ j, rfindFrom s pat i < j → j ≤ i → ¬ pat <+: s.drop j)
  | 0 => by
    by_cases h : pat <+: s
    · exact .inr ⟨by simp [rfindFrom, List.isPrefixOf_iff_prefix.2 h], by
        simpa [rfindFrom, List.isPrefixOf_iff_prefix.2 h] using h, fun j hj hj' => by omega⟩
    · refine .inl ⟨by simp [rfindFrom, mt List.isPrefixOf_iff_prefix.1 h], fun j hj => ?_⟩
      rwa [show j = 0 by omega, List.drop_zero]
  | i + 1 => by
    by_cases h : pat <+: s.drop (i + 1)
    · have he : rfindFrom s pat (i + 1) = i + 1 := by
        simp [rfindFrom, List.isPrefixOf_iff_prefix.2 h]
      exact .inr ⟨le_of_eq he, by rw [he]; exact h, fun j hj hj' => by omega⟩
    · have he : rfindFrom s pat (i + 1) = rfindFrom s pat i := by
        simp [rfindFrom, mt List.isPrefixOf_iff_prefix.1 h]
      rw [he]
      rcases rfindFrom_spec s pat i with ⟨hn, hno⟩ | ⟨hle, hocc, hlast⟩
      · refine .inl ⟨hn, fun j hj => ?_⟩
        rcases Nat.lt_or_ge j (i + 1) with hj' | hj'
        · exact hno j (by omega)
        · rwa [show j = i + 1 by omega]
      · refine .inr ⟨by omega, hocc, fun j hj hj' => ?_⟩
        rcases Nat.lt_or_ge j (i + 1) with hj'' | hj''
        · exact hlast j hj (by omega)
        · rwa [show j = i + 1 by omega]

theorem add_four_le_of_occurs {s : List Byte} {j : Nat} (h : sstSuffix <+: s.drop j) :
    j + 4 ≤ s.length := by
  have := h.length_le
  simp only [sstSuffix, List.length_cons, List.length_nil, List.length_drop] at this
  omega

theorem sstSuffix_suffix_iff {s : List Byte} :
    sstSuffix <:+ s ↔ 4 ≤ s.length ∧ sstSuffix <+: s.drop (s.length - 4) := by
  constructor
  · intro h
    exact ⟨h.length_le, List.suffix_iff_eq_drop.1 h ▸ List.prefix_refl _⟩
  · rintro ⟨h4, h⟩
    exact List.suffix_iff_eq_drop.2 (h.eq_of_length (by simp [sstSuffix]; omega))

/-- `FlashWritableFile` makes a local copy of a file exactly when its name ends in `.sst` or has
three bytes: for a name of three bytes `size() - 4` wraps to `npos`, which `rfind` returns. -/
theorem skipsLocalCopy_eq_false_iff {fname : List Byte} (h : fname.length < 2 ^ 64) :
    skipsLocalCopy fname = false ↔ sstSuffix <:+ fname ∨ fname.length = 3 := by
  unfold skipsLocalCopy rfind
  rw [bne_eq_false_iff_eq, sstSuffix_suffix_iff]
  rcases rfindFrom_spec fname sstSuffix fname.length with ⟨hn, hno⟩ | ⟨hle, hocc, hlast⟩
  · rw [hn, npos]
    have hs : ¬ (4 ≤ fname.length ∧ sstSuffix <+: fname.drop (fname.length - 4)) :=
      fun ⟨_, hs⟩ => hno _ (Nat.sub_le _ _) hs
    constructor
    · intro he
      exact .inr (by omega)
    · rintro (hs' | h3)
      · exact absurd hs' hs
      · omega
  · have hfit := add_four_le_of_occurs hocc
    constructor
    · intro he
      have hr : rfindFrom fname sstSuffix fname.length = fname.length - 4 := by omega
      exact .inl ⟨by omega, hr ▸ hocc⟩
    · rintro (⟨h4, hs⟩ | h3)
      · have : fname.length - 4 ≤ rfindFrom fname sstSuffix fname.length :=
          Nat.not_lt.1 fun hlt => hlast _ hlt (Nat.sub_le _ _) hs
        omega
      · omega

/-- The name `abc` of three bytes gets a local copy. -/
theorem skipsLocalCopy_eq_false_iff_abc :
    [0x61, 0x62, 0x63].length < 2 ^ 64 ∧
      (skipsLocalCopy [0x61, 0x62, 0x63] = false ↔
        sstSuffix <:+ [0x61, 0x62, 0x63] ∨ [0x61, 0x62, 0x63].length = 3) ∧
      skipsLocalCopy [0x61, 0x62, 0x63] = false :=
  ⟨by decide, skipsLocalCopy_eq_false_iff (by decide), by decide⟩

/-! ## The writer -/

/-- The outcome of the DFS file's `Append`: OK with every byte written, or an error after the
first `written` bytes. -/
inductive DfsAppend where
  | ok
  | failed (written : Nat)
  deriving DecidableEq, Repr

/-- A call on a `FlashWritableFile`, with the outcomes of the calls it makes in turn: `Append`
(the DFS file's `Append`, the local file's), `Flush` and `Sync` (the DFS file's), `Close` (the
local file's `Close`, the DFS file's). -/
inductive WriteCall where
  | append (data : List Byte) (dfs : DfsAppend) (localOk : Bool)
  | flush (dfsOk : Bool)
  | sync (dfsOk : Bool)
  | close (localOk dfsOk : Bool)
  deriving DecidableEq, Repr

/-- The call is no DFS `Append` that failed after writing bytes. -/
def WriteCall.keepsDfsWhole : WriteCall → Bool
  | .append _ (.failed written) _ => written == 0
  | _ => true

/-- A `FlashWritableFile`: the bytes of the DFS file it writes, whether `flash_file_` is set, and
the file at `local_fname_`, if there is one. -/
structure FlashWritableFile where
  dfs : List Byte
  flashFile : Bool
  localFile : Option (List Byte)
  deriving DecidableEq, Repr

namespace FlashWritableFile

/-- `FlashEnv::NewWritableFile(fname)`, by the bytes of `fname`, the outcomes of the DFS and the
local `NewWritableFile`, and what is at the local path before: `none` for the `IOError` of an
object that is not valid. -/
def newWritableFile (fname : List Byte) (dfsOk localOk : Bool) (old : Option (List Byte)) :
    Option FlashWritableFile :=
  if !dfsOk then none
  else if skipsLocalCopy fname then some ⟨[], false, old⟩
  else if localOk then some ⟨[], true, some []⟩
  else some ⟨[], false, old⟩

/-- `DeleteLocal`: close the local file and delete it. -/
def deleteLocal (f : FlashWritableFile) : FlashWritableFile :=
  { f with flashFile := false, localFile := none }

/-- `Append(data)`: the new state and whether it returned OK. -/
def append (f : FlashWritableFile) (data : List Byte) : DfsAppend → Bool → FlashWritableFile × Bool
  | .failed written, _ => ({ f with dfs := f.dfs ++ data.take written }, false)
  | .ok, localOk =>
    let f := { f with dfs := f.dfs ++ data }
    if f.flashFile then
      if localOk then ({ f with localFile := f.localFile.map (· ++ data) }, true)
      else (f.deleteLocal, true)
    else (f, true)

/-- `Close()`: the local file is closed, and deleted if that fails; the DFS file's `Close` is
returned. -/
def close (f : FlashWritableFile) (localOk dfsOk : Bool) : FlashWritableFile × Bool :=
  (if f.flashFile && !localOk then f.deleteLocal else f, dfsOk)

def call (f : FlashWritableFile) : WriteCall → FlashWritableFile × Bool
  | .append data dfs localOk => f.append data dfs localOk
  | .flush dfsOk | .sync dfsOk => (f, dfsOk)
  | .close localOk dfsOk => f.close localOk dfsOk

def run (f : FlashWritableFile) : List WriteCall → FlashWritableFile
  | [] => f
  | c :: cs => (f.call c).1.run cs

/-- While `flash_file_` is set, the local file is the DFS file less bytes that failed DFS
`Append`s wrote. -/
def Tracks (f : FlashWritableFile) : Prop :=
  f.flashFile = true → ∃ l, f.localFile = some l ∧ l.Sublist f.dfs

/-- While `flash_file_` is set, the local file holds the DFS file's bytes. -/
def Mirrors (f : FlashWritableFile) : Prop :=
  f.flashFile = true → f.localFile = some f.dfs

theorem Mirrors.tracks {f : FlashWritableFile} (h : f.Mirrors) : f.Tracks :=
  fun hf => ⟨f.dfs, h hf, List.Sublist.refl _⟩

theorem mirrors_of_newWritableFile {fname : List Byte} {dfsOk localOk : Bool}
    {old : Option (List Byte)} {f : FlashWritableFile}
    (h : newWritableFile fname dfsOk localOk old = some f) : f.Mirrors := by
  unfold newWritableFile at h
  split_ifs at h <;> cases h <;> simp [Mirrors]

theorem Tracks.call {f : FlashWritableFile} (h : f.Tracks) (c : WriteCall) :
    (f.call c).1.Tracks := by
  cases c with
  | append data dfs localOk =>
    cases dfs with
    | failed written =>
      intro hf
      obtain ⟨l, hl, hs⟩ := h hf
      exact ⟨l, hl, hs.trans (List.sublist_append_left _ _)⟩
    | ok =>
      simp only [FlashWritableFile.call, FlashWritableFile.append]
      split_ifs with hf hl
      · obtain ⟨l, hl', hs⟩ := h hf
        exact fun _ => ⟨l ++ data, by simp [hl'], hs.append_right data⟩
      · exact fun h => nomatch h
      · exact fun h' => absurd h' hf
  | flush | sync => exact h
  | close localOk dfsOk =>
    simp only [FlashWritableFile.call, FlashWritableFile.close]
    split_ifs
    · exact fun h => nomatch h
    · exact h

theorem Mirrors.call {f : FlashWritableFile} (h : f.Mirrors) {c : WriteCall}
    (hc : c.keepsDfsWhole = true) : (f.call c).1.Mirrors := by
  cases c with
  | append data dfs localOk =>
    cases dfs with
    | failed written =>
      simp only [WriteCall.keepsDfsWhole, beq_iff_eq] at hc
      subst hc
      simpa [FlashWritableFile.call, FlashWritableFile.append, Mirrors] using h
    | ok =>
      simp only [FlashWritableFile.call, FlashWritableFile.append]
      split_ifs with hf hl
      · exact fun _ => by simp [h hf]
      · exact fun h => nomatch h
      · exact fun h' => absurd h' hf
  | flush | sync => exact h
  | close localOk dfsOk =>
    simp only [FlashWritableFile.call, FlashWritableFile.close]
    split_ifs
    · exact fun h => nomatch h
    · exact h

theorem Tracks.run {f : FlashWritableFile} (h : f.Tracks) :
    ∀ cs : List WriteCall, (f.run cs).Tracks
  | [] => h
  | c :: cs => (h.call c).run cs

theorem Mirrors.run {f : FlashWritableFile} (h : f.Mirrors) :
    ∀ cs : List WriteCall, (∀ c ∈ cs, c.keepsDfsWhole = true) → (f.run cs).Mirrors
  | [], _ => h
  | c :: cs, hcs => (h.call (hcs c (.head _))).run cs fun c' hc' => hcs c' (.tail _ hc')

/-- Over every run of a `FlashWritableFile`, whatever each call's outcome, while `flash_file_` is
set the local file is the DFS file less bytes that failed DFS `Append`s wrote. So a local file as
long as the DFS file holds the DFS bytes, and if no DFS `Append` failed after writing bytes, the
local file is the DFS file. -/
theorem localFile_of_run {fname : List Byte} {dfsOk localOk : Bool} {old : Option (List Byte)}
    {f : FlashWritableFile} (hf : newWritableFile fname dfsOk localOk old = some f)
    (cs : List WriteCall) (hflash : (f.run cs).flashFile = true) :
    ∃ l, (f.run cs).localFile = some l ∧ l.Sublist (f.run cs).dfs ∧
      (l.length = (f.run cs).dfs.length → l = (f.run cs).dfs) ∧
      ((∀ c ∈ cs, c.keepsDfsWhole = true) → l = (f.run cs).dfs) := by
  obtain ⟨l, hl, hs⟩ := (mirrors_of_newWritableFile hf).tracks.run cs hflash
  refine ⟨l, hl, hs, hs.eq_of_length, fun hall => ?_⟩
  have hm := (mirrors_of_newWritableFile hf).run cs hall hflash
  rw [hl] at hm
  exact Option.some.inj hm

/-- `1.sst` written in three appends, the second failing after one of its two bytes: the local
file `[1, 2, 5]` is the DFS file `[1, 2, 3, 5]` less that byte. -/
theorem localFile_of_run_after_partial_append :
    let f : FlashWritableFile := ⟨[], true, some []⟩
    let cs : List WriteCall :=
      [.append [1, 2] .ok true, .append [3, 4] (.failed 1) true, .append [5] .ok true]
    newWritableFile [0x31, 0x2e, 0x73, 0x73, 0x74] true true none = some f ∧
      (f.run cs).flashFile = true ∧
      ∃ l, (f.run cs).localFile = some l ∧ l.Sublist (f.run cs).dfs ∧
        (l.length = (f.run cs).dfs.length → l = (f.run cs).dfs) ∧
        ((∀ c ∈ cs, c.keepsDfsWhole = true) → l = (f.run cs).dfs) := by
  intro f cs
  have hf : newWritableFile [0x31, 0x2e, 0x73, 0x73, 0x74] true true none = some f := by decide
  exact ⟨hf, rfl, localFile_of_run hf cs rfl⟩

end FlashWritableFile

/-! ## The written copy in the mirror -/

/-- The mirror with nothing but the file `l` at the local path: no copy running, no file open,
nothing served. -/
def Sys.withLocalCopy (l : List Byte) : Sys :=
  ⟨⟨some 0, fun i => if i = 0 then l else [], 1⟩, fun _ => none, fun _ => none, none, false, []⟩

theorem Sys.MirrorInv.withLocalCopy {S : Setting} {l : List Byte} (h : l <+: S.dfs) :
    (Sys.withLocalCopy l).MirrorInv S where
  inode_prefix i := by
    by_cases hi : i = 0
    · simpa [Sys.withLocalCopy, hi] using h
    · simp [Sys.withLocalCopy, hi]
  path_lt _ h := Option.some.inj h ▸ Nat.one_pos
  flash_full _ _ _ h := by simp [Sys.withLocalCopy] at h
  opening _ _ h := by simp [Sys.withLocalCopy] at h
  copier_holds _ _ h := by simp [Sys.withLocalCopy] at h
  one_copier _ _ h := by simp [Sys.withLocalCopy] at h
  queued_idle h := by simp [Sys.withLocalCopy] at h
  served _ h := by simp [Sys.withLocalCopy] at h

/-- A table file written through `FlashEnv` with no DFS `Append` failing after writing bytes, whose
local copy `flash_file_` kept: from that copy, over every later run of the mirror without
`ForceReadFromCache`, each read served from the local file returns the DFS bytes. -/
theorem served_reads_match_dfs_after_flash_write {fname : List Byte} {dfsOk localOk : Bool}
    {old : Option (List Byte)} {f : FlashWritableFile}
    (hf : FlashWritableFile.newWritableFile fname dfsOk localOk old = some f)
    {cs : List WriteCall} (hcs : ∀ c ∈ cs, c.keepsDfsWhole = true)
    (hflash : (f.run cs).flashFile = true) {l : List Byte} (hl : (f.run cs).localFile = some l)
    {es : List Event} {sys : Sys}
    (hrun : (Sys.withLocalCopy l).run ⟨(f.run cs).dfs, false⟩ es = some sys) :
    sys.ServedDfsBytes ⟨(f.run cs).dfs, false⟩ := by
  have hm := (FlashWritableFile.mirrors_of_newWritableFile hf).run cs hcs hflash
  rw [hl, Option.some.injEq] at hm
  exact ((Sys.MirrorInv.withLocalCopy (hm ▸ List.prefix_refl l)).run rfl hrun).served

/-- `1.sst` written in one append, flushed and closed; a `FlashRandomAccessFile` then opens the
local copy and reads two bytes from offset 1. -/
theorem served_reads_match_dfs_after_flash_write_one_append :
    let f : FlashWritableFile := ⟨[], true, some []⟩
    let cs : List WriteCall := [.append [1, 2, 3] .ok true, .flush true, .close true true]
    let es : List Event := [.openFile 0, .file 0, .file 0, .read 0 1 2]
    FlashWritableFile.newWritableFile [0x31, 0x2e, 0x73, 0x73, 0x74] true true none = some f ∧
      (∀ c ∈ cs, c.keepsDfsWhole = true) ∧ (f.run cs).flashFile = true ∧
      (f.run cs).localFile = some [1, 2, 3] ∧
      ∃ sys, (Sys.withLocalCopy [1, 2, 3]).run ⟨(f.run cs).dfs, false⟩ es = some sys ∧
        sys.served ≠ [] ∧ sys.ServedDfsBytes ⟨(f.run cs).dfs, false⟩ := by
  intro f cs es
  have hf : FlashWritableFile.newWritableFile [0x31, 0x2e, 0x73, 0x73, 0x74] true true none =
      some f := by decide
  have hcs : ∀ c ∈ cs, c.keepsDfsWhole = true := by decide
  have hrun : (Sys.withLocalCopy [1, 2, 3]).run ⟨(f.run cs).dfs, false⟩ es = some _ := rfl
  exact ⟨hf, hcs, rfl, rfl, _, hrun, by decide,
    served_reads_match_dfs_after_flash_write hf hcs rfl rfl hrun⟩

end Leveldb.Flash
