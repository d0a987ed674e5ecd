import Mathlib.Data.List.Basic
import Mathlib.Data.List.GetD

/-!
# `FlashEnv::SetFlashPath` and `FlashEnv::FlashPath`

`SetFlashPath` cuts its argument at `';'` into the flash directories `flash_paths_`. It walks
`path.c_str()` up to and including the terminating `'\0'`, with `beg` the start of the current
directory: at a `';'` or a `'\0'` with at least one character since `beg` it pushes `[beg, i)`
and moves `beg` past the separator. A separator right at `beg` is not a cut and `beg` stays, so
that separator becomes the first character of the next directory. Without `vanish_allowed` each
directory must exist or be created, or the process exits. A path that gives no directory keeps
the previous list. `FlashPath` picks a directory by a hash of the file name.

The loop works on the bytes of the path; `';'` and `'\0'` are single bytes that no multi-byte
character contains, so it is read here over characters. `Hash` (`util/hash.cc`) is not under
`src/`: it is a parameter.
-/
namespace Leveldb.Flash

/-- `str[i]` of `path.c_str()`: past the characters, the terminating `'\0'`. -/
def cStrAt (path : List Char) (i : Nat) : Char := path.getD i '\x00'

/-- The loop of `SetFlashPath` at position `i` with `n` positions left and the current directory
starting at `beg`: the directories pushed, or `none` where one cannot be made and the process
exits. `accessible dir` is whether `FileExists(dir)` or `CreateDir(dir)` succeeds. -/
def setFlashPathLoop (accessible : String → Bool) (vanishAllowed : Bool) (path : List Char) :
    Nat → Nat → Nat → List String → Option (List String)
  | 0, _, _, flashPaths => some flashPaths
  | n + 1, i, beg, flashPaths =>
    if (cStrAt path i = '\x00' ∨ cStrAt path i = ';') ∧ i - beg > 0 then
      let dir : String := ⟨(path.drop beg).take (i - beg)⟩
      if !vanishAllowed && !accessible dir then none
      else setFlashPathLoop accessible vanishAllowed path n (i + 1) (i + 1) (flashPaths ++ [dir])
    else setFlashPathLoop accessible vanishAllowed path n (i + 1) beg flashPaths

/-- `SetFlashPath(path, vanish_allowed)` with `flash_paths_ = backup`: the new `flash_paths_`,
or `none` where the process exits. -/
def setFlashPath (accessible : String → Bool) (backup : List String) (path : String)
    (vanishAllowed : Bool) : Option (List String) :=
  (setFlashPathLoop accessible vanishAllowed path.data (path.length + 1) 0 0 []).map
    fun flashPaths => if flashPaths.isEmpty then backup else flashPaths

/-- `FlashPath(fname)`: the only directory, or the one `Hash(fname) % flash_paths_.size()`
picks; `none` where the code would index out of `flash_paths_`. -/
def flashPath (hash : String → UInt32) (flashPaths : List String) (fname : String) :
    Option String :=
  if flashPaths.length = 1 then flashPaths.head?
  else flashPaths[(hash fname).toNat % flashPaths.length]?

/-- What `SetFlashPath(p, true)` is meant to set: the maximal non-empty `';'`-free substrings
of `p`, in order. -/
def flashPathsOfSpec (path : String) : List String :=
  ((path.data.splitOn ';').filter (· ≠ [])).map String.mk

/-! ## The loop over the characters -/

/-- The loop of `SetFlashPath` with `vanish_allowed`, read over the characters it visits, with
`cur` the characters since `beg`: a separator after at least one character ends a directory,
any other character joins the current one. -/
def scan (cur : List Char) : List Char → List (List Char)
  | [] => []
  | c :: cs =>
    if (c = '\x00' ∨ c = ';') ∧ cur ≠ [] then cur :: scan [] cs else scan (cur ++ [c]) cs

theorem setFlashPathLoop_eq_scan (accessible : String → Bool) (path : List Char) :
    ∀ n i beg (flashPaths : List String), beg ≤ i → i + n ≤ path.length + 1 →
      setFlashPathLoop accessible true path n i beg flashPaths = some (flashPaths ++
        (scan ((path.drop beg).take (i - beg)) ((List.range' i n).map (cStrAt path))).map
          String.mk)
  | 0, _, _, _, _, _ => by simp [setFlashPathLoop, scan]
  | n + 1, i, beg, flashPaths, hbeg, hlen => by
    have hcur : ((path.drop beg).take (i - beg) ≠ []) ↔ i - beg > 0 := by
      simp only [ne_eq, List.take_eq_nil_iff, List.drop_eq_nil_iff, not_or]; omega
    rw [setFlashPathLoop, List.range'_succ, List.map_cons, scan]
    by_cases hsep : (cStrAt path i = '\x00' ∨ cStrAt path i = ';') ∧ i - beg > 0
    · rw [if_pos hsep]
      simp only [Bool.not_true, Bool.false_and, Bool.false_eq_true, if_false]
      rw [if_pos ⟨hsep.1, hcur.mpr hsep.2⟩,
        setFlashPathLoop_eq_scan accessible path n (i + 1) (i + 1) _ le_rfl (by omega)]
      simp
    · rw [if_neg hsep, if_neg fun h => hsep ⟨h.1, hcur.mp h.2⟩,
        setFlashPathLoop_eq_scan accessible path n (i + 1) beg _ (by omega) (by omega)]
      rcases Nat.eq_zero_or_pos n with rfl | hn
      · simp [scan]
      · have hi : i < path.length := by omega
        rw [show i + 1 - beg = i - beg + 1 by omega, List.take_succ, List.getElem?_drop,
          show beg + (i - beg) = i by omega, List.getElem?_eq_getElem hi, cStrAt,
          List.getD_eq_getElem _ _ hi]
        rfl

theorem map_cStrAt_range' (path : List Char) :
    (List.range' 0 (path.length + 1)).map (cStrAt path) = path ++ ['\x00'] := by
  refine List.ext_getElem (by simp) fun i h₁ h₂ => ?_
  simp only [List.getElem_map, List.getElem_range', cStrAt, Nat.zero_add, Nat.one_mul]
  rcases Nat.lt_or_ge i path.length with hi | hi
  · rw [List.getD_eq_getElem _ _ hi, List.getElem_append_left hi]
  · simp at h₂
    rw [List.getD_eq_default _ _ hi, List.getElem_append_right hi]
    simp [show i - path.length = 0 by omega]

/-- With `vanish_allowed`, `SetFlashPath` sets what `scan` reads off the path and its `'\0'`,
or keeps the previous list. -/
theorem setFlashPath_eq_scan (accessible : String → Bool) (backup : List String) (path : String) :
    setFlashPath accessible backup path true =
      some (if (scan [] (path.data ++ ['\x00'])).isEmpty then backup
        else (scan [] (path.data ++ ['\x00'])).map String.mk) := by
  rw [setFlashPath, setFlashPathLoop_eq_scan accessible path.data _ 0 0 [] le_rfl
    (by rw [Nat.zero_add]; exact le_rfl), String.length, map_cStrAt_range']
  simp [List.isEmpty_iff]

theorem scan_append_plain (cur s rest : List Char) (hs : ∀ c ∈ s, c ≠ '\x00' ∧ c ≠ ';') :
    scan cur (s ++ rest) = scan (cur ++ s) rest := by
  induction s generalizing cur with
  | nil => simp
  | cons c s ih =>
    have hc := hs c (List.mem_cons_self _ _)
    rw [List.cons_append, scan, if_neg fun h => h.1.elim hc.1 hc.2,
      ih _ fun c' h => hs c' (List.mem_cons_of_mem _ h)]
    simp

/-- `scan` over `';'`-separated segments closed by the `'\0'` reads off the non-empty ones, as
long as no segment but the last is empty. -/
theorem scan_intercalate (dirs : List (List Char)) (hne : dirs ≠ [])
    (hsep : ∀ d ∈ dirs, ∀ c ∈ d, c ≠ '\x00' ∧ c ≠ ';')
    (hempty : ∀ d ∈ dirs.dropLast, d ≠ []) :
    scan [] ([';'].intercalate dirs ++ ['\x00']) = dirs.filter (· ≠ []) := by
  induction dirs with
  | nil => exact absurd rfl hne
  | cons d ds ih =>
    have hd := hsep d (List.mem_cons_self _ _)
    cases ds with
    | nil =>
      simp only [List.intercalate, List.intersperse_single, List.flatten_cons, List.flatten_nil,
        List.append_nil]
      rw [scan_append_plain [] d _ hd, List.nil_append]
      by_cases h : d = [] <;> simp [scan, h]
    | cons d' ds =>
      have hd₀ : d ≠ [] := hempty d (by rw [List.dropLast_cons₂]; exact List.mem_cons_self _ _)
      simp only [List.intercalate, List.intersperse_cons₂, List.flatten_cons, List.append_assoc]
        at ih ⊢
      rw [scan_append_plain [] d _ hd, List.nil_append, List.singleton_append, scan,
        if_pos ⟨.inr rfl, hd₀⟩, ih (List.cons_ne_nil _ _)
          (fun d h => hsep d (List.mem_cons_of_mem _ h))
          (fun d h => hempty d (by rw [List.dropLast_cons₂]; exact List.mem_cons_of_mem _ h))]
      exact (List.filter_cons_of_pos (by simpa using hd₀)).symm

/-- On the `';'`-separated directories `dirs`, none holding a `'\0'` and none but the last
empty, `SetFlashPath(path, true)` sets what `flashPathsOfSpec` reads, the non-empty directories,
or keeps the previous list when there is none. -/
theorem setFlashPath_of_segments (accessible : String → Bool) (backup : List String)
    (dirs : List (List Char)) (hne : dirs ≠ [])
    (hsep : ∀ d ∈ dirs, ∀ c ∈ d, c ≠ '\x00' ∧ c ≠ ';')
    (hempty : ∀ d ∈ dirs.dropLast, d ≠ []) :
    flashPathsOfSpec ⟨[';'].intercalate dirs⟩ = (dirs.filter (· ≠ [])).map String.mk ∧
    setFlashPath accessible backup ⟨[';'].intercalate dirs⟩ true =
      some (if flashPathsOfSpec ⟨[';'].intercalate dirs⟩ = [] then backup
        else flashPathsOfSpec ⟨[';'].intercalate dirs⟩) := by
  have hspec :
      flashPathsOfSpec ⟨[';'].intercalate dirs⟩ = (dirs.filter (· ≠ [])).map String.mk := by
    rw [flashPathsOfSpec,
      List.splitOn_intercalate dirs ';' (fun d h hc => (hsep d h _ hc).2 rfl) hne]
  refine ⟨hspec, ?_⟩
  rw [setFlashPath_eq_scan, scan_intercalate dirs hne hsep hempty, hspec]
  simp [List.isEmpty_iff]

/-- A path whose first character is `';'`, a path `";;"`, and a path with a `'\0'` inside. The
`';'` at `beg` is no cut and stays as the first character of the next directory, and `'\0'`
cuts like `';'`. -/
theorem setFlashPath_keeps_separator_after_empty_segment (accessible : String → Bool)
    (backup : List String) :
    setFlashPath accessible backup ";a" true = some [";a"] ∧ flashPathsOfSpec ";a" = ["a"] ∧
    setFlashPath accessible backup ";;" true = some [";"] ∧ flashPathsOfSpec ";;" = [] ∧
    setFlashPath accessible backup "a\x00b" true = some ["a", "b"] ∧
      flashPathsOfSpec "a\x00b" = ["a\x00b"] :=
  ⟨rfl, by decide, rfl, by decide, rfl, by decide⟩

/-! ## `flash_paths_` is never empty -/

theorem setFlashPath_ne_nil {accessible : String → Bool} {backup fp : List String} {path : String}
    {vanishAllowed : Bool} (hb : backup ≠ [])
    (h : setFlashPath accessible backup path vanishAllowed = some fp) :
    fp ≠ [] := by
  obtain ⟨r, -, rfl⟩ := Option.map_eq_some'.mp h
  split
  · exact hb
  · rename_i hr
    simpa [List.isEmpty_iff] using hr

theorem flashPath_mem (hash : String → UInt32) {flashPaths : List String}
    (hne : flashPaths ≠ []) (fname : String) :
    ∃ dir ∈ flashPaths, flashPath hash flashPaths fname = some dir := by
  have hpos : 0 < flashPaths.length := List.length_pos.mpr hne
  unfold flashPath
  split
  · obtain ⟨d, ds, rfl⟩ := List.exists_cons_of_ne_nil hne
    exact ⟨d, List.mem_cons_self _ _, rfl⟩
  · have hlt := Nat.mod_lt (hash fname).toNat hpos
    exact ⟨_, List.getElem_mem hlt, List.getElem?_eq_getElem hlt⟩

/-- `flash_paths_` after calls of `SetFlashPath`, from the constructor's `{"./flash"}`; `none`
if one exits. -/
def flashPathsAfter (accessible : String → Bool) (calls : List (String × Bool)) :
    Option (List String) :=
  calls.foldlM (fun fp call => setFlashPath accessible fp call.1 call.2) ["./flash"]

theorem flashPath_after_setFlashPath (accessible : String → Bool) (hash : String → UInt32)
    (calls : List (String × Bool)) (fp : List String)
    (h : flashPathsAfter accessible calls = some fp) (fname : String) :
    ∃ dir ∈ fp, flashPath hash fp fname = some dir := by
  suffices ∀ (calls : List (String × Bool)) (init : List String), init ≠ [] →
      calls.foldlM (fun fp call => setFlashPath accessible fp call.1 call.2) init = some fp →
      fp ≠ [] from flashPath_mem hash (this calls _ (List.cons_ne_nil _ _) h) fname
  intro calls
  induction calls with
  | nil => intro init hne h; cases h; exact hne
  | cons call calls ih =>
    intro init hne h
    simp only [List.foldlM_cons, Option.bind_eq_bind, Option.bind_eq_some] at h
    obtain ⟨fp₁, h₁, h⟩ := h
    exact ih fp₁ (setFlashPath_ne_nil hne h₁) h

end Leveldb.Flash
