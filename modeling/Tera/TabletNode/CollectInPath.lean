import Tera.TabletNode.GarbageCollect

/-!
# `GarbageCollectInPath`, and the whole of `GarbageCollect`

`GarbageCollectInPath` walks a directory of cached tablets four levels deep: table, tablet,
locality group, file. A table directory that lists nothing is removed. A tablet whose path
`table/tablet` is active is skipped. An inactive tablet's directory that lists nothing is
removed, and so is each of its locality-group directories that lists nothing; in the others
every file whose path below the root, `table/tablet/lg/file`, is not an inherited file is
deleted.

`GarbageCollect` gathers the paths `BuildTableFilePath(table, lg, file)` of the files
`GetInheritedLiveFiles` reports and the paths of the active tablets, runs
`PersistentCacheGarbageCollect`, then `GarbageCollectInPath` under every flash path and under
the tablet node's path prefix in the memory env.

The `Env`s and `BuildTableFilePath` are not under `src/`. `GetChildren` is a parameter: the
names it leaves in its vector for a path, `[]` also when it fails, as its status is not read.
The walk lists no path it has deleted, so the listing is taken as fixed during the walk, and
its effect is the sequence of `DeleteDir` and `DeleteFile` calls it makes.
-/
namespace TabletNode

/-- A call `GarbageCollectInPath` makes on its `Env`. -/
inductive GcCall where
  | deleteDir (path : String)
  | deleteFile (path : String)
  deriving DecidableEq, Repr

/-! ## Paths -/

theorem string_append_cancel_left {a b c : String} (h : a ++ b = a ++ c) : b = c :=
  String.ext (List.append_cancel_left (by simpa only [String.ext_iff, String.data_append] using h))

theorem list_split_at_first {x : Char} :
    ∀ {a c b d : List Char}, x ∉ a → x ∉ c → a ++ x :: b = c ++ x :: d → a = c ∧ b = d
  | [], [], _, _, _, _, h => ⟨rfl, (List.cons.inj h).2⟩
  | [], y :: c, _, _, _, hc, h => absurd (List.cons.inj h).1 fun e => hc (e ▸ .head c)
  | y :: a, [], _, _, ha, _, h => absurd (List.cons.inj h).1 fun e => ha (e ▸ .head a)
  | y :: a, z :: c, _, _, ha, hc, h => by
    obtain ⟨rfl, ht⟩ := List.cons.inj h
    obtain ⟨rfl, rfl⟩ := list_split_at_first (fun hm => ha (.tail _ hm)) (fun hm => hc (.tail _ hm)) ht
    exact ⟨rfl, rfl⟩

/-- A path is split at its first `/`: two names without `/` that begin equal paths are equal,
and so are the rests. -/
theorem slash_split {a b c d : String} (ha : '/' ∉ a.data) (hc : '/' ∉ c.data)
    (h : a ++ ("/" ++ b) = c ++ ("/" ++ d)) : a = c ∧ b = d := by
  have hl : a.data ++ '/' :: b.data = c.data ++ '/' :: d.data := by
    simpa only [String.ext_iff, String.data_append] using h
  obtain ⟨h₁, h₂⟩ := list_split_at_first ha hc hl
  exact ⟨String.ext h₁, String.ext h₂⟩

theorem ne_of_slash_free {a b c : String} (ha : '/' ∉ a.data) : a ≠ b ++ ("/" ++ c) :=
  fun h => ha (by rw [h]; simp)

/-! ## `GarbageCollectInPath` -/

section InPath

variable (children : String → List String) (inheritedFiles activeTablets : Finset String)

/-- Locality group `lg` of an inactive tablet: its directory is removed if it lists nothing;
otherwise each file whose path `tablet_dir/lg/file` is not inherited is deleted. -/
def gcLg (inactiveTabletDir tabletDir lg : String) : List GcCall :=
  let files := children (inactiveTabletDir ++ "/" ++ lg)
  if files = [] then [.deleteDir (inactiveTabletDir ++ "/" ++ lg)]
  else files.filterMap fun file =>
    if tabletDir ++ "/" ++ lg ++ "/" ++ file ∈ inheritedFiles then none
    else some (.deleteFile (inactiveTabletDir ++ "/" ++ lg ++ "/" ++ file))

/-- Cached tablet `tablet` of table directory `table`: skipped if `table/tablet` is active;
otherwise its directory is removed if it lists nothing, and its locality groups are walked. -/
def gcTablet (path table tablet : String) : List GcCall :=
  let tabletDir := table ++ "/" ++ tablet
  if tabletDir ∈ activeTablets then []
  else
    let inactiveTabletDir := path ++ "/" ++ tabletDir
    let lgs := children inactiveTabletDir
    if lgs = [] then [.deleteDir inactiveTabletDir]
    else lgs.flatMap (gcLg children inheritedFiles inactiveTabletDir tabletDir)

/-- Table directory `table`: removed if it lists nothing, otherwise its tablets are walked. -/
def gcTable (path table : String) : List GcCall :=
  let cachedTablets := children (path ++ "/" ++ table)
  if cachedTablets = [] then [.deleteDir (path ++ "/" ++ table)]
  else cachedTablets.flatMap (gcTablet children inheritedFiles activeTablets path table)

/-- `GarbageCollectInPath(path, env, inherited_files, active_tablets)`: the calls it makes on
`env`, in order. -/
def garbageCollectInPath (path : String) : List GcCall :=
  (children path).flatMap (gcTable children inheritedFiles activeTablets path)

variable {children inheritedFiles activeTablets}

theorem mem_gcLg {dir tabletDir lg : String} {c : GcCall} :
    c ∈ gcLg children inheritedFiles dir tabletDir lg ↔
      (children (dir ++ "/" ++ lg) = [] ∧ c = .deleteDir (dir ++ "/" ++ lg)) ∨
      ∃ file ∈ children (dir ++ "/" ++ lg),
        tabletDir ++ "/" ++ lg ++ "/" ++ file ∉ inheritedFiles ∧
        c = .deleteFile (dir ++ "/" ++ lg ++ "/" ++ file) := by
  unfold gcLg
  dsimp only
  split_ifs with h
  · simp [h]
  · simp only [List.mem_filterMap, h, false_and, false_or]
    refine exists_congr fun file => and_congr_right fun _ => ?_
    split_ifs with hi <;> simp [hi, eq_comm]

theorem mem_gcTablet {path table tablet : String} {c : GcCall} :
    c ∈ gcTablet children inheritedFiles activeTablets path table tablet ↔
      table ++ "/" ++ tablet ∉ activeTablets ∧
      ((children (path ++ "/" ++ (table ++ "/" ++ tablet)) = [] ∧
          c = .deleteDir (path ++ "/" ++ (table ++ "/" ++ tablet))) ∨
        ∃ lg ∈ children (path ++ "/" ++ (table ++ "/" ++ tablet)),
          c ∈ gcLg children inheritedFiles (path ++ "/" ++ (table ++ "/" ++ tablet))
            (table ++ "/" ++ tablet) lg) := by
  unfold gcTablet
  dsimp only
  split_ifs with ha hl
  · simp [ha]
  · simp [ha, hl]
  · simp [ha, hl, List.mem_flatMap]

theorem mem_gcTable {path table : String} {c : GcCall} :
    c ∈ gcTable children inheritedFiles activeTablets path table ↔
      (children (path ++ "/" ++ table) = [] ∧ c = .deleteDir (path ++ "/" ++ table)) ∨
      ∃ tablet ∈ children (path ++ "/" ++ table),
        c ∈ gcTablet children inheritedFiles activeTablets path table tablet := by
  unfold gcTable
  dsimp only
  split_ifs with h <;> simp [h, List.mem_flatMap]

/-- What `GarbageCollectInPath` deletes, exactly: every table directory that lists nothing;
for each tablet `table/tablet` that is not active, its directory if it lists nothing, each of
its locality-group directories that lists nothing, and in the others each file whose path
below the root is not an inherited file. -/
theorem garbageCollectInPath_calls {path : String} {c : GcCall} :
    c ∈ garbageCollectInPath children inheritedFiles activeTablets path ↔
      ∃ table ∈ children path,
        (children (path ++ "/" ++ table) = [] ∧ c = .deleteDir (path ++ "/" ++ table)) ∨
        ∃ tablet ∈ children (path ++ "/" ++ table), table ++ "/" ++ tablet ∉ activeTablets ∧
          ((children (path ++ "/" ++ (table ++ "/" ++ tablet)) = [] ∧
              c = .deleteDir (path ++ "/" ++ (table ++ "/" ++ tablet))) ∨
            ∃ lg ∈ children (path ++ "/" ++ (table ++ "/" ++ tablet)),
              (children (path ++ "/" ++ (table ++ "/" ++ tablet) ++ "/" ++ lg) = [] ∧
                c = .deleteDir (path ++ "/" ++ (table ++ "/" ++ tablet) ++ "/" ++ lg)) ∨
              ∃ file ∈ children (path ++ "/" ++ (table ++ "/" ++ tablet) ++ "/" ++ lg),
                table ++ "/" ++ tablet ++ "/" ++ lg ++ "/" ++ file ∉ inheritedFiles ∧
                c = .deleteFile
                  (path ++ "/" ++ (table ++ "/" ++ tablet) ++ "/" ++ lg ++ "/" ++ file)) := by
  simp only [garbageCollectInPath, List.mem_flatMap, mem_gcTable, mem_gcTablet, mem_gcLg]

theorem children_eq_nil_of_deleteDir {path p : String}
    (h : .deleteDir p ∈ garbageCollectInPath children inheritedFiles activeTablets path) :
    children p = [] := by
  obtain ⟨table, -, ⟨he, hc⟩ | ⟨tablet, -, -, ⟨he, hc⟩ | ⟨lg, -, ⟨he, hc⟩ | ⟨file, -, -, hc⟩⟩⟩⟩ :=
    garbageCollectInPath_calls.1 h
  · cases hc; exact he
  · cases hc; exact he
  · cases hc; exact he
  · cases hc

/-- A file the walk deletes at `path/key` has a path `key` below the root that is not an
inherited file. -/
theorem not_mem_inheritedFiles_of_deleteFile {path key : String}
    (h : .deleteFile (path ++ "/" ++ key) ∈
      garbageCollectInPath children inheritedFiles activeTablets path) :
    key ∉ inheritedFiles := by
  obtain ⟨table, -, ⟨-, hc⟩ | ⟨tablet, -, -, ⟨-, hc⟩ | ⟨lg, -, ⟨-, hc⟩ | ⟨file, -, hi, hc⟩⟩⟩⟩ :=
    garbageCollectInPath_calls.1 h
  · cases hc
  · cases hc
  · cases hc
  · have hk := GcCall.deleteFile.inj hc
    simp only [String.append_assoc] at hk hi
    rwa [string_append_cancel_left (string_append_cancel_left hk)]

/-- With names that hold no `/`, as a file system lists them, the walk deletes nothing of an
active tablet: neither its directory nor anything below it. -/
theorem garbageCollectInPath_spares_active_tablets
    (hname : ∀ q n, n ∈ children q → '/' ∉ n.data) {path table tablet : String}
    (htable : table ∈ children path) (htablet : tablet ∈ children (path ++ "/" ++ table))
    (hactive : table ++ "/" ++ tablet ∈ activeTablets) (rest : String) :
    GcCall.deleteDir (path ++ "/" ++ (table ++ "/" ++ tablet)) ∉
        garbageCollectInPath children inheritedFiles activeTablets path ∧
      GcCall.deleteDir (path ++ "/" ++ (table ++ "/" ++ tablet) ++ "/" ++ rest) ∉
        garbageCollectInPath children inheritedFiles activeTablets path ∧
      GcCall.deleteFile (path ++ "/" ++ (table ++ "/" ++ tablet) ++ "/" ++ rest) ∉
        garbageCollectInPath children inheritedFiles activeTablets path := by
  have ht := hname _ _ htable
  have hb := hname _ _ htablet
  refine ⟨fun h => ?_, fun h => ?_, fun h => ?_⟩ <;>
  obtain ⟨t, htm, ⟨-, hc⟩ | ⟨b, hbm, hna, ⟨-, hc⟩ | ⟨l, -, ⟨-, hc⟩ | ⟨f, -, -, hc⟩⟩⟩⟩ :=
    garbageCollectInPath_calls.1 h <;>
  first
    | cases hc
    | have hk := string_append_cancel_left (string_append_cancel_left
        (by simpa only [String.append_assoc] using GcCall.deleteDir.inj hc))
    | have hk := string_append_cancel_left (string_append_cancel_left
        (by simpa only [String.append_assoc] using GcCall.deleteFile.inj hc))
  -- the directory of the active tablet
  · exact ne_of_slash_free (hname _ _ htm) hk.symm
  · obtain ⟨rfl, rfl⟩ := slash_split ht (hname _ _ htm) hk
    exact hna hactive
  · obtain ⟨rfl, hrest⟩ := slash_split ht (hname _ _ htm) hk
    exact ne_of_slash_free hb hrest
  -- a directory below it
  · exact ne_of_slash_free (hname _ _ htm) hk.symm
  · obtain ⟨rfl, hrest⟩ := slash_split ht (hname _ _ htm) hk
    exact ne_of_slash_free (hname _ _ hbm) hrest.symm
  · obtain ⟨rfl, hrest⟩ := slash_split ht (hname _ _ htm) hk
    obtain ⟨rfl, -⟩ := slash_split hb (hname _ _ hbm) hrest
    exact hna hactive
  -- a file below it
  · obtain ⟨rfl, hrest⟩ := slash_split ht (hname _ _ htm) hk
    obtain ⟨rfl, -⟩ := slash_split hb (hname _ _ hbm) hrest
    exact hna hactive

/-- Each tablet, of a table `tablet` and a table `table` of the root `r`, listed; the tablet
`t/a` is active, the tablet `t/b` is not. -/
theorem garbageCollectInPath_spares_active_tablets_of_listing :
    let children : String → List String := fun q =>
      if q = "r" then ["t"] else if q = "r/t" then ["a", "b"] else
      if q = "r/t/a" ∨ q = "r/t/b" then ["0"] else
      if q = "r/t/a/0" ∨ q = "r/t/b/0" then ["1.sst"] else []
    (∀ q n, n ∈ children q → '/' ∉ n.data) ∧ "t" ∈ children "r" ∧
      "a" ∈ children ("r" ++ "/" ++ "t") ∧ "t" ++ "/" ++ "a" ∈ ({"t/a"} : Finset String) ∧
      GcCall.deleteDir ("r" ++ "/" ++ ("t" ++ "/" ++ "a")) ∉
        garbageCollectInPath children ∅ {"t/a"} "r" ∧
      GcCall.deleteDir ("r" ++ "/" ++ ("t" ++ "/" ++ "a") ++ "/" ++ "0") ∉
        garbageCollectInPath children ∅ {"t/a"} "r" ∧
      GcCall.deleteFile ("r" ++ "/" ++ ("t" ++ "/" ++ "a") ++ "/" ++ "0") ∉
        garbageCollectInPath children ∅ {"t/a"} "r" := by
  intro children
  have hname : ∀ q n, n ∈ children q → '/' ∉ n.data := by
    intro q n hn
    simp only [children] at hn
    split_ifs at hn <;> simp only [List.mem_cons, List.mem_singleton, List.not_mem_nil,
      or_false] at hn <;> rcases hn with rfl | rfl <;> decide
  have htable : "t" ∈ children "r" := by decide
  have htablet : "a" ∈ children ("r" ++ "/" ++ "t") := by decide
  have hactive : "t" ++ "/" ++ "a" ∈ ({"t/a"} : Finset String) := by decide
  exact ⟨hname, htable, htablet, hactive,
    garbageCollectInPath_spares_active_tablets hname htable htablet hactive "0"⟩

end InPath

/-! ## `GarbageCollect` -/

/-- `inherited_files`: `BuildTableFilePath(table_name, lg, file_number)` for each file of
each locality group `lg` of each table of the report. -/
def inheritedFilesOf (buildTableFilePath : String → Nat → Nat → String)
    (report : List InheritedLiveFiles) : Finset String :=
  (report.flatMap fun live => live.lgLiveFiles.enum.flatMap fun (lg, files) =>
    files.fileNumber.map (buildTableFilePath live.tableName lg)).toFinset

/-- What `GarbageCollect` reads: the tablets of `GetAllTablets` with the outcome of each one's
`AddInheritedLiveFiles`, the paths of the tablets `GetAllTabletMeta` lists, the keys of the
persistent cache if there is one, the flash paths if the flash env is set, and what
`GetChildren` lists in the default env and in the memory env. -/
structure GcWorld where
  tablets : List LiveTablet
  tabletPaths : List String
  pCache : Option (List String)
  flashPaths : Option (List String)
  defaultChildren : String → List String
  memChildren : String → List String

/-- What one `GarbageCollect` does: the keys the persistent cache evicts and the
`delayed_gc_files_` it keeps; under each flash directory, the calls `GarbageCollectInPath` makes
on the default env; and its calls on the memory env. -/
structure GcOutcome where
  evicted : List String
  delayed : Finset String
  flashCalls : List (String × List GcCall)
  memCalls : List GcCall

section Collect

variable (tabletOf : String → String) (buildTableFilePath : String → Nat → Nat → String)
  (pathPrefix : String)

/-- `GarbageCollect` from `delayed_gc_files_ = delayed`; `pathPrefix` is
`FLAGS_tera_tabletnode_path_prefix`. -/
def garbageCollect (delayed : Finset String) (w : GcWorld) : GcOutcome :=
  let inheritedFiles := inheritedFilesOf buildTableFilePath (getInheritedLiveFiles w.tablets)
  let activeTablets := w.tabletPaths.toFinset
  let pc := persistentCacheGarbageCollect tabletOf delayed w.pCache inheritedFiles activeTablets
  { evicted := pc.1
    delayed := pc.2
    flashCalls := (w.flashPaths.getD []).map fun flashPath =>
      (flashPath ++ pathPrefix, garbageCollectInPath w.defaultChildren inheritedFiles activeTablets
        (flashPath ++ pathPrefix))
    memCalls := garbageCollectInPath w.memChildren inheritedFiles activeTablets pathPrefix }

variable {buildTableFilePath}

/-- A table whose tablets are all ready is reported with, in each locality group, the files its
tablets added there; so their paths are inherited files. -/
theorem mem_inheritedFilesOf_of_ready {tablets : List LiveTablet} {name : String}
    (hready : ∀ tb' ∈ tablets, tb'.tableName = name → tb'.outcome.isReady = true)
    {tb : LiveTablet} (htb : tb ∈ tablets) (hname : tb.tableName = name) {lg f : Nat}
    (hf : f ∈ tb.outcome.files.getD lg ∅) :
    buildTableFilePath name lg f ∈
      inheritedFilesOf buildTableFilePath (getInheritedLiveFiles tablets) := by
  have hloop := foldl_addTablet tablets LiveFiles.init (Finset.empty_subset _) name
  simp only [show LiveFiles.init.tables = ∅ from rfl,
    show LiveFiles.init.notReadyTables = ∅ from rfl, show LiveFiles.init.live = fun _ => [] from rfl,
    Finset.not_mem_empty, false_or] at hloop
  have hn : name ∉ (tablets.foldl addTablet LiveFiles.init).notReadyTables := fun h => by
    obtain ⟨tb', htb', he, hr⟩ := hloop.2.1.mp h
    simp [hready tb' htb' he] at hr
  obtain ⟨-, hmem⟩ := foldl_lgUnion (tablets.filter (·.tableName = name)) [] lg
  rw [← hloop.2.2 hn] at hmem
  have hfl := (hmem f).2 (.inr ⟨tb, by simp [htb, hname], hf⟩)
  rw [List.getD_eq_getElem?_getD] at hfl
  cases hs : ((tablets.foldl addTablet LiveFiles.init).live name)[lg]? with
  | none => simp [hs] at hfl
  | some set =>
    rw [hs, Option.getD_some] at hfl
    simp only [inheritedFilesOf, List.mem_toFinset, List.mem_flatMap, List.mem_map]
    refine ⟨⟨name, lgEntries ((tablets.foldl addTablet LiveFiles.init).live name)⟩,
      mem_getInheritedLiveFiles.mpr ⟨hloop.1.mpr ⟨tb, htb, hname⟩, hn, rfl⟩,
      (lg, ⟨lg, set.sort (· ≤ ·)⟩), ?_, f, (Finset.mem_sort _).2 hfl, rfl⟩
    rw [List.mem_enum_iff_getElem?, getElem?_lgEntries, hs]
    rfl

/-- In `GarbageCollect`, an inherited live file of a table whose tablets all reported ready, at
the path `BuildTableFilePath` gives it, is neither evicted from the persistent cache nor deleted
under any flash directory or in the memory env. A table with a tablet that is not ready is left
out of the report, and so are its files. -/
theorem garbageCollect_keeps_inherited_files (delayed : Finset String) (w : GcWorld)
    {name : String} {tb : LiveTablet} {lg f : Nat}
    (hready : ∀ tb' ∈ w.tablets, tb'.tableName = name → tb'.outcome.isReady = true)
    (htb : tb ∈ w.tablets) (hname : tb.tableName = name) (hf : f ∈ tb.outcome.files.getD lg ∅) :
    buildTableFilePath name lg f ∉
        (garbageCollect tabletOf buildTableFilePath pathPrefix delayed w).evicted ∧
      (∀ root calls, (root, calls) ∈
          (garbageCollect tabletOf buildTableFilePath pathPrefix delayed w).flashCalls →
        GcCall.deleteFile (root ++ "/" ++ buildTableFilePath name lg f) ∉ calls) ∧
      GcCall.deleteFile (pathPrefix ++ "/" ++ buildTableFilePath name lg f) ∉
        (garbageCollect tabletOf buildTableFilePath pathPrefix delayed w).memCalls := by
  have hinh : buildTableFilePath name lg f ∈
      inheritedFilesOf buildTableFilePath (getInheritedLiveFiles w.tablets) :=
    mem_inheritedFilesOf_of_ready hready htb hname hf
  refine ⟨fun he => ?_, fun root calls hm hd => ?_,
    fun hd => not_mem_inheritedFiles_of_deleteFile hd hinh⟩
  · cases hp : w.pCache with
    | none => simp [garbageCollect, persistentCacheGarbageCollect, hp] at he
    | some keys =>
      simp only [garbageCollect, persistentCacheGarbageCollect, hp] at he
      rcases (mem_foldl_gcKey keys _ _).1.1 he with he | ⟨-, hni, -⟩
      · exact List.not_mem_nil _ he
      · exact hni hinh
  · simp only [garbageCollect, List.mem_map, Prod.mk.injEq] at hm
    obtain ⟨_, -, rfl, rfl⟩ := hm
    exact not_mem_inheritedFiles_of_deleteFile hd hinh

/-- Table `T` has one tablet, ready, that inherited file 7 of locality group 0 from
`T/tablet1`, which is not active: the flash copy of `T/tablet1/0/7.sst` stays, while the
walk reaches its directory. -/
theorem garbageCollect_keeps_inherited_files_flash_copy :
    let w : GcWorld := ⟨[⟨"T", .ready [{7}]⟩], ["T/tablet2"], some ["T/tablet1/0/7.sst"],
      some ["/ssd"], (fun q =>
        if q = "/ssd/tera" then ["T"] else if q = "/ssd/tera/T" then ["tablet1", "tablet2"] else
        if q = "/ssd/tera/T/tablet1" then ["0"] else
        if q = "/ssd/tera/T/tablet1/0" then ["7.sst", "8.sst"] else []), fun _ => []⟩
    let build : String → Nat → Nat → String := fun name lg f =>
      name ++ "/tablet1/" ++ toString lg ++ "/" ++ toString f ++ ".sst"
    (∀ tb' ∈ w.tablets, tb'.tableName = "T" → tb'.outcome.isReady = true) ∧
      (⟨"T", .ready [{7}]⟩ : LiveTablet) ∈ w.tablets ∧ 7 ∈ [({7} : Finset Nat)].getD 0 ∅ ∧
      build "T" 0 7 ∉ (garbageCollect id build "/tera" ∅ w).evicted ∧
      (∀ root calls, (root, calls) ∈ (garbageCollect id build "/tera" ∅ w).flashCalls →
        GcCall.deleteFile (root ++ "/" ++ build "T" 0 7) ∉ calls) ∧
      GcCall.deleteFile ("/tera" ++ "/" ++ build "T" 0 7) ∉
        (garbageCollect id build "/tera" ∅ w).memCalls := by
  intro w build
  have hready : ∀ tb' ∈ w.tablets, tb'.tableName = "T" → tb'.outcome.isReady = true := by decide
  have htb : (⟨"T", .ready [{7}]⟩ : LiveTablet) ∈ w.tablets := by decide
  have hf : 7 ∈ [({7} : Finset Nat)].getD 0 ∅ := by decide
  exact ⟨hready, htb, hf, garbageCollect_keeps_inherited_files id "/tera" ∅ w hready htb rfl hf⟩

end Collect

end TabletNode
