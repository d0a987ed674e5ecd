import Mathlib.Data.Finset.Sort
import Mathlib.Data.String.Basic

/-!
# `GarbageCollect` on the tablet node: inherited files and the persistent cache

`GarbageCollect` asks `GetInheritedLiveFiles` for the files the live tablets inherited from
their parents, reported per table and per locality group, and hands the paths of those files
and the paths of the tablets served here to `PersistentCacheGarbageCollect`. That walks the keys
of the persistent cache: a key that is an inherited file, or that belongs to an active tablet,
stays; any other key is evicted if the previous round put it off, and is put off otherwise.
`delayed_gc_files_` carries the keys put off from one round to the next.

`GetInheritedLiveFiles` walks the tablets of `GetAllTablets`. A tablet whose
`AddInheritedLiveFiles` fails marks its table not ready and clears what the table had
gathered; later tablets of a table not ready are skipped, and so is the table in the report.

`SplitString` and `TabletIO::AddInheritedLiveFiles` are not under `src/`: the table/tablet
prefix of a cache key is a parameter `tabletOf`, and each tablet comes with the outcome of its
`AddInheritedLiveFiles`, modelled from the spec as adding a set of file numbers per locality
group.
-/
namespace TabletNode

open Function (update update_same update_noteq)

/-! ## `PersistentCacheGarbageCollect` -/

/-- What one round of `GarbageCollect` hands to `PersistentCacheGarbageCollect`: the keys of
the persistent cache, the paths of the inherited files and the paths of the active tablets. -/
structure GcRound where
  allKeys : List String
  inheritedFiles : Finset String
  activeTablets : Finset String
  deriving DecidableEq

section PersistentCache

variable (tabletOf : String → String)

/-- One key of the loop, on the keys evicted so far and `new_delayed_gc_files`. -/
def gcKey (delayed inheritedFiles activeTablets : Finset String)
    (acc : List String × Finset String) (key : String) : List String × Finset String :=
  if key ∈ inheritedFiles then acc
  else if tabletOf key ∈ activeTablets then acc
  else if key ∈ delayed then (acc.1 ++ [key], acc.2)
  else (acc.1, insert key acc.2)

/-- `PersistentCacheGarbageCollect` from `delayed_gc_files_ = delayed`: the keys it
`ForceEvict`s, in order, and the `delayed_gc_files_` it swaps in. Without a persistent cache it
returns at once. -/
def persistentCacheGarbageCollect (delayed : Finset String) (pCache : Option (List String))
    (inheritedFiles activeTablets : Finset String) : List String × Finset String :=
  match pCache with
  | none => ([], delayed)
  | some allKeys => allKeys.foldl (gcKey tabletOf delayed inheritedFiles activeTablets) ([], ∅)

/-- The rounds of `GarbageCollect` from `delayed_gc_files_ = delayed`, each with the
`delayed_gc_files_` it starts from and the keys it evicts. -/
def gcTrace : Finset String → List GcRound → List (Finset String × List String)
  | _, [] => []
  | delayed, r :: rs =>
    let out := persistentCacheGarbageCollect tabletOf delayed (some r.allKeys) r.inheritedFiles
      r.activeTablets
    (delayed, out.1) :: gcTrace out.2 rs

/-- A key of a round is garbage when the cache lists it, it is not an inherited file, and its
tablet is not active. -/
def Garbage (r : GcRound) (key : String) : Prop :=
  key ∈ r.allKeys ∧ key ∉ r.inheritedFiles ∧ tabletOf key ∉ r.activeTablets

instance (r : GcRound) : DecidablePred (Garbage tabletOf r) :=
  fun _ => inferInstanceAs (Decidable (_ ∧ _ ∧ _))

variable {tabletOf}

theorem mem_gcKey {delayed inheritedFiles activeTablets : Finset String}
    {acc : List String × Finset String} {key k : String} :
    (k ∈ (gcKey tabletOf delayed inheritedFiles activeTablets acc key).1 ↔ k ∈ acc.1 ∨
      k = key ∧ k ∉ inheritedFiles ∧ tabletOf k ∉ activeTablets ∧ k ∈ delayed) ∧
    (k ∈ (gcKey tabletOf delayed inheritedFiles activeTablets acc key).2 ↔ k ∈ acc.2 ∨
      k = key ∧ k ∉ inheritedFiles ∧ tabletOf k ∉ activeTablets ∧ k ∉ delayed) := by
  unfold gcKey
  rcases eq_or_ne k key with rfl | hk <;> split_ifs <;> simp_all

theorem mem_foldl_gcKey {delayed inheritedFiles activeTablets : Finset String}
    (keys : List String) (acc : List String × Finset String) (k : String) :
    (k ∈ (keys.foldl (gcKey tabletOf delayed inheritedFiles activeTablets) acc).1 ↔ k ∈ acc.1 ∨
      k ∈ keys ∧ k ∉ inheritedFiles ∧ tabletOf k ∉ activeTablets ∧ k ∈ delayed) ∧
    (k ∈ (keys.foldl (gcKey tabletOf delayed inheritedFiles activeTablets) acc).2 ↔ k ∈ acc.2 ∨
      k ∈ keys ∧ k ∉ inheritedFiles ∧ tabletOf k ∉ activeTablets ∧ k ∉ delayed) := by
  induction keys generalizing acc with
  | nil => simp
  | cons key keys ih =>
    rw [List.foldl_cons, (ih _).1, (ih _).2, mem_gcKey.1, mem_gcKey.2, List.mem_cons,
      or_and_right, or_and_right, or_assoc, or_assoc]
    exact ⟨Iff.rfl, Iff.rfl⟩

theorem persistentCacheGarbageCollect_spec (delayed : Finset String) (r : GcRound) (k : String) :
    (k ∈ (persistentCacheGarbageCollect tabletOf delayed (some r.allKeys) r.inheritedFiles
      r.activeTablets).1 ↔ Garbage tabletOf r k ∧ k ∈ delayed) ∧
    (k ∈ (persistentCacheGarbageCollect tabletOf delayed (some r.allKeys) r.inheritedFiles
      r.activeTablets).2 ↔ Garbage tabletOf r k ∧ k ∉ delayed) := by
  simp only [persistentCacheGarbageCollect, (mem_foldl_gcKey _ _ k).1, (mem_foldl_gcKey _ _ k).2,
    Garbage]
  simp [and_assoc]

theorem length_gcTrace (delayed : Finset String) (rs : List GcRound) :
    (gcTrace tabletOf delayed rs).length = rs.length := by
  induction rs generalizing delayed <;> simp [gcTrace, *]

theorem gcTrace_head {delayed d : Finset String} {rs : List GcRound} {ev : List String}
    (h : (gcTrace tabletOf delayed rs)[0]? = some (d, ev)) : d = delayed := by
  cases rs <;> simp_all [gcTrace]

/-- Round `i` of a trace evicts by `PersistentCacheGarbageCollect` from the `delayed_gc_files_`
it starts from, and round `i + 1` starts from what round `i` put off. -/
theorem gcTrace_getElem? {delayed : Finset String} {rs : List GcRound} {i : Nat} {r : GcRound}
    (hr : rs[i]? = some r) :
    ∃ d, (gcTrace tabletOf delayed rs)[i]? = some (d, (persistentCacheGarbageCollect tabletOf d
        (some r.allKeys) r.inheritedFiles r.activeTablets).1) ∧
      ∀ d' ev', (gcTrace tabletOf delayed rs)[i + 1]? = some (d', ev') →
        d' = (persistentCacheGarbageCollect tabletOf d (some r.allKeys) r.inheritedFiles
          r.activeTablets).2 := by
  induction rs generalizing delayed i with
  | nil => simp at hr
  | cons r₀ rs ih =>
    cases i with
    | zero =>
      simp only [List.getElem?_cons_zero, Option.some.injEq] at hr
      subst hr
      exact ⟨delayed, by simp [gcTrace], fun d' ev' h => gcTrace_head (by simpa [gcTrace] using h)⟩
    | succ i =>
      simp only [gcTrace, List.getElem?_cons_succ]
      exact ih (by simpa using hr)

/-- Over any rounds from an empty `delayed_gc_files_`: a round evicts exactly its garbage that
the round before put off, and puts off exactly the garbage it does not evict. So no key that is
inherited or belongs to an active tablet is evicted, and a key that is garbage in two rounds in a
row is evicted in one of them. -/
theorem persistentCacheGc_one_round_grace (tabletOf : String → String) (rs : List GcRound) :
    (gcTrace tabletOf ∅ rs).length = rs.length ∧
    (∀ d ev, (gcTrace tabletOf ∅ rs)[0]? = some (d, ev) → d = ∅) ∧
    (∀ (i : Nat) (r : GcRound) (d : Finset String) (ev : List String), rs[i]? = some r →
      (gcTrace tabletOf ∅ rs)[i]? = some (d, ev) →
      (∀ k, k ∈ ev ↔ Garbage tabletOf r k ∧ k ∈ d) ∧
      ∀ d' ev', (gcTrace tabletOf ∅ rs)[i + 1]? = some (d', ev') →
        ∀ k, k ∈ d' ↔ Garbage tabletOf r k ∧ k ∉ ev) ∧
    (∀ (i : Nat) (r : GcRound) (d : Finset String) (ev : List String) (k : String),
      rs[i]? = some r → (gcTrace tabletOf ∅ rs)[i]? = some (d, ev) → k ∈ ev →
      k ∉ r.inheritedFiles ∧ tabletOf k ∉ r.activeTablets) ∧
    ∀ (i : Nat) (r r' : GcRound) (d : Finset String) (ev : List String) (d' : Finset String)
      (ev' : List String) (k : String), rs[i]? = some r → rs[i + 1]? = some r' →
      (gcTrace tabletOf ∅ rs)[i]? = some (d, ev) →
      (gcTrace tabletOf ∅ rs)[i + 1]? = some (d', ev') →
      Garbage tabletOf r k → Garbage tabletOf r' k → k ∈ ev ∨ k ∈ ev' := by
  have hround : ∀ (i : Nat) (r : GcRound) (d : Finset String) (ev : List String),
      rs[i]? = some r → (gcTrace tabletOf ∅ rs)[i]? = some (d, ev) →
      (∀ k, k ∈ ev ↔ Garbage tabletOf r k ∧ k ∈ d) ∧
      ∀ d' ev', (gcTrace tabletOf ∅ rs)[i + 1]? = some (d', ev') →
        ∀ k, k ∈ d' ↔ Garbage tabletOf r k ∧ k ∉ ev := by
    intro i r d ev hr ht
    obtain ⟨d₀, ht₀, hnext⟩ := @gcTrace_getElem? tabletOf ∅ rs i r hr
    rw [ht₀, Option.some.injEq, Prod.mk.injEq] at ht
    obtain ⟨rfl, rfl⟩ := ht
    refine ⟨fun k => (persistentCacheGarbageCollect_spec d₀ r k).1, fun d' ev' h k => ?_⟩
    rw [hnext d' ev' h, (persistentCacheGarbageCollect_spec d₀ r k).2,
      (persistentCacheGarbageCollect_spec d₀ r k).1]
    tauto
  refine ⟨length_gcTrace ∅ rs, fun d ev h => gcTrace_head h, hround,
    fun i r d ev k hr ht hk => ((hround i r d ev hr ht).1 k |>.mp hk).1.2, ?_⟩
  intro i r r' d ev d' ev' k hr hr' ht ht' hg hg'
  by_cases hd : k ∈ d'
  · exact .inr (((hround (i + 1) r' d' ev' hr' ht').1 k).mpr ⟨hg', hd⟩)
  · by_contra hne
    exact hd (((hround i r d ev hr ht).2 d' ev' ht' k).mpr ⟨hg, fun h => hne (.inl h)⟩)

example : gcTrace id ∅ [⟨["t/a/0/1.sst"], ∅, ∅⟩, ⟨["t/a/0/1.sst"], ∅, ∅⟩] =
    [(∅, []), ({"t/a/0/1.sst"}, ["t/a/0/1.sst"])] := by
  decide

end PersistentCache

/-! ## `GetInheritedLiveFiles` -/

/-- What `TabletIO::AddInheritedLiveFiles` did for a tablet: a ready tablet added the inherited
live files of each of its locality groups and returned true; one that is not ready returned
false, after adding whatever it had. -/
inductive AddOutcome where
  | ready (files : List (Finset Nat))
  | notReady (added : List (Finset Nat))
  deriving DecidableEq

/-- A tablet of `GetAllTablets`: its table name and what its `AddInheritedLiveFiles` did. -/
structure LiveTablet where
  tableName : String
  outcome : AddOutcome
  deriving DecidableEq

/-- The file numbers, per locality group, a tablet's `AddInheritedLiveFiles` added. -/
def AddOutcome.files : AddOutcome → List (Finset Nat)
  | .ready files | .notReady files => files

def AddOutcome.isReady : AddOutcome → Bool
  | .ready _ => true
  | .notReady _ => false

/-- `(*live)[lg].insert(f)` for the files `f` of every locality group `lg`, with `live` grown to
hold every locality group added. -/
def lgUnion : List (Finset Nat) → List (Finset Nat) → List (Finset Nat)
  | [], ys => ys
  | xs, [] => xs
  | x :: xs, y :: ys => (x ∪ y) :: lgUnion xs ys

/-- `not_ready_tables`, the tables that have an entry in `live`, and `live`, the sets of file
numbers gathered for each table, by locality group. -/
structure LiveFiles where
  notReadyTables : Finset String
  tables : Finset String
  live : String → List (Finset Nat)

def LiveFiles.init : LiveFiles := ⟨∅, ∅, fun _ => []⟩

/-- One tablet of the loop: a tablet of a table not ready is skipped; otherwise
`AddInheritedLiveFiles(&live[tablename])` adds to the table's entry, made empty if missing, and a
failure marks the table not ready and clears its entry. -/
def addTablet (st : LiveFiles) (tablet : LiveTablet) : LiveFiles :=
  if tablet.tableName ∈ st.notReadyTables then st
  else if tablet.outcome.isReady then
    { st with tables := insert tablet.tableName st.tables,
              live := update st.live tablet.tableName
                (lgUnion (st.live tablet.tableName) tablet.outcome.files) }
  else
    { notReadyTables := insert tablet.tableName st.notReadyTables,
      tables := insert tablet.tableName st.tables, live := update st.live tablet.tableName [] }

/-- The files of one locality group of a table in the report. -/
structure LgInheritedLiveFiles where
  lgNo : Nat
  fileNumber : List Nat
  deriving DecidableEq, Repr

/-- A table in the report: its name and its files by locality group. -/
structure InheritedLiveFiles where
  tableName : String
  lgLiveFiles : List LgInheritedLiveFiles
  deriving DecidableEq, Repr

/-- `add_lg_live_files` for each locality group `i`, with the set's file numbers in order. -/
def lgEntries (sets : List (Finset Nat)) : List LgInheritedLiveFiles :=
  sets.enum.map fun (i, set) => ⟨i, set.sort (· ≤ ·)⟩

/-- `GetInheritedLiveFiles`: the tables of `live`, in order, but those not ready. -/
def getInheritedLiveFiles (tablets : List LiveTablet) : List InheritedLiveFiles :=
  let st := tablets.foldl addTablet LiveFiles.init
  (st.tables.sort (· ≤ ·)).filterMap fun name =>
    if name ∈ st.notReadyTables then none else some ⟨name, lgEntries (st.live name)⟩

@[simp] theorem length_lgUnion (xs ys : List (Finset Nat)) :
    (lgUnion xs ys).length = max xs.length ys.length := by
  induction xs generalizing ys with
  | nil => simp [lgUnion]
  | cons x xs ih => cases ys <;> simp [lgUnion, ih, Nat.succ_max_succ]

theorem getD_lgUnion (xs ys : List (Finset Nat)) (i : Nat) :
    (lgUnion xs ys).getD i ∅ = xs.getD i ∅ ∪ ys.getD i ∅ := by
  induction xs generalizing ys i with
  | nil => simp [lgUnion]
  | cons x xs ih =>
    cases ys with
    | nil => simp [lgUnion]
    | cons y ys => cases i <;> simp only [lgUnion, List.getD_cons_zero, List.getD_cons_succ, ih]

/-- The sets a table gathers from its tablets: as many locality groups as its tablets have, and
in each the union of what they added. -/
theorem foldl_lgUnion (l : List LiveTablet) (init : List (Finset Nat)) (i : Nat) :
    (i < (l.foldl (fun acc tb => lgUnion acc tb.outcome.files) init).length ↔
      i < init.length ∨ ∃ tb ∈ l, i < tb.outcome.files.length) ∧
    ∀ x, x ∈ (l.foldl (fun acc tb => lgUnion acc tb.outcome.files) init).getD i ∅ ↔
      x ∈ init.getD i ∅ ∨ ∃ tb ∈ l, x ∈ tb.outcome.files.getD i ∅ := by
  induction l generalizing init with
  | nil => simp
  | cons tb l ih =>
    simp only [List.foldl_cons, (ih _).1, (ih _).2, length_lgUnion, getD_lgUnion,
      Finset.mem_union, List.mem_cons, exists_eq_or_imp, lt_max_iff, or_assoc, implies_true,
      and_self]

theorem addTablet_spec (st : LiveFiles) (hst : st.notReadyTables ⊆ st.tables) (tb : LiveTablet)
    (name : String) :
    (addTablet st tb).notReadyTables ⊆ (addTablet st tb).tables ∧
    (name ∈ (addTablet st tb).tables ↔ name ∈ st.tables ∨ tb.tableName = name) ∧
    (name ∈ (addTablet st tb).notReadyTables ↔
      name ∈ st.notReadyTables ∨ tb.tableName = name ∧ tb.outcome.isReady = false) ∧
    (name ∉ (addTablet st tb).notReadyTables → (addTablet st tb).live name =
      if tb.tableName = name then lgUnion (st.live name) tb.outcome.files else st.live name) := by
  by_cases h₁ : tb.tableName ∈ st.notReadyTables
  · simp only [addTablet, if_pos h₁]
    refine ⟨hst, ⟨.inl, ?_⟩, ⟨.inl, ?_⟩, fun h => ?_⟩
    · rintro (h | rfl); exacts [h, hst h₁]
    · rintro (h | ⟨rfl, -⟩); exacts [h, h₁]
    · rw [if_neg fun (he : tb.tableName = name) => h (he ▸ h₁)]
  by_cases h₂ : tb.outcome.isReady = true
  · simp only [addTablet, if_neg h₁, if_pos h₂]
    refine ⟨hst.trans (Finset.subset_insert _ _),
      by simp only [Finset.mem_insert, @eq_comm _ name, or_comm], by simp [h₂], fun _ => ?_⟩
    by_cases he : tb.tableName = name
    · subst he; simp
    · simp [he, update_noteq (Ne.symm he)]
  · simp only [addTablet, if_neg h₁, if_neg h₂]
    refine ⟨Finset.insert_subset_insert _ hst,
      by simp only [Finset.mem_insert, @eq_comm _ name, or_comm],
      by simp only [Finset.mem_insert, @eq_comm _ name, or_comm, h₂, and_true], fun h => ?_⟩
    have he : tb.tableName ≠ name := fun he => h (by simp [he])
    simp [he, update_noteq (Ne.symm he)]

/-- The loop over the tablets, seen from the table `name`: it has an entry if one of its tablets
was seen, is not ready if one of them failed, and otherwise holds what they all added. -/
theorem foldl_addTablet (l : List LiveTablet) (st : LiveFiles)
    (hst : st.notReadyTables ⊆ st.tables) (name : String) :
    (name ∈ (l.foldl addTablet st).tables ↔ name ∈ st.tables ∨ ∃ tb ∈ l, tb.tableName = name) ∧
    (name ∈ (l.foldl addTablet st).notReadyTables ↔ name ∈ st.notReadyTables ∨
      ∃ tb ∈ l, tb.tableName = name ∧ tb.outcome.isReady = false) ∧
    (name ∉ (l.foldl addTablet st).notReadyTables →
      (l.foldl addTablet st).live name = (l.filter (·.tableName = name)).foldl
        (fun acc tb => lgUnion acc tb.outcome.files) (st.live name)) := by
  induction l generalizing st with
  | nil => simp
  | cons tb l ih =>
    obtain ⟨hsub, htab, hnr, hlive⟩ := addTablet_spec st hst tb name
    obtain ⟨ih₁, ih₂, ih₃⟩ := ih (addTablet st tb) hsub
    simp only [List.foldl_cons]
    refine ⟨by rw [ih₁, htab]; simp [or_assoc], by rw [ih₂, hnr]; simp [or_assoc], fun h => ?_⟩
    have h₁ : name ∉ (addTablet st tb).notReadyTables := fun h' => h (ih₂.mpr (.inl h'))
    rw [ih₃ h, hlive h₁]
    by_cases he : tb.tableName = name <;> simp [he, List.filter_cons]

@[simp] theorem length_lgEntries (sets : List (Finset Nat)) :
    (lgEntries sets).length = sets.length := by
  simp [lgEntries]

theorem getElem?_lgEntries (sets : List (Finset Nat)) (i : Nat) :
    (lgEntries sets)[i]? = sets[i]?.map fun set => ⟨i, set.sort (· ≤ ·)⟩ := by
  simp [lgEntries, List.getElem?_enum, Function.comp_def]

theorem mem_getInheritedLiveFiles {tablets : List LiveTablet} {t : InheritedLiveFiles} :
    t ∈ getInheritedLiveFiles tablets ↔
      t.tableName ∈ (tablets.foldl addTablet LiveFiles.init).tables ∧
      t.tableName ∉ (tablets.foldl addTablet LiveFiles.init).notReadyTables ∧
      t.lgLiveFiles = lgEntries ((tablets.foldl addTablet LiveFiles.init).live t.tableName) := by
  simp only [getInheritedLiveFiles, List.mem_filterMap, Finset.mem_sort]
  constructor
  · rintro ⟨name, hname, h⟩
    split at h
    · cases h
    · cases h; exact ⟨hname, ‹_›, rfl⟩
  · rintro ⟨h₁, h₂, h₃⟩
    exact ⟨t.tableName, h₁, by rw [if_neg h₂, ← h₃]⟩

theorem getInheritedLiveFiles_sorted (tablets : List LiveTablet) :
    ((getInheritedLiveFiles tablets).map (·.tableName)).Sorted (· < ·) := by
  rw [List.Sorted, List.pairwise_map, getInheritedLiveFiles, List.pairwise_filterMap]
  refine (Finset.sort_sorted_lt _).imp fun h b hb b' hb' => ?_
  split at hb <;> split at hb' <;> cases hb <;> cases hb'
  exact h

/-- For any tablets of `GetAllTablets` and any outcome of their `AddInheritedLiveFiles`, the
report names each table at most once, in order; it reports a table exactly when the table has a
tablet and every one of its tablets is ready; and for a reported table, locality group `i` is
reported as `lg_no = i` with exactly the union of the file numbers its tablets added there. -/
theorem getInheritedLiveFiles_reports_ready_tables (tablets : List LiveTablet) :
    ((getInheritedLiveFiles tablets).map (·.tableName)).Sorted (· < ·) ∧
    (∀ name, (∃ t ∈ getInheritedLiveFiles tablets, t.tableName = name) ↔
      (∃ tb ∈ tablets, tb.tableName = name) ∧
        ∀ tb ∈ tablets, tb.tableName = name → tb.outcome.isReady = true) ∧
    ∀ t ∈ getInheritedLiveFiles tablets, ∀ i,
      (i < t.lgLiveFiles.length ↔
        ∃ tb ∈ tablets, tb.tableName = t.tableName ∧ i < tb.outcome.files.length) ∧
      ∀ lg, t.lgLiveFiles[i]? = some lg → lg.lgNo = i ∧
        ∀ x, x ∈ lg.fileNumber ↔
          ∃ tb ∈ tablets, tb.tableName = t.tableName ∧ x ∈ tb.outcome.files.getD i ∅ := by
  have hloop := fun name => foldl_addTablet tablets LiveFiles.init (Finset.empty_subset _) name
  simp only [show LiveFiles.init.tables = ∅ from rfl, show LiveFiles.init.notReadyTables = ∅ from rfl,
    show LiveFiles.init.live = fun _ => [] from rfl, Finset.not_mem_empty, false_or] at hloop
  refine ⟨getInheritedLiveFiles_sorted tablets, fun name => ⟨?_, fun ⟨h₁, h₂⟩ => ?_⟩,
    fun t ht i => ?_⟩
  · rintro ⟨t, ht, rfl⟩
    obtain ⟨h₁, h₂, -⟩ := mem_getInheritedLiveFiles.mp ht
    refine ⟨(hloop _).1.mp h₁, fun tb htb he => ?_⟩
    by_contra hr
    exact h₂ ((hloop _).2.1.mpr ⟨tb, htb, he, by simpa using hr⟩)
  · have hn : name ∉ (tablets.foldl addTablet LiveFiles.init).notReadyTables := fun h => by
      obtain ⟨tb, htb, he, hr⟩ := (hloop name).2.1.mp h
      simp [h₂ tb htb he] at hr
    exact ⟨⟨name, lgEntries ((tablets.foldl addTablet LiveFiles.init).live name)⟩,
      mem_getInheritedLiveFiles.mpr ⟨(hloop name).1.mpr h₁, hn, rfl⟩, rfl⟩
  · obtain ⟨-, h₂, h₃⟩ := mem_getInheritedLiveFiles.mp ht
    obtain ⟨hlen, hmem⟩ := foldl_lgUnion (tablets.filter (·.tableName = t.tableName)) [] i
    rw [← (hloop _).2.2 h₂] at hlen hmem
    simp only [List.mem_filter, decide_eq_true_eq, List.length_nil, Nat.not_lt_zero, false_or,
      List.getD_nil, Finset.not_mem_empty, and_assoc] at hlen hmem
    refine ⟨by rw [h₃, length_lgEntries, hlen], fun lg hlg => ?_⟩
    rw [h₃, getElem?_lgEntries, Option.map_eq_some'] at hlg
    obtain ⟨set, hset, rfl⟩ := hlg
    refine ⟨rfl, fun x => ?_⟩
    rw [Finset.mem_sort, ← hmem x, List.getD_eq_getElem?_getD, hset, Option.getD_some]

end TabletNode
