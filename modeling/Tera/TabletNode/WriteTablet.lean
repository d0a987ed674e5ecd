import Tera.TabletNode.ReadTablet
import Mathlib.Data.List.Nodup

/-!
# `WriteTablet`: one status per row, one answer per request

`TabletNodeImpl::WriteTablet` groups the rows of a `WriteTabletRequest` by the `TabletIO` that
`GetTablet` returns for them (`NULL` for a row outside every tablet) into `tablet_task_map`,
one `WriteTabletTask` per tablet with the parallel vectors `row_index_vec` and `row_status_vec`.
It then walks the map: a `NULL` entry fails at once with `kKeyNotInRange`, an entry whose
`TabletIO::Write` returns `false` fails with the status it gives, and an accepted entry is called
back by the tablet, on any thread and in any order. Every entry ends in `WriteTabletCallback`,
which copies the task's status vector into `row_status_list` and adds the task's size to
`row_done_counter`; the callback that brings the counter to `row_list_size()` runs `done`.
-/
namespace TabletNode

open Function (update update_same update_noteq)

/-! ## Grouping the rows by tablet -/

/-- The order of `std::map<io::TabletIO*, WriteTabletTask*>`: `NULL` first, then by address. -/
def ptrLt : Option Nat → Option Nat → Bool
  | none, some _ => true
  | some a, some b => a < b
  | _, _ => false

/-- `tablet_task_map.find(tablet_io)`, the insertion of a new task on a miss, and the
`push_back` of row `i` onto the task's `row_index_vec`; the map is a list sorted by key. -/
def addRow (key : Option Nat) (i : Nat) :
    List (Option Nat × List Nat) → List (Option Nat × List Nat)
  | [] => [(key, [i])]
  | (k, rows) :: m =>
    if k = key then (k, rows ++ [i]) :: m
    else if ptrLt key k then (key, [i]) :: (k, rows) :: m
    else (k, rows) :: addRow key i m

/-- The loop over `request->row_list()` from row `i`, each row with the tablet `GetTablet`
returned for it. -/
def groupLoop (m : List (Option Nat × List Nat)) (i : Nat) :
    List (Option Nat) → List (Option Nat × List Nat)
  | [] => m
  | key :: rest => groupLoop (addRow key i m) (i + 1) rest

/-- `tablet_task_map` once every row is placed, for the tablets of the rows in order. -/
def groupRows (tablets : List (Option Nat)) : List (Option Nat × List Nat) :=
  groupLoop [] 0 tablets

section Grouping

open List (Perm)

theorem perm_addRow (key : Option Nat) (i : Nat) (m : List (Option Nat × List Nat)) :
    ((addRow key i m).map Prod.snd).flatten.Perm ((m.map Prod.snd).flatten ++ [i]) := by
  induction m with
  | nil => simp [addRow]
  | cons e m ih =>
    obtain ⟨k, rows⟩ := e
    simp only [addRow]
    split
    · simpa using (List.perm_append_singleton i _).symm.append_left rows
    · split
      · simpa using (List.perm_append_singleton i (rows ++ _)).symm
      · simpa using ih.append_left rows

theorem perm_groupLoop (m : List (Option Nat × List Nat)) (i : Nat) (rest : List (Option Nat)) :
    ((groupLoop m i rest).map Prod.snd).flatten.Perm
      ((m.map Prod.snd).flatten ++ List.range' i rest.length) := by
  induction rest generalizing m i with
  | nil => simp [groupLoop]
  | cons key rest ih =>
    rw [groupLoop, List.length_cons, List.range'_succ]
    exact (ih _ _).trans (by simpa using (perm_addRow key i m).append_right _)

theorem groupLoop_wf (P : Option Nat → Nat → Prop) {m : List (Option Nat × List Nat)}
    {i : Nat} {rest : List (Option Nat)} (hm : ∀ e ∈ m, e.2 ≠ [] ∧ ∀ r ∈ e.2, P e.1 r)
    (hrest : ∀ p k, rest[p]? = some k → P k (i + p)) :
    ∀ e ∈ groupLoop m i rest, e.2 ≠ [] ∧ ∀ r ∈ e.2, P e.1 r := by
  induction rest generalizing m i with
  | nil => exact hm
  | cons key rest ih =>
    refine ih (fun e he => ?_) fun p k h => by
      simpa [Nat.add_right_comm, Nat.add_assoc] using hrest (p + 1) k (by simpa using h)
    have hkey : P key i := by simpa using hrest 0 key (by simp)
    clear ih hrest
    induction m with
    | nil =>
      simp only [addRow, List.mem_singleton] at he
      subst he; simpa using hkey
    | cons e' m ihm =>
      obtain ⟨k, rows⟩ := e'
      simp only [addRow] at he
      split at he
      · rename_i hk
        subst hk
        rcases List.mem_cons.mp he with rfl | he
        · refine ⟨by simp, fun r hr => ?_⟩
          rcases List.mem_append.mp hr with hr | hr
          · exact (hm _ (List.mem_cons_self _ _)).2 r hr
          · rw [List.mem_singleton.mp hr]; exact hkey
        · exact hm e (List.mem_cons_of_mem _ he)
      · split at he
        · rcases List.mem_cons.mp he with rfl | he
          · simpa using hkey
          · exact hm e he
        · rcases List.mem_cons.mp he with rfl | he
          · exact hm _ (List.mem_cons_self _ _)
          · exact ihm (fun e he => hm e (List.mem_cons_of_mem _ he)) he

/-- `tablet_task_map` holds every row once: its `row_index_vec`s together are a permutation of
the row indices; every task has rows; and every row of a task is on the task's tablet. -/
theorem groupRows_spec (tablets : List (Option Nat)) :
    ((groupRows tablets).map Prod.snd).flatten.Perm (List.range tablets.length) ∧
    ∀ e ∈ groupRows tablets, e.2 ≠ [] ∧ ∀ r ∈ e.2, tablets[r]? = some e.1 := by
  refine ⟨?_, groupLoop_wf (fun k r => tablets[r]? = some k) (by simp) ?_⟩
  · simpa [List.range_eq_range'] using perm_groupLoop [] 0 tablets
  · intro p k h; simpa using h

/-- With the `row_index_vec`s disjoint and without repeats, a row sits in one task at one
position. -/
theorem rowPos_unique {groups : List (Option Nat × List Nat)}
    (hnd : (groups.map Prod.snd).flatten.Nodup) {j j' p p' i : Nat} {k k' : Option Nat}
    {rows rows' : List Nat} (hj : groups[j]? = some (k, rows)) (hp : rows[p]? = some i)
    (hj' : groups[j']? = some (k', rows')) (hp' : rows'[p']? = some i) : j = j' ∧ p = p' := by
  obtain ⟨hnds, hdisj⟩ := List.nodup_flatten.mp hnd
  have hmap : ∀ {j rows k}, groups[j]? = some (k, rows) → (groups.map Prod.snd)[j]? = some rows :=
    fun h => by rw [List.getElem?_map, h]; rfl
  have hi := List.getElem?_mem hp
  have hi' := List.getElem?_mem hp'
  have hjj : j = j' := by
    by_contra hne
    have hlt : j < (groups.map Prod.snd).length := (List.getElem?_eq_some_iff.mp (hmap hj)).1
    have hlt' : j' < (groups.map Prod.snd).length := (List.getElem?_eq_some_iff.mp (hmap hj')).1
    have hpw := List.pairwise_iff_getElem.mp hdisj
    have e := (List.getElem?_eq_some_iff.mp (hmap hj)).2
    have e' := (List.getElem?_eq_some_iff.mp (hmap hj')).2
    rcases Nat.lt_or_gt_of_ne hne with h | h
    · exact hpw j j' hlt hlt' h (e ▸ hi) (e' ▸ hi')
    · exact hpw j' j hlt' hlt h (e' ▸ hi') (e ▸ hi)
  subst hjj
  obtain rfl : rows = rows' := by rw [hj] at hj'; cases hj'; rfl
  have hnd' := hnds rows (List.getElem?_mem (hmap hj))
  exact ⟨rfl, List.getElem?_inj (List.getElem?_eq_some_iff.mp hp).1 hnd' (hp.trans hp'.symm)⟩

end Grouping

/-! ## The tasks as threads -/

/-- What became of a `WriteTabletTask`: not yet reached by the loop over the map, handed to
`TabletIO::Write` with its callback pending, failed by `WriteTabletFail` with a status, or called
back by the tablet with its status vector. -/
inductive TaskPhase where
  | waiting
  | writing
  | failed (status : StatusCode)
  | called (statuses : Nat → StatusCode)

def TaskPhase.answered : TaskPhase → Bool
  | .failed _ | .called _ => true
  | _ => false

/-- The values the task's callback `Set` on the row at position `p` of its `row_index_vec`. -/
def TaskPhase.reported : TaskPhase → Nat → List StatusCode
  | .failed status, _ => [status]
  | .called statuses, p => [statuses p]
  | _, _ => []

theorem TaskPhase.reported_of_not_answered {ph : TaskPhase} (h : ph.answered = false) (p : Nat) :
    ph.reported p = [] := by
  cases ph <;> simp_all [TaskPhase.answered, TaskPhase.reported]

theorem TaskPhase.length_reported_of_answered {ph : TaskPhase} (h : ph.answered = true) (p : Nat) :
    (ph.reported p).length = 1 := by
  cases ph <;> simp_all [TaskPhase.answered, TaskPhase.reported]

/-- What `TabletIO::Write` returned: `true`, so that its callback runs now or later, or `false`
with a status. -/
inductive WriteOutcome where
  | accepted
  | rejected (status : StatusCode)
  deriving DecidableEq, Repr

/-- A `WriteTablet` call in flight: how many entries of the map its loop has handled, what became
of each task, every value `Set` on each entry of `row_status_list` in order, `row_done_counter`,
and the number of `done->Run()` calls. -/
structure WriteTask where
  issued : Nat
  phase : Nat → TaskPhase
  rowSets : Nat → List StatusCode
  counter : Nat
  doneRuns : Nat

/-- A step of one thread: the loop handles the next entry of the map, given what
`TabletIO::Write` returns for it; or the tablet of entry `j` calls back with a status vector. -/
inductive WriteEvent where
  | issue (outcome : WriteOutcome)
  | callback (j : Nat) (statuses : Nat → StatusCode)

/-- The loop of `WriteTabletCallback` over `row_index_vec` from position `p`:
`row_status_list[row_index_vec[p]]` is set to `(*status_vec)[p]`. -/
def setRows (statuses : Nat → StatusCode) (rowSets : Nat → List StatusCode) (p : Nat) :
    List Nat → Nat → List StatusCode
  | [] => rowSets
  | i :: rest => setRows statuses (update rowSets i (rowSets i ++ [statuses p])) (p + 1) rest

namespace WriteTask

/-- `WriteTabletCallback` for entry `j` of the map, whose rows are `rows`, with status vector
`statuses`, for a request of `n` rows; `ph` records how the task ended. -/
def writeTabletCallback (n : Nat) (t : WriteTask) (j : Nat) (rows : List Nat)
    (statuses : Nat → StatusCode) (ph : TaskPhase) : WriteTask :=
  let counter := t.counter + rows.length
  { issued := t.issued, phase := update t.phase j ph,
    rowSets := setRows statuses t.rowSets 0 rows, counter := counter,
    doneRuns := if counter = n then t.doneRuns + 1 else t.doneRuns }

/-- `WriteTabletFail`: the task's `row_status_vec` is filled with `status`, then its callback
runs. -/
def writeTabletFail (n : Nat) (t : WriteTask) (j : Nat) (rows : List Nat) (status : StatusCode) :
    WriteTask :=
  writeTabletCallback n t j rows (fun _ => status) (.failed status)

/-- `WriteTablet` after its grouping loop; a request without rows is answered at once. -/
def start (n : Nat) : WriteTask :=
  ⟨0, fun _ => .waiting, fun _ => [], 0, if n = 0 then 1 else 0⟩

/-- One step over the map `groups` of a request of `n` rows; `none` if it cannot be taken. -/
def step (groups : List (Option Nat × List Nat)) (n : Nat) (t : WriteTask) :
    WriteEvent → Option WriteTask
  | .issue outcome =>
    match groups[t.issued]? with
    | none => none
    | some (key, rows) =>
      let t' := { t with issued := t.issued + 1 }
      match key, outcome with
      | none, _ => some (writeTabletFail n t' t.issued rows .keyNotInRange)
      | some _, .rejected status => some (writeTabletFail n t' t.issued rows status)
      | some _, .accepted => some { t' with phase := update t.phase t.issued .writing }
  | .callback j statuses =>
    match t.phase j, groups[j]? with
    | .writing, some (_, rows) => some (writeTabletCallback n t j rows statuses (.called statuses))
    | _, _ => none

def run (groups : List (Option Nat × List Nat)) (n : Nat) (t : WriteTask) :
    List WriteEvent → Option WriteTask
  | [] => some t
  | e :: es => (t.step groups n e).bind fun t' => t'.run groups n es

@[simp] theorem writeTabletCallback_issued (n : Nat) (t : WriteTask) (j rows sv ph) :
    (writeTabletCallback n t j rows sv ph).issued = t.issued := rfl
@[simp] theorem writeTabletCallback_phase (n : Nat) (t : WriteTask) (j rows sv ph) :
    (writeTabletCallback n t j rows sv ph).phase = update t.phase j ph := rfl
@[simp] theorem writeTabletCallback_rowSets (n : Nat) (t : WriteTask) (j rows sv ph) :
    (writeTabletCallback n t j rows sv ph).rowSets = setRows sv t.rowSets 0 rows := rfl
@[simp] theorem writeTabletCallback_counter (n : Nat) (t : WriteTask) (j rows sv ph) :
    (writeTabletCallback n t j rows sv ph).counter = t.counter + rows.length := rfl
@[simp] theorem writeTabletCallback_doneRuns (n : Nat) (t : WriteTask) (j rows sv ph) :
    (writeTabletCallback n t j rows sv ph).doneRuns =
      if t.counter + rows.length = n then t.doneRuns + 1 else t.doneRuns := rfl

/-! ## Every row once, one answer -/

def rowCount (groups : List (Option Nat × List Nat)) (j : Nat) : Nat :=
  ((groups[j]?).map fun e => e.2.length).getD 0

def answeredSet (m : Nat) (t : WriteTask) : Finset Nat :=
  (Finset.range m).filter fun j => (t.phase j).answered

theorem sum_rowCount (groups : List (Option Nat × List Nat)) :
    ∑ j ∈ Finset.range groups.length, rowCount groups j = (groups.map fun e => e.2.length).sum := by
  induction groups with
  | nil => rfl
  | cons e groups ih =>
    rw [List.length_cons, Finset.sum_range_succ', List.map_cons, List.sum_cons, ← ih, add_comm]
    simp [rowCount]

variable {groups : List (Option Nat × List Nat)} {n : Nat} {t t' : WriteTask}

/-- The accounting a callback keeps: the `Set`s made on each row are those its task reported,
`row_done_counter` is the size of the tasks called back, and `done` has run once it is full. -/
structure Books (groups : List (Option Nat × List Nat)) (n : Nat) (t : WriteTask) : Prop where
  row_sets : ∀ j k rows p i, groups[j]? = some (k, rows) → rows[p]? = some i →
    t.rowSets i = (t.phase j).reported p
  counter_eq : t.counter = ∑ j ∈ t.answeredSet groups.length, rowCount groups j
  done : t.doneRuns = if t.counter = n then 1 else 0

/-- What every reachable state keeps: the loop has handled a prefix of the map, and a `NULL`
entry is failed with `kKeyNotInRange` as soon as the loop reaches it. -/
structure Inv (groups : List (Option Nat × List Nat)) (n : Nat) (t : WriteTask)
    extends Books groups n t : Prop where
  issued_le : t.issued ≤ groups.length
  waiting : ∀ j, t.phase j = .waiting ↔ t.issued ≤ j
  null_failed : ∀ j rows, groups[j]? = some (none, rows) →
    t.phase j = .waiting ∨ t.phase j = .failed .keyNotInRange

theorem Books.with_issued (hb : t.Books groups n) (x : Nat) :
    ({ t with issued := x } : WriteTask).Books groups n :=
  ⟨hb.row_sets, hb.counter_eq, hb.done⟩

theorem answeredSet_callback {j : Nat} {ph : TaskPhase} (hj : j < m)
    (hna : (t.phase j).answered = false) (hph : ph.answered = true) (rows sv) :
    (writeTabletCallback n t j rows sv ph).answeredSet m = insert j (t.answeredSet m) := by
  ext x
  simp only [answeredSet, writeTabletCallback_phase, Finset.mem_insert, Finset.mem_filter,
    Finset.mem_range]
  rcases eq_or_ne x j with rfl | hx
  · simp [hph, hj]
  · simp [update_noteq hx, hx]

theorem setRows_of_not_mem {rows : List Nat} {i : Nat} (h : i ∉ rows) (sv : Nat → StatusCode)
    (rs : Nat → List StatusCode) (p : Nat) : setRows sv rs p rows i = rs i := by
  induction rows generalizing rs p with
  | nil => rfl
  | cons r rows ih =>
    rw [List.mem_cons, not_or] at h
    rw [setRows, ih h.2, update_noteq h.1]

theorem setRows_of_getElem? {rows : List Nat} (hnd : rows.Nodup) {q i : Nat}
    (h : rows[q]? = some i) (sv : Nat → StatusCode) (rs : Nat → List StatusCode) (p : Nat) :
    setRows sv rs p rows i = rs i ++ [sv (p + q)] := by
  induction rows generalizing rs p q with
  | nil => cases h
  | cons r rows ih =>
    rw [List.nodup_cons] at hnd
    cases q with
    | zero =>
      obtain rfl : r = i := by simpa using h
      rw [setRows, setRows_of_not_mem hnd.1, update_same, Nat.add_zero]
    | succ q =>
      rw [List.getElem?_cons_succ] at h
      have hi : i ≠ r := fun hir => hnd.1 (hir ▸ List.getElem?_mem h)
      rw [setRows, ih hnd.2 h, update_noteq hi, Nat.add_right_comm, Nat.add_assoc]

section Steps

variable (hnd : (groups.map Prod.snd).flatten.Nodup)
  (hsum : (groups.map fun e => e.2.length).sum = n) (hne : ∀ e ∈ groups, e.2 ≠ [])

include hne in
theorem rowCount_pos {j : Nat} (hj : j < groups.length) : 0 < rowCount groups j := by
  simp only [rowCount, List.getElem?_eq_getElem hj, Option.map_some', Option.getD_some]
  exact List.length_pos.mpr (hne _ (List.getElem_mem hj))

include hsum in
/-- A task not yet called back still has its rows to add, so `row_done_counter` has room for
them. -/
theorem Books.counter_add_le (hb : t.Books groups n) {j : Nat} (hj : j < groups.length)
    (hna : (t.phase j).answered = false) : t.counter + rowCount groups j ≤ n := by
  have hnot : j ∉ t.answeredSet groups.length := by simp [answeredSet, hna]
  have hsub : insert j (t.answeredSet groups.length) ⊆ Finset.range groups.length :=
    Finset.insert_subset (Finset.mem_range.mpr hj) (Finset.filter_subset _ _)
  calc t.counter + rowCount groups j
      = ∑ x ∈ insert j (t.answeredSet groups.length), rowCount groups x := by
        rw [Finset.sum_insert hnot, hb.counter_eq, add_comm]
    _ ≤ ∑ x ∈ Finset.range groups.length, rowCount groups x := Finset.sum_le_sum_of_subset hsub
    _ = n := by rw [sum_rowCount, hsum]

include hne hsum in
theorem Books.all_answered (hb : t.Books groups n) (hc : t.counter = n) :
    ∀ j < groups.length, (t.phase j).answered = true := by
  intro j hj
  by_contra hna
  have := hb.counter_add_le hsum hj (by simpa using hna)
  have := rowCount_pos hne hj
  omega

include hnd hsum hne in
/-- `WriteTabletCallback` of a task not yet called back, ending it as `ph`, whose report on each
row is the status vector's entry. -/
theorem Books.callback (hb : t.Books groups n) {j : Nat} {k : Option Nat} {rows : List Nat}
    {sv : Nat → StatusCode} {ph : TaskPhase} (hj : groups[j]? = some (k, rows))
    (hna : (t.phase j).answered = false) (hph : ∀ p, ph.reported p = [sv p])
    (hans : ph.answered = true) : (writeTabletCallback n t j rows sv ph).Books groups n := by
  have hjl : j < groups.length := (List.getElem?_eq_some_iff.mp hj).1
  have hrow : rowCount groups j = rows.length := by simp [rowCount, hj]
  have hle := hb.counter_add_le hsum hjl hna
  have hpos := rowCount_pos hne hjl
  have hrnd : rows.Nodup := (List.nodup_flatten.mp hnd).1 rows
    (List.getElem?_mem (by rw [List.getElem?_map, hj]; rfl))
  refine ⟨fun j' k' rows' p i hj' hp => ?_, ?_, ?_⟩
  · simp only [writeTabletCallback_rowSets, writeTabletCallback_phase]
    by_cases hi : i ∈ rows
    · obtain ⟨q, hq⟩ := List.getElem?_of_mem hi
      obtain ⟨rfl, rfl⟩ := rowPos_unique hnd hj hq hj' hp
      rw [setRows_of_getElem? hrnd hq, hb.row_sets _ _ _ _ _ hj hq,
        TaskPhase.reported_of_not_answered hna, update_same, hph, Nat.zero_add, List.nil_append]
    · have hjj : j' ≠ j := by
        rintro rfl; rw [hj] at hj'; cases hj'; exact hi (List.getElem?_mem hp)
      rw [setRows_of_not_mem hi, update_noteq hjj, hb.row_sets _ _ _ _ _ hj' hp]
  · rw [writeTabletCallback_counter, answeredSet_callback hjl hna hans, Finset.sum_insert
      (by simp [answeredSet, hna]), hb.counter_eq, hrow, add_comm]
  · have hd : t.doneRuns = 0 := by rw [hb.done, if_neg (by omega)]
    simp [hd]

theorem step_issue {o : WriteOutcome} (h : t.step groups n (.issue o) = some t') :
    ∃ key rows, groups[t.issued]? = some (key, rows) ∧
      ((∃ status, (key = none → status = .keyNotInRange) ∧
          t' = writeTabletFail n { t with issued := t.issued + 1 } t.issued rows status) ∨
        (key ≠ none ∧ t'.issued = t.issued + 1 ∧ t'.phase = update t.phase t.issued .writing ∧
          t'.rowSets = t.rowSets ∧ t'.counter = t.counter ∧ t'.doneRuns = t.doneRuns)) := by
  simp only [step] at h
  split at h
  · cases h
  · rename_i key rows hj
    refine ⟨key, rows, hj, ?_⟩
    split at h <;> cases h
    · exact .inl ⟨_, fun _ => rfl, rfl⟩
    · exact .inl ⟨_, nofun, rfl⟩
    · exact .inr ⟨nofun, rfl, rfl, rfl, rfl, rfl⟩

theorem step_callback {j : Nat} {sv : Nat → StatusCode}
    (h : t.step groups n (.callback j sv) = some t') :
    ∃ k rows, t.phase j = .writing ∧ groups[j]? = some (k, rows) ∧
      t' = writeTabletCallback n t j rows sv (.called sv) := by
  simp only [step] at h
  split at h
  · cases h; exact ⟨_, _, ‹_›, ‹_›, rfl⟩
  · cases h

include hnd hsum hne in
theorem Inv.issue (hi : t.Inv groups n) {o : WriteOutcome}
    (h : t.step groups n (.issue o) = some t') : t'.Inv groups n := by
  obtain ⟨key, rows, hj, ⟨status, hnull, rfl⟩ | ⟨hkey, hs, hp, hr, hc, hd⟩⟩ := step_issue h
  · have hw : t.phase t.issued = .waiting := (hi.waiting _).mpr le_rfl
    refine
      { toBooks := (hi.toBooks.with_issued _).callback hnd hsum hne hj (by rw [hw]; rfl)
          (fun _ => rfl) rfl
        issued_le := (List.getElem?_eq_some_iff.mp hj).1
        waiting := fun x => ?_
        null_failed := fun x rows' hx => ?_ } <;>
      simp only [writeTabletFail, writeTabletCallback_phase, writeTabletCallback_issued]
    · rcases eq_or_ne x t.issued with rfl | hx
      · simp
      · rw [update_noteq hx, hi.waiting]; omega
    · rcases eq_or_ne x t.issued with rfl | hx'
      · rw [hj] at hx; cases hx; simp [hnull rfl]
      · rw [update_noteq hx']; exact hi.null_failed x rows' hx
  · have hw : t.phase t.issued = .waiting := (hi.waiting _).mpr le_rfl
    refine
      { row_sets := fun j' k' rows' p i hj' hp' => ?_
        counter_eq := ?_
        done := by rw [hd, hc]; exact hi.done
        issued_le := hs ▸ (List.getElem?_eq_some_iff.mp hj).1
        waiting := fun x => ?_
        null_failed := fun x rows' hx => ?_ }
    · rw [hr, hp, hi.row_sets _ _ _ _ _ hj' hp']
      rcases eq_or_ne j' t.issued with rfl | hx
      · rw [update_same, hw]; rfl
      · rw [update_noteq hx]
    · have : t'.answeredSet groups.length = t.answeredSet groups.length := by
        ext x
        simp only [answeredSet, hp, Finset.mem_filter]
        rcases eq_or_ne x t.issued with rfl | hx
        · simp [hw, TaskPhase.answered]
        · rw [update_noteq hx]
      rw [this, hc]; exact hi.counter_eq
    · rw [hp, hs]
      rcases eq_or_ne x t.issued with rfl | hx
      · simp
      · rw [update_noteq hx, hi.waiting]; omega
    · rw [hp]
      rcases eq_or_ne x t.issued with rfl | hx'
      · rw [hj] at hx; cases hx; exact absurd rfl hkey
      · rw [update_noteq hx']; exact hi.null_failed x rows' hx

include hnd hsum hne in
theorem Inv.callback (hi : t.Inv groups n) {j : Nat} {sv : Nat → StatusCode}
    (h : t.step groups n (.callback j sv) = some t') : t'.Inv groups n := by
  obtain ⟨k, rows, hw, hj, rfl⟩ := step_callback h
  refine
    { toBooks := hi.toBooks.callback hnd hsum hne hj (by rw [hw]; rfl) (fun _ => rfl) rfl
      issued_le := hi.issued_le
      waiting := fun x => ?_
      null_failed := fun x rows' hx => ?_ } <;>
    simp only [writeTabletCallback_phase, writeTabletCallback_issued]
  · rcases eq_or_ne x j with rfl | hx
    · simp only [update_same, reduceCtorEq, false_iff, not_le]
      exact lt_of_not_le fun hle => by rw [(hi.waiting x).mpr hle] at hw; cases hw
    · rw [update_noteq hx, hi.waiting]
  · rcases eq_or_ne x j with rfl | hx'
    · rcases hi.null_failed x rows' hx with h | h <;> rw [h] at hw <;> cases hw
    · rw [update_noteq hx']; exact hi.null_failed x rows' hx

include hnd hsum hne in
theorem Inv.step (hi : t.Inv groups n) {e : WriteEvent} (h : t.step groups n e = some t') :
    t'.Inv groups n := by
  cases e with
  | issue o => exact hi.issue hnd hsum hne h
  | callback j sv => exact hi.callback hnd hsum hne h

include hnd hsum hne in
theorem Inv.run (hi : t.Inv groups n) {es : List WriteEvent}
    (h : t.run groups n es = some t') : t'.Inv groups n := by
  induction es generalizing t with
  | nil => cases h; exact hi
  | cons e es ih =>
    obtain ⟨t₁, h₁, h₂⟩ := Option.bind_eq_some.mp h
    exact ih (hi.step hnd hsum hne h₁) h₂

theorem Inv.start (hn : n ≠ 0) : (start n).Inv groups n where
  row_sets := fun _ _ _ _ _ _ _ => rfl
  counter_eq := by simp [answeredSet, WriteTask.start, TaskPhase.answered]
  done := by simp [WriteTask.start, hn, Ne.symm hn]
  issued_le := Nat.zero_le _
  waiting := fun _ => by simp [WriteTask.start]
  null_failed := fun _ _ _ => .inl rfl

include hsum in
/-- A state that no thread can continue has answered: the loop has handled every entry and no
callback is pending, so every task has been called back and `row_done_counter` is full. -/
theorem Inv.doneRuns_of_stuck (hi : t.Inv groups n) (hs : ∀ e, t.step groups n e = none) :
    t.doneRuns = 1 := by
  have hiss : t.issued = groups.length := by
    refine le_antisymm hi.issued_le (not_lt.mp fun hlt => ?_)
    have := hs (.issue .accepted)
    simp only [WriteTask.step, List.getElem?_eq_getElem hlt] at this
    split at this <;> cases this
  have hans : ∀ j < groups.length, (t.phase j).answered = true := by
    intro j hj
    have hnw := (hi.waiting j).not.mpr (by omega)
    cases hph : t.phase j with
    | waiting => exact absurd hph hnw
    | writing =>
      have := hs (.callback j fun _ => .tabletNodeOk)
      simp [WriteTask.step, hph, List.getElem?_eq_getElem hj] at this
    | failed _ => rfl
    | called _ => rfl
  have hset : t.answeredSet groups.length = Finset.range groups.length :=
    Finset.filter_true_of_mem fun j hj => hans j (Finset.mem_range.mp hj)
  rw [hi.done, hi.counter_eq, hset, sum_rowCount, hsum, if_pos rfl]

end Steps

end WriteTask

/-- For every request of at least one row and every assignment of its rows to tablets, in every
interleaving of the loop over `tablet_task_map` with the tablets' callbacks: each row is in the
task of its own tablet; the values `Set` on its `row_status_list` entry are exactly what that task
reported for it, `kKeyNotInRange` for a row outside every tablet; `done->Run()` runs at most once,
only when every row has been set exactly once, and it has run once no thread can go on. -/
theorem writeTablet_sets_each_row_once (tablets : List (Option Nat)) (hn : tablets ≠ []) :
    (∀ i < tablets.length, ∃ (j : Nat) (k : Option Nat) (rows : List Nat) (p : Nat), (groupRows tablets)[j]? = some (k, rows) ∧
      rows[p]? = some i ∧ tablets[i]? = some k) ∧
    ∀ es t, (WriteTask.start tablets.length).run (groupRows tablets) tablets.length es = some t →
      (∀ j k (rows : List Nat) p i, (groupRows tablets)[j]? = some (k, rows) → rows[p]? = some i →
        t.rowSets i = (t.phase j).reported p ∧
        (k = none → t.phase j = .waiting ∨ t.phase j = .failed .keyNotInRange)) ∧
      t.doneRuns ≤ 1 ∧
      (t.doneRuns = 1 → ∀ i < tablets.length, (t.rowSets i).length = 1) ∧
      ((∀ e, t.step (groupRows tablets) tablets.length e = none) → t.doneRuns = 1) := by
  obtain ⟨hperm, hwf⟩ := groupRows_spec tablets
  have hnd : ((groupRows tablets).map Prod.snd).flatten.Nodup := hperm.nodup_iff.mpr
    (List.nodup_range _)
  have hsum : ((groupRows tablets).map fun e => e.2.length).sum = tablets.length := by
    simpa [List.length_flatten, List.map_map, Function.comp_def] using hperm.length_eq
  have hne : ∀ e ∈ groupRows tablets, e.2 ≠ [] := fun e he => (hwf e he).1
  have hpos : ∀ i < tablets.length, ∃ (j : Nat) (k : Option Nat) (rows : List Nat) (p : Nat),
      (groupRows tablets)[j]? = some (k, rows) ∧
      rows[p]? = some i := fun i hi => by
    obtain ⟨rows, hrows, hmem⟩ :=
      List.mem_flatten.mp (hperm.mem_iff.mpr (List.mem_range.mpr hi))
    obtain ⟨⟨k, rows'⟩, he, rfl⟩ := List.mem_map.mp hrows
    obtain ⟨j, hj⟩ := List.getElem?_of_mem he
    obtain ⟨p, hp⟩ := List.getElem?_of_mem hmem
    exact ⟨j, k, rows', p, hj, hp⟩
  refine ⟨fun i hi => ?_, fun es t h => ?_⟩
  · obtain ⟨j, k, rows, p, hj, hp⟩ := hpos i hi
    exact ⟨j, k, rows, p, hj, hp, (hwf _ (List.getElem?_mem hj)).2 i (List.getElem?_mem hp)⟩
  have hi := (WriteTask.Inv.start (List.length_pos.mpr hn).ne').run hnd hsum hne h
  refine ⟨fun j k rows p i hj hp => ⟨hi.row_sets _ _ _ _ _ hj hp, fun hk => ?_⟩, ?_, ?_,
    hi.doneRuns_of_stuck hsum⟩
  · subst hk; exact hi.null_failed j rows hj
  · rw [hi.done]; split <;> omega
  · intro hd i hil
    have hc : t.counter = tablets.length := by
      by_contra hc; rw [hi.done, if_neg hc] at hd; cases hd
    obtain ⟨j, k, rows, p, hj, hp⟩ := hpos i hil
    have hjl : j < (groupRows tablets).length := (List.getElem?_eq_some_iff.mp hj).1
    have hans := hi.toBooks.all_answered hsum hne hc j hjl
    rw [hi.row_sets _ _ _ _ _ hj hp]
    exact TaskPhase.length_reported_of_answered hans p

/-- Three rows, the middle one outside every tablet: the loop fails the `NULL` entry, hands the
other to its tablet, and the tablet's callback answers. -/
theorem writeTablet_sets_each_row_once_null_row :
    let tablets : List (Option Nat) := [some 5, none, some 5]
    let race : List WriteEvent := [.issue .accepted, .issue .accepted,
      .callback 1 fun p => if p = 0 then .tabletNodeOk else .tabletNodeIsBusy]
    ∃ t, (WriteTask.start 3).run (groupRows tablets) 3 race = some t ∧ t.doneRuns = 1 ∧
      t.rowSets 1 = [.keyNotInRange] ∧ t.rowSets 2 = [.tabletNodeIsBusy] := by
  intro tablets race
  have hg : groupRows tablets = [(none, [1]), (some 5, [0, 2])] := rfl
  have hl : tablets.length = 3 := rfl
  obtain ⟨-, h⟩ := writeTablet_sets_each_row_once tablets (List.cons_ne_nil _ _)
  rw [hg, hl] at h
  rw [hg]
  exact ⟨_, rfl, rfl, ((h race _ rfl).1 0 none [1] 0 1 rfl rfl).1.trans rfl, rfl⟩

end TabletNode
