import Mathlib.Algebra.Order.BigOperators.Group.Finset
import Mathlib.Logic.Function.Basic
import Mathlib.Algebra.Order.Ring.Nat

/-!
# `ReadTabletTask`: a batch read split into shards

`StartRead` splits the rows `[0, total_row_num)` of a `ReadTabletRequest` into shards of
`rows_per_task` rows, reserves `shard_cnt` slots of `row_results_list_`, hands every shard but
the last to the read thread pool and runs the last one on its own thread. Each shard's `DoRead`
reads its rows until one times out or `has_timeout_` is seen set, then stores `has_timeout_`
and calls `FinishShardRequest`, which adds its `row_num` to `finished_`; the shard whose add
reaches `total_row_num` answers the request. The shards run as threads: each step below is one
stretch of code between two accesses to the shared atomics, in any interleaving.
-/
namespace TabletNode

open Function (update update_same update_noteq)

/-- `StatusCode`, with the codes the tablet node's read and write handlers hand back. -/
inductive StatusCode where
  | tabletNodeOk
  | rpcTimeout
  | keyNotInRange
  | keyNotExist
  | tabletNodeIsBusy
  | other (code : Nat)
  deriving DecidableEq, Repr

/-- An `int64_t` product as the machine computes it: the low 64 bits, read as signed. -/
def int64Mul (a b : Nat) : Int := ((a * b : Nat) : Int).bmod (2 ^ 64)

/-- `FLAGS_tera_tabletnode_parallel_read_task_num` and
`FLAGS_tera_tabletnode_parallel_read_rows_per_task`. -/
structure ReadFlags where
  maxTaskNum : Nat
  minRowsPerTask : Nat

/-- `rows_per_task` of `StartRead` for `total_row_num_ = total`. -/
def rowsPerTask (F : ReadFlags) (total : Nat) : Nat :=
  if (total : Int) ≤ int64Mul F.maxTaskNum F.minRowsPerTask then F.minRowsPerTask
  else if F.maxTaskNum ≤ 1 then total
  else total / F.maxTaskNum + 1

/-- `shard_cnt = total_row_num_ / rows_per_task + 1`, the capacity reserved for
`row_results_list_`. -/
def shardCnt (F : ReadFlags) (total : Nat) : Nat := total / rowsPerTask F total + 1

/-- A `ShardRequest`: its first row, its `row_num`, and whether `StartRead` runs it on its own
thread (`row_to_read <= 0` after it). -/
structure ShardRequest where
  offset : Nat
  rowNum : Nat
  inline : Bool
  deriving DecidableEq, Repr

/-- `StartRead`'s loop with `row_to_read` rows left from `offset`; `fuel` bounds its rounds. -/
def shardLoop (r : Nat) : (fuel offset rowToRead : Nat) → List ShardRequest
  | 0, _, _ => []
  | fuel + 1, offset, rowToRead =>
    if 0 < rowToRead then
      ⟨offset, min r rowToRead, decide (rowToRead ≤ r)⟩ :: shardLoop r fuel (offset + r) (rowToRead - r)
    else []

/-- The shards `StartRead` creates, in order. -/
def shardPlan (F : ReadFlags) (total : Nat) : List ShardRequest :=
  shardLoop (rowsPerTask F total) total 0 total

/-! ## The plan -/

section Plan

variable {F : ReadFlags} {total : Nat}

theorem rowsPerTask_pos (hF : 0 < F.maxTaskNum ∧ 0 < F.minRowsPerTask) (ht : 0 < total) :
    0 < rowsPerTask F total := by
  unfold rowsPerTask
  split
  · exact hF.2
  · split
    · exact ht
    · exact Nat.succ_pos _

theorem shardLoop_cover {r : Nat} (hr : 0 < r) :
    ∀ fuel offset n, n ≤ fuel →
      ((shardLoop r fuel offset n).map fun s => List.range' s.offset s.rowNum).flatten =
        List.range' offset n := by
  intro fuel
  induction fuel with
  | zero => intro offset n hn; simp [shardLoop, Nat.le_zero.mp hn]
  | succ fuel ih =>
    intro offset n hn
    unfold shardLoop
    split
    · rw [List.map_cons, List.flatten_cons, ih _ _ (by omega)]
      dsimp only
      rcases Nat.le_total r n with hle | hle
      · rw [Nat.min_eq_left hle, show offset + r = offset + 1 * r by omega, List.range'_append]
        congr 1; omega
      · rw [Nat.min_eq_right hle, Nat.sub_eq_zero_of_le hle]
        simp
    · simp_all

theorem shardLoop_length_le {r : Nat} (hr : 0 < r) :
    ∀ fuel offset n, (shardLoop r fuel offset n).length ≤ n / r + 1 := by
  intro fuel
  induction fuel with
  | zero => intro _ _; simp [shardLoop]
  | succ fuel ih =>
    intro offset n
    unfold shardLoop
    split
    · have := ih (offset + r) (n - r)
      rcases Nat.lt_or_ge n r with hlt | hge
      · have : shardLoop r fuel (offset + r) (n - r) = [] := by
          cases fuel <;> simp [shardLoop, Nat.sub_eq_zero_of_le hlt.le]
        simp [this]
      · have : (n - r) / r + 1 = n / r := by
          rw [Nat.div_eq_sub_div hr hge]
        simp only [List.length_cons]; omega
    · simp

/-- Every shard of the loop has rows, and it runs on `StartRead`'s thread exactly when it is
the last. -/
theorem shardLoop_shape {r : Nat} (hr : 0 < r) :
    ∀ fuel offset n, n ≤ fuel → ∀ i (s : ShardRequest), (shardLoop r fuel offset n)[i]? = some s →
      0 < s.rowNum ∧ (s.inline = true ↔ i + 1 = (shardLoop r fuel offset n).length) := by
  intro fuel
  induction fuel with
  | zero => intro _ _ _ i s h; simp [shardLoop] at h
  | succ fuel ih =>
    intro offset n hn i s h
    unfold shardLoop at h ⊢
    split at h
    · rename_i hpos
      simp only [hpos, ↓reduceIte, List.length_cons]
      cases i with
      | zero =>
        simp only [List.getElem?_cons_zero, Option.some.injEq] at h
        subst h
        refine ⟨by simp; omega, ?_⟩
        have hrest : shardLoop r fuel (offset + r) (n - r) = [] ↔ n ≤ r := by
          constructor
          · intro h0
            by_contra hlt
            cases fuel with
            | zero => omega
            | succ fuel => simp [shardLoop, show 0 < n - r by omega] at h0
          · intro hle; cases fuel <;> simp [shardLoop, Nat.sub_eq_zero_of_le hle]
        simp only [decide_eq_true_eq, zero_add]
        rw [← hrest, ← List.length_eq_zero]
        constructor <;> intro h <;> omega
      | succ i =>
        simp only [List.getElem?_cons_succ] at h
        have := ih (offset + r) (n - r) (by omega) i s h
        exact ⟨this.1, by simpa using this.2⟩
    · simp at h

/-- For every request of at least one row and every positive pair of flags: the shards cover
`[0, total_row_num)` in order, each row once; there are at most `shard_cnt` of them, so
`row_results_list_` never grows past its reserve; each has rows; and only the last runs on
`StartRead`'s thread. -/
theorem shardPlan_spec (hF : 0 < F.maxTaskNum ∧ 0 < F.minRowsPerTask) (ht : 0 < total) :
    ((shardPlan F total).map fun s => List.range' s.offset s.rowNum).flatten = List.range total ∧
    (shardPlan F total).length ≤ shardCnt F total ∧
    ∀ i (s : ShardRequest), (shardPlan F total)[i]? = some s →
      0 < s.rowNum ∧ (s.inline = true ↔ i + 1 = (shardPlan F total).length) := by
  have hr := rowsPerTask_pos hF ht
  refine ⟨?_, shardLoop_length_le hr _ _ _, shardLoop_shape hr _ _ _ le_rfl⟩
  rw [shardPlan, shardLoop_cover hr _ _ _ le_rfl, List.range_eq_range']

end Plan

/-! ## The shards as threads -/

/-- Where a shard's thread is: not yet created by `StartRead`'s loop, in `DoRead` at a row,
at `has_timeout_.store`, at `finished_.Add`, in the rest of `FinishShardRequest` after its add
reached `total_row_num`, or finished. -/
inductive ShardPc where
  | unborn
  | reading (index : Nat)
  | storing
  | adding
  | completing
  | finished
  deriving DecidableEq, Repr

def ShardPc.added : ShardPc → Bool
  | .completing | .finished => true
  | _ => false

def ShardPc.stored : ShardPc → Bool
  | .adding | .completing | .finished => true
  | _ => false

theorem ShardPc.stored_of_added {p : ShardPc} (h : p.added = true) : p.stored = true := by
  cases p <;> simp_all [ShardPc.added, ShardPc.stored]

/-- A `ReadTabletTask` with its shards: how many `StartRead` created, each shard's place and
`is_timeout`, the atomics `has_timeout_` and `finished_`, the number of `done_->Run()` calls,
and the response status. -/
structure ReadTask where
  created : Nat
  pc : Nat → ShardPc
  isTimeout : Nat → Bool
  hasTimeout : Bool
  finished : Nat
  doneRuns : Nat
  status : Option StatusCode

/-- A step of one thread: `StartRead` creates the next shard; a shard reads a row (`timeout`
says whether its status is `kRPCTimeout`), stores `has_timeout_`, adds to `finished_`, or
answers the request. -/
inductive ReadEvent where
  | create
  | row (k : Nat) (timeout : Bool)
  | store (k : Nat)
  | add (k : Nat)
  | complete (k : Nat)
  deriving DecidableEq, Repr

namespace ReadTask

/-- The task as `StartRead` begins; a request without rows is answered at once. -/
def start (total : Nat) : ReadTask :=
  if total = 0 then ⟨0, fun _ => .unborn, fun _ => false, false, 0, 1, some .tabletNodeOk⟩
  else ⟨0, fun _ => .unborn, fun _ => false, false, 0, 0, none⟩

/-- One step over the shards `plan` of a request of `total` rows; `none` if it cannot be
taken. -/
def step (plan : List ShardRequest) (total : Nat) (t : ReadTask) : ReadEvent → Option ReadTask
  | .create =>
    match plan[t.created]? with
    | some s => some { t with created := t.created + 1, pc := update t.pc t.created (.reading s.offset) }
    | none => none
  | .row k timeout =>
    match t.pc k, plan[k]? with
    | .reading i, some s =>
      if timeout || t.hasTimeout then
        some { t with isTimeout := update t.isTimeout k true, pc := update t.pc k .storing }
      else
        let next : ShardPc := if i + 1 < s.offset + s.rowNum then .reading (i + 1) else .storing
        some { t with pc := update t.pc k next }
    | _, _ => none
  | .store k =>
    if t.pc k = .storing then
      some { t with hasTimeout := t.hasTimeout || t.isTimeout k, pc := update t.pc k .adding }
    else none
  | .add k =>
    match t.pc k, plan[k]? with
    | .adding, some s =>
      let f := t.finished + s.rowNum
      some { t with finished := f, pc := update t.pc k (if f = total then .completing else .finished) }
    | _, _ => none
  | .complete k =>
    if t.pc k = .completing then
      some { t with status := some (if t.hasTimeout then .rpcTimeout else .tabletNodeOk),
                    doneRuns := t.doneRuns + 1, pc := update t.pc k .finished }
    else none

def run (plan : List ShardRequest) (total : Nat) (t : ReadTask) : List ReadEvent → Option ReadTask
  | [] => some t
  | e :: es => (t.step plan total e).bind fun t' => t'.run plan total es

def addedSet (t : ReadTask) : Finset Nat := (Finset.range t.created).filter fun k => (t.pc k).added

end ReadTask

/-! ## Every interleaving answers once -/

def rowNumOf (plan : List ShardRequest) (k : Nat) : Nat := ((plan[k]?).map ShardRequest.rowNum).getD 0

theorem sum_rowNumOf (plan : List ShardRequest) :
    ∑ k ∈ Finset.range plan.length, rowNumOf plan k = (plan.map ShardRequest.rowNum).sum := by
  induction plan with
  | nil => rfl
  | cons s plan ih =>
    rw [List.length_cons, Finset.sum_range_succ', List.map_cons, List.sum_cons, ← ih, add_comm]
    simp [rowNumOf]

namespace ReadTask

variable {plan : List ShardRequest} {total : Nat} {t t' : ReadTask}

/-- What every reachable state of a task with rows keeps. -/
structure Inv (plan : List ShardRequest) (total : Nat) (t : ReadTask) : Prop where
  /-- The shards created are a prefix of the plan. -/
  created_le : t.created ≤ plan.length
  born : ∀ k, t.pc k ≠ .unborn ↔ k < t.created
  /-- `finished_` is the sum of the `row_num`s added. -/
  finished_eq : t.finished = ∑ k ∈ t.addedSet, rowNumOf plan k
  /-- `has_timeout_` is set exactly when a shard that timed out has stored it. -/
  has_timeout : t.hasTimeout = true ↔ ∃ k, (t.pc k).stored ∧ t.isTimeout k = true
  /-- A shard completes only once `finished_` reaches `total_row_num`, and then alone. -/
  completing : ∀ k, t.pc k = .completing → t.finished = total ∧ t.doneRuns = 0
  completing_unique : ∀ k k', t.pc k = .completing → t.pc k' = .completing → k = k'
  reached : t.finished = total → (∃ k, t.pc k = .completing) ∨ t.doneRuns = 1
  done : t.doneRuns ≠ 0 → t.finished = total ∧ t.doneRuns = 1
  /-- The response status is set by the one `done_->Run()`. -/
  status : t.status = if t.doneRuns = 0 then none else
    some (if ∃ k < plan.length, t.isTimeout k = true then .rpcTimeout else .tabletNodeOk)

section Lemmas

variable (hpos : ∀ s ∈ plan, 0 < s.rowNum) (hsum : (plan.map ShardRequest.rowNum).sum = total)

include hpos in
theorem rowNumOf_pos {k : Nat} (hk : k < plan.length) : 0 < rowNumOf plan k := by
  simp only [rowNumOf, List.getElem?_eq_getElem hk, Option.map_some', Option.getD_some]
  exact hpos _ (List.getElem_mem hk)

theorem addedSet_subset (hi : t.Inv plan total) : t.addedSet ⊆ Finset.range plan.length :=
  fun _ hk => Finset.mem_range.mpr
    (lt_of_lt_of_le (Finset.mem_range.mp (Finset.mem_filter.mp hk).1) hi.created_le)

include hsum in
theorem finished_le (hi : t.Inv plan total) : t.finished ≤ total := by
  rw [hi.finished_eq, ← hsum, ← sum_rowNumOf]
  exact Finset.sum_le_sum_of_subset (addedSet_subset hi)

include hpos hsum in
/-- Once `finished_` reaches `total_row_num`, every shard of the plan has been created and has
run its `finished_.Add`. -/
theorem all_added (hi : t.Inv plan total) (hf : t.finished = total) :
    ∀ k < plan.length, k < t.created ∧ (t.pc k).added := by
  intro k hk
  by_contra hn
  have hnot : k ∉ t.addedSet := fun h => hn ⟨Finset.mem_range.mp (Finset.mem_filter.mp h).1,
    (Finset.mem_filter.mp h).2⟩
  have := Finset.sum_lt_sum_of_subset (addedSet_subset hi) (Finset.mem_range.mpr hk) hnot
    (rowNumOf_pos hpos hk) (fun _ _ _ => Nat.zero_le _)
  rw [← hi.finished_eq, sum_rowNumOf, hsum] at this
  omega

end Lemmas

theorem apply_update_of_eq {β : Type} (f : ShardPc → β) {p : Nat → ShardPc} {k : Nat}
    {v : ShardPc} (hv : f v = f (p k)) (j : Nat) : f (update p k v j) = f (p j) := by
  rcases eq_or_ne j k with rfl | hj
  · rw [update_same, hv]
  · rw [update_noteq hj]

/-- A step that changes only shard `k`'s place, to one as `added` as before, keeps the set of
added shards. -/
theorem addedSet_update {k : Nat} {v : ShardPc} (hc : t'.created = t.created)
    (hp : t'.pc = update t.pc k v) (hv : v.added = (t.pc k).added) : t'.addedSet = t.addedSet := by
  simp only [addedSet, hc, hp, apply_update_of_eq ShardPc.added hv]

theorem addedSet_add {k : Nat} {v : ShardPc} (hc : t'.created = t.created) (hk : k < t.created)
    (hp : t'.pc = update t.pc k v) (hv : v.added = true) (hna : (t.pc k).added = false) :
    t'.addedSet = insert k t.addedSet := by
  ext j
  simp only [addedSet, hc, hp, Finset.mem_insert, Finset.mem_filter, Finset.mem_range]
  rcases eq_or_ne j k with rfl | hj
  · simp [hv, hk]
  · simp [update_noteq hj, hj]

theorem born_update {k : Nat} {v : ShardPc} (hborn : ∀ j, t.pc j ≠ .unborn ↔ j < t.created)
    (hk : k < t.created) (hv : v ≠ .unborn) (j : Nat) :
    update t.pc k v j ≠ .unborn ↔ j < t.created := by
  rcases eq_or_ne j k with rfl | hj
  · simp [hv, hk]
  · rw [update_noteq hj]; exact hborn j

/-! ### What each step does -/

theorem step_create (h : t.step plan total .create = some t') :
    ∃ s, plan[t.created]? = some s ∧ t'.created = t.created + 1 ∧
      t'.pc = update t.pc t.created (.reading s.offset) ∧ t'.isTimeout = t.isTimeout ∧
      t'.hasTimeout = t.hasTimeout ∧ t'.finished = t.finished ∧ t'.doneRuns = t.doneRuns ∧
      t'.status = t.status := by
  simp only [step] at h
  split at h
  · cases h
    exact ⟨_, ‹_›, rfl, rfl, rfl, rfl, rfl, rfl, rfl⟩
  · cases h

theorem step_row {k : Nat} {b : Bool} (h : t.step plan total (.row k b) = some t') :
    ∃ i v, t.pc k = .reading i ∧ v.stored = false ∧ v ≠ .unborn ∧ t'.created = t.created ∧
      t'.pc = update t.pc k v ∧ (∀ j, j ≠ k → t'.isTimeout j = t.isTimeout j) ∧
      t'.hasTimeout = t.hasTimeout ∧ t'.finished = t.finished ∧ t'.doneRuns = t.doneRuns ∧
      t'.status = t.status := by
  simp only [step] at h
  split at h
  · rename_i i s hp _
    split at h <;> cases h
    · exact ⟨i, .storing, hp, rfl, nofun, rfl, rfl, fun j hj => update_noteq hj _ _, rfl, rfl, rfl,
        rfl⟩
    · exact ⟨i, _, hp, by split <;> rfl, by split <;> nofun, rfl, rfl, fun _ _ => rfl, rfl, rfl,
        rfl, rfl⟩
  · cases h

theorem step_store {k : Nat} (h : t.step plan total (.store k) = some t') :
    t.pc k = .storing ∧ t'.created = t.created ∧ t'.pc = update t.pc k .adding ∧
      t'.isTimeout = t.isTimeout ∧ t'.hasTimeout = (t.hasTimeout || t.isTimeout k) ∧
      t'.finished = t.finished ∧ t'.doneRuns = t.doneRuns ∧ t'.status = t.status := by
  simp only [step] at h
  split at h
  · cases h
    exact ⟨‹_›, rfl, rfl, rfl, rfl, rfl, rfl, rfl⟩
  · cases h

theorem step_add {k : Nat} (h : t.step plan total (.add k) = some t') :
    ∃ s, t.pc k = .adding ∧ plan[k]? = some s ∧ t'.created = t.created ∧
      t'.finished = t.finished + s.rowNum ∧
      t'.pc = update t.pc k (if t.finished + s.rowNum = total then .completing else .finished) ∧
      t'.isTimeout = t.isTimeout ∧ t'.hasTimeout = t.hasTimeout ∧ t'.doneRuns = t.doneRuns ∧
      t'.status = t.status := by
  simp only [step] at h
  split at h
  · cases h
    exact ⟨_, ‹_›, ‹_›, rfl, rfl, rfl, rfl, rfl, rfl, rfl⟩
  · cases h

theorem step_complete {k : Nat} (h : t.step plan total (.complete k) = some t') :
    t.pc k = .completing ∧ t'.created = t.created ∧ t'.pc = update t.pc k .finished ∧
      t'.isTimeout = t.isTimeout ∧ t'.hasTimeout = t.hasTimeout ∧ t'.finished = t.finished ∧
      t'.doneRuns = t.doneRuns + 1 ∧
      t'.status = some (if t.hasTimeout then .rpcTimeout else .tabletNodeOk) := by
  simp only [step] at h
  split at h
  · cases h
    exact ⟨‹_›, rfl, rfl, rfl, rfl, rfl, rfl, rfl⟩
  · cases h

/-! ### The invariant holds along every run -/

theorem Inv.start (ht : 0 < total) : (start total).Inv plan total := by
  simp only [ReadTask.start, if_neg ht.ne']
  exact
    { created_le := Nat.zero_le _
      born := by simp
      finished_eq := rfl
      has_timeout := by simp [ShardPc.stored]
      completing := nofun
      completing_unique := nofun
      reached := fun h => absurd h ht.ne
      done := fun h => absurd rfl h
      status := rfl }

/-- A state in which nobody has answered yet satisfies the invariant once its first four
fields hold. -/
theorem Inv.of_quiet (hle : t.created ≤ plan.length)
    (hborn : ∀ k, t.pc k ≠ .unborn ↔ k < t.created)
    (hfin : t.finished = ∑ k ∈ t.addedSet, rowNumOf plan k)
    (hto : t.hasTimeout = true ↔ ∃ k, (t.pc k).stored ∧ t.isTimeout k = true)
    (hlt : t.finished < total) (hd : t.doneRuns = 0) (hs : t.status = none)
    (hc : ∀ k, t.pc k ≠ .completing) : t.Inv plan total :=
  ⟨hle, hborn, hfin, hto, fun k h => absurd h (hc k), fun k _ h => absurd h (hc k),
    fun h => absurd h hlt.ne, fun h => absurd hd h, by rw [hs, if_pos hd]⟩

section Steps

variable (hpos : ∀ s ∈ plan, 0 < s.rowNum) (hsum : (plan.map ShardRequest.rowNum).sum = total)

include hpos hsum in
theorem Inv.quiet (hi : t.Inv plan total) {k : Nat} (hk : k < plan.length)
    (hna : (t.pc k).added = false) :
    t.finished < total ∧ t.doneRuns = 0 ∧ t.status = none ∧ ∀ j, t.pc j ≠ .completing := by
  have hne : t.finished ≠ total := fun hf => by simp [(all_added hpos hsum hi hf k hk).2] at hna
  have hd : t.doneRuns = 0 := by_contra fun hd => hne (hi.done hd).1
  exact ⟨lt_of_le_of_ne (finished_le hsum hi) hne, hd, by rw [hi.status, if_pos hd],
    fun j hj => hne (hi.completing j hj).1⟩

theorem Inv.born_lt (hi : t.Inv plan total) {k : Nat} {p : ShardPc} (hk : t.pc k = p)
    (hp : p ≠ .unborn) : k < plan.length :=
  lt_of_lt_of_le ((hi.born k).mp (hk ▸ hp)) hi.created_le

include hpos hsum in
theorem Inv.create (hi : t.Inv plan total) (h : t.step plan total .create = some t') :
    t'.Inv plan total := by
  obtain ⟨s, hs, hc', hp, hit, hto, hf, hd', hst'⟩ := step_create h
  have hc : t.created < plan.length := by
    by_contra hc; rw [List.getElem?_eq_none (by omega)] at hs; cases hs
  have hun : t.pc t.created = .unborn := by_contra fun hn => lt_irrefl _ ((hi.born _).mp hn)
  obtain ⟨hlt, hd, hst, hnc⟩ := hi.quiet hpos hsum hc (by rw [hun]; rfl)
  refine Inv.of_quiet (hc' ▸ hc) (fun j => ?_) ?_ ?_ (hf ▸ hlt) (hd' ▸ hd) (hst' ▸ hst)
    (fun j => ?_)
  · rw [hc', hp]
    rcases eq_or_ne j t.created with rfl | hj
    · simp
    · rw [update_noteq hj, hi.born]; omega
  · rw [hf, hi.finished_eq]
    congr 1
    ext j
    simp only [addedSet, hc', hp, Finset.mem_filter, Finset.mem_range]
    rcases eq_or_ne j t.created with rfl | hj
    · simp [ShardPc.added]
    · rw [update_noteq hj]; constructor <;> rintro ⟨h1, h2⟩ <;> exact ⟨by omega, h2⟩
  · rw [hto, hit, hp, hi.has_timeout]
    exact exists_congr fun j => by rw [apply_update_of_eq ShardPc.stored (by rw [hun]; rfl)]
  · rw [hp]
    rcases eq_or_ne j t.created with rfl | hj
    · simp
    · rw [update_noteq hj]; exact hnc j

include hpos hsum in
theorem Inv.row (hi : t.Inv plan total) {k : Nat} {b : Bool}
    (h : t.step plan total (.row k b) = some t') : t'.Inv plan total := by
  obtain ⟨i, v, hk, hvs, hvu, hc, hp, hit, hto, hf, hd', hst'⟩ := step_row h
  have hkl := hi.born_lt hk nofun
  obtain ⟨hlt, hd, hst, hnc⟩ := hi.quiet hpos hsum hkl (by rw [hk]; rfl)
  have hva : v.added = false := by
    cases hv : v.added
    · rfl
    · rw [ShardPc.stored_of_added hv] at hvs; cases hvs
  refine Inv.of_quiet (hc ▸ hi.created_le) (fun j => ?_) ?_ ?_ (hf ▸ hlt) (hd' ▸ hd)
    (hst' ▸ hst) (fun j => ?_)
  · rw [hc, hp]; exact born_update hi.born ((hi.born k).mp (by rw [hk]; nofun)) hvu j
  · rw [addedSet_update hc hp (by rw [hva, hk]; rfl), hf]; exact hi.finished_eq
  · rw [hto, hp, hi.has_timeout]
    refine exists_congr fun j => ?_
    rcases eq_or_ne j k with rfl | hj
    · rw [update_same, hvs, hk]; simp [ShardPc.stored]
    · rw [update_noteq hj, hit j hj]
  · rw [hp]
    rcases eq_or_ne j k with rfl | hj
    · rw [update_same]; rintro rfl; cases hvs
    · rw [update_noteq hj]; exact hnc j

include hpos hsum in
theorem Inv.store (hi : t.Inv plan total) {k : Nat} (h : t.step plan total (.store k) = some t') :
    t'.Inv plan total := by
  obtain ⟨hk, hc, hp, hit, hto, hf, hd', hst'⟩ := step_store h
  have hkl := hi.born_lt hk nofun
  obtain ⟨hlt, hd, hst, hnc⟩ := hi.quiet hpos hsum hkl (by rw [hk]; rfl)
  refine Inv.of_quiet (hc ▸ hi.created_le) (fun j => ?_) ?_ ?_ (hf ▸ hlt) (hd' ▸ hd)
    (hst' ▸ hst) (fun j => ?_)
  · rw [hc, hp]; exact born_update hi.born ((hi.born k).mp (by rw [hk]; nofun)) (by nofun) j
  · rw [addedSet_update hc hp (by rw [hk]; rfl), hf]; exact hi.finished_eq
  · rw [hto, hit, hp, Bool.or_eq_true, hi.has_timeout]
    constructor
    · rintro (⟨j, hs, ht⟩ | ht)
      · have hj : j ≠ k := by rintro rfl; rw [hk] at hs; cases hs
        exact ⟨j, by rwa [update_noteq hj], ht⟩
      · exact ⟨k, by simp [ShardPc.stored], ht⟩
    · rintro ⟨j, hs, ht⟩
      rcases eq_or_ne j k with rfl | hj
      · exact .inr ht
      · exact .inl ⟨j, by rwa [update_noteq hj] at hs, ht⟩
  · rw [hp]
    rcases eq_or_ne j k with rfl | hj
    · simp
    · rw [update_noteq hj]; exact hnc j

include hpos hsum in
theorem Inv.add (hi : t.Inv plan total) {k : Nat} (h : t.step plan total (.add k) = some t') :
    t'.Inv plan total := by
  obtain ⟨s, hk, hs, hc, hf, hp, hit, hto, hd', hst'⟩ := step_add h
  have hkc : k < t.created := (hi.born k).mp (by rw [hk]; nofun)
  have hkl := hi.born_lt hk nofun
  obtain ⟨-, hd, hst, hnc⟩ := hi.quiet hpos hsum hkl (by rw [hk]; rfl)
  have hins : t'.addedSet = insert k t.addedSet :=
    addedSet_add hc hkc hp (by split <;> rfl) (by rw [hk]; rfl)
  have hfin : t'.finished = ∑ j ∈ t'.addedSet, rowNumOf plan j := by
    have hnot : k ∉ t.addedSet := fun hm => by
      simp [addedSet, hk, ShardPc.added] at hm
    rw [hins, Finset.sum_insert hnot, hf, hi.finished_eq, add_comm]
    simp [rowNumOf, hs]
  have hcomp : ∀ j, t'.pc j = .completing → j = k ∧ t'.finished = total := by
    intro j hj
    rw [hp] at hj
    rcases eq_or_ne j k with rfl | hne
    · refine ⟨rfl, ?_⟩
      rw [hf]; by_contra hne; simp [hne] at hj
    · rw [update_noteq hne] at hj; exact absurd hj (hnc j)
  refine
    { created_le := hc ▸ hi.created_le
      born := fun j => by rw [hc, hp]; exact born_update hi.born hkc (by split <;> nofun) j
      finished_eq := hfin
      has_timeout := by
        rw [hto, hit, hp, hi.has_timeout]
        exact exists_congr fun j => by
          rw [apply_update_of_eq ShardPc.stored (by rw [hk]; split <;> rfl)]
      completing := fun j hj => ⟨(hcomp j hj).2, hd'.trans hd⟩
      completing_unique := fun j j' hj hj' => (hcomp j hj).1.trans (hcomp j' hj').1.symm
      reached := fun hft => .inl ⟨k, by rw [hp, update_same, ← hf, if_pos hft]⟩
      done := fun h => absurd (hd'.trans hd) h
      status := by rw [hst', hst, hd', if_pos hd] }

include hpos hsum in
theorem Inv.complete (hi : t.Inv plan total) {k : Nat}
    (h : t.step plan total (.complete k) = some t') : t'.Inv plan total := by
  obtain ⟨hk, hc, hp, hit, hto', hf', hd', hst'⟩ := step_complete h
  obtain ⟨hf, hd⟩ := hi.completing k hk
  have hall := all_added hpos hsum hi hf
  have hnc : ∀ j, t'.pc j ≠ .completing := fun j => by
    rw [hp]
    rcases eq_or_ne j k with rfl | hj
    · simp
    · rw [update_noteq hj]; exact fun hj' => hj (hi.completing_unique j k hj' hk)
  have hto : t.hasTimeout = true ↔ ∃ j < plan.length, t.isTimeout j = true := by
    rw [hi.has_timeout]
    constructor
    · rintro ⟨j, hs, ht⟩
      exact ⟨j, hi.born_lt rfl (fun h => by rw [h] at hs; cases hs), ht⟩
    · rintro ⟨j, hj, ht⟩
      exact ⟨j, ShardPc.stored_of_added (hall j hj).2, ht⟩
  exact
    { created_le := hc ▸ hi.created_le
      born := fun j => by
        rw [hc, hp]; exact born_update hi.born ((hi.born k).mp (by rw [hk]; nofun)) (by nofun) j
      finished_eq := by
        rw [addedSet_update hc hp (by rw [hk]; rfl), hf']; exact hi.finished_eq
      has_timeout := by
        rw [hto', hit, hp, hi.has_timeout]
        exact exists_congr fun j => by
          rw [apply_update_of_eq ShardPc.stored (by rw [hk]; rfl)]
      completing := fun j hj => absurd hj (hnc j)
      completing_unique := fun j _ hj => absurd hj (hnc j)
      reached := fun _ => .inr (by rw [hd', hd])
      done := fun _ => ⟨hf' ▸ hf, by rw [hd', hd]⟩
      status := by simp [hst', hd', hit, hto] }

include hpos hsum in
theorem Inv.step (hi : t.Inv plan total) {e : ReadEvent} (h : t.step plan total e = some t') :
    t'.Inv plan total := by
  cases e with
  | create => exact hi.create hpos hsum h
  | row k b => exact hi.row hpos hsum h
  | store k => exact hi.store hpos hsum h
  | add k => exact hi.add hpos hsum h
  | complete k => exact hi.complete hpos hsum h

include hpos hsum in
theorem Inv.run (hi : t.Inv plan total) {es : List ReadEvent}
    (h : t.run plan total es = some t') : t'.Inv plan total := by
  induction es generalizing t with
  | nil => cases h; exact hi
  | cons e es ih =>
    obtain ⟨t₁, h₁, h₂⟩ := Option.bind_eq_some.mp h
    exact ih (hi.step hpos hsum h₁) h₂

include hsum in
theorem Inv.doneRuns_of_stuck (hi : t.Inv plan total) (hs : ∀ e, t.step plan total e = none) :
    t.doneRuns = 1 := by
  have hcr : t.created = plan.length := by
    refine le_antisymm hi.created_le (not_lt.mp fun hlt => ?_)
    have := hs .create
    simp [ReadTask.step, List.getElem?_eq_getElem hlt] at this
  have hfin : ∀ k < plan.length, t.pc k = .finished := by
    intro k hk
    have hne := (hi.born k).mpr (hcr ▸ hk)
    cases hpk : t.pc k with
    | unborn => exact absurd hpk hne
    | reading i =>
      have := hs (.row k true); simp [ReadTask.step, hpk, List.getElem?_eq_getElem hk] at this
    | storing => have := hs (.store k); simp [ReadTask.step, hpk] at this
    | adding => have := hs (.add k); simp [ReadTask.step, hpk, List.getElem?_eq_getElem hk] at this
    | completing => have := hs (.complete k); simp [ReadTask.step, hpk] at this
    | finished => rfl
  have hf : t.finished = total := by
    rw [hi.finished_eq, ← hsum, ← sum_rowNumOf]
    congr 1
    ext k
    simp only [addedSet, Finset.mem_filter, Finset.mem_range, hcr]
    exact ⟨And.left, fun hk => ⟨hk, by rw [hfin k hk]; rfl⟩⟩
  rcases hi.reached hf with ⟨k, hk⟩ | h
  · rw [hfin k (hi.born_lt hk (by nofun))] at hk; cases hk
  · exact h

end Steps

end ReadTask

/-- For every request of at least one row and every positive pair of flags, `StartRead`'s
shards cover the rows once each, fit in `shard_cnt`, and only the last runs inline; and in every
interleaving of the shard threads `done_->Run()` runs at most once, only after every shard has
added its rows, with status `kRPCTimeout` exactly when some shard saw a timeout, and it has run
once no thread can go on. -/
theorem startRead_answers_once (hF : 0 < F.maxTaskNum ∧ 0 < F.minRowsPerTask) (ht : 0 < total) :
    ((shardPlan F total).map fun s => List.range' s.offset s.rowNum).flatten = List.range total ∧
    (shardPlan F total).length ≤ shardCnt F total ∧
    (∀ i (s : ShardRequest), (shardPlan F total)[i]? = some s →
      0 < s.rowNum ∧ (s.inline = true ↔ i + 1 = (shardPlan F total).length)) ∧
    ∀ es t, (ReadTask.start total).run (shardPlan F total) total es = some t →
      t.doneRuns ≤ 1 ∧
      (t.doneRuns = 1 → ∀ k < (shardPlan F total).length, (t.pc k).added) ∧
      t.status = (if t.doneRuns = 0 then none else
        some (if ∃ k < (shardPlan F total).length, t.isTimeout k = true then .rpcTimeout
          else .tabletNodeOk)) ∧
      ((∀ e, t.step (shardPlan F total) total e = none) → t.doneRuns = 1) := by
  set plan := shardPlan F total
  obtain ⟨hcov, hlen, hshape⟩ := shardPlan_spec hF ht
  have hpos : ∀ s ∈ plan, 0 < s.rowNum := fun s hs => by
    obtain ⟨i, hi, rfl⟩ := List.getElem_of_mem hs
    exact (hshape i _ (List.getElem?_eq_getElem hi)).1
  have hsum : (plan.map ShardRequest.rowNum).sum = total := by
    simpa [List.length_flatten, List.map_map, Function.comp_def] using congrArg List.length hcov
  refine ⟨hcov, hlen, hshape, fun es t h => ?_⟩
  have hi := (ReadTask.Inv.start ht).run hpos hsum h
  have hone : t.doneRuns ≠ 0 → t.doneRuns = 1 := fun hd => (hi.done hd).2
  refine ⟨?_, fun hd => ?_, hi.status, hi.doneRuns_of_stuck hsum⟩
  · by_cases hd : t.doneRuns = 0 <;> simp [hd, hone]
  · exact fun k hk => (ReadTask.all_added hpos hsum hi (hi.done (by omega)).1 k hk).2

/-- Two shards of a three-row request: the inline one finishes first, then the other times out
at its second row and answers. -/
theorem startRead_answers_once_timeout_race :
    let F : ReadFlags := ⟨2, 2⟩
    let race : List ReadEvent := [.create, .create, .row 1 false, .store 1, .add 1, .row 0 false,
      .row 0 true, .store 0, .add 0, .complete 0]
    ∃ t, (ReadTask.start 3).run (shardPlan F 3) 3 race = some t ∧ t.doneRuns = 1 ∧
      t.status = some .rpcTimeout := by
  intro F race
  have hp : shardPlan F 3 = [⟨0, 2, false⟩, ⟨2, 1, true⟩] := by decide
  obtain ⟨-, -, -, h⟩ := @startRead_answers_once 3 F (by decide) (by decide)
  rw [hp] at h ⊢
  exact ⟨_, rfl, by simpa using (h race _ rfl).1, rfl⟩

end TabletNode
