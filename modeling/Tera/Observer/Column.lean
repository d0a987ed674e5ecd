import Mathlib.Data.String.Basic
import Mathlib.Data.Prod.Lex

/-!
# The two `Column` orders of the observer

`observer::Column` (observer/observer.h) and `tera::observer::Column`
(observer/executor/notify_cell.h) have the same three fields and each an `operator<`, the order
of `std::set<Column>` and of maps keyed by columns. The first compares the concatenations
`table_name + family + qualifier`, the second the fields one after another, each with
`std::string::compare`. A `std::string` is read as a string of characters with Lean's order,
which is the order of the code points, that of their UTF-8 bytes.

The field order is the lexicographic order of the triple, so it is a strict total order in which
two columns are equivalent only when they are equal. The concatenating order forgets where the
fields end: columns with the same concatenation are equivalent, and a `std::set` keeps one of
them. The two orders agree on two columns as long as, at the first field the columns differ in,
neither value is a prefix of the other.
-/
namespace Observer

/-- A column of either struct: its table, column family and qualifier. -/
@[ext]
structure Column where
  tableName : String
  family : String
  qualifier : String
  deriving DecidableEq, Repr

/-- `table_name + family + qualifier`. -/
def Column.concat (c : Column) : String :=
  c.tableName ++ c.family ++ c.qualifier

/-- `observer::Column::operator<`: `str1 < str2` on the concatenations. -/
def Column.observerLess (c other : Column) : Bool :=
  compare c.concat other.concat == .lt

/-- `tera::observer::Column::operator<`: the first non-zero `compare` of the table names, the
families and the qualifiers, negative. -/
def Column.teraObserverLess (c other : Column) : Bool :=
  let result := compare c.tableName other.tableName
  if result != .eq then result == .lt
  else
    let result := compare c.family other.family
    if result != .eq then result == .lt
    else compare c.qualifier other.qualifier == .lt

/-- `std::set<Column>::insert(c)` under the order `less`: the column goes in unless one
equivalent to it, neither less than the other, is there. The elements, in no particular order. -/
def setInsert (less : Column → Column → Bool) (s : List Column) (c : Column) : List Column :=
  if s.any (fun x => !less c x && !less x c) then s else c :: s

/-! ## Lexicographic comparison of strings -/

/-- The derived `==` of `Ordering` is equality. -/
instance instLawfulBEqOrdering : LawfulBEq Ordering where
  eq_of_beq {a b} h := by cases a <;> cases b <;> first | rfl | cases h
  rfl {a} := by cases a <;> rfl

theorem compare_congr {α β : Type} [LinearOrder α] [LinearOrder β] {a b : α} {a' b' : β}
    (hlt : a < b ↔ a' < b') (hgt : b < a ↔ b' < a') : compare a b = compare a' b' := by
  rcases lt_trichotomy a b with h | rfl | h
  · rw [compare_lt_iff_lt.mpr h, compare_lt_iff_lt.mpr (hlt.mp h)]
  · have h₁ : ¬ a' < b' := fun h => lt_irrefl a (hlt.mpr h)
    have h₂ : ¬ b' < a' := fun h => lt_irrefl a (hgt.mpr h)
    rw [compare_eq_iff_eq.mpr rfl,
      compare_eq_iff_eq.mpr (le_antisymm (not_lt.mp h₂) (not_lt.mp h₁))]
  · rw [compare_gt_iff_gt.mpr h, compare_gt_iff_gt.mpr (hgt.mp h)]

theorem list_append_lt_append_left_iff (s u v : List Char) : s ++ u < s ++ v ↔ u < v := by
  induction s with
  | nil => rfl
  | cons a s ih => exact List.Lex.cons_iff.trans ih

theorem list_append_lt_append_of_incomparable {s t : List Char} (u v : List Char)
    (hst : ¬ s <+: t) (hts : ¬ t <+: s) : s ++ u < t ++ v ↔ s < t := by
  induction s generalizing t with
  | nil => exact absurd (List.nil_prefix) hst
  | cons a s ih =>
    cases t with
    | nil => exact absurd (List.nil_prefix) hts
    | cons b t =>
      by_cases hab : a = b
      · subst hab
        rw [List.prefix_cons_inj] at hst hts
        exact List.Lex.cons_iff.trans ((ih hst hts).trans List.Lex.cons_iff.symm)
      · have hlex : ∀ x y : List Char, List.Lex (· < ·) (a :: x) (b :: y) ↔ a < b := fun x y =>
          ⟨fun h => by cases h with
            | cons => exact absurd rfl hab
            | rel h => exact h, List.Lex.rel⟩
        exact (hlex _ _).trans (hlex _ _).symm

theorem append_lt_append_left_iff (s u v : String) : s ++ u < s ++ v ↔ u < v := by
  simp only [String.lt_iff_toList_lt, String.toList, String.data_append]
  exact list_append_lt_append_left_iff _ _ _

theorem compare_append_left (s u v : String) : compare (s ++ u) (s ++ v) = compare u v :=
  compare_congr (append_lt_append_left_iff s u v) (append_lt_append_left_iff s v u)

theorem compare_append_of_incomparable {s t : String} (u v : String)
    (hst : ¬ s.data <+: t.data) (hts : ¬ t.data <+: s.data) :
    compare (s ++ u) (t ++ v) = compare s t := by
  apply compare_congr <;>
    simp only [String.lt_iff_toList_lt, String.toList, String.data_append]
  exacts [list_append_lt_append_of_incomparable _ _ hst hts,
    list_append_lt_append_of_incomparable _ _ hts hst]

/-! ## The field order -/

/-- The triple the field order compares, lexicographically. -/
def Column.key (c : Column) : String ×ₗ String ×ₗ String :=
  toLex (c.tableName, toLex (c.family, c.qualifier))

theorem Column.key_injective : Function.Injective Column.key := by
  intro c d h
  simp only [Column.key, toLex_inj, Prod.mk.injEq] at h
  exact Column.ext h.1 h.2.1 h.2.2

theorem teraObserverLess_iff_key_lt (c d : Column) :
    c.teraObserverLess d = true ↔ c.key < d.key := by
  simp only [Column.teraObserverLess, Column.key, Prod.Lex.lt_iff]
  rcases lt_trichotomy c.tableName d.tableName with h₁ | h₁ | h₁
  · simp [compare_lt_iff_lt.mpr h₁, h₁]
  · rw [h₁, compare_eq_iff_eq.mpr rfl]
    rcases lt_trichotomy c.family d.family with h₂ | h₂ | h₂
    · simp [compare_lt_iff_lt.mpr h₂, h₂]
    · simp [h₂, compare_lt_iff_lt, compare_eq_iff_eq]
    · simp [compare_gt_iff_gt.mpr h₂, h₂.ne', not_lt_of_gt h₂]
  · simp [compare_gt_iff_gt.mpr h₁, h₁.ne', not_lt_of_gt h₁]

theorem teraObserverLess_equiv_iff (c d : Column) :
    (c.teraObserverLess d = false ∧ d.teraObserverLess c = false) ↔ c = d := by
  simp only [← Bool.not_eq_true, teraObserverLess_iff_key_lt, not_lt]
  exact ⟨fun h => Column.key_injective (le_antisymm h.2 h.1), fun h => h ▸ ⟨le_rfl, le_rfl⟩⟩

theorem teraObserverLess_trans {c d e : Column} (h₁ : c.teraObserverLess d = true)
    (h₂ : d.teraObserverLess e = true) : c.teraObserverLess e = true := by
  rw [teraObserverLess_iff_key_lt] at *
  exact h₁.trans h₂

theorem mem_setInsert_teraObserverLess (s : List Column) (c : Column) :
    c ∈ setInsert Column.teraObserverLess s c := by
  unfold setInsert
  split
  · rename_i h
    obtain ⟨x, hx, hequiv⟩ := List.any_eq_true.mp h
    simp only [Bool.and_eq_true, Bool.not_eq_true'] at hequiv
    rwa [(teraObserverLess_equiv_iff c x).mp hequiv]
  · exact List.mem_cons_self _ _

/-! ## The concatenating order -/

theorem observerLess_iff (c d : Column) : c.observerLess d = true ↔ c.concat < d.concat := by
  simp [Column.observerLess, compare_lt_iff_lt]

/-- Under the concatenating order two columns are equivalent exactly when their concatenations
are equal. -/
theorem observerLess_equiv_iff (c d : Column) :
    (c.observerLess d = false ∧ d.observerLess c = false) ↔ c.concat = d.concat := by
  simp only [← Bool.not_eq_true, observerLess_iff, not_lt]
  exact ⟨fun h => le_antisymm h.2 h.1, fun h => h ▸ ⟨le_rfl, le_rfl⟩⟩

theorem setInsert_observerLess_of_concat_eq {s : List Column} {c x : Column} (hx : x ∈ s)
    (hcat : x.concat = c.concat) : setInsert Column.observerLess s c = s := by
  have hequiv := (observerLess_equiv_iff c x).mpr hcat.symm
  rw [setInsert, if_pos (List.any_eq_true.mpr ⟨x, hx, by simp [hequiv.1, hequiv.2]⟩)]

/-- Where, at the first field two columns differ in, neither value is a prefix of the other, the
two orders agree. -/
theorem observerLess_eq_teraObserverLess (c d : Column)
    (htable : c.tableName ≠ d.tableName →
      ¬ c.tableName.data <+: d.tableName.data ∧ ¬ d.tableName.data <+: c.tableName.data)
    (hfamily : c.tableName = d.tableName → c.family ≠ d.family →
      ¬ c.family.data <+: d.family.data ∧ ¬ d.family.data <+: c.family.data) :
    c.observerLess d = c.teraObserverLess d := by
  simp only [Column.observerLess, Column.teraObserverLess, Column.concat, String.append_assoc]
  by_cases h₁ : c.tableName = d.tableName
  · rw [h₁, compare_append_left, compare_eq_iff_eq.mpr rfl]
    by_cases h₂ : c.family = d.family
    · rw [h₂, compare_append_left, compare_eq_iff_eq.mpr rfl]
      rfl
    · obtain ⟨hcd, hdc⟩ := hfamily h₁ h₂
      rw [compare_append_of_incomparable _ _ hcd hdc]
      simp [compare_eq_iff_eq, h₂]
  · obtain ⟨hcd, hdc⟩ := htable h₁
    rw [compare_append_of_incomparable _ _ hcd hdc]
    simp [compare_eq_iff_eq, h₁]

/-- The columns `("a", "bc", "")` and `("ab", "c", "")` differ and the field order puts the first
before the second, but both concatenate to `"abc"`: the concatenating order holds them
equivalent, and a `ColumnSet` that has the first drops the second. -/
theorem observerLess_merges_columns_split_differently :
    Column.observerLess ⟨"a", "bc", ""⟩ ⟨"ab", "c", ""⟩ = false ∧
    Column.observerLess ⟨"ab", "c", ""⟩ ⟨"a", "bc", ""⟩ = false ∧
    Column.teraObserverLess ⟨"a", "bc", ""⟩ ⟨"ab", "c", ""⟩ = true ∧
    (⟨"a", "bc", ""⟩ : Column) ≠ ⟨"ab", "c", ""⟩ ∧
    setInsert Column.observerLess [⟨"a", "bc", ""⟩] ⟨"ab", "c", ""⟩ = [⟨"a", "bc", ""⟩] := by
  decide

end Observer
