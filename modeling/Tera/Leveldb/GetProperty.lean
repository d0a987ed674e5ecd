import Tera.Leveldb.Engine

/-!
# `DBImpl::GetProperty`

The dispatch of `GetProperty` over the text after `"leveldb."`: the branch a property takes, and
the levels it passes to `VersionSet::NumLevelFiles`. For `num-files-at-level<d>` the numeral `d`
is read by `ConsumeDecimalNumber` into a `uint64_t` and then taken through `static_cast<int>`
before the guard `>= config::kNumLevels`. `ConsumeDecimalNumber` (util/logging.cc) is not under
src/: it is a parameter, of which the results below need only that it consumes the whole of a
string exactly when that string is a decimal numeral whose value fits a `uint64_t`
(`ReadsNumeral`).
-/
namespace Leveldb

/-- The value of a string of decimal digits, most significant first. -/
def decimalValue (ds : List Char) : Nat :=
  ds.foldl (fun v c => 10 * v + (c.toNat - '0'.toNat)) 0

/-- `static_cast<int>` of a `uint64_t`: its low 32 bits in two's complement. -/
def staticCastInt (v : UInt64) : Int :=
  Int.bmod v.toNat (2 ^ 32)

/-- The branches of `GetProperty` after the prefix `"leveldb."`. -/
inductive PropertyBranch where
  /-- `num-files-at-level`, which answers `NumLevelFiles(level)` printed with `"%d"`. -/
  | numFilesAtLevel (level : Int)
  | stats
  | sstables
  | verifyDbIntegrity
  | compactionError
  deriving DecidableEq, Repr

/-- The levels a branch passes to `NumLevelFiles`, in order: the stats table asks for every
level below `kNumLevels`. -/
def PropertyBranch.numLevelFilesCalls : PropertyBranch → List Int
  | .numFilesAtLevel level => [level]
  | .stats => (List.range kNumLevels).map Int.ofNat
  | _ => []

/-- What `GetProperty` needs of `ConsumeDecimalNumber(&in, &level)`, read as `some (level, in)`
after the call: it leaves `in` empty exactly when `in` was a decimal numeral whose value fits a
`uint64_t`, and then `level` is that value. -/
def ReadsNumeral (consumeDecimalNumber : List Char → Option (UInt64 × List Char)) : Prop :=
  ∀ s v, consumeDecimalNumber s = some (v, []) ↔
    s ≠ [] ∧ (∀ c ∈ s, c.isDigit = true) ∧ decimalValue s < 2 ^ 64 ∧
      v.toNat = decimalValue s

section GetProperty

variable (consumeDecimalNumber : List Char → Option (UInt64 × List Char))

/-- `GetProperty` on the text `rest` left after the prefix `"leveldb."`. -/
def propertyBranch (rest : List Char) : Option PropertyBranch :=
  if "num-files-at-level".data.isPrefixOf rest then
    match consumeDecimalNumber (rest.drop "num-files-at-level".length) with
    | some (level, []) =>
      if staticCastInt level ≥ kNumLevels then none
      else some (.numFilesAtLevel (staticCastInt level))
    | _ => none
  else if rest = "stats".data then some .stats
  else if rest = "sstables".data then some .sstables
  else if rest = "verify-db-integrity".data then some .verifyDbIntegrity
  else if rest = "compaction_error".data then some .compactionError
  else none

/-- `DBImpl::GetProperty(property, value)`: the branch the property takes, or `none` where it
returns false before any. -/
def getProperty (property : String) : Option PropertyBranch :=
  if "leveldb.".data.isPrefixOf property.data then
    propertyBranch consumeDecimalNumber (property.data.drop "leveldb.".length)
  else none

theorem isPrefixOf_append_self (l l' : List Char) : l.isPrefixOf (l ++ l') = true :=
  List.isPrefixOf_iff_prefix.mpr (List.prefix_append _ _)

theorem getProperty_numFilesAtLevel (d : List Char) :
    getProperty consumeDecimalNumber ("leveldb.num-files-at-level" ++ ⟨d⟩) =
      match consumeDecimalNumber d with
      | some (level, []) =>
        if staticCastInt level ≥ kNumLevels then none
        else some (.numFilesAtLevel (staticCastInt level))
      | _ => none := by
  have hdata : ("leveldb.num-files-at-level" ++ ⟨d⟩ : String).data =
      "leveldb.".data ++ ("num-files-at-level".data ++ d) := rfl
  rw [getProperty, hdata, if_pos (isPrefixOf_append_self _ _),
    @List.drop_left' _ "leveldb.".data _ "leveldb.".length rfl, propertyBranch,
    if_pos (isPrefixOf_append_self _ _),
    @List.drop_left' _ "num-files-at-level".data _ "num-files-at-level".length rfl]

theorem getProperty_eq_some {property : String} {b : PropertyBranch}
    (h : getProperty consumeDecimalNumber property = some b) :
    ∃ rest, property.data = "leveldb.".data ++ rest ∧
      propertyBranch consumeDecimalNumber rest = some b := by
  unfold getProperty at h
  split at h <;> [rename_i hpre; cases h]
  obtain ⟨rest, hrest⟩ := List.isPrefixOf_iff_prefix.mp hpre
  refine ⟨rest, hrest.symm, ?_⟩
  rwa [← hrest, @List.drop_left' _ "leveldb.".data _ "leveldb.".length rfl] at h

/-- Only a `num-files-at-level<d>` text answers `NumLevelFiles` of one level, the numeral `d`
taken through `static_cast<int>`, and only when that level passed the guard. -/
theorem propertyBranch_eq_numFilesAtLevel {rest : List Char} {level : Int}
    (h : propertyBranch consumeDecimalNumber rest = some (.numFilesAtLevel level)) :
    ∃ d v, rest = "num-files-at-level".data ++ d ∧ consumeDecimalNumber d = some (v, []) ∧
      level = staticCastInt v ∧ level < kNumLevels := by
  unfold propertyBranch at h
  split at h
  · rename_i hpre
    obtain ⟨d, hd⟩ := List.isPrefixOf_iff_prefix.mp hpre
    rw [← hd, @List.drop_left' _ "num-files-at-level".data _ "num-files-at-level".length rfl] at h
    rcases heq : consumeDecimalNumber d with _ | ⟨v, _ | _⟩ <;>
      simp only [heq, reduceCtorEq] at h
    split_ifs at h with hge
    have hlevel := (PropertyBranch.numFilesAtLevel.inj (Option.some.inj h)).symm
    exact ⟨d, v, hd.symm, heq, hlevel, by rw [hlevel]; exact not_le.mp hge⟩
  · split_ifs at h <;> cases h

theorem numLevelFilesCalls_lt {property : String} {b : PropertyBranch}
    (h : getProperty consumeDecimalNumber property = some b) :
    ∀ l ∈ b.numLevelFilesCalls, l < kNumLevels := by
  obtain ⟨rest, -, hb⟩ := getProperty_eq_some consumeDecimalNumber h
  intro l hl
  cases b with
  | numFilesAtLevel level =>
    obtain ⟨-, -, -, -, -, hlt⟩ := propertyBranch_eq_numFilesAtLevel consumeDecimalNumber hb
    rw [PropertyBranch.numLevelFilesCalls, List.mem_singleton] at hl
    exact hl ▸ hlt
  | stats =>
    obtain ⟨n, hn, rfl⟩ := List.mem_map.mp hl
    exact Int.ofNat_lt.mpr (List.mem_range.mp hn)
  | _ => simp [PropertyBranch.numLevelFilesCalls] at hl

/-- With a `ConsumeDecimalNumber` that reads numerals, `num-files-at-level<d>` answers exactly when
`d` is a decimal numeral that fits a `uint64_t` and whose value cast to `int` is below
`kNumLevels`, and then answers that level. -/
theorem getProperty_numFilesAtLevel_eq_some (hc : ReadsNumeral consumeDecimalNumber)
    (d : List Char) (b : PropertyBranch) :
    getProperty consumeDecimalNumber ("leveldb.num-files-at-level" ++ ⟨d⟩) = some b ↔
      d ≠ [] ∧ (∀ c ∈ d, c.isDigit = true) ∧ decimalValue d < 2 ^ 64 ∧
      Int.bmod (decimalValue d) (2 ^ 32) < kNumLevels ∧
      b = .numFilesAtLevel (Int.bmod (decimalValue d) (2 ^ 32)) := by
  rw [getProperty_numFilesAtLevel]
  split
  · rename_i level heq
    obtain ⟨hne, hdig, hlt, hv⟩ := (hc d level).mp heq
    have hcast : staticCastInt level = Int.bmod (decimalValue d) (2 ^ 32) := by
      rw [staticCastInt, hv]
    rw [hcast]
    split_ifs with hge
    · simp only [reduceCtorEq, false_iff]
      omega
    · rw [Option.some.injEq, eq_comm]
      exact ⟨fun hb => ⟨hne, hdig, hlt, by omega, hb⟩, fun h => h.2.2.2.2⟩
  · rename_i hnot
    simp only [reduceCtorEq, false_iff]
    rintro ⟨hne, hdig, hlt, -⟩
    exact hnot (UInt64.ofNat (decimalValue d)) ((hc d _).mpr
      ⟨hne, hdig, hlt, UInt64.toNat_ofNat_of_lt hlt⟩)

/-- Where the numeral of a `num-files-at-level<d>` property is below `2 ^ 31` (every property
that is not of that form included), `GetProperty` passes `NumLevelFiles` only levels in
`[0, kNumLevels)`. -/
theorem numLevelFilesCalls_mem_range {property : String} {b : PropertyBranch}
    (hc : ReadsNumeral consumeDecimalNumber)
    (hsmall : ∀ d, property = "leveldb.num-files-at-level" ++ ⟨d⟩ → decimalValue d < 2 ^ 31)
    (h : getProperty consumeDecimalNumber property = some b) :
    ∀ l ∈ b.numLevelFilesCalls, 0 ≤ l ∧ l < kNumLevels := by
  intro l hl
  refine ⟨?_, numLevelFilesCalls_lt consumeDecimalNumber h l hl⟩
  obtain ⟨rest, hrest, hb⟩ := getProperty_eq_some consumeDecimalNumber h
  cases b with
  | numFilesAtLevel level =>
    obtain ⟨d, v, hd, hv, hlevel, -⟩ := propertyBranch_eq_numFilesAtLevel consumeDecimalNumber hb
    obtain ⟨-, -, -, hval⟩ := (hc d v).mp hv
    have hd31 : decimalValue d < 2 ^ 31 := hsmall d (String.ext (hrest.trans (by rw [hd]; rfl)))
    simp only [PropertyBranch.numLevelFilesCalls, List.mem_singleton] at hl
    rw [hl, hlevel, staticCastInt, hval, Int.bmod_def, if_pos (by omega)]
    omega
  | stats =>
    simp only [PropertyBranch.numLevelFilesCalls, List.mem_map] at hl
    obtain ⟨n, -, rfl⟩ := hl
    exact Int.natCast_nonneg n
  | _ => simp [PropertyBranch.numLevelFilesCalls] at hl

/-- Below `2 ^ 31` the cast keeps the value and the guard does what it means:
`num-files-at-level<d>` answers exactly when `d` is a decimal numeral whose value is below
`kNumLevels`. -/
theorem getProperty_numFilesAtLevel_isSome (hc : ReadsNumeral consumeDecimalNumber)
    (d : List Char) (hd : decimalValue d < 2 ^ 31) :
    (getProperty consumeDecimalNumber ("leveldb.num-files-at-level" ++ ⟨d⟩)).isSome ↔
      d ≠ [] ∧ (∀ c ∈ d, c.isDigit = true) ∧ decimalValue d < kNumLevels := by
  have hcast : Int.bmod (decimalValue d) (2 ^ 32) = decimalValue d := by
    rw [Int.bmod_def, if_pos (by omega)]
    omega
  simp only [Option.isSome_iff_exists, getProperty_numFilesAtLevel_eq_some consumeDecimalNumber hc,
    hcast]
  constructor
  · rintro ⟨-, hne, hdig, -, hlt, -⟩
    exact ⟨hne, hdig, by exact_mod_cast hlt⟩
  · rintro ⟨hne, hdig, hlt⟩
    exact ⟨_, hne, hdig, by unfold kNumLevels at hlt; omega, by exact_mod_cast hlt, rfl⟩

end GetProperty

/-- A `ConsumeDecimalNumber` that reads the longest run of digits at the front of `s`, and fails
when there is none or its value does not fit a `uint64_t`. -/
def readDigits (s : List Char) : Option (UInt64 × List Char) :=
  if s.takeWhile Char.isDigit ≠ [] ∧ decimalValue (s.takeWhile Char.isDigit) < 2 ^ 64 then
    some (UInt64.ofNat (decimalValue (s.takeWhile Char.isDigit)), s.dropWhile Char.isDigit)
  else none

theorem readsNumeral_readDigits : ReadsNumeral readDigits := by
  intro s v
  have hsplit := List.takeWhile_append_dropWhile Char.isDigit s
  constructor
  · intro h
    unfold readDigits at h
    split at h <;> [rename_i hcond; cases h]
    obtain ⟨hv, hdrop⟩ := Prod.mk.inj (Option.some.inj h)
    rw [hdrop, List.append_nil] at hsplit
    rw [hsplit] at hcond hv
    exact ⟨hcond.1, List.dropWhile_eq_nil_iff.mp hdrop, hcond.2,
      by rw [← hv, UInt64.toNat_ofNat_of_lt hcond.2]⟩
  · rintro ⟨hne, hdig, hlt, hv⟩
    have hdrop : s.dropWhile Char.isDigit = [] := List.dropWhile_eq_nil_iff.mpr hdig
    rw [hdrop, List.append_nil] at hsplit
    rw [readDigits, hsplit, hdrop, if_pos ⟨hne, hlt⟩]
    congr
    exact UInt64.toNat.inj (by rw [UInt64.toNat_ofNat_of_lt hlt, hv])

/-- The guard reads the numeral only after `static_cast<int>`: `num-files-at-level4294967296`
answers `NumLevelFiles(0)`, and `num-files-at-level2147483648` passes `NumLevelFiles` a negative
level. -/
theorem getProperty_casts_numeral_to_int
    (consumeDecimalNumber : List Char → Option (UInt64 × List Char))
    (hc : ReadsNumeral consumeDecimalNumber) :
    getProperty consumeDecimalNumber "leveldb.num-files-at-level4294967296" =
      some (.numFilesAtLevel 0) ∧
    getProperty consumeDecimalNumber "leveldb.num-files-at-level2147483648" =
      some (.numFilesAtLevel (-2147483648)) := by
  constructor
  · rw [show ("leveldb.num-files-at-level4294967296" : String) =
      "leveldb.num-files-at-level" ++ ⟨"4294967296".data⟩ from rfl,
      getProperty_numFilesAtLevel_eq_some consumeDecimalNumber hc]
    decide
  · rw [show ("leveldb.num-files-at-level2147483648" : String) =
      "leveldb.num-files-at-level" ++ ⟨"2147483648".data⟩ from rfl,
      getProperty_numFilesAtLevel_eq_some consumeDecimalNumber hc]
    decide

theorem getProperty_casts_numeral_to_int_readDigits :
    ReadsNumeral readDigits ∧
    getProperty readDigits "leveldb.num-files-at-level4294967296" = some (.numFilesAtLevel 0) ∧
    getProperty readDigits "leveldb.num-files-at-level2147483648" =
      some (.numFilesAtLevel (-2147483648)) :=
  ⟨readsNumeral_readDigits, getProperty_casts_numeral_to_int readDigits readsNumeral_readDigits⟩

end Leveldb
