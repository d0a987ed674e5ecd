import Mathlib.Data.List.Infix

/-!
# `DoRollbackPersistentCacheFiles`: back from the persistent cache to the flash env

When a tablet node starts on the legacy `FlashEnv`, `TryRollbackPersistentCacheFiles` walks each
flash path. A regular file whose path holds `.sst` but does not end with it is renamed to its
path cut after the first `.sst`; a directory is walked child by child, at `path + "/" + child`;
a path whose type cannot be read, or of another type, is left alone.

The local `Env` is not under `src/`: `GetFileType` and `GetChildren` are parameters, the walk's
effect is the list of renames it asks for, and the listing is taken as fixed during the walk.
The recursion has no bound of its own; `fuel` bounds its depth.
-/
namespace Leveldb.Flash

/-- What `GetFileType` reports. -/
inductive SystemFileType where
  | regularFile
  | dir
  | other
  deriving DecidableEq, Repr

def sstChars : List Char := ['.', 's', 's', 't']

/-- `path.find(".sst")`: the first position where `.sst` occurs. -/
def findSst : List Char → Option Nat
  | [] => none
  | c :: s => if sstChars.isPrefixOf (c :: s) then some 0 else (findSst s).map (· + 1)

/-- The path a regular file is renamed to, `path.substr(0, pos + 4)`; `none` when `.sst` is
absent or ends the path. -/
def rollbackTarget (path : String) : Option String :=
  match findSst path.data with
  | none => none
  | some pos => if sstChars.isSuffixOf path.data then none else some ⟨path.data.take (pos + 4)⟩

section Walk

variable (fileType : String → Option SystemFileType) (children : String → List String)

/-- `DoRollbackPersistentCacheFiles(path)`: the renames `(from, to)` it asks for, in order, with
`fuel` levels of recursion. -/
def doRollbackPersistentCacheFiles : Nat → String → List (String × String)
  | 0, _ => []
  | fuel + 1, path =>
    match fileType path with
    | some .regularFile =>
      match rollbackTarget path with
      | some target => [(path, target)]
      | none => []
    | some .dir => (children path).flatMap fun child =>
      doRollbackPersistentCacheFiles fuel (path ++ "/" ++ child)
    | _ => []

/-- `p` is a path the walk from `path` visits within `fuel` levels: `path` itself, or a path the
walk from a child of a directory visits. -/
inductive Reaches : Nat → String → String → Prop
  | here {fuel : Nat} {path : String} : Reaches (fuel + 1) path path
  | child {fuel : Nat} {path child p : String} : fileType path = some .dir →
      child ∈ children path → Reaches fuel (path ++ "/" ++ child) p → Reaches (fuel + 1) path p

variable {fileType children}

theorem reaches_succ_iff {fuel : Nat} {path p : String} :
    Reaches fileType children (fuel + 1) path p ↔ p = path ∨
      fileType path = some .dir ∧ ∃ child ∈ children path,
        Reaches fileType children fuel (path ++ "/" ++ child) p := by
  constructor
  · rintro (_ | ⟨hd, hc, hr⟩)
    · exact .inl rfl
    · exact .inr ⟨hd, _, hc, hr⟩
  · rintro (rfl | ⟨hd, child, hc, hr⟩)
    · exact .here
    · exact .child hd hc hr

end Walk

-- The first `.sst` may lie in a directory's name: the file inside `t.sst` is renamed to that
-- directory's own path. Two files of one name cut after `.sst` are renamed to the same path.
example :
    doRollbackPersistentCacheFiles
      (fun p => if p = "f" ∨ p = "f/t.sst" then some .dir else some .regularFile)
      (fun p => if p = "f" then ["t.sst", "a.sst.1", "a.sst.2"]
        else if p = "f/t.sst" then ["1.sst.bak"] else []) 3 "f" =
      [("f/t.sst/1.sst.bak", "f/t.sst"), ("f/a.sst.1", "f/a.sst"), ("f/a.sst.2", "f/a.sst")] := by
  decide

end Leveldb.Flash
