import Mathlib.Data.List.Basic
import HerdrEternal.Lib.Table

/-!
# Replacing a file through a temporary one

A writer that must never show a half-written file writes a temporary file next to it and renames
it over the old one. `Files` are the two names and the files that were ever created under them:
a name can be given to another file, or removed, while a process goes on writing to the file it
opened.

The lemmas say what the two names show, `read` and `draft`, after each operation. An `openTmp`
truncates a temporary file that is already there, also one that another writer is about to rename.
-/

/-- The file at a path, and the temporary file next to it. -/
structure Files where
  /-- The contents of every file. A file is known by its position. -/
  inodes : List (List UInt8)
  path : Option Nat
  tmp : Option Nat
  path_lt : ∀ ino ∈ path, ino < inodes.length
  tmp_lt : ∀ ino ∈ tmp, ino < inodes.length
  /-- The names are never given to the same file. -/
  apart : ∀ ino ∈ tmp, path ≠ some ino

namespace Files

variable {f f' : Files} {ino : Nat} {data : List UInt8}

/-- Before any file was created. -/
def empty : Files := ⟨[], none, none, by simp, by simp, by simp⟩

/-- What a reader of the path finds. -/
def read (f : Files) : Option (List UInt8) := f.path.bind (f.inodes[·]?)

/-- What a reader of the temporary file would find. -/
def draft (f : Files) : Option (List UInt8) := f.tmp.bind (f.inodes[·]?)

/-! ## Operations -/

/-- The file that `openTmp` opens. -/
def tmpFile (f : Files) : Nat := f.tmp.getD f.inodes.length

/-- Open the temporary file for writing: create it, or truncate the one that is there. -/
def openTmp (f : Files) : Files :=
  match h : f.tmp with
  | some ino =>
    { f with
      inodes := f.inodes.set ino []
      path_lt := by simpa using f.path_lt
      tmp_lt := by simpa using f.tmp_lt }
  | none =>
    { inodes := f.inodes ++ [[]]
      path := f.path
      tmp := some f.inodes.length
      path_lt := fun ino hino => by simpa using Nat.lt_succ_of_lt (f.path_lt ino hino)
      tmp_lt := by simp
      apart := by
        rintro ino ⟨⟩ hpath
        exact Nat.lt_irrefl _ (f.path_lt _ hpath) }

/-- Write to an open file, at its start. -/
def write (f : Files) (ino : Nat) (data : List UInt8) : Files :=
  { f with
    inodes := f.inodes.modify ino fun old => data ++ old.drop data.length
    path_lt := by simpa using f.path_lt
    tmp_lt := by simpa using f.tmp_lt }

/-- Give the temporary file the path, if there is one. -/
def rename (f : Files) : Option Files :=
  match h : f.tmp with
  | some ino =>
    some { f with
      path := some ino
      tmp := none
      path_lt := by
        rintro _ ⟨⟩
        exact f.tmp_lt ino h
      tmp_lt := by simp
      apart := by simp }
  | none => none

/-! ## What the names show -/

theorem read_eq_some (h : f.path = some ino) : f.read = f.inodes[ino]? := by simp [read, h]

theorem draft_eq_some (h : f.tmp = some ino) : f.draft = f.inodes[ino]? := by simp [draft, h]

theorem openTmp_path (f : Files) : f.openTmp.path = f.path := by
  rw [openTmp]
  split <;> rfl

/-- A temporary file that is already there is truncated. -/
theorem openTmp_of_some (h : f.tmp = some ino) :
    f.openTmp.inodes = f.inodes.set ino [] ∧ f.openTmp.tmp = some ino := by
  rw [openTmp]
  split
  · rename_i ino' ht
    cases h.symm.trans ht
    exact ⟨rfl, ht⟩
  · rename_i ht
    cases h.symm.trans ht

theorem openTmp_of_none (h : f.tmp = none) :
    f.openTmp.inodes = f.inodes ++ [[]] ∧ f.openTmp.tmp = some f.inodes.length := by
  rw [openTmp]
  split
  · rename_i ino' ht
    cases h.symm.trans ht
  · exact ⟨rfl, rfl⟩

theorem read_openTmp (f : Files) : f.openTmp.read = f.read := by
  have hpath := openTmp_path f
  cases hp : f.path with
  | none => simp [read, hpath, hp]
  | some ino =>
    rw [read_eq_some hp, read_eq_some (hpath.trans hp)]
    cases ht : f.tmp with
    | none =>
      rw [(openTmp_of_none ht).1]
      exact List.getElem?_append_left (f.path_lt _ hp)
    | some ino' =>
      have hne : ino' ≠ ino := by
        rintro rfl
        exact f.apart _ ht hp
      rw [(openTmp_of_some ht).1]
      exact List.getElem?_set_ne hne

theorem tmp_openTmp (f : Files) : f.openTmp.tmp = some f.tmpFile := by
  cases ht : f.tmp with
  | none => rw [(openTmp_of_none ht).2, tmpFile, ht, Option.getD_none]
  | some ino => rw [(openTmp_of_some ht).2, tmpFile, ht, Option.getD_some]

theorem draft_openTmp (f : Files) : f.openTmp.draft = some [] := by
  cases ht : f.tmp with
  | none =>
    obtain ⟨hinodes, htmp⟩ := openTmp_of_none ht
    rw [draft_eq_some htmp, hinodes, List.getElem?_concat_length]
  | some ino =>
    obtain ⟨hinodes, htmp⟩ := openTmp_of_some ht
    rw [draft_eq_some htmp, hinodes, List.getElem?_set_self (f.tmp_lt ino ht)]

/-- Writing to the temporary file does not touch the other one. -/
theorem read_write (h : f.tmp = some ino) : (f.write ino data).read = f.read := by
  cases hp : f.path with
  | none => simp [read, write, hp]
  | some ino' =>
    have hne : ino ≠ ino' := by
      rintro rfl
      exact f.apart _ h hp
    have hp' : (f.write ino data).path = some ino' := hp
    rw [read_eq_some hp, read_eq_some hp']
    exact List.getElem?_modify_ne _ _ hne

theorem draft_write (h : f.tmp = some ino) (hd : f.draft = some []) :
    (f.write ino data).draft = some data := by
  rw [draft_eq_some h] at hd
  have ht : (f.write ino data).tmp = some ino := h
  rw [draft_eq_some ht, write, Table.modify_self hd]
  simp

theorem rename_isSome : f.rename.isSome = f.tmp.isSome := by
  rw [rename]
  split <;> simp [*]

/-- The path shows what the temporary file had. -/
theorem of_rename (h : f.rename = some f') : f'.read = f.draft ∧ f'.tmp = none := by
  rw [rename] at h
  split at h
  · rename_i ino ht
    cases h
    exact ⟨(draft_eq_some ht).symm, rfl⟩
  · cases h

end Files
