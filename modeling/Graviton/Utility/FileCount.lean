import Graviton.Utility.FileUtility

/-!
# `GetFileCount`

`GetFileCount` of `libs/utility/fileutility.cpp` on a file system that nothing changes meanwhile
(`View`). It looks at each entry of a directory by its name alone, which is a path from the current
directory, and goes into `.` and `..` as into any directory.

* `getFileCount_own`: without subdirectories, the counts add up to all entries, these two included.
* `getFileCount_ok`: with subdirectories, no call returns `true`.
* `getFileCount_iff`: when both agree with the tree below the directory.
-/

namespace FileUtility

open Lib

/-! ## The program -/

/-- What a process sees of a file system: `stat` and the entries `readdir` returns, for absolute
paths, and its current directory. -/
structure View where
  stat : Str → Option Mode
  readdir : Str → Option (List Str)
  cwd : Str
  -- `.` is the directory itself, and `.` and `..` are among the entries
  dot : ∀ p, IsDir (stat p) → IsDir (stat (p ++ "/.".toList))
  listed : ∀ p entries, readdir p = some entries →
    ∃ names, entries.Perm (".".toList :: "..".toList :: names)
  cwd_isDir : IsDir (stat cwd)

namespace View

/-- The absolute path of a path. -/
def resolve (v : View) (path : Str) : Str :=
  if path.head? = some '/' then path else v.cwd ++ '/' :: path

def folderExists (v : View) (path : Str) : Bool := isFolder (v.stat (v.resolve path))

end View

/-- What a call of `GetFileCount` returns, and the two counters. -/
structure Counted where
  ok : Bool
  fileCount : Nat
  folderCount : Nat
  deriving DecidableEq

/-- The body of the loop of `GetFileCount`, on an entry of `directory`. -/
def countEntry (v : View) (includeSubdirectories : Bool) (directory : Str)
    (nested : Str → Nat → Nat → Option Counted) (r : Counted) (dName : Str) : Option Counted :=
  if v.folderExists dName then
    if includeSubdirectories then
      nested (makePath directory dName) r.fileCount (r.folderCount + 1)
    else some { r with folderCount := r.folderCount + 1 }
  else some { r with fileCount := r.fileCount + 1 }

/-- `GetFileCount`, with at most `fuel` calls one inside the other; `none` when that is not
enough. -/
def getFileCount (v : View) (includeSubdirectories : Bool) :
    Nat → Str → Nat → Nat → Option Counted
  | 0, _, _, _ => none
  | fuel + 1, directory, fileCount, folderCount =>
    let r : Counted :=
      if includeSubdirectories then ⟨true, fileCount, folderCount⟩ else ⟨true, 0, 0⟩
    if v.folderExists directory then
      match v.readdir (v.resolve directory) with
      | none => some { r with ok := false }
      | some entries =>
        let nested := getFileCount v includeSubdirectories fuel
        entries.foldlM (countEntry v includeSubdirectories directory nested) r
    else some { r with ok := false }

/-! ## What the counters should be -/

/-- The entries of a directory, `.` and `..` apart, with those below them. -/
inductive Entries
  | nil
  | file (name : Str) (rest : Entries)
  | folder (name : Str) (sub rest : Entries)

namespace Entries

def names : Entries → List Str
  | nil => []
  | file name rest => name :: rest.names
  | folder name _ rest => name :: rest.names

/-- The numbers of the directory's own entries. -/
def ownFiles : Entries → Nat
  | nil => 0
  | file _ rest => rest.ownFiles + 1
  | folder _ _ rest => rest.ownFiles

def ownFolders : Entries → Nat
  | nil => 0
  | file _ rest => rest.ownFolders
  | folder _ _ rest => rest.ownFolders + 1

/-- The numbers of the whole tree. -/
def files : Entries → Nat
  | nil => 0
  | file _ rest => rest.files + 1
  | folder _ sub rest => sub.files + rest.files

def folders : Entries → Nat
  | nil => 0
  | file _ rest => rest.folders
  | folder _ sub rest => sub.folders + 1 + rest.folders

/-- A directory that can be opened has these entries. -/
def ListedAt (v : View) (path : Str) (es : Entries) : Prop :=
  ∀ entries, v.readdir path = some entries →
    entries.Perm (".".toList :: "..".toList :: es.names)

/-- The entries are those below a path. -/
def Below (v : View) (path : Str) : Entries → Prop
  | nil => True
  | file name rest =>
    (∃ m, v.stat (path ++ '/' :: name) = some m ∧ m.type ≠ .dir) ∧ Below v path rest
  | folder name sub rest =>
    IsDir (v.stat (path ++ '/' :: name)) ∧ ListedAt v (path ++ '/' :: name) sub ∧
      Below v (path ++ '/' :: name) sub ∧ Below v path rest

/-- Every directory below a path can be opened. -/
def Open (v : View) (path : Str) : Entries → Prop
  | nil => True
  | file _ rest => Open v path rest
  | folder name sub rest =>
    v.readdir (path ++ '/' :: name) ≠ none ∧ Open v (path ++ '/' :: name) sub ∧
      Open v path rest

end Entries

/-- A directory, as it is named in a call, with the tree below it. -/
structure Directory (v : View) where
  path : Str
  entries : Entries
  isDir : IsDir (v.stat (v.resolve path))
  listed : entries.ListedAt v (v.resolve path)
  below : entries.Below v (v.resolve path)

namespace Directory

variable {v : View} (d : Directory v)

def AllOpen : Prop := v.readdir (v.resolve d.path) ≠ none ∧ d.entries.Open v (v.resolve d.path)

/-- With subdirectories: the call ends, returns `true` when every directory can be opened, and adds
the numbers of the whole tree. -/
def CountsTree : Prop :=
  ∀ fileCount folderCount, ∃ fuel r,
    getFileCount v true fuel d.path fileCount folderCount = some r ∧
      (d.AllOpen → r.ok = true) ∧ r.fileCount = fileCount + d.entries.files ∧
      r.folderCount = folderCount + d.entries.folders

/-- Without: it sets the counters to the numbers of the directory's own entries. -/
def CountsOwn : Prop :=
  ∀ fileCount folderCount, ∃ fuel r,
    getFileCount v false fuel d.path fileCount folderCount = some r ∧
      r.fileCount = d.entries.ownFiles ∧ r.folderCount = d.entries.ownFolders

end Directory

/-! ## With subdirectories -/

/-- `.` is taken for the current directory. -/
theorem folderExists_dot (v : View) : v.folderExists ".".toList = true :=
  isFolder_of_isDir (v.dot v.cwd v.cwd_isDir)

/-- After the entry `.`, the status is that of a call inside the call. -/
theorem foldlM_ok {v : View} {directory : Str} {nested : Str → Nat → Nat → Option Counted}
    (hnested : ∀ path fileCount folderCount r, nested path fileCount folderCount = some r →
      r.ok = false) : ∀ {entries : List Str} {r r' : Counted},
    r.ok = false ∨ ".".toList ∈ entries →
    entries.foldlM (countEntry v true directory nested) r = some r' → r'.ok = false
  | [], r, r', hr, h => by
    cases h
    exact hr.resolve_right List.not_mem_nil
  | dName :: entries, r, r', hr, h => by
    rw [List.foldlM_cons, Option.bind_eq_bind, Option.bind_eq_some_iff] at h
    obtain ⟨r1, h1, h⟩ := h
    refine foldlM_ok hnested ?_ h
    unfold countEntry at h1
    split at h1
    · exact .inl (hnested _ _ _ _ h1)
    · rename_i hfile
      cases h1
      refine hr.imp_right fun hm => (List.mem_cons.1 hm).resolve_left ?_
      rintro rfl
      exact hfile (folderExists_dot v)

/-- **No call returns `true`**: the last directory it goes into is one it cannot count. -/
theorem getFileCount_ok {v : View} : ∀ {fuel : Nat} {directory : Str} {fileCount folderCount : Nat}
    {r : Counted}, getFileCount v true fuel directory fileCount folderCount = some r → r.ok = false
  | 0, _, _, _, _, h => by cases h
  | fuel + 1, directory, fileCount, folderCount, r, h => by
    rw [getFileCount] at h
    split at h
    · split at h
      · cases h
        rfl
      · rename_i entries hentries
        obtain ⟨names, hperm⟩ := v.listed _ entries hentries
        exact foldlM_ok (fun _ _ _ _ => getFileCount_ok) (.inr (hperm.mem_iff.2 (.head _))) h
    · cases h
      rfl

/-! ## Without -/

theorem foldlM_own (v : View) (directory : Str) (nested : Str → Nat → Nat → Option Counted) :
    ∀ (entries : List Str) (r : Counted), ∃ r',
      entries.foldlM (countEntry v false directory nested) r = some r' ∧
        r'.fileCount + r'.folderCount = r.fileCount + r.folderCount + entries.length
  | [], r => ⟨r, rfl, rfl⟩
  | dName :: entries, r => by
    rw [List.foldlM_cons, countEntry]
    split
    · obtain ⟨r', h, hsum⟩ := foldlM_own v directory nested entries
        { r with folderCount := r.folderCount + 1 }
      refine ⟨r', h, ?_⟩
      rw [hsum, List.length_cons]
      dsimp only
      omega
    · obtain ⟨r', h, hsum⟩ := foldlM_own v directory nested entries
        { r with fileCount := r.fileCount + 1 }
      refine ⟨r', h, ?_⟩
      rw [hsum, List.length_cons]
      dsimp only
      omega

namespace Entries

theorem own_add : ∀ es : Entries, es.ownFiles + es.ownFolders = es.names.length
  | nil => rfl
  | file _ rest => by
    have := own_add rest
    simp only [ownFiles, ownFolders, names, List.length_cons]
    omega
  | folder _ _ rest => by
    have := own_add rest
    simp only [ownFiles, ownFolders, names, List.length_cons]
    omega

end Entries

/-- **The counts add up to all entries** of a directory that can be opened, `.` and `..`
included. -/
theorem getFileCount_own {v : View} {d : Directory v} {entries : List Str}
    (h : v.readdir (v.resolve d.path) = some entries) (fuel fileCount folderCount : Nat) :
    ∃ r, getFileCount v false (fuel + 1) d.path fileCount folderCount = some r ∧
      r.fileCount + r.folderCount = d.entries.ownFiles + d.entries.ownFolders + 2 := by
  have hdir : v.folderExists d.path = true := isFolder_of_isDir d.isDir
  obtain ⟨r, hr, hsum⟩ := foldlM_own v d.path (getFileCount v false fuel) entries ⟨true, 0, 0⟩
  refine ⟨r, ?_, ?_⟩
  · rw [getFileCount, if_pos hdir, h]
    exact hr
  · rw [hsum, (d.listed entries h).length_eq, d.entries.own_add]
    simp

theorem getFileCount_closed {v : View} {d : Directory v}
    (h : v.readdir (v.resolve d.path) = none) (includeSubdirectories : Bool)
    (fuel fileCount folderCount : Nat) :
    getFileCount v includeSubdirectories (fuel + 1) d.path fileCount folderCount =
      some (if includeSubdirectories then ⟨false, fileCount, folderCount⟩ else ⟨false, 0, 0⟩) := by
  have hdir : v.folderExists d.path = true := isFolder_of_isDir d.isDir
  rw [getFileCount, if_pos hdir, h]
  cases includeSubdirectories <;> rfl

/-- The counters of a directory that can be opened are two too many. -/
theorem not_countsOwn {v : View} {d : Directory v} {entries : List Str}
    (h : v.readdir (v.resolve d.path) = some entries) : ¬ d.CountsOwn := by
  intro hown
  obtain ⟨fuel, r, hr, hfiles, hfolders⟩ := hown 0 0
  cases fuel with
  | zero => cases hr
  | succ n =>
    obtain ⟨r', hr', hsum⟩ := getFileCount_own h n 0 0
    obtain rfl := Option.some.inj (hr.symm.trans hr')
    omega

/-- Those of one that cannot are zero. -/
theorem countsOwn_closed {v : View} {d : Directory v} (h : v.readdir (v.resolve d.path) = none) :
    d.CountsOwn ↔ d.entries = .nil := by
  constructor
  · intro hown
    obtain ⟨fuel, r, hr, hfiles, hfolders⟩ := hown 0 0
    cases fuel with
    | zero => cases hr
    | succ n =>
      rw [getFileCount_closed h] at hr
      obtain rfl := Option.some.inj hr
      cases hes : d.entries with
      | nil => rfl
      | file name rest =>
        rw [hes] at hfiles
        cases hfiles
      | folder name sub rest =>
        rw [hes] at hfolders
        cases hfolders
  · intro hnil fileCount folderCount
    exact ⟨1, _, getFileCount_closed h false 0 _ _, by rw [hnil]; rfl, by rw [hnil]; rfl⟩

theorem countsTree_closed {v : View} {d : Directory v}
    (h : v.readdir (v.resolve d.path) = none) (hnil : d.entries = .nil) : d.CountsTree := by
  intro fileCount folderCount
  exact ⟨1, _, getFileCount_closed h true 0 _ _, fun hopen => absurd h hopen.1,
    by rw [hnil]; rfl, by rw [hnil]; rfl⟩

/-- **When the counters are right**: for a directory that cannot be opened and has no entries. With
subdirectories, the status is never `true`. -/
theorem getFileCount_iff {v : View} (d : Directory v) :
    (d.CountsTree ∧ d.CountsOwn ↔ v.readdir (v.resolve d.path) = none ∧ d.entries = .nil) ∧
      ∀ fuel fileCount folderCount r,
        getFileCount v true fuel d.path fileCount folderCount = some r → r.ok = false := by
  refine ⟨⟨?_, ?_⟩, fun _ _ _ _ => getFileCount_ok⟩
  · rintro ⟨-, hown⟩
    cases h : v.readdir (v.resolve d.path) with
    | some entries => exact absurd hown (not_countsOwn h)
    | none => exact ⟨rfl, (countsOwn_closed h).1 hown⟩
  · rintro ⟨h, hnil⟩
    exact ⟨countsTree_closed h hnil, (countsOwn_closed h).2 hnil⟩

/-! ### A small tree -/

namespace SmallTree

/-- The components of a path, without `.`. -/
def normal (p : Str) : List Str := (runs (· ≠ '/') p).filter (· ≠ ".".toList)

theorem normal_dot (p : Str) : normal (p ++ "/.".toList) = normal p := by
  have hdot : (runs (· ≠ '/') ".".toList).filter (· ≠ ".".toList) = [] := by decide
  show (runs (· ≠ '/') (p ++ '/' :: ".".toList)).filter (· ≠ ".".toList) = _
  rw [runs_append_cons (by decide), List.filter_append, hdot, List.append_nil, normal]

def dir : Mode := ⟨.dir, 0o755⟩

/-- The directory `/d`, with the file `f`. -/
def view : View where
  stat p :=
    if normal p ∈ [[], ["..".toList], ["d".toList], ["d".toList, "..".toList]] then some dir
    else if normal p = ["d".toList, "f".toList] then some ⟨.reg, 0o644⟩
    else none
  readdir p :=
    if normal p = ["d".toList] then some [".".toList, "..".toList, "f".toList]
    else if normal p = [] then some [".".toList, "..".toList, "d".toList]
    else none
  cwd := "/".toList
  dot p h := by
    rw [normal_dot]
    exact h
  listed p entries h := by
    split at h
    · cases h
      exact ⟨["f".toList], .refl _⟩
    · split at h
      · cases h
        exact ⟨["d".toList], .refl _⟩
      · cases h
  cwd_isDir := ⟨dir, by decide, rfl⟩

def directory : Directory view where
  path := "/d".toList
  entries := .file "f".toList .nil
  isDir := ⟨dir, by decide, rfl⟩
  listed entries h := by
    have hentries : view.readdir (view.resolve "/d".toList) =
        some [".".toList, "..".toList, "f".toList] := by decide
    obtain rfl := Option.some.inj (hentries.symm.trans h)
    exact .refl _
  below := ⟨⟨⟨.reg, 0o644⟩, by decide, by decide⟩, trivial⟩

/-- One file: counted with `.` and `..`, and with subdirectories the status is `false`. -/
theorem getFileCount_directory :
    directory.AllOpen ∧ directory.entries.files = 1 ∧ directory.entries.folders = 0 ∧
      getFileCount view false 1 "/d".toList 0 0 = some ⟨true, 1, 2⟩ ∧
      getFileCount view true 2 "/d".toList 0 0 = some ⟨false, 1, 2⟩ ∧
      ¬ (directory.CountsTree ∧ directory.CountsOwn) := by
  have hopen : view.readdir (view.resolve directory.path) =
      some [".".toList, "..".toList, "f".toList] := by decide
  refine ⟨⟨?_, trivial⟩, rfl, rfl, by decide, by decide, fun h => not_countsOwn hopen h.2⟩
  rw [hopen]
  exact Option.some_ne_none _

end SmallTree

end FileUtility
