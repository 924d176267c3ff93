import Graviton.Lib.FileSystem
import Graviton.Utility.FilePath

/-!
# `FileUtility`: deleting, creating and writing

The functions of `libs/utility/fileutility.cpp` that change a file system. The system calls are
those of a `FileSystem`; the pointers are not null.

* `deleteEntry_truthful_iff`: when `DeleteEntry` says truly whether the entry is gone.
* `createPathLoop_eq`: `CreatePath` looks at the prefixes of its path, one after the other.
* `createPath_iff`: when it makes the missing ones as it should.
-/

namespace FileUtility

open Lib

variable {σ : Type} (fs : FileSystem σ)

/-! ## Single calls -/

def fileExists (s : σ) (filename : Str) : Bool := (fs.stat s filename).isSome

/-- What `stat` finds is taken for a directory. -/
def isFolder (info : Option Mode) : Bool := info.any fun info => info.bits &&& sIfdir ≠ 0#32

def folderExists (s : σ) (folder : Str) : Bool := isFolder (fs.stat s folder)

def setAttribute (s : σ) (filename : Str) (mode : Nat) : Bool × σ :=
  let (ret, s) := fs.chmod s filename mode
  (ret = 0, s)

/-- `Remove`: the `int` of `rmdir` as a `bool`. -/
def remove (s : σ) (directory : Str) : Bool × σ :=
  let (ret, s) := fs.rmdir s directory
  (ret ≠ 0, s)

def create (s : σ) (directory : Str) (mode : Nat) : Bool × σ :=
  let (ret, s) := fs.mkdir s directory mode
  (ret = 0, s)

def safeDelete (s : σ) (filename : Str) : Bool × σ :=
  if fileExists fs s filename then
    let (ok, s) := setAttribute fs s filename 777
    if ok then
      let (ret, s) := fs.remove s filename
      (ret = 0, s)
    else (false, s)
  else (false, s)

/-- What a call of `DeleteEntry` leaves, and the names the callback was given. -/
structure Deleted (σ : Type) where
  ok : Bool
  state : σ
  notified : List Str
  deriving DecidableEq

/-- `DeleteEntry`, with a callback that takes note of the name, or none. -/
def deleteEntry (s : σ) (filename : Str) (isDirectory callback : Bool) : Deleted σ :=
  let (ok, s) := setAttribute fs s filename 777
  if ok then
    let (ok, s) := if isDirectory then remove fs s filename else safeDelete fs s filename
    ⟨ok, s, if callback then [filename] else []⟩
  else ⟨ok, s, []⟩

/-- What `CreatePath` has done so far: `ok`, and the paths `mkdir` was called for. -/
structure Creating (σ : Type) where
  ok : Bool
  state : σ
  attempts : List Str
  deriving DecidableEq

/-- The size of `workingPath`. -/
def workingPathSize : Nat := 256

/-- The body of the loop of `CreatePath`, on the path it has cut off. -/
def createStep (mode : Nat) (workingPath : Str) (r : Creating σ) : Creating σ :=
  if folderExists fs r.state workingPath then r
  else
    let (ok, state) := create fs r.state workingPath mode
    ⟨ok, state, r.attempts ++ [workingPath]⟩

/-- The loop of `CreatePath`, for at most `fuel` passes; `currentPath` is a place in `folder`, and
`workingPath` what its copy holds. -/
def createPathLoop (folder : Str) (mode : Nat) : Nat → Nat → Str → Creating σ → Creating σ
  | 0, _, _, r => r
  | fuel + 1, currentPath, workingPath, r =>
    if r.ok ∧ folder[currentPath]? ≠ none then
      let skipped := currentPath + 1
      let next := skipped + ((folder.drop skipped).takeWhile fun c => !isSeparator c).length
      let truncated := workingPath.set next '\x00'
      let r := createStep fs mode (cstr truncated) r
      let restored := truncated.set next (folder[next]?.getD '\x00')
      createPathLoop folder mode fuel next restored r
    else r

/-- `CreatePath`; `none` where the copy does not fit. Each pass takes a character at least. -/
def createPath (s : σ) (folder : Str) (mode : Nat) : Option (Creating σ) :=
  if ¬folder.head?.any isSeparator then some ⟨false, s, []⟩
  else if workingPathSize ≤ folder.length then none
  else some (createPathLoop fs folder mode (folder.length + 1) 0 (folder ++ ['\x00'])
    ⟨true, s, []⟩)

/-- How the output file of `WriteToFile` behaves: it opens or not, and takes all of the text or
fails after that many characters. -/
structure WriteIo where
  isOpen : Bool
  write : Option Nat

/-- `WriteToFile`: the file afterwards, if there is one. -/
def writeToFile (io : WriteIo) (content : Str) (append : Bool) (file : Option Str) :
    Option Str :=
  if io.isOpen then
    let written := match io.write with
      | none => content
      | some k => content.take k
    some (if append then file.getD [] ++ written else written)
  else file

theorem isFolder_iff {info : Option Mode} : isFolder info = true ↔
    ∃ m, info = some m ∧ (m.type = .dir ∨ m.type = .blk ∨ m.type = .sock) := by
  rw [isFolder, Option.any_eq_true]
  exact exists_congr fun m => and_congr_right fun _ => by
    rw [decide_eq_true_iff, Mode.bits_and_ifdir]

theorem isFolder_of_isDir {info : Option Mode} (h : IsDir info) : isFolder info = true := by
  obtain ⟨m, hm, hdir⟩ := h
  exact isFolder_iff.2 ⟨m, hm, .inl hdir⟩

/-! ## Deleting -/

/-- `true` is returned exactly if the entry is gone. -/
def Truthful (s : σ) (filename : Str) (isDirectory callback : Bool) : Prop :=
  let r := deleteEntry fs s filename isDirectory callback
  r.ok = true ↔ fs.stat r.state filename = none

theorem stat_chmod_ne_none {s : σ} {filename : Str} (mode : Nat)
    (h : fs.stat s filename ≠ none) : fs.stat (fs.chmod s filename mode).2 filename ≠ none := by
  have htype := congrArg Option.isSome (fs.chmod_type s filename mode filename)
  rw [Option.isSome_map, Option.isSome_map] at htype
  rw [ne_eq, ← Option.not_isSome_iff_eq_none, htype, Option.not_isSome_iff_eq_none]
  exact h

/-- `Remove` says that the directory is still there. -/
theorem remove_iff {s : σ} {directory : Str} (h : fs.stat s directory ≠ none) :
    (remove fs s directory).1 = true ↔ fs.stat (remove fs s directory).2 directory ≠ none := by
  unfold remove
  by_cases h0 : (fs.rmdir s directory).1 = 0
  · simp [h0, fs.rmdir_done s directory h0]
  · simp [h0, (fs.rmdir_failed s directory h0).2, h]

theorem safeDelete_iff {s : σ} {filename : Str} (h : fs.stat s filename ≠ none) :
    (safeDelete fs s filename).1 = true ↔ fs.stat (safeDelete fs s filename).2 filename = none := by
  have hexists : fileExists fs s filename = true := Option.isSome_iff_ne_none.2 h
  have hstill := stat_chmod_ne_none fs 777 h
  rw [safeDelete, if_pos hexists, setAttribute]
  by_cases hc : (fs.chmod s filename 777).1 = 0
  · by_cases h0 : (fs.remove (fs.chmod s filename 777).2 filename).1 = 0
    · simp [hc, h0, fs.remove_done _ filename h0]
    · simp [hc, h0, (fs.remove_failed _ filename h0).2, hstill]
  · simp [hc, hstill]

/-- **When the status is true**: for a file, and for a directory if it is not tried to remove it
at all. -/
theorem deleteEntry_truthful_iff {s : σ} {filename : Str} (isDirectory callback : Bool)
    (h : fs.stat s filename ≠ none) : Truthful fs s filename isDirectory callback ↔
      (isDirectory = true → (fs.chmod s filename 777).1 ≠ 0) := by
  have hstill := stat_chmod_ne_none fs 777 h
  unfold Truthful deleteEntry setAttribute
  by_cases hc : (fs.chmod s filename 777).1 = 0
  · cases isDirectory with
    | true =>
      have hr := remove_iff fs hstill
      simp only [hc, decide_true, if_true]
      refine iff_of_false (fun hn => ?_) (by simp)
      exact iff_not_self (hn.symm.trans hr)
    | false =>
      have hd := safeDelete_iff fs hstill
      simp only [hc, decide_true, if_true, Bool.false_eq_true, if_false]
      exact iff_of_true hd (by simp)
  · simp [hc, hstill]

theorem deleteEntry_truthful_file :
    Truthful Small.fileSystem (some ⟨.reg, 0o644⟩) Small.www false true :=
  (deleteEntry_truthful_iff Small.fileSystem false true (by decide)).2 (by decide)

/-- An empty directory is removed, and the call returns `false`; what is no directory is still
there, and the call returns `true`. -/
theorem deleteEntry_not_truthful :
    deleteEntry Small.fileSystem (some ⟨.dir, 0o755⟩) Small.www true false = ⟨false, none, []⟩ ∧
      ¬ Truthful Small.fileSystem (some ⟨.dir, 0o755⟩) Small.www true false ∧
      deleteEntry Small.fileSystem (some ⟨.reg, 0o644⟩) Small.www true false =
        ⟨true, some ⟨.reg, 0o1411⟩, []⟩ ∧
      ¬ Truthful Small.fileSystem (some ⟨.reg, 0o644⟩) Small.www true false := by
  unfold Truthful
  decide

/-! ## Creating -/

/-- A name between two separators. -/
def IsFolderName (c : Str) : Prop := IsFilename c ∧ '\x00' ∉ c

instance (c : Str) : Decidable (IsFolderName c) := inferInstanceAs (Decidable (_ ∧ _))

theorem isComponent_of_isFolderName {c : Str} (h : IsFolderName c) : IsComponent c :=
  ⟨h.1.1, fun hm => absurd (h.1.2 _ hm) (by decide)⟩

/-- The passes over some paths, until one fails. -/
def createEach (mode : Nat) : List Str → Creating σ → Creating σ
  | [], r => r
  | p :: paths, r => if r.ok then createEach mode paths (createStep fs mode p r) else r

theorem takeWhile_component {c : Str} (h : IsFolderName c) (cs : List Str) :
    (c ++ pathOf cs).takeWhile (fun d => !isSeparator d) = c := by
  rw [List.takeWhile_append_of_pos fun d hd => by rw [h.1.2 d hd]; rfl]
  cases cs with
  | nil => exact List.append_nil c
  | cons d cs =>
    have hstop : (pathOf (d :: cs)).takeWhile (fun e => !isSeparator e) = [] :=
      List.takeWhile_cons_of_neg (by decide)
    rw [hstop, List.append_nil]

theorem set_append_cons (a t : Str) (x y : Char) :
    (a ++ x :: t).set a.length y = a ++ y :: t := by
  rw [List.set_append_right _ _ (Nat.le_refl _), Nat.sub_self, List.set_cons_zero]

/-- Cutting the copy, and undoing it. -/
theorem truncate_copy {a : Str} (h : '\x00' ∉ a) (b : Str) :
    let truncated := (a ++ b ++ ['\x00']).set a.length '\x00'
    cstr truncated = a ∧
      truncated.set a.length ((a ++ b)[a.length]?.getD '\x00') = a ++ b ++ ['\x00'] := by
  have hcut : ∀ t, cstr (a ++ '\x00' :: t) = a := fun t => by
    rw [cstr_append_nul, cstr_eq_self_iff.2 h]
  rw [List.append_assoc, List.getElem?_append_right (Nat.le_refl _), Nat.sub_self]
  cases b with
  | nil =>
    rw [List.nil_append, set_append_cons]
    exact ⟨hcut [], set_append_cons a [] _ _⟩
  | cons c b =>
    rw [List.cons_append, set_append_cons]
    exact ⟨hcut _, set_append_cons a _ _ _⟩

/-- **The loop** looks at the prefixes of its path, one after the other. -/
theorem createPathLoop_eq (mode : Nat) : ∀ {cs : List Str} (base : Str) {fuel : Nat},
    (∀ c ∈ cs, IsFolderName c) → '\x00' ∉ base → cs.length < fuel → ∀ r : Creating σ,
    createPathLoop fs (base ++ pathOf cs) mode fuel base.length (base ++ pathOf cs ++ ['\x00']) r =
      createEach fs mode (prefixesFrom base cs) r
  | _, _, 0, _, _, hf, _ => absurd hf (Nat.not_lt_zero _)
  | [], base, fuel + 1, _, _, _, r => by
    rw [createPathLoop, if_neg]
    · rfl
    · simp [pathOf]
  | c :: cs, base, fuel + 1, h, hbase, hf, r => by
    obtain ⟨hc, hcs⟩ := List.forall_mem_cons.1 h
    have hpath : base ++ pathOf (c :: cs) = base ++ '/' :: c ++ pathOf cs := by simp [pathOf]
    have hnul : '\x00' ∉ base ++ '/' :: c := by simp [hbase, hc.2]
    rw [createPathLoop, prefixesFrom, createEach]
    by_cases hok : r.ok = true
    · have hsep : (base ++ pathOf (c :: cs))[base.length]? = some '/' := by
        rw [List.getElem?_append_right (Nat.le_refl _), Nat.sub_self]
        rfl
      have hname : ((base ++ pathOf (c :: cs)).drop (base.length + 1)).takeWhile
          (fun d => !isSeparator d) = c := by
        rw [List.drop_length_add_append]
        exact takeWhile_component hc cs
      have hnext : base.length + 1 + c.length = (base ++ '/' :: c).length := by simp; omega
      obtain ⟨hcut, hback⟩ := truncate_copy hnul (pathOf cs)
      rw [if_pos ⟨hok, by rw [hsep]; exact Option.some_ne_none _⟩, if_pos hok]
      dsimp only
      rw [hname, hnext, hpath, hcut, hback]
      exact createPathLoop_eq mode _ hcs hnul (Nat.lt_of_succ_lt_succ hf) _
    · rw [if_neg fun h => hok h.1, if_neg hok]

/-- `CreatePath` on the path of some components. -/
theorem createPath_pathOf (mode : Nat) {cs : List Str} (hne : cs ≠ [])
    (h : ∀ c ∈ cs, IsFolderName c) (hlen : (pathOf cs).length < workingPathSize) (s : σ) :
    createPath fs s (pathOf cs) mode = some (createEach fs mode (prefixes cs) ⟨true, s, []⟩) := by
  have hhead : (pathOf cs).head?.any isSeparator = true := by
    cases cs with
    | nil => exact absurd rfl hne
    | cons c cs => rfl
  rw [createPath, if_neg (not_not.2 hhead), if_neg (Nat.not_le.2 hlen)]
  exact congrArg some (createPathLoop_eq fs mode [] h List.not_mem_nil
    (Nat.lt_succ_of_le (length_le_length_pathOf cs)) _)

/-! ### What the passes do -/

theorem folderExists_iff (s : σ) (folder : Str) : folderExists fs s folder = true ↔
    ∃ m, fs.stat s folder = some m ∧ (m.type = .dir ∨ m.type = .blk ∨ m.type = .sock) :=
  isFolder_iff

theorem folderExists_of_isDir {s : σ} {folder : Str} (h : IsDir (fs.stat s folder)) :
    folderExists fs s folder = true := isFolder_of_isDir h

/-- What the passes over some paths leave. -/
structure Created (s : σ) (paths before : List Str) (r : Creating σ) : Prop where
  attempts : ∃ made, r.attempts = before ++ made ∧ made.Sublist paths
  kept : ∀ q m, fs.stat s q = some m → fs.stat r.state q = some m
  ok : r.ok = true → ∀ p ∈ paths, folderExists fs r.state p = true
  failed : r.ok = false → ∃ p ∈ paths, ¬ folderExists fs r.state p = true

theorem createEach_failed (mode : Nat) (paths : List Str) {r : Creating σ} (h : r.ok = false) :
    createEach fs mode paths r = r := by
  cases paths with
  | nil => rfl
  | cons p paths => rw [createEach, if_neg (by simp [h])]

theorem createEach_created (mode : Nat) : ∀ (paths : List Str) (s : σ) (before : List Str),
    Created fs s paths before (createEach fs mode paths ⟨true, s, before⟩)
  | [], s, before => by
    refine ⟨⟨[], (List.append_nil before).symm, List.nil_sublist _⟩, fun _ _ h => h,
      fun _ => nofun, nofun⟩
  | p :: paths, s, before => by
    rw [createEach, if_pos rfl, createStep]
    by_cases hex : folderExists fs s p = true
    · obtain ⟨⟨made, hmade, hsub⟩, hkept, hok, hfailed⟩ := createEach_created mode paths s before
      rw [if_pos hex]
      refine ⟨⟨made, hmade, hsub.cons p⟩, hkept, fun h => ?_, fun h => ?_⟩
      · refine List.forall_mem_cons.2 ⟨?_, hok h⟩
        obtain ⟨m, hm, htype⟩ := (folderExists_iff fs s p).1 hex
        exact (folderExists_iff fs _ p).2 ⟨m, hkept p m hm, htype⟩
      · obtain ⟨q, hq, hn⟩ := hfailed h
        exact ⟨q, .tail _ hq, hn⟩
    rw [if_neg hex, create]
    by_cases h0 : (fs.mkdir s p mode).1 = 0
    · obtain ⟨⟨made, hmade, hsub⟩, hkept, hok, hfailed⟩ :=
        createEach_created mode paths (fs.mkdir s p mode).2 (before ++ [p])
      simp only [h0, decide_true]
      refine ⟨⟨p :: made, ?_, hsub.cons_cons p⟩, fun q m h => ?_, fun h => ?_, fun h => ?_⟩
      · rw [hmade, List.append_assoc, List.singleton_append]
      · exact hkept q m (fs.mkdir_keeps s p mode q m h)
      · refine List.forall_mem_cons.2 ⟨?_, hok h⟩
        obtain ⟨m, hm, htype⟩ := (fs.mkdir_done s p mode h0).2
        exact folderExists_of_isDir fs ⟨m, hkept p m hm, htype⟩
      · obtain ⟨q, hq, hn⟩ := hfailed h
        exact ⟨q, .tail _ hq, hn⟩
    · simp only [h0, decide_false]
      rw [createEach_failed fs mode paths rfl]
      refine ⟨⟨[p], rfl, List.singleton_sublist.2 (.head _)⟩, fun q m h => ?_, nofun,
        fun _ => ⟨p, .head _, ?_⟩⟩
      · exact fs.mkdir_keeps s p mode q m h
      · rw [(fs.mkdir_failed s p mode h0).2]
        exact hex

/-- **The state they leave** is the one `mkdir` leaves when it is tried on every prefix. -/
theorem createEach_state (mode : Nat) : ∀ {cs : List Str} (base : Str) (s : σ) (before : List Str),
    (∀ c ∈ cs, IsFolderName c) →
    (createEach fs mode (prefixesFrom base cs) ⟨true, s, before⟩).state =
      fs.makeEach mode (prefixesFrom base cs) s
  | [], _, _, _, _ => rfl
  | c :: cs, base, s, before, h => by
    obtain ⟨-, hcs⟩ := List.forall_mem_cons.1 h
    rw [prefixesFrom, createEach, if_pos rfl, createStep, FileSystem.makeEach, List.foldl_cons,
      ← FileSystem.makeEach]
    by_cases hex : folderExists fs s (base ++ '/' :: c) = true
    · have hsome : (fs.mkdir s (base ++ '/' :: c) mode).1 ≠ 0 := by
        intro h0
        obtain ⟨m, hm, -⟩ := (folderExists_iff fs _ _).1 hex
        rw [(fs.mkdir_done s _ mode h0).1] at hm
        cases hm
      rw [if_pos hex, (fs.mkdir_failed s _ mode hsome).2]
      exact createEach_state mode _ s before hcs
    rw [if_neg hex, create]
    by_cases h0 : (fs.mkdir s (base ++ '/' :: c) mode).1 = 0
    · simp only [h0, decide_true]
      exact createEach_state mode _ _ _ hcs
    · -- nothing more is made below the prefix that failed
      have hdir : ¬ IsDir (fs.stat s (base ++ '/' :: c)) :=
        fun h => hex (folderExists_of_isDir fs h)
      simp only [h0, decide_false]
      rw [createEach_failed fs mode _ rfl]
      dsimp only
      rw [(fs.mkdir_failed s _ mode h0).2]
      exact (fs.makeEach_of_not_isDir (by simp)
        (fun d hd => isComponent_of_isFolderName (hcs d hd)) hdir).symm

/-! ### Making what is missing -/

/-- The missing ones of some paths are made, one after the other: `mkdir` is called for each path
that is no directory, up to the first call that fails, and nothing else is done. -/
inductive Makes (mode : Nat) : σ → List Str → List Str → σ → Prop
  | nil (s : σ) : Makes mode s [] [] s
  | there {s s' : σ} {p : Str} {paths attempts : List Str} : IsDir (fs.stat s p) →
    Makes mode s paths attempts s' → Makes mode s (p :: paths) attempts s'
  | made {s s' : σ} {p : Str} {paths attempts : List Str} : ¬ IsDir (fs.stat s p) →
    (fs.mkdir s p mode).1 = 0 → Makes mode (fs.mkdir s p mode).2 paths attempts s' →
    Makes mode s (p :: paths) (p :: attempts) s'
  | failed {s : σ} {p : Str} {paths : List Str} : ¬ IsDir (fs.stat s p) →
    (fs.mkdir s p mode).1 ≠ 0 → Makes mode s (p :: paths) [p] (fs.mkdir s p mode).2

/-- A call makes what is missing: of the prefixes of its path, shortest first; and its result says
if all are directories then. -/
structure CreatesMissing (mode : Nat) (s : σ) (cs : List Str) (r : Creating σ) : Prop where
  makes : Makes fs mode s (prefixes cs) r.attempts r.state
  result : r.ok = true ↔ ∀ p ∈ prefixes cs, IsDir (fs.stat r.state p)

/-- A block device or a socket. -/
def IsSpecial (m : Option Mode) : Prop := ∃ d, m = some d ∧ (d.type = .blk ∨ d.type = .sock)

theorem not_isSpecial_of_isDir {m : Option Mode} (h : IsDir m) : ¬ IsSpecial m := by
  obtain ⟨d, hd, hdir⟩ := h
  rintro ⟨d', hd', htype⟩
  obtain rfl := Option.some.inj (hd.symm.trans hd')
  rw [hdir] at htype
  exact htype.elim nofun nofun

/-- What is taken for a directory and is none. -/
theorem isSpecial_of_folderExists {s : σ} {p : Str} (hex : folderExists fs s p = true)
    (hdir : ¬ IsDir (fs.stat s p)) : IsSpecial (fs.stat s p) := by
  obtain ⟨m, hm, htype⟩ := (folderExists_iff fs s p).1 hex
  exact ⟨m, hm, htype.resolve_left fun ht => hdir ⟨m, hm, ht⟩⟩

/-- `mkdir` fails where something is. -/
theorem mkdir_ne_zero_of_some {s : σ} {p : Str} {m : Mode} (mode : Nat)
    (h : fs.stat s p = some m) : (fs.mkdir s p mode).1 ≠ 0 := by
  intro h0
  rw [(fs.mkdir_done s p mode h0).1] at h
  cases h

section
variable {mode : Nat} {s s' : σ} {p : Str} {paths attempts : List Str}

theorem makes_cons_of_isDir (h : IsDir (fs.stat s p)) :
    Makes fs mode s (p :: paths) attempts s' ↔ Makes fs mode s paths attempts s' := by
  refine ⟨fun hm => ?_, .there h⟩
  cases hm with
  | there _ hm => exact hm
  | made hn | failed hn => exact absurd h hn

theorem makes_cons_of_made (h : ¬ IsDir (fs.stat s p)) (h0 : (fs.mkdir s p mode).1 = 0) :
    Makes fs mode s (p :: paths) attempts s' ↔
      ∃ rest, attempts = p :: rest ∧ Makes fs mode (fs.mkdir s p mode).2 paths rest s' := by
  constructor
  · intro hm
    cases hm with
    | there hdir _ => exact absurd hdir h
    | made _ _ hm => exact ⟨_, rfl, hm⟩
    | failed _ hn => exact absurd h0 hn
  · rintro ⟨rest, rfl, hm⟩
    exact .made h h0 hm

/-- Where the first path cannot be made, `mkdir` is called for it. -/
theorem mem_of_makes_cons (h : ¬ IsDir (fs.stat s p))
    (hm : Makes fs mode s (p :: paths) attempts s') : p ∈ attempts := by
  cases hm with
  | there hdir _ => exact absurd hdir h
  | made | failed => exact .head _

/-- A file that is passed over should have been tried: no later path is the same. -/
theorem not_makes_of_passed (hdir : ¬ IsDir (fs.stat s p)) {cs before : List Str} {s' : σ} :
    ¬ ∃ made, (createEach fs mode (prefixesFrom p cs) ⟨true, s, before⟩).attempts =
        before ++ made ∧ Makes fs mode s (p :: prefixesFrom p cs) made s' := by
  rintro ⟨made, hmade, hmakes⟩
  obtain ⟨made', hmade', hsub⟩ := (createEach_created fs mode (prefixesFrom p cs) s before).attempts
  obtain rfl := List.append_cancel_left (hmade.symm.trans hmade')
  exact not_mem_prefixesFrom (hsub.subset (mem_of_makes_cons fs hdir hmakes))

/-- Below a path that cannot be made there is nothing. -/
theorem not_isSpecial_of_failed (hne : p ≠ []) {cs : List Str} (hcs : ∀ c ∈ cs, IsComponent c)
    (hex : ¬ folderExists fs s p = true) (h0 : (fs.mkdir s p mode).1 ≠ 0) :
    ∀ q ∈ p :: prefixesFrom p cs,
      ¬ IsSpecial (fs.stat (fs.makeEach mode (prefixesFrom p cs) (fs.mkdir s p mode).2) q) := by
  have hdir : ¬ IsDir (fs.stat s p) := fun hd => hex (folderExists_of_isDir fs hd)
  rw [(fs.mkdir_failed s p mode h0).2, fs.makeEach_of_not_isDir hne hcs hdir]
  refine List.forall_mem_cons.2 ⟨fun hspecial => ?_, fun q hq hspecial => ?_⟩
  · obtain ⟨m, hm, htype⟩ := hspecial
    exact hex ((folderExists_iff fs s p).2 ⟨m, hm, .inr htype⟩)
  · obtain ⟨m, hm, -⟩ := hspecial
    rw [fs.stat_of_mem_prefixesFrom hne hcs hdir q hq] at hm
    cases hm

end

/-- **The passes make what is missing** if no path names a block device or a socket once `mkdir`
has been tried on all of them; else the first that does is passed over. -/
theorem createEach_makes_iff (mode : Nat) : ∀ {cs : List Str} (base : Str) (s : σ)
    (before : List Str), (∀ c ∈ cs, IsFolderName c) →
    ((∃ made, (createEach fs mode (prefixesFrom base cs) ⟨true, s, before⟩).attempts =
          before ++ made ∧
        Makes fs mode s (prefixesFrom base cs) made
          (createEach fs mode (prefixesFrom base cs) ⟨true, s, before⟩).state) ↔
      ∀ p ∈ prefixesFrom base cs,
        ¬ IsSpecial (fs.stat (fs.makeEach mode (prefixesFrom base cs) s) p))
  | [], _, s, before, _ =>
    iff_of_true ⟨[], (List.append_nil before).symm, .nil s⟩ (List.forall_mem_nil _)
  | c :: cs, base, s, before, h => by
    obtain ⟨-, hcs⟩ := List.forall_mem_cons.1 h
    rw [prefixesFrom, createEach, if_pos rfl, createStep, FileSystem.makeEach, List.foldl_cons,
      ← FileSystem.makeEach]
    set p := base ++ '/' :: c with hp
    by_cases hex : folderExists fs s p = true
    · obtain ⟨m, hm, -⟩ := (folderExists_iff fs s p).1 hex
      have hkept := fs.makeEach_keeps mode (prefixesFrom p cs) hm
      rw [if_pos hex, (fs.mkdir_failed s p mode (mkdir_ne_zero_of_some fs mode hm)).2,
        List.forall_mem_cons]
      by_cases hdir : IsDir (fs.stat s p)
      · -- a directory is passed over, as it should
        have ih := createEach_makes_iff mode p s before hcs
        simp only [makes_cons_of_isDir fs hdir]
        rw [ih, and_iff_right]
        rw [hkept, ← hm]
        exact not_isSpecial_of_isDir hdir
      · refine iff_of_false (not_makes_of_passed fs hdir) fun hn => hn.1 ?_
        rw [hkept, ← hm]
        exact isSpecial_of_folderExists fs hex hdir
    have hdir : ¬ IsDir (fs.stat s p) := fun hd => hex (folderExists_of_isDir fs hd)
    rw [if_neg hex, create]
    by_cases h0 : (fs.mkdir s p mode).1 = 0
    · have ih := createEach_makes_iff mode p (fs.mkdir s p mode).2 (before ++ [p]) hcs
      obtain ⟨m, hm, htype⟩ := (fs.mkdir_done s p mode h0).2
      have hkept := fs.makeEach_keeps mode (prefixesFrom p cs) hm
      simp only [h0, decide_true, makes_cons_of_made fs hdir h0]
      rw [List.forall_mem_cons,
        and_iff_right (by rw [hkept]; exact not_isSpecial_of_isDir ⟨m, rfl, htype⟩), ← ih]
      constructor
      · rintro ⟨_, hmade, made, rfl, hmakes⟩
        exact ⟨made, by rw [hmade, List.append_assoc, List.singleton_append], hmakes⟩
      · rintro ⟨made, hmade, hmakes⟩
        refine ⟨p :: made, ?_, made, rfl, hmakes⟩
        rw [hmade, List.append_assoc, List.singleton_append]
    · simp only [h0, decide_false]
      rw [createEach_failed fs mode _ rfl]
      exact iff_of_true ⟨[p], rfl, .failed hdir h0⟩ (not_isSpecial_of_failed fs (by simp [hp])
        (fun d hd => isComponent_of_isFolderName (hcs d hd)) hex h0)

theorem createEach_result {s : σ} {cs : List Str} {r : Creating σ} (hne : cs ≠ [])
    (h : ∀ c ∈ cs, IsFolderName c) (hr : Created fs s (prefixes cs) [] r) :
    (r.ok = true ↔ ∀ p ∈ prefixes cs, IsDir (fs.stat r.state p)) ↔
      ¬ IsSpecial (fs.stat r.state (pathOf cs)) := by
  have hpath := pathOf_mem_prefixes hne
  have habove := fs.isDir_of_mem_prefixes (s := r.state)
    (fun c hc => isComponent_of_isFolderName (h c hc))
  cases hok : r.ok with
  | true =>
    have hall := hr.ok hok
    rw [eq_self, true_iff]
    constructor
    · rintro hdir ⟨d, hd, htype⟩
      obtain ⟨m, hm, hmdir⟩ := hdir _ hpath
      obtain rfl := Option.some.inj (hd.symm.trans hm)
      rw [hmdir] at htype
      exact htype.elim nofun nofun
    · intro hspecial p hp
      obtain ⟨m, hm, htype⟩ := (folderExists_iff fs _ _).1 (hall _ hpath)
      rcases habove (by rw [hm]; exact Option.some_ne_none m) p hp with rfl | hdir
      · exact ⟨m, hm, htype.resolve_right fun ht => hspecial ⟨m, hm, ht⟩⟩
      · exact hdir
  | false =>
    obtain ⟨p, hp, hn⟩ := hr.failed hok
    refine iff_of_true (iff_of_false Bool.false_ne_true fun hdir => ?_) ?_
    · exact hn (folderExists_of_isDir fs (hdir p hp))
    · rintro ⟨d, hd, htype⟩
      rcases habove (by rw [hd]; exact Option.some_ne_none d) p hp with rfl | hdir
      · exact hn ((folderExists_iff fs _ _).2 ⟨d, hd, .inr htype⟩)
      · exact hn (folderExists_of_isDir fs hdir)

/-- **When `CreatePath` makes what is missing**: if no prefix of the path names a block device or a
socket, once `mkdir` has been tried on all of them. -/
theorem createPath_iff (mode : Nat) (s : σ) (cs : List Str) (hne : cs ≠ [])
    (h : ∀ c ∈ cs, IsFolderName c) (hlen : (pathOf cs).length < 256) :
    (∃ r, createPath fs s (pathOf cs) mode = some r ∧ CreatesMissing fs mode s cs r) ↔
      ∀ p ∈ prefixes cs, ¬ IsSpecial (fs.stat (fs.makeEach mode (prefixes cs) s) p) := by
  have hr := createEach_created fs mode (prefixes cs) s []
  have hmakes := createEach_makes_iff fs mode [] s [] h
  have hstate := createEach_state fs mode [] s [] h
  rw [← prefixes] at hmakes hstate
  rw [createPath_pathOf fs mode hne h hlen, ← hmakes]
  constructor
  · rintro ⟨r, heq, hmissing⟩
    obtain rfl := Option.some.inj heq
    exact ⟨_, (List.nil_append _).symm, hmissing.makes⟩
  · intro hmade
    have hspecial := hmakes.1 hmade _ (pathOf_mem_prefixes hne)
    rw [← hstate] at hspecial
    obtain ⟨made, hattempts, hm⟩ := hmade
    rw [List.nil_append] at hattempts
    exact ⟨_, rfl, hattempts ▸ hm, (createEach_result fs hne h hr).2 hspecial⟩

/-- A directory is made in another one. -/
theorem createPath_www :
    ∃ r, createPath Small.fileSystem none (pathOf ["srv".toList, "www".toList]) 0o777 = some r ∧
      CreatesMissing Small.fileSystem 0o777 none ["srv".toList, "www".toList] r :=
  (createPath_iff Small.fileSystem 0o777 none ["srv".toList, "www".toList] (by decide)
    (by decide) (by decide)).2 (by unfold IsSpecial; decide)

/-- The path of a block device is taken for a directory. -/
theorem createPath_device : pathOf ["dev".toList, "sda".toList] = "/dev/sda".toList ∧
    createPath Small.fileSystem none "/dev/sda".toList 0o777 = some ⟨true, none, []⟩ ∧
      ¬ ∃ r, createPath Small.fileSystem none "/dev/sda".toList 0o777 = some r ∧
        CreatesMissing Small.fileSystem 0o777 none ["dev".toList, "sda".toList] r := by
  have hrun : createPath Small.fileSystem none "/dev/sda".toList 0o777 =
      some ⟨true, none, []⟩ := by decide
  refine ⟨by decide, hrun, ?_⟩
  rintro ⟨r, hr, hmissing⟩
  obtain rfl := Option.some.inj (hrun.symm.trans hr)
  obtain ⟨d, hd, htype⟩ := hmissing.result.1 rfl "/dev/sda".toList (by decide)
  have hblk : Small.fileSystem.stat none "/dev/sda".toList = some ⟨.blk, 0o660⟩ := by decide
  obtain rfl := Option.some.inj (hblk.symm.trans hd)
  cases htype

end FileUtility
