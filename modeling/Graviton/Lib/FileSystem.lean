import Graviton.Lib.Text

/-!
# A POSIX file system

The calls on a file system (`FileSystem`), by what POSIX says of them to a process that may search
every directory; the state they act on is any type. An absolute path is the list of its components
(`pathOf`), which gives its prefixes, shortest first (`prefixes`).

* `Mode.bits_and_ifdir`: which types of files have the bit `S_IFDIR` in their mode.
* `isDir_of_mem_prefixes`: above what exists there are only directories.
* `FileSystem.makeEach`: what trying `mkdir` on each of some paths leaves.
* `Small.fileSystem`: one with four entries.
-/

namespace Lib

/-! ## Files -/

inductive FileType
  | fifo | chr | dir | blk | reg | lnk | sock
  deriving DecidableEq

/-- The type in the mode of a file: `S_IFIFO` to `S_IFSOCK`. -/
def FileType.bits : FileType → BitVec 32
  | fifo => 0o010000
  | chr => 0o020000
  | dir => 0o040000
  | blk => 0o060000
  | reg => 0o100000
  | lnk => 0o120000
  | sock => 0o140000

/-- `S_IFDIR`. -/
def sIfdir : BitVec 32 := 0o040000

/-- The mode of a file: its type, and the twelve bits below. -/
structure Mode where
  type : FileType
  permissions : BitVec 12
  deriving DecidableEq

/-- `st_mode`. -/
def Mode.bits (m : Mode) : BitVec 32 := m.type.bits ||| m.permissions.setWidth 32

/-- What `stat` finds is a directory. -/
def IsDir (m : Option Mode) : Prop := ∃ d, m = some d ∧ d.type = .dir

/-- **The bit of a directory** is also in the mode of a block device and of a socket. -/
theorem Mode.bits_and_ifdir (m : Mode) :
    m.bits &&& sIfdir ≠ 0#32 ↔ m.type = .dir ∨ m.type = .blk ∨ m.type = .sock := by
  have hperm : m.permissions.setWidth 32 &&& sIfdir = 0#32 := by
    refine BitVec.eq_of_getLsbD_eq fun i hi => ?_
    rw [BitVec.getLsbD_and, BitVec.getLsbD_setWidth, BitVec.getLsbD_zero]
    by_cases h12 : i < 12
    · have hbit : sIfdir.getLsbD i = false := by
        interval_cases i <;> rfl
      rw [hbit, Bool.and_false]
    · rw [BitVec.getLsbD_of_ge _ _ (Nat.le_of_not_lt h12), Bool.and_false, Bool.false_and]
  have htype : m.bits &&& sIfdir = m.type.bits &&& sIfdir := by
    rw [bits, BitVec.and_or_distrib_right, hperm, BitVec.or_zero]
  rw [htype]
  cases m.type <;> decide

/-! ## Paths -/

/-- The path of some components. -/
def pathOf (components : List Str) : Str := components.flatMap ('/' :: ·)

/-- The prefixes of a path below `base`, shortest first. -/
def prefixesFrom (base : Str) : List Str → List Str
  | [] => []
  | c :: components => (base ++ '/' :: c) :: prefixesFrom (base ++ '/' :: c) components

/-- The prefixes of a path, from its first component to all of it. -/
def prefixes (components : List Str) : List Str := prefixesFrom [] components

/-- A name of an entry. -/
def IsComponent (c : Str) : Prop := c ≠ [] ∧ '/' ∉ c

theorem prefixesFrom_append : ∀ (base : Str) (cs ds : List Str),
    prefixesFrom base (cs ++ ds) = prefixesFrom base cs ++ prefixesFrom (base ++ pathOf cs) ds
  | base, [], ds => by simp [prefixesFrom, pathOf]
  | base, c :: cs, ds => by
    rw [List.cons_append, prefixesFrom, prefixesFrom_append, prefixesFrom, List.cons_append,
      pathOf, pathOf, List.flatMap_cons, List.append_assoc]

theorem prefixes_concat (cs : List Str) (c : Str) :
    prefixes (cs ++ [c]) = prefixes cs ++ [pathOf (cs ++ [c])] := by
  rw [prefixes, prefixesFrom_append, prefixes, pathOf, pathOf, List.flatMap_append]
  simp [prefixesFrom]

theorem length_lt_of_mem_prefixesFrom : ∀ {base : Str} {cs : List Str} {p : Str},
    p ∈ prefixesFrom base cs → base.length < p.length
  | base, c :: cs, p, h => by
    have hlen : base.length < (base ++ '/' :: c).length := by
      rw [List.length_append, List.length_cons]
      omega
    rcases List.mem_cons.1 h with rfl | h
    · exact hlen
    · exact hlen.trans (length_lt_of_mem_prefixesFrom h)

/-- A path is not among those below it. -/
theorem not_mem_prefixesFrom {base : Str} {cs : List Str} : base ∉ prefixesFrom base cs := fun h =>
  Nat.lt_irrefl _ (length_lt_of_mem_prefixesFrom h)

theorem pathOf_ne_nil {cs : List Str} (h : cs ≠ []) : pathOf cs ≠ [] := by
  cases cs with
  | nil => exact absurd rfl h
  | cons c cs => simp [pathOf]

theorem length_le_length_pathOf : ∀ cs : List Str, cs.length ≤ (pathOf cs).length
  | [] => Nat.le_refl _
  | c :: cs => by
    have ih := length_le_length_pathOf cs
    rw [pathOf] at ih ⊢
    rw [List.flatMap_cons, List.length_append, List.length_cons, List.length_cons]
    omega

/-- The path itself is its longest prefix. -/
theorem pathOf_mem_prefixes {cs : List Str} (h : cs ≠ []) : pathOf cs ∈ prefixes cs := by
  obtain ⟨init, c, rfl⟩ := (List.eq_nil_or_concat' cs).resolve_left h
  rw [prefixes_concat]
  simp

/-! ## Calls -/

/-- The calls on a file system with states in `σ`; each returns 0, or -1 when it failed. -/
structure FileSystem (σ : Type) where
  stat : σ → Str → Option Mode
  chmod : σ → Str → Nat → Int × σ
  mkdir : σ → Str → Nat → Int × σ
  rmdir : σ → Str → Int × σ
  remove : σ → Str → Int × σ
  -- what is below a path exists only if the path names a directory
  parent : ∀ s p c, p ≠ [] → IsComponent c → stat s (p ++ '/' :: c) ≠ none → IsDir (stat s p)
  -- `chmod` changes permissions only
  chmod_type : ∀ s p m q, (stat (chmod s p m).2 q).map Mode.type = (stat s q).map Mode.type
  -- `mkdir` makes a directory where there was nothing, in a directory; all else is as before
  mkdir_done : ∀ s p m, (mkdir s p m).1 = 0 →
    stat s p = none ∧ IsDir (stat (mkdir s p m).2 p)
  mkdir_parent : ∀ s p c m, p ≠ [] → IsComponent c → (mkdir s (p ++ '/' :: c) m).1 = 0 →
    IsDir (stat s p)
  mkdir_keeps : ∀ s p m q d, stat s q = some d → stat (mkdir s p m).2 q = some d
  mkdir_failed : ∀ s p m, (mkdir s p m).1 ≠ 0 → (mkdir s p m).1 = -1 ∧ (mkdir s p m).2 = s
  -- `rmdir` and `remove` leave nothing at the path, or all as it was
  rmdir_done : ∀ s p, (rmdir s p).1 = 0 → stat (rmdir s p).2 p = none
  rmdir_failed : ∀ s p, (rmdir s p).1 ≠ 0 → (rmdir s p).1 = -1 ∧ (rmdir s p).2 = s
  remove_done : ∀ s p, (remove s p).1 = 0 → stat (remove s p).2 p = none
  remove_failed : ∀ s p, (remove s p).1 ≠ 0 → (remove s p).1 = -1 ∧ (remove s p).2 = s

namespace FileSystem

variable {σ : Type} (fs : FileSystem σ) {s : σ}

/-- **Above what exists** there are only directories. -/
theorem isDir_of_mem_prefixes : ∀ {cs : List Str}, (∀ c ∈ cs, IsComponent c) →
    fs.stat s (pathOf cs) ≠ none → ∀ p ∈ prefixes cs, p = pathOf cs ∨ IsDir (fs.stat s p) := by
  intro cs
  induction cs using List.reverseRecOn with
  | nil => exact fun _ _ _ hm => by cases hm
  | append_singleton cs c ih =>
    intro h hex p hp
    rw [prefixes_concat] at hp
    rcases List.mem_append.1 hp with hp | hp
    · refine .inr ?_
      obtain ⟨hcs, hc⟩ := List.forall_mem_append.1 h
      have hne : cs ≠ [] := by
        rintro rfl
        cases hp
      have hsplit : pathOf (cs ++ [c]) = pathOf cs ++ '/' :: c := by simp [pathOf]
      rw [hsplit] at hex
      have hdir := fs.parent s _ c (pathOf_ne_nil hne) (hc c (.head _)) hex
      rcases ih hcs (by obtain ⟨d, hd, -⟩ := hdir; simp [hd]) p hp with rfl | hp
      · exact hdir
      · exact hp
    · exact .inl (List.mem_singleton.1 hp)

/-- The state after `mkdir` has been tried on each of some paths. -/
def makeEach (mode : Nat) (paths : List Str) (s : σ) : σ :=
  paths.foldl (fun s p => (fs.mkdir s p mode).2) s

/-- Nothing is made where the parent is no directory. -/
theorem mkdir_of_not_isDir {p c : Str} {mode : Nat} (hp : p ≠ []) (hc : IsComponent c)
    (h : ¬ IsDir (fs.stat s p)) : (fs.mkdir s (p ++ '/' :: c) mode).2 = s :=
  (fs.mkdir_failed s _ mode fun h0 => h (fs.mkdir_parent s p c mode hp hc h0)).2

/-- Below a path that is no directory, nothing is made. -/
theorem makeEach_of_not_isDir {mode : Nat} : ∀ {cs : List Str} {p : Str}, p ≠ [] →
    (∀ c ∈ cs, IsComponent c) → ¬ IsDir (fs.stat s p) →
    fs.makeEach mode (prefixesFrom p cs) s = s
  | [], _, _, _, _ => rfl
  | c :: cs, p, hp, hcs, h => by
    obtain ⟨hc, hcs⟩ := List.forall_mem_cons.1 hcs
    rw [prefixesFrom, makeEach, List.foldl_cons, fs.mkdir_of_not_isDir hp hc h, ← makeEach]
    refine makeEach_of_not_isDir (by simp) hcs ?_
    rintro ⟨d, hd, -⟩
    exact h (fs.parent s p c hp hc (by simp [hd]))

/-- What exists stays. -/
theorem makeEach_keeps (mode : Nat) : ∀ (paths : List Str) {s : σ} {q : Str} {m : Mode},
    fs.stat s q = some m → fs.stat (fs.makeEach mode paths s) q = some m
  | [], _, _, _, h => h
  | _ :: paths, _, _, _, h => makeEach_keeps mode paths (fs.mkdir_keeps _ _ mode _ _ h)

/-- Below a path that is no directory, nothing exists. -/
theorem stat_of_mem_prefixesFrom : ∀ {cs : List Str} {p : Str}, p ≠ [] →
    (∀ c ∈ cs, IsComponent c) → ¬ IsDir (fs.stat s p) → ∀ q ∈ prefixesFrom p cs, fs.stat s q = none
  | c :: cs, p, hp, hcs, h, q, hq => by
    obtain ⟨hc, hcs⟩ := List.forall_mem_cons.1 hcs
    have hnone : fs.stat s (p ++ '/' :: c) = none := by
      by_contra hne
      exact h (fs.parent s p c hp hc hne)
    rcases List.mem_cons.1 hq with rfl | hq
    · exact hnone
    · refine stat_of_mem_prefixesFrom (by simp) hcs ?_ q hq
      rintro ⟨d, hd, -⟩
      rw [hnone] at hd
      cases hd

end FileSystem

/-! ## A small file system -/

namespace Small

def dev : Str := "/dev".toList
def srv : Str := "/srv".toList
def sda : Str := "/dev/sda".toList
def www : Str := "/srv/www".toList

/-- Two directories, a block device, and what the state says is at `www`. -/
def stat (s : Option Mode) (p : Str) : Option Mode :=
  if p = dev ∨ p = srv then some ⟨.dir, 0o755⟩
  else if p = sda then some ⟨.blk, 0o660⟩
  else if p = www then s
  else none

theorem stat_www (s : Option Mode) : stat s www = s := by
  rw [stat, if_neg (by decide), if_neg (by decide), if_pos rfl]

theorem stat_of_ne (s t : Option Mode) {p : Str} (h : p ≠ www) : stat s p = stat t p := by
  simp only [stat, if_neg h]

/-- What is below a path is below one of the two directories. -/
theorem eq_dir_of_below {p c : Str} (hp : p ≠ []) (hc : IsComponent c)
    (h : (p ++ '/' :: c = dev ∨ p ++ '/' :: c = srv) ∨ p ++ '/' :: c = sda ∨
      p ++ '/' :: c = www) : p = dev ∨ p = srv := by
  have hsplit : ∀ {q d : Str}, '/' ∉ d → p ++ '/' :: c = q ++ '/' :: d → p = q := by
    intro q d hd heq
    have hcd : c = d := by rw [← afterLast_append p hc.2, heq, afterLast_append q hd]
    rw [hcd] at heq
    exact List.append_cancel_right heq
  rcases h with (h | h) | h | h
  · exact absurd (hsplit (q := []) (d := "dev".toList) (by decide) h) hp
  · exact absurd (hsplit (q := []) (d := "srv".toList) (by decide) h) hp
  · exact .inl (hsplit (d := "sda".toList) (by decide) h)
  · exact .inr (hsplit (d := "www".toList) (by decide) h)

theorem isDir_stat (s : Option Mode) {p : Str} (h : p = dev ∨ p = srv) : IsDir (stat s p) :=
  ⟨⟨.dir, 0o755⟩, if_pos h, rfl⟩

/-- Only the entry at `www` may be changed. -/
def fileSystem : FileSystem (Option Mode) where
  stat := stat
  chmod s p m :=
    if p = www ∧ s ≠ none then (0, s.map fun d => ⟨d.type, BitVec.ofNat 12 m⟩) else (-1, s)
  mkdir s p m := if p = www ∧ s = none then (0, some ⟨.dir, BitVec.ofNat 12 m⟩) else (-1, s)
  rmdir s p := if p = www ∧ s.map Mode.type = some .dir then (0, none) else (-1, s)
  remove s p := if p = www ∧ s ≠ none then (0, none) else (-1, s)
  parent s p c hp hc h := by
    refine isDir_stat s (eq_dir_of_below hp hc ?_)
    by_contra hn
    obtain ⟨h1, h2⟩ := not_or.1 hn
    obtain ⟨h2, h3⟩ := not_or.1 h2
    rw [stat, if_neg h1, if_neg h2, if_neg h3] at h
    exact h rfl
  chmod_type s p m q := by
    split
    · by_cases hq : q = www
      · rw [hq, stat_www, stat_www]
        cases s <;> rfl
      · rw [stat_of_ne _ s hq]
    · rfl
  mkdir_done s p m h := by
    split at h
    · rename_i hp
      obtain ⟨rfl, rfl⟩ := hp
      rw [if_pos ⟨rfl, rfl⟩, stat_www, stat_www]
      exact ⟨rfl, _, rfl, rfl⟩
    · cases h
  mkdir_parent s p c m hp hc h := by
    split at h
    · rename_i hp'
      exact isDir_stat s (eq_dir_of_below hp hc (.inr (.inr hp'.1)))
    · cases h
  mkdir_keeps s p m q d h := by
    split
    · rename_i hp
      by_cases hq : q = www
      · rw [hq, stat_www, hp.2] at h
        cases h
      · rw [stat_of_ne _ s hq, h]
    · exact h
  mkdir_failed s p m h := by
    split at h
    · exact absurd rfl h
    · rename_i hp
      rw [if_neg hp]
      exact ⟨rfl, rfl⟩
  rmdir_done s p h := by
    split at h
    · rename_i hp
      rw [if_pos hp, hp.1, stat_www]
    · cases h
  rmdir_failed s p h := by
    split at h
    · exact absurd rfl h
    · rename_i hp
      rw [if_neg hp]
      exact ⟨rfl, rfl⟩
  remove_done s p h := by
    split at h
    · rename_i hp
      rw [if_pos hp, hp.1, stat_www]
    · cases h
  remove_failed s p h := by
    split at h
    · exact absurd rfl h
    · rename_i hp
      rw [if_neg hp]
      exact ⟨rfl, rfl⟩

end Small

end Lib
