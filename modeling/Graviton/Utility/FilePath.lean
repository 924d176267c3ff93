import Graviton.Lib.Text

/-!
# Paths

The functions of `libs/utility/fileutility.cpp` on the text of a path, without the tests of the
pointers they are given. A path is the characters of its C string.

* `stripLoop_separator`: the scan backwards cuts the path at its last separator.
* `stripFilenameFromPath_makePath_iff`: for which paths a filename that was joined is stripped
  again.
* `isFolderInFileList_iff`: for which lists the search for a folder ends, with the right answer.
-/

namespace FileUtility

open Lib

def isSeparator (c : Char) : Bool := c = '/' || c = '\\'

/-- A `size_t` as an `int`. -/
def toInt (n : Nat) : Int := (BitVec.ofNat 32 n).toInt

/-- `int index = strlen(path)`. -/
def strlenInt (path : Str) : Int := toInt path.length

/-- The loop of `StripFilenameFromPath`, at `index`. -/
def stripLoop (path : Str) : Nat → Str
  | 0 => path
  | index + 1 =>
    if path[index]?.any isSeparator then
      -- the root is kept
      if index = 0 then path.take 1 else path.take index
    else stripLoop path index

/-- `StripFilenameFromPath`: the path it leaves. -/
def stripFilenameFromPath (path : Str) : Str :=
  if 2 ≤ strlenInt path then stripLoop path (strlenInt path).toNat else path

def makePath (directory filename : Str) : Str :=
  if directory.length > 0 ∧ filename.length > 0 ∧
      ¬directory.getLast?.any isSeparator ∧ ¬filename.head?.any isSeparator then
    directory ++ '\\' :: filename
  else directory ++ filename

/-! ## The length as an `int` -/

theorem strlenInt_of_lt {path : Str} (h : path.length < 2 ^ 31) :
    strlenInt path = path.length := by
  rw [strlenInt, toInt, BitVec.toInt_eq_toNat_cond, BitVec.toNat_ofNat, Nat.mod_eq_of_lt (by omega),
    if_pos (by omega)]

theorem strlenInt_le (path : Str) : strlenInt path ≤ path.length := by
  rw [strlenInt, toInt, BitVec.toInt_eq_toNat_cond, BitVec.toNat_ofNat]
  have := Nat.mod_le path.length (2 ^ 32)
  split <;> omega

/-! ## The scan -/

/-- No separator is found. -/
theorem stripLoop_none {path : Str} : ∀ {index : Nat},
    (∀ c ∈ path.take index, isSeparator c = false) → stripLoop path index = path
  | 0, _ => rfl
  | index + 1, h => by
    have hc : path[index]?.any isSeparator = false := by
      cases hget : path[index]? with
      | none => rfl
      | some c =>
        refine h c (List.mem_of_getElem? (i := index) ?_)
        rw [List.getElem?_take_of_lt (Nat.lt_succ_self index), hget]
    rw [stripLoop, if_neg (by simp [hc])]
    refine stripLoop_none fun c hm => h c ?_
    exact (List.take_sublist_take_left (Nat.le_succ index)).mem hm

/-- **The scan finds the last separator** before it. -/
theorem stripLoop_separator {a b : Str} {c : Char} (hc : isSeparator c = true) : ∀ {k : Nat},
    (∀ d ∈ b.take k, isSeparator d = false) →
    stripLoop (a ++ c :: b) (a.length + 1 + k) = if a = [] then [c] else a
  | 0, _ => by
    have hget : (a ++ c :: b)[a.length]? = some c := by
      rw [List.getElem?_append_right (Nat.le_refl _), Nat.sub_self]
      rfl
    rw [Nat.add_zero, stripLoop, hget, Option.any_some, if_pos hc]
    by_cases ha : a = []
    · subst ha
      rfl
    · rw [if_neg ha, if_neg (mt List.length_eq_zero_iff.1 ha), List.take_left]
  | k + 1, h => by
    have hget : (a ++ c :: b)[a.length + 1 + k]? = b[k]? := by
      rw [List.getElem?_append_right (by omega), Nat.add_assoc, Nat.add_sub_cancel_left,
        Nat.add_comm 1 k]
      rfl
    have hk : b[k]?.any isSeparator = false := by
      cases hd : b[k]? with
      | none => rfl
      | some d =>
        refine h d (List.mem_of_getElem? (i := k) ?_)
        rw [List.getElem?_take_of_lt (Nat.lt_succ_self k), hd]
    rw [← Nat.add_assoc, stripLoop, hget, if_neg (by simp [hk])]
    refine stripLoop_separator hc fun d hm => h d ?_
    exact (List.take_sublist_take_left (Nat.le_succ k)).mem hm

/-- The path it leaves is no longer than the place it started at, unless nothing was found. -/
theorem stripLoop_cases (path : Str) : ∀ index : Nat, stripLoop path index = path ∨
    (stripLoop path index).length < max index 2
  | 0 => .inl rfl
  | index + 1 => by
    rw [stripLoop]
    split
    · right
      have h1 := List.length_take_le 1 path
      have h2 := List.length_take_le index path
      split <;> omega
    · exact (stripLoop_cases path index).imp_right fun h => by omega

/-! ## Joining and stripping -/

/-- A directory as `MakePath` is to be given one: a separator ends it only if it is the root. -/
def IsDirectoryText (d : Str) : Prop :=
  d ≠ [] ∧ ∀ c ∈ d.getLast?, isSeparator c = true → d = [c]

/-- A filename: not empty, and without separators. -/
def IsFilename (f : Str) : Prop := f ≠ [] ∧ ∀ c ∈ f, isSeparator c = false

instance (d : Str) : Decidable (IsDirectoryText d) :=
  decidable_of_iff (d ≠ [] ∧ d.getLast?.all (fun c => !isSeparator c || d = [c]) = true) (by
    rw [IsDirectoryText]
    cases d.getLast? <;> simp [or_iff_not_imp_left])

instance (f : Str) : Decidable (IsFilename f) :=
  decidable_of_iff (f ≠ [] ∧ f.all (fun c => !isSeparator c) = true) (by
    simp only [IsFilename, List.all_eq_true, Bool.not_eq_true'])

/-- The length of the joined path. -/
def joinedLength (d f : Str) : Nat :=
  if d.getLast?.any isSeparator then d.length + f.length else d.length + 1 + f.length

/-- A joined path is the directory, the separator and the filename. -/
theorem makePath_cases {d f : Str} (hd : IsDirectoryText d) (hf : IsFilename f) :
    ∃ a c, isSeparator c = true ∧ makePath d f = a ++ c :: f ∧
      (if a = [] then [c] else a) = d ∧ a.length ≤ d.length ∧ d.length ≤ a.length + 1 := by
  obtain ⟨a, c, rfl⟩ := (List.eq_nil_or_concat' d).resolve_left hd.1
  by_cases hc : isSeparator c = true
  · have hroot : a ++ [c] = [] ++ [c] := hd.2 c (by simp) hc
    obtain rfl := List.append_cancel_right hroot
    refine ⟨[], c, hc, ?_, rfl, Nat.zero_le _, Nat.le_refl _⟩
    rw [makePath, if_neg]
    · rfl
    · simp [hc]
  · obtain ⟨e, f, rfl⟩ := List.exists_cons_of_ne_nil hf.1
    have he := hf.2 e (.head _)
    refine ⟨a ++ [c], '\\', rfl, ?_, if_neg hd.1, Nat.le_refl _, Nat.le_succ _⟩
    rw [makePath, if_pos]
    simp [hc, he]

theorem length_makePath {d f : Str} (hd : IsDirectoryText d) (hf : IsFilename f) :
    (makePath d f).length = joinedLength d f := by
  obtain ⟨e, f, rfl⟩ := List.exists_cons_of_ne_nil hf.1
  have he := hf.2 e (.head _)
  have hpos := List.length_pos_of_ne_nil hd.1
  rw [makePath, joinedLength]
  by_cases hc : d.getLast?.any isSeparator = true
  · rw [if_neg (by simp [hc]), if_pos hc, List.length_append]
  · rw [if_pos (by simp [hc, he, hpos]), if_neg hc, List.length_append, List.length_cons]
    omega

/-- **When a joined filename is stripped again**: if the length of the path, as an `int`, is more
than that of the directory. -/
theorem stripFilenameFromPath_makePath_iff {d f : Str} (hd : IsDirectoryText d)
    (hf : IsFilename f) :
    stripFilenameFromPath (makePath d f) = d ↔ (d.length : Int) < toInt (joinedLength d f) := by
  rw [← length_makePath hd hf, ← strlenInt]
  obtain ⟨a, c, hc, hpath, ha, hle, hge⟩ := makePath_cases hd hf
  have hlt : d.length < (makePath d f).length := by
    have := List.length_pos_of_ne_nil hf.1
    rw [hpath, List.length_append, List.length_cons]
    omega
  have hd0 := List.length_pos_of_ne_nil hd.1
  have hmax := strlenInt_le (makePath d f)
  constructor
  · intro h
    by_contra hn
    have hlen := congrArg List.length h
    unfold stripFilenameFromPath at hlen
    split at hlen
    · rcases stripLoop_cases (makePath d f) (strlenInt (makePath d f)).toNat with hs | hs
      · rw [hs] at hlen
        omega
      · omega
    · omega
  · intro h
    obtain ⟨k, hk⟩ : ∃ k, (strlenInt (makePath d f)).toNat = a.length + 1 + k :=
      ⟨(strlenInt (makePath d f)).toNat - (a.length + 1), by omega⟩
    rw [stripFilenameFromPath, if_pos (by omega), hk, hpath, stripLoop_separator hc, ha]
    exact fun e he => hf.2 e (List.mem_of_mem_take he)

theorem stripFilenameFromPath_makePath_file :
    stripFilenameFromPath (makePath "/srv/a\\b".toList "www".toList) = "/srv/a\\b".toList :=
  (stripFilenameFromPath_makePath_iff (d := "/srv/a\\b".toList) (f := "www".toList)
    (by decide) (by decide)).2 (by decide)

/-- A path longer than an `int` can count is not cut. -/
theorem stripFilenameFromPath_of_wrap {path : Str} (h : toInt path.length < 2) :
    stripFilenameFromPath path = path := if_neg (Int.not_le.2 h)

/-- A directory of 2^31 characters: the length of the joined path is negative. -/
theorem stripFilenameFromPath_makePath_long :
    IsDirectoryText (List.replicate (2 ^ 31) 'a') ∧ IsFilename ['f'] ∧
      stripFilenameFromPath (makePath (List.replicate (2 ^ 31) 'a') ['f']) ≠
        List.replicate (2 ^ 31) 'a' := by
  have hchar : ∀ c ∈ List.replicate (2 ^ 31) 'a', isSeparator c = false := by
    intro c hc
    rw [List.eq_of_mem_replicate hc]
    rfl
  have hlast : ∀ c ∈ (List.replicate (2 ^ 31) 'a').getLast?, isSeparator c = false :=
    fun c hc => hchar c (List.mem_of_getLast? hc)
  have hd : IsDirectoryText (List.replicate (2 ^ 31) 'a') := by
    refine ⟨List.ne_nil_of_length_pos ?_, fun c hc hs => ?_⟩
    · rw [List.length_replicate]
      exact Nat.two_pow_pos 31
    · rw [hlast c hc] at hs
      cases hs
  have hf : IsFilename ['f'] := ⟨List.cons_ne_nil _ _, fun c hc => by
    rw [List.mem_singleton.1 hc]
    rfl⟩
  have hany : (List.replicate (2 ^ 31) 'a').getLast?.any isSeparator = false := by
    cases hl : (List.replicate (2 ^ 31) 'a').getLast? with
    | none => rfl
    | some c => exact hlast c (by rw [hl]; rfl)
  have hlen : (makePath (List.replicate (2 ^ 31) 'a') ['f']).length = 2 ^ 31 + 2 := by
    rw [length_makePath hd hf, joinedLength, hany, if_neg Bool.false_ne_true,
      List.length_replicate]
    rfl
  refine ⟨hd, hf, fun h => ?_⟩
  rw [stripFilenameFromPath_of_wrap (by rw [hlen]; decide)] at h
  rw [h, List.length_replicate] at hlen
  omega

/-! ## The search for a folder -/

/-- What a call of `IsFolderInFileList` comes to: it writes or reads where it must not, a loop has
not ended, or it returns. -/
inductive Search
  | undefined
  | running
  | returned (found : Bool)
  deriving DecidableEq

/-- The size of `tempFolder`. -/
def tempFolderSize : Nat := 256

/-- The inner loop, for at most `fuel` tests of its condition: whether a match was found, `none`
when it has not ended by then. -/
def matchLoop (folder : Str) : Nat → Str → Option Bool
  | 0, _ => none
  | fuel + 1, tempFolder =>
    if tempFolder.length > 1 then
      if folder = tempFolder then some true
      else matchLoop folder fuel (stripFilenameFromPath tempFolder)
    else some false

/-- The loop over the list, which is the memory from `entry` on. -/
def entryLoop (folder : Str) (steps : Nat) : Nat → Str → Search
  | 0, _ => .running
  | fuel + 1, entry =>
    if '\x00' ∉ entry then .undefined
    else if cstr entry = [] then .returned false
    else if tempFolderSize ≤ (cstr entry).length then .undefined
    else match matchLoop folder steps (cstr entry) with
      | none => .running
      | some true => .returned true
      | some false => entryLoop folder steps fuel (entry.drop ((cstr entry).length + 1))

/-- `IsFolderInFileList`, with at most `fuel` tests of each loop's condition. -/
def isFolderInFileList (fuel : Nat) (fileList folder : Str) : Search :=
  entryLoop folder fuel fuel fileList

/-- The memory of a list: each entry with its NUL, and an empty one. -/
def fileListOf (entries : List Str) : Str :=
  (entries.flatMap fun entry => entry ++ ['\x00']) ++ ['\x00']

/-- What an entry excludes: itself, and what is left of it when it is cut just before one of its
separators. -/
def Excludes (entry folder : Str) : Prop :=
  1 < folder.length ∧
    (folder = entry ∨ ∃ c rest, isSeparator c = true ∧ entry = folder ++ c :: rest)

/-- The text before the first separator. -/
def firstComponent (entry : Str) : Str := entry.takeWhile fun c => !isSeparator c

/-- The search ends with the right answer. -/
def Exact (entries : List Str) (folder : Str) : Prop :=
  ∃ bound found, (∀ fuel ≥ bound, isFolderInFileList fuel (fileListOf entries) folder =
    .returned found) ∧ (found = true ↔ ∃ entry ∈ entries, Excludes entry folder)

/-! ### One entry -/

theorem length_firstComponent_le (entry : Str) : (firstComponent entry).length ≤ entry.length :=
  (List.takeWhile_sublist _).length_le

/-- The last separator of a path, if it has any. -/
theorem exists_last_separator : ∀ path : Str, (∀ c ∈ path, isSeparator c = false) ∨
    ∃ a c b, path = a ++ c :: b ∧ isSeparator c = true ∧ ∀ d ∈ b, isSeparator d = false
  | [] => .inl nofun
  | c :: path => by
    rcases exists_last_separator path with h | ⟨a, d, b, rfl, hd, hb⟩
    · by_cases hc : isSeparator c = true
      · exact .inr ⟨[], c, path, rfl, hc, h⟩
      · exact .inl (List.forall_mem_cons.2 ⟨Bool.of_not_eq_true hc, h⟩)
    · exact .inr ⟨c :: a, d, b, rfl, hd, hb⟩

theorem stripFilenameFromPath_separator {a b : Str} {c : Char} (hc : isSeparator c = true)
    (hb : ∀ d ∈ b, isSeparator d = false) (hlen : 2 ≤ (a ++ c :: b).length)
    (hlt : (a ++ c :: b).length < 2 ^ 31) :
    stripFilenameFromPath (a ++ c :: b) = if a = [] then [c] else a := by
  have hsum : (a ++ c :: b).length = a.length + 1 + b.length := by simp; omega
  rw [stripFilenameFromPath, strlenInt_of_lt hlt, if_pos (by omega), Int.toNat_natCast, hsum]
  exact stripLoop_separator hc fun d hd => hb d (List.mem_of_mem_take hd)

theorem stripFilenameFromPath_none {path : Str} (h : ∀ c ∈ path, isSeparator c = false) :
    stripFilenameFromPath path = path := by
  unfold stripFilenameFromPath
  split
  · exact stripLoop_none fun c hc => h c (List.mem_of_mem_take hc)
  · rfl

/-- A path and what is left of it before its last separator. -/
theorem excludes_separator {a b folder : Str} {c : Char} (hc : isSeparator c = true)
    (hb : ∀ d ∈ b, isSeparator d = false) : Excludes (a ++ c :: b) folder ↔
      1 < folder.length ∧ folder = a ++ c :: b ∨ Excludes a folder := by
  constructor
  · rintro ⟨hlen, rfl | ⟨d, rest, hd, heq⟩⟩
    · exact .inl ⟨hlen, rfl⟩
    · refine .inr ⟨hlen, ?_⟩
      -- the cut is at the last separator, or before it
      rcases List.append_eq_append_iff.1 heq with ⟨t, rfl, ht⟩ | ⟨t, rfl, ht⟩
      · cases t with
        | nil => exact .inl (List.append_nil a)
        | cons e t =>
          have hmem : d ∈ b := by
            rw [(List.cons.inj ht).2]
            simp
          rw [hb d hmem] at hd
          cases hd
      · cases t with
        | nil => exact .inl (List.append_nil folder).symm
        | cons e t =>
          obtain rfl : d = e := (List.cons.inj ht).1
          exact .inr ⟨d, t, hd, rfl⟩
  · rintro (⟨hlen, rfl⟩ | ⟨hlen, rfl | ⟨d, rest, hd, rfl⟩⟩)
    · exact ⟨hlen, .inl rfl⟩
    · exact ⟨hlen, .inr ⟨c, b, hc, rfl⟩⟩
    · exact ⟨hlen, .inr ⟨d, rest ++ c :: b, hd, by simp⟩⟩

theorem excludes_none {path folder : Str} (h : ∀ c ∈ path, isSeparator c = false) :
    Excludes path folder ↔ 1 < folder.length ∧ folder = path := by
  refine and_congr_right fun _ => or_iff_left ?_
  rintro ⟨c, rest, hc, rfl⟩
  rw [h c (by simp)] at hc
  cases hc

theorem firstComponent_separator {a b : Str} {c : Char} (hc : isSeparator c = true) :
    firstComponent (a ++ c :: b) = firstComponent a := by
  rw [firstComponent, List.takeWhile_append, List.takeWhile_cons_of_neg (by simp [hc]),
    List.append_nil, firstComponent]
  split
  · rename_i h
    rw [(List.takeWhile_sublist _).eq_of_length h]
  · rfl

/-- A text of one character at most excludes nothing. -/
theorem not_excludes_of_length {entry folder : Str} (h : entry.length ≤ 1) :
    ¬ Excludes entry folder := by
  rintro ⟨hlen, rfl | ⟨c, rest, -, rfl⟩⟩
  · omega
  · rw [List.length_append] at h
    omega

/-- A path without a separator is never cut. -/
theorem matchLoop_none {folder path : Str} (h : ∀ c ∈ path, isSeparator c = false)
    (hlen : 2 ≤ path.length) (hne : folder ≠ path) :
    ∀ fuel, matchLoop folder fuel path = none
  | 0 => rfl
  | fuel + 1 => by
    rw [matchLoop, if_pos (show path.length > 1 from hlen), if_neg hne,
      stripFilenameFromPath_none h]
    exact matchLoop_none h hlen hne fuel

/-- **The inner loop**: it finds a match, or ends at a first component of one character at most, or
does not end. -/
theorem matchLoop_cases (folder : Str) : ∀ {fuel : Nat} {path : Str}, path.length < 2 ^ 31 →
    path.length < fuel →
    Excludes path folder ∧ matchLoop folder fuel path = some true ∨
      ¬ Excludes path folder ∧ (firstComponent path).length ≤ 1 ∧
        matchLoop folder fuel path = some false ∨
      ¬ Excludes path folder ∧ 2 ≤ (firstComponent path).length ∧
        matchLoop folder fuel path = none
  | 0, _, _, hf => absurd hf (Nat.not_lt_zero _)
  | fuel + 1, path, hlt, hf => by
    rw [matchLoop]
    by_cases hlen : path.length > 1
    · rw [if_pos hlen]
      by_cases heq : folder = path
      · rw [if_pos heq]
        exact .inl ⟨⟨heq ▸ hlen, .inl heq⟩, rfl⟩
      rw [if_neg heq]
      rcases exists_last_separator path with hnone | ⟨a, c, b, rfl, hc, hb⟩
      · refine .inr (.inr ⟨?_, ?_, ?_⟩)
        · rw [excludes_none hnone]
          exact fun h => heq h.2
        · rw [firstComponent, List.takeWhile_eq_self_iff.2 fun c hm => by rw [hnone c hm]; rfl]
          exact hlen
        · rw [stripFilenameFromPath_none hnone]
          exact matchLoop_none hnone hlen heq fuel
      · have hexcl : Excludes (a ++ c :: b) folder ↔ Excludes a folder := by
          rw [excludes_separator hc hb]
          exact or_iff_right fun h => heq h.2
        rw [stripFilenameFromPath_separator hc hb hlen hlt, hexcl, firstComponent_separator hc]
        by_cases ha : a = []
        · -- the root is left
          subst ha
          obtain ⟨n, rfl⟩ : ∃ n, fuel = n + 1 := ⟨fuel - 1, by omega⟩
          exact .inr (.inl ⟨not_excludes_of_length (Nat.zero_le 1), Nat.zero_le 1, rfl⟩)
        · rw [if_neg ha]
          rw [List.length_append, List.length_cons] at hlt hf
          exact matchLoop_cases folder (by omega) (by omega)
    · rw [if_neg hlen]
      have hle : path.length ≤ 1 := Nat.le_of_not_lt hlen
      exact .inr (.inl ⟨not_excludes_of_length hle,
        (length_firstComponent_le path).trans hle, rfl⟩)

/-! ### The list -/

/-- An entry of the list: not empty, without a NUL, and with room for its end in `tempFolder`. -/
def IsEntry (entry : Str) : Prop :=
  entry ≠ [] ∧ '\x00' ∉ entry ∧ entry.length < tempFolderSize

/-- No entry is reached with which the search does not end. -/
def Reached (entries : List Str) (folder : Str) : Prop :=
  ∀ before entry after, entries = before ++ entry :: after →
    2 ≤ (firstComponent entry).length → ∃ e ∈ before ++ [entry], Excludes e folder

theorem reached_cons {entry folder : Str} {entries : List Str} :
    Reached (entry :: entries) folder ↔
      Excludes entry folder ∨ (firstComponent entry).length ≤ 1 ∧ Reached entries folder := by
  constructor
  · intro h
    by_cases hex : Excludes entry folder
    · exact .inl hex
    · refine .inr ⟨?_, fun before e after heq hlen => ?_⟩
      · by_contra hlen
        obtain ⟨e, he, hexe⟩ := h [] entry entries rfl (by omega)
        exact hex (List.mem_singleton.1 he ▸ hexe)
      · obtain ⟨e', he', hexe⟩ := h (entry :: before) e after (by rw [heq]; rfl) hlen
        rcases List.mem_cons.1 he' with rfl | he'
        · exact absurd hexe hex
        · exact ⟨e', he', hexe⟩
  · rintro (hex | ⟨hlen, h⟩) before e after heq he
    · cases before with
      | nil =>
        obtain ⟨rfl, -⟩ := List.cons.inj heq
        exact ⟨entry, .head _, hex⟩
      | cons e' before =>
        obtain ⟨rfl, -⟩ := List.cons.inj heq
        exact ⟨entry, .head _, hex⟩
    · cases before with
      | nil =>
        obtain ⟨rfl, -⟩ := List.cons.inj heq
        omega
      | cons e' before =>
        obtain ⟨rfl, hrest⟩ := List.cons.inj heq
        obtain ⟨e', he', hexe⟩ := h before e after hrest he
        exact ⟨e', .tail _ he', hexe⟩

/-- One entry of the list. -/
theorem entryLoop_cons {entry folder : Str} (h : IsEntry entry) (steps fuel : Nat)
    (entries : List Str) : entryLoop folder steps (fuel + 1) (fileListOf (entry :: entries)) =
      match matchLoop folder steps entry with
      | none => .running
      | some true => .returned true
      | some false => entryLoop folder steps fuel (fileListOf entries) := by
  obtain ⟨hne, hnul, hlen⟩ := h
  have hmem : fileListOf (entry :: entries) = entry ++ '\x00' :: fileListOf entries := by
    simp [fileListOf]
  have hcstr : cstr (entry ++ '\x00' :: fileListOf entries) = entry := by
    rw [cstr_append_nul, cstr_eq_self_iff.2 hnul]
  have hdrop : (entry ++ '\x00' :: fileListOf entries).drop (entry.length + 1) =
      fileListOf entries := List.drop_length_add_append 1
  rw [hmem, entryLoop, if_neg (by simp), hcstr, if_neg hne, if_neg (Nat.not_le.2 hlen), hdrop]

theorem entryLoop_nil (folder : Str) (steps fuel : Nat) :
    entryLoop folder steps (fuel + 1) (fileListOf []) = .returned false := by
  rfl

/-- **The search**: it returns the right answer, or does not end. -/
theorem entryLoop_cases (folder : Str) {steps : Nat} (hsteps : tempFolderSize ≤ steps) :
    ∀ {entries : List Str} {fuel : Nat}, (∀ e ∈ entries, IsEntry e) → entries.length < fuel →
    Reached entries folder ∧ (∃ found,
        entryLoop folder steps fuel (fileListOf entries) = .returned found ∧
        (found = true ↔ ∃ e ∈ entries, Excludes e folder)) ∨
      ¬ Reached entries folder ∧ entryLoop folder steps fuel (fileListOf entries) = .running
  | _, 0, _, hf => absurd hf (Nat.not_lt_zero _)
  | [], fuel + 1, _, _ => .inl ⟨fun before _ _ heq => by simp at heq,
      false, entryLoop_nil folder steps fuel, by simp⟩
  | entry :: entries, fuel + 1, h, hf => by
    obtain ⟨hentry, hentries⟩ := List.forall_mem_cons.1 h
    have hlen : entry.length < tempFolderSize := hentry.2.2
    have hsize : tempFolderSize = 256 := rfl
    rw [entryLoop_cons hentry, reached_cons]
    rcases matchLoop_cases folder (show entry.length < 2 ^ 31 by omega)
      (Nat.lt_of_lt_of_le hlen hsteps) with ⟨hex, hm⟩ | ⟨hex, hfirst, hm⟩ | ⟨hex, hfirst, hm⟩
    · rw [hm]
      exact .inl ⟨.inl hex, true, rfl, iff_of_true rfl ⟨entry, .head _, hex⟩⟩
    · rw [hm, or_iff_right hex, and_iff_right hfirst]
      rcases entryLoop_cases folder hsteps hentries (Nat.lt_of_succ_lt_succ hf) with
        ⟨hr, found, hret, hfound⟩ | hrun
      · refine .inl ⟨hr, found, hret, hfound.trans ?_⟩
        simp only [List.mem_cons, exists_eq_or_imp, or_iff_right hex]
      · exact .inr hrun
    · rw [hm, or_iff_right hex]
      exact .inr ⟨fun h => by omega, rfl⟩

/-- **When the search ends with the right answer**: if each entry whose first component has two
characters or more is a match, or comes after one. -/
theorem isFolderInFileList_iff {entries : List Str} (folder : Str)
    (h : ∀ e ∈ entries, IsEntry e) : Exact entries folder ↔ Reached entries folder := by
  have hcases : ∀ fuel ≥ tempFolderSize + entries.length + 1,
      Reached entries folder ∧ (∃ found,
          isFolderInFileList fuel (fileListOf entries) folder = .returned found ∧
          (found = true ↔ ∃ e ∈ entries, Excludes e folder)) ∨
        ¬ Reached entries folder ∧
          isFolderInFileList fuel (fileListOf entries) folder = .running :=
    fun fuel hfuel => entryLoop_cases folder (by omega) h (by omega)
  constructor
  · rintro ⟨bound, found, hret, -⟩
    rcases hcases (bound + tempFolderSize + entries.length + 1) (by omega) with
      hr | ⟨-, hrun⟩
    · exact hr.1
    · rw [hret _ (by omega)] at hrun
      cases hrun
  · intro hr
    have hall : ∀ found : Bool, (found = true ↔ ∃ e ∈ entries, Excludes e folder) →
        Exact entries folder := by
      refine fun found hfound => ⟨tempFolderSize + entries.length + 1, found,
        fun fuel hfuel => ?_, hfound⟩
      rcases hcases fuel hfuel with ⟨-, found', hret, hfound'⟩ | ⟨hn, -⟩
      · rw [hret, Bool.eq_iff_iff.2 (hfound'.trans hfound.symm)]
      · exact absurd hr hn
    by_cases hex : ∃ e ∈ entries, Excludes e folder
    · exact hall true (iff_of_true rfl hex)
    · exact hall false (iff_of_false Bool.false_ne_true hex)

/-- A list of absolute paths. -/
theorem isFolderInFileList_absolute :
    Exact ["/var/log".toList, "/etc/ssh/keys".toList] "/etc".toList := by
  refine (isFolderInFileList_iff "/etc".toList (by unfold IsEntry; decide)).2 ?_
  refine reached_cons.2 (.inr ⟨by decide, reached_cons.2 (.inr ⟨by decide, ?_⟩)⟩)
  exact fun before _ _ heq => by simp at heq

/-- A file in the list that is not below a folder: the search does not end. -/
theorem isFolderInFileList_running : IsEntry "readme".toList ∧
    (∀ fuel, isFolderInFileList fuel (fileListOf ["readme".toList]) "/tmp".toList = .running) ∧
      ¬ Exact ["readme".toList] "/tmp".toList := by
  have hentry : IsEntry "readme".toList := by unfold IsEntry; decide
  have hplain := (show IsFilename "readme".toList by decide).2
  have hrun : ∀ fuel, isFolderInFileList fuel (fileListOf ["readme".toList]) "/tmp".toList =
      .running := by
    intro fuel
    cases fuel with
    | zero => rfl
    | succ fuel =>
      rw [isFolderInFileList, entryLoop_cons hentry,
        matchLoop_none hplain (by decide) (by decide)]
  refine ⟨hentry, hrun, ?_⟩
  rintro ⟨bound, found, hret, -⟩
  have h := hret bound (Nat.le_refl _)
  rw [hrun] at h
  cases h

end FileUtility
