import Graviton.Utility.SystemDetails
import Mathlib.Data.List.DropRight

/-!
# `SetSystemDetails`: the release

What is found in `/etc/os-release`. Each pass looks for the two keys anywhere in the buffer, and
takes what stands at a fixed place in it: one character behind the `=`, where a quote would be.

* `standing`: what the buffer has at a place, by the pieces that were read into it.
* `releaseLoop_eq`: what the passes come to.
* `setSystemDetails_released_iff`: when that is the name and the number of the file.
* `inPlace_iff`: the condition where each key is in its own line only.
-/

namespace OsInterface

open Lib

/-! ## The buffer -/

/-- What `str` holds after some pieces. -/
def buffer (pieces : List Str) : Str := pieces.foldl fgets (List.replicate strSize '\x00')

/-- The C string at an offset. -/
def behind (str : Str) (offset : Nat) : Str := cstr (str.drop offset)

/-- What stands in the buffer from an offset on, after some pieces: the rest of the last one that
comes so far. -/
def standing (pieces : List Str) (offset : Nat) : Str :=
  ((pieces.filter fun piece => offset ≤ piece.length).getLastD []).drop offset

/-- A piece that the buffer can take. -/
structure Fits (piece : Str) : Prop where
  nul : '\x00' ∉ piece
  length : piece.length < strSize

theorem Fits.strstr_iff {piece : Str} (h : Fits piece) {needle : Str} :
    (strstr piece needle).isSome ↔ needle <:+: piece := by
  rw [strstr, cstr_eq_self_iff.2 h.nul, find_isSome_iff]

theorem buffer_concat (pieces : List Str) (piece : Str) :
    buffer (pieces ++ [piece]) = fgets (buffer pieces) piece := by
  rw [buffer, List.foldl_append, List.foldl_cons, List.foldl_nil, ← buffer]

theorem standing_concat (pieces : List Str) (piece : Str) (offset : Nat) :
    standing (pieces ++ [piece]) offset =
      if offset ≤ piece.length then piece.drop offset else standing pieces offset := by
  rw [standing, List.filter_append, List.filter_singleton]
  by_cases h : offset ≤ piece.length
  · rw [if_pos h, decide_eq_true h, cond_true, List.getLastD_concat]
  · rw [if_neg h, decide_eq_false h, cond_false, List.append_nil, ← standing]

section
variable {pieces : List Str} (h : ∀ piece ∈ pieces, Fits piece)
include h

theorem length_buffer : (buffer pieces).length = strSize := by
  induction pieces using List.reverseRecOn with
  | nil => exact List.length_replicate
  | append_singleton pieces piece ih =>
    have hlen := ih fun p hp => h p (List.mem_append_left _ hp)
    have hpiece := (h piece (by simp)).length
    rw [buffer_concat, length_fgets (hpiece.trans_eq hlen.symm), hlen]

/-- **The buffer**, at a place that a piece comes to, or not. -/
theorem behind_buffer (offset : Nat) : behind (buffer pieces) offset = standing pieces offset := by
  induction pieces using List.reverseRecOn with
  | nil =>
    rw [buffer, List.foldl_nil, behind, List.drop_replicate, standing, List.filter_nil]
    cases strSize - offset with
    | zero => exact List.drop_nil.symm
    | succ k => exact List.drop_nil.symm
  | append_singleton pieces piece ih =>
    obtain ⟨hnul, hpiece⟩ := h piece (by simp)
    have hpieces : ∀ p ∈ pieces, Fits p := fun p hp => h p (List.mem_append_left _ hp)
    rw [buffer_concat, standing_concat, behind]
    split
    · rename_i ho
      have hnul' : '\x00' ∉ piece.drop offset := fun hm => hnul (List.mem_of_mem_drop hm)
      rw [fgets, List.drop_append_of_le_length ho, cstr_append_nul, cstr_eq_self_iff.2 hnul']
    · rename_i ho
      have hdrop : (fgets (buffer pieces) piece).drop offset = (buffer pieces).drop offset := by
        rw [fgets, List.append_cons, List.drop_append, List.drop_of_length_le, List.nil_append,
          List.drop_drop]
        · congr 1
          simp
          omega
        · simp
          omega
      rw [hdrop, ← behind, ih hpieces]

end

/-! ## The passes -/

def versionKey : Str := "VERSION_ID".toList

def nameKey : Str := "PRETTY_NAME".toList

def versionAt : Nat := "VERSION_ID=".length + 1

def nameAt : Nat := "PRETTY_NAME=".length + 1

def hasVersion (str : Str) : Bool := (strstr str versionKey).isSome

/-- The name is looked for where there is no version. -/
def hasName (str : Str) : Bool := !hasVersion str && (strstr str nameKey).isSome

/-- The pieces up to the last one with a key. -/
def upTo (has : Str → Bool) (pieces : List Str) : List Str :=
  pieces.rdropWhile fun piece => !has piece

def nameIn (str : Str) : Str := (eraseBack ['\n', '"'] str).getD []

/-- Where a name is found, something stands at its place. -/
def NamesThere (pieces : List Str) : Prop :=
  ∀ before piece, before ++ [piece] <+: pieces → hasName piece →
    standing (before ++ [piece]) nameAt ≠ []

/-- The members after the passes: the last name and the last number stay. -/
def scanned (pieces : List Str) (osi : OsInterface) : OsInterface :=
  { osi with
    osName :=
      if upTo hasName pieces = [] then osi.osName
      else nameIn (standing (upTo hasName pieces) nameAt)
    osVersion :=
      if upTo hasVersion pieces = [] then osi.osVersion
      else strToInt (standing (upTo hasVersion pieces) versionAt) }

theorem upTo_concat (has : Str → Bool) (pieces : List Str) (piece : Str) :
    upTo has (pieces ++ [piece]) = if has piece then pieces ++ [piece] else upTo has pieces := by
  rw [upTo, List.rdropWhile_concat, upTo]
  cases has piece <;> rfl

theorem upTo_eq_nil_iff {has : Str → Bool} {pieces : List Str} :
    upTo has pieces = [] ↔ ∀ piece ∈ pieces, ¬has piece := by
  rw [upTo, List.rdropWhile_eq_nil_iff]
  exact forall₂_congr fun piece _ => by rw [Bool.not_eq_true', Bool.not_eq_true]

theorem upTo_cases (has : Str → Bool) (pieces : List Str) :
    upTo has pieces = [] ∨ ∃ before piece, upTo has pieces = before ++ [piece] ∧ has piece ∧
      before ++ [piece] <+: pieces := by
  by_cases hnil : upTo has pieces = []
  · exact .inl hnil
  · have hlast : ¬(!has ((upTo has pieces).getLast hnil)) = true :=
      List.rdropWhile_last_not _ _ hnil
    refine .inr ⟨_, _, (List.dropLast_append_getLast hnil).symm, by simpa using hlast, ?_⟩
    rw [List.dropLast_append_getLast hnil]
    exact List.rdropWhile_prefix _ _

theorem not_hasName {str : Str} (h : hasVersion str) : ¬hasName str := by
  rw [hasName, h]
  exact Bool.false_ne_true

theorem namesThere_concat {pieces : List Str} {piece : Str} : NamesThere (pieces ++ [piece]) ↔
    NamesThere pieces ∧ (hasName piece → standing (pieces ++ [piece]) nameAt ≠ []) := by
  constructor
  · intro h
    exact ⟨fun before x hx => h before x (hx.trans (List.prefix_append _ _)),
      h pieces piece List.prefix_rfl⟩
  · rintro ⟨hall, hpiece⟩ before x hx
    rcases List.prefix_concat_iff.1 hx with heq | hx
    · obtain ⟨rfl, hsame⟩ := List.append_inj' heq rfl
      rw [List.singleton_inj.1 hsame]
      exact hpiece
    · exact hall before x hx

theorem strstr_piece {piece : Str} (h : '\x00' ∉ piece) (str needle : Str) :
    (strstr (fgets str piece) needle).isSome = (strstr piece needle).isSome := by
  rw [strstr, strstr, cstr_fgets h, cstr_eq_self_iff.2 h]

/-- **A pass**: undefined where nothing follows the place of the name. -/
theorem releaseLine_buffer {pieces : List Str} {piece : Str}
    (h : ∀ p ∈ pieces ++ [piece], Fits p) (osi : OsInterface) :
    releaseLine (buffer (pieces ++ [piece])) osi =
      if hasVersion piece then
        some { osi with osVersion := strToInt (standing (pieces ++ [piece]) versionAt) }
      else if hasName piece then
        if standing (pieces ++ [piece]) nameAt = [] then none
        else some { osi with osName := nameIn (standing (pieces ++ [piece]) nameAt) }
      else some osi := by
  have hfrom : ∀ offset : Nat, offset < strSize →
      strFrom (buffer (pieces ++ [piece])) offset =
        some (standing (pieces ++ [piece]) offset) := by
    intro offset ho
    rw [strFrom, length_buffer h, if_pos ho, ← behind, behind_buffer h]
  have hstr : ∀ needle, (strstr (buffer (pieces ++ [piece])) needle).isSome =
      (strstr piece needle).isSome := fun needle => by
    rw [buffer_concat, strstr_piece (h piece (by simp)).nul]
  rw [releaseLine, hstr, hstr]
  by_cases hv : hasVersion piece
  · rw [if_pos hv, show (strstr piece "VERSION_ID".toList).isSome = true from hv, if_pos rfl]
    exact congrArg (Option.map _) (hfrom versionAt (by decide))
  · rw [if_neg hv, if_neg (show ¬(strstr piece "VERSION_ID".toList).isSome = true from hv)]
    have hname : hasName piece = (strstr piece "PRETTY_NAME".toList).isSome := by
      rw [hasName, Bool.eq_false_of_not_eq_true hv]
      rfl
    rw [hname]
    split
    · show (strFrom _ nameAt).bind _ = _
      rw [hfrom nameAt (by decide), Option.bind_some]
      by_cases hend : standing (pieces ++ [piece]) nameAt = []
      · rw [if_pos hend, hend]
        rfl
      · obtain ⟨osName, hosName⟩ :
            ∃ s, eraseBack ['\n', '"'] (standing (pieces ++ [piece]) nameAt) = some s :=
          Option.ne_none_iff_exists'.1 fun hnone => hend (eraseBack_eq_none_iff.1 hnone)
        rw [if_neg hend, nameIn, hosName]
        rfl
    · rfl

theorem releaseLoop_concat (piece : Str) : ∀ (pieces : List Str) (str : Str) (osi : OsInterface),
    releaseLoop (pieces ++ [piece]) str osi =
      (releaseLoop pieces str osi).bind (releaseLine ((pieces ++ [piece]).foldl fgets str))
  | [], str, osi => by
    show (releaseLine (fgets str piece) osi).bind some = releaseLine (fgets str piece) osi
    cases releaseLine (fgets str piece) osi <;> rfl
  | path :: pieces, str, osi => by
    rw [List.cons_append, releaseLoop, releaseLoop, List.foldl_cons, Option.bind_assoc]
    exact Option.bind_congr fun osi1 _ => releaseLoop_concat piece pieces _ osi1

/-- **The passes**, by induction on the pieces from the last one on. -/
theorem releaseLoop_eq {pieces : List Str} (h : ∀ piece ∈ pieces, Fits piece)
    (osi : OsInterface) :
    (NamesThere pieces →
        releaseLoop pieces (List.replicate strSize '\x00') osi = some (scanned pieces osi)) ∧
      (¬NamesThere pieces → releaseLoop pieces (List.replicate strSize '\x00') osi = none) := by
  induction pieces using List.reverseRecOn with
  | nil =>
    refine ⟨fun _ => rfl, fun hn => absurd ?_ hn⟩
    intro before piece hp
    simp at hp
  | append_singleton pieces piece ih =>
    obtain ⟨hsome, hnone⟩ := ih fun p hp => h p (List.mem_append_left _ hp)
    rw [releaseLoop_concat, ← buffer, namesThere_concat]
    by_cases hall : NamesThere pieces
    · rw [hsome hall, Option.bind_some, releaseLine_buffer h, and_iff_right hall]
      have hne : ∀ {α : Type} (a b : α), (if pieces ++ [piece] = [] then a else b) = b :=
        fun a b => if_neg (by simp)
      by_cases hv : hasVersion piece
      · rw [if_pos hv]
        refine ⟨fun _ => ?_, fun hn => absurd (fun hc => absurd hc (not_hasName hv)) hn⟩
        rw [scanned, scanned, upTo_concat, upTo_concat, if_pos hv, if_neg (not_hasName hv), hne]
      · rw [if_neg hv]
        by_cases hn : hasName piece
        · rw [if_pos hn, forall_prop_of_true hn]
          refine ⟨fun hstand => ?_, fun hstand => if_pos (not_not.1 hstand)⟩
          rw [if_neg hstand, scanned, scanned, upTo_concat, upTo_concat, if_neg hv, if_pos hn, hne]
        · rw [if_neg hn]
          refine ⟨fun _ => ?_, fun hc => absurd (fun hc => absurd hc hn) hc⟩
          rw [scanned, scanned, upTo_concat, upTo_concat, if_neg hv, if_neg hn]
    · rw [hnone hall]
      exact ⟨fun hc => absurd hc.1 hall, fun _ => rfl⟩

/-! ## The text -/

/-- A value as it is written. -/
def written (quoted : Bool) (value : Str) : Str :=
  if quoted then '"' :: (value ++ ['"']) else value

/-- A line of the file. -/
def keyLine (key : Str) (quoted : Bool) (value : Str) : Str := key ++ '=' :: written quoted value

/-- A text of lines, with what follows the last of them, and the two values. -/
structure OsReleaseText where
  lines : List Str
  last : Str
  name : Str
  nameQuoted : Bool
  version : Str
  versionQuoted : Bool

namespace OsReleaseText

variable (r : OsReleaseText)

def text : Str := unlines r.lines ++ r.last

def nameLine : Str := keyLine nameKey r.nameQuoted r.name

def versionLine : Str := keyLine versionKey r.versionQuoted r.version

/-- The number at the start of the version. -/
def number : Nat := numeral 10 (r.version.takeWhile isDigit)

/-- What `fgets` reads. -/
def pieces : List Str := reads strSize r.text

/-- A key is on one line, its own, and that is shorter than the buffer. -/
structure OnLine (key line : Str) : Prop where
  mem : line ∈ r.lines
  short : line.length < strSize
  only : ∀ l ∈ r.lines, key ++ ['='] <+: l → l = line
  last : ¬key ++ ['='] <+: r.last

end OsReleaseText

/-- The text of `/etc/os-release`. -/
structure OsRelease extends OsReleaseText where
  nul : '\x00' ∉ toOsReleaseText.text
  newline : ∀ l ∈ last :: lines, '\n' ∉ l
  nameOnLine : toOsReleaseText.OnLine nameKey toOsReleaseText.nameLine
  versionOnLine : toOsReleaseText.OnLine versionKey toOsReleaseText.versionLine
  quotes : '"' ∉ name ∧ '"' ∉ version
  digit : ∃ d s, version = d :: s ∧ isDigit d = true

/-- The name and the number are those of the file. -/
structure Released (r : OsRelease) (osi : OsInterface) : Prop where
  name : osi.osName = r.name
  version : osi.osVersion = r.number

/-- A value, with one more newline or quote at most. -/
def Closed (s value : Str) : Prop := s = value ∨ s = value ++ ['\n'] ∨ s = value ++ ['"']

/-- A text starts with a number that fits an `unsigned long`, and that is `n` as an `int`. -/
def Reads (s : Str) (n : Nat) : Prop :=
  (leading s).2 < 2 ^ 64 ∧ n < 2 ^ 31 ∧
    if (leading s).1 then ((leading s).2 + n) % 2 ^ 32 = 0 else (leading s).2 % 2 ^ 32 = n

instance (s : Str) (n : Nat) : Decidable (Reads s n) := inferInstanceAs (Decidable (_ ∧ _ ∧ _))

/-- The values stand where they are looked for: something, wherever a name is found; in the last
such pass the value, and one more character at most; and in the last one for a version the number
can be read. -/
structure InPlace (r : OsRelease) (prior : OsInterface) : Prop where
  nonempty : NamesThere r.pieces
  name : upTo hasName r.pieces ≠ [] →
    Closed (standing (upTo hasName r.pieces) nameAt) r.name
  unnamed : upTo hasName r.pieces = [] → prior.osName = r.name
  version : Reads (standing (upTo hasVersion r.pieces) versionAt) r.number

/-- What is erased at the end is one newline or quote. -/
theorem eraseBack_closed {s value : Str} (hs : s ≠ []) (hnewline : '\n' ∉ value)
    (hquote : '"' ∉ value) : (eraseBack ['\n', '"'] s).getD [] = value ↔ Closed s value := by
  obtain ⟨t, c, rfl⟩ := (List.eq_nil_or_concat' s).resolve_left hs
  have hnot : c ∈ ['\n', '"'] → t ++ [c] ≠ value := by
    rintro hc rfl
    rcases List.mem_pair.1 hc with rfl | rfl
    · exact hnewline (by simp)
    · exact hquote (by simp)
  rw [eraseBack_append, Option.getD_some]
  by_cases hc : c ∈ ['\n', '"']
  · rw [if_pos hc, Closed, or_iff_right (hnot hc)]
    constructor
    · rintro rfl
      rcases List.mem_pair.1 hc with rfl | rfl
      · exact .inl rfl
      · exact .inr rfl
    · rintro (h | h) <;> exact (List.append_inj' h rfl).1
  · rw [if_neg hc, Closed]
    refine ⟨.inl, fun h => h.resolve_right ?_⟩
    rintro (h | h) <;>
      · obtain ⟨-, heq⟩ := List.append_inj' h rfl
        refine hc ?_
        rw [List.cons.inj heq |>.1]
        decide

/-- What `strtoul` returns, as an `int`. -/
theorem strToInt_eq_iff {s : Str} {n : Nat} : strToInt s = n ↔ Reads s n := by
  rw [strToInt, strtoul_ten, Reads]
  generalize (leading s).2 = m
  have hcast : ∀ v : BitVec 64, (v.setWidth 32).toInt = n ↔ n < 2 ^ 31 ∧ v.toNat % 2 ^ 32 = n := by
    intro v
    rw [BitVec.toInt_eq_toNat_cond, BitVec.toNat_setWidth]
    split <;> omega
  split
  · rename_i hm
    rw [hcast]
    refine iff_of_false (fun h => ?_) fun h => absurd h.1 (Nat.not_lt.2 hm)
    rw [show (BitVec.allOnes 64).toNat % 2 ^ 32 = 2 ^ 32 - 1 by decide] at h
    omega
  · rename_i hm
    rw [and_iff_right (Nat.lt_of_not_le hm)]
    split
    · rw [hcast, BitVec.toNat_neg, BitVec.toNat_ofNat]
      omega
    · rw [hcast, BitVec.toNat_ofNat]
      omega

/-! ## The pieces -/

/-- What is read first of a line of the file. -/
def ended (l : Str) : Str := l ++ if l.length + 1 < strSize then ['\n'] else []

theorem reads_short {l : Str} (h : '\n' ∉ l) (hshort : l.length < strSize) :
    ∃ rest, reads strSize (l ++ ['\n']) = ended l :: rest ∧ (rest = [] ∨ rest = [['\n']]) := by
  by_cases hfits : l.length + 1 < strSize
  · rw [reads_line h hfits, reads_nil, ended, if_pos hfits]
    exact ⟨[], rfl, .inl rfl⟩
  · rw [reads_full (by decide) h (by omega), ended, if_neg hfits, List.append_nil]
    exact ⟨[['\n']], rfl, .inr rfl⟩

namespace OsRelease

variable (r : OsRelease)

theorem fits {p : Str} (h : p ∈ r.pieces) : Fits p := by
  refine ⟨fun hm => r.nul ((infix_of_mem_reads (by decide) h).subset hm), ?_⟩
  exact Nat.lt_of_le_of_lt (of_mem_reads (by decide) h).2 (by decide)

theorem mem_pieces_iff {p : Str} : p ∈ r.pieces ↔
    (∃ l ∈ r.lines, p ∈ reads strSize (l ++ ['\n'])) ∨ p ∈ reads strSize r.last := by
  rw [OsReleaseText.pieces, OsReleaseText.text,
    reads_unlines (by decide) (List.forall_mem_cons.1 r.newline).2, List.mem_append,
    List.mem_flatMap]

theorem ended_mem_pieces {key line : Str} (h : r.OnLine key line) : ended line ∈ r.pieces := by
  obtain ⟨rest, hreads, -⟩ := reads_short (r.newline line (.tail _ h.mem)) h.short
  refine r.mem_pieces_iff.2 (.inl ⟨line, h.mem, ?_⟩)
  rw [hreads]
  exact .head _

theorem prefix_ended (key : Str) (quoted : Bool) (value : Str) :
    key <+: ended (keyLine key quoted value) :=
  (List.prefix_append _ _).trans (List.prefix_append _ _)

theorem newline_name : '\n' ∉ r.name := by
  intro hm
  refine r.newline _ (.tail _ r.nameOnLine.mem) (List.mem_append_right _ (.tail _ ?_))
  rw [written]
  split
  · exact .tail _ (List.mem_append_left _ hm)
  · exact hm

/-- The number stands in the file, so some pass finds its key. -/
theorem upTo_hasVersion_ne_nil : upTo hasVersion r.pieces ≠ [] := by
  have hmem := r.ended_mem_pieces r.versionOnLine
  refine fun hnil => upTo_eq_nil_iff.1 hnil _ hmem ?_
  exact (r.fits hmem).strstr_iff.2 (prefix_ended _ _ _).isInfix

end OsRelease

/-! ## Keys in their own lines only -/

/-- No other line has the text of a key in it. -/
structure Once (r : OsRelease) : Prop where
  name : ∀ l ∈ r.lines, nameKey <:+: l → l = r.nameLine
  version : ∀ l ∈ r.lines, versionKey <:+: l → l = r.versionLine
  last : ¬nameKey <:+: r.last ∧ ¬versionKey <:+: r.last

/-- What stands behind the key, the `=` and one more character. -/
theorem drop_ended (key : Str) (quoted : Bool) (value : Str) : ∃ nl,
    (nl = [] ∨ nl = ['\n']) ∧
    (nl = [] ↔ strSize ≤ (keyLine key quoted value).length + 1) ∧
    (ended (keyLine key quoted value)).drop (key.length + 2) =
      (written quoted value ++ nl).tail := by
  refine ⟨if (keyLine key quoted value).length + 1 < strSize then ['\n'] else [], ?_, ?_, ?_⟩
  · split
    · exact .inr rfl
    · exact .inl rfl
  · split
    · exact iff_of_false (List.cons_ne_nil _ _) (by omega)
    · exact iff_of_true rfl (by omega)
  · rw [ended, keyLine, List.append_assoc, List.cons_append, List.drop_length_add_append,
      List.drop_succ_cons, List.drop_one]

theorem closed_iff {quoted : Bool} {value nl : Str} (hnewline : '\n' ∉ value)
    (hnl : nl = [] ∨ nl = ['\n']) :
    ((written quoted value ++ nl).tail ≠ [] ∧ Closed (written quoted value ++ nl).tail value) ↔
      quoted = true ∧ nl = [] := by
  rw [written]
  cases quoted with
  | true =>
    rw [if_pos rfl, List.cons_append, List.tail_cons]
    rcases hnl with rfl | rfl
    · simp [Closed]
    · refine iff_of_false (fun h => ?_) (by simp)
      rcases h.2 with h | h | h <;> simpa using congrArg List.length h
  | false =>
    rw [if_neg Bool.false_ne_true]
    refine iff_of_false (fun ⟨hne, hclosed⟩ => ?_) (fun h => Bool.false_ne_true h.1)
    cases value with
    | nil => rcases hnl with rfl | rfl <;> exact hne rfl
    | cons c value =>
      rw [List.cons_append, List.tail_cons] at hclosed
      -- the value's first character is missing
      have hlen : (value ++ nl).length ≤ value.length + 1 := by
        rcases hnl with rfl | rfl <;> simp
      rcases hclosed with h | h | h
      · rcases hnl with rfl | rfl
        · simpa using congrArg List.length h
        · exact hnewline (h ▸ by simp)
      · rw [h] at hlen
        simp at hlen
      · rw [h] at hlen
        simp at hlen

/-- A quoted number is read if it fits; of another, the first digit is missing. -/
theorem reads_tail_iff {quoted : Bool} {c : Char} (h : isDigit c = true) (s : Str) {nl : Str}
    (hnl : nl = [] ∨ nl = ['\n']) :
    Reads (written quoted (c :: s) ++ nl).tail (numeral 10 ((c :: s).takeWhile isDigit)) ↔
      if quoted then numeral 10 ((c :: s).takeWhile isDigit) < 2 ^ 31
      else Reads s (numeral 10 ((c :: s).takeWhile isDigit)) := by
  rw [written]
  cases quoted with
  | true =>
    have hstop : (c :: (s ++ '"' :: nl)).takeWhile isDigit = (c :: s).takeWhile isDigit :=
      takeWhile_isDigit_append_cons (by decide) (c :: s) nl
    rw [if_pos rfl, if_pos rfl, List.cons_append, List.tail_cons, List.append_assoc,
      List.cons_append, List.singleton_append, Reads, leading_of_digit h, hstop]
    simp only [Bool.false_eq_true, if_false]
    omega
  | false =>
    rw [if_neg Bool.false_ne_true, if_neg Bool.false_ne_true, List.cons_append, List.tail_cons]
    rcases hnl with rfl | rfl
    · rw [List.append_nil]
    · rw [Reads, leading_append_newline, ← Reads]

namespace OsRelease

variable (r : OsRelease)

/-- A piece with a key that is in one line only. -/
theorem eq_ended {key line p : Str} (hline : r.OnLine key line)
    (honce : ∀ l ∈ r.lines, key <:+: l → l = line) (hlast : ¬key <:+: r.last)
    (hkey : '\n' ∉ key) (hne : key ≠ []) (hp : p ∈ r.pieces) (h : key <:+: p) :
    p = ended line := by
  rcases r.mem_pieces_iff.1 hp with ⟨l, hl, hp⟩ | hp
  · have hoccurs := h.trans (infix_of_mem_reads (by decide) hp)
    obtain rfl : l = line := honce l hl ((infix_line_iff hkey hne l).1 hoccurs)
    obtain ⟨rest, hreads, hrest⟩ := reads_short (r.newline l (.tail _ hl)) hline.short
    rw [hreads] at hp
    rcases List.mem_cons.1 hp with hp | hp
    · exact hp
    · rcases hrest with rfl | rfl
      · cases hp
      · rw [List.mem_singleton.1 hp] at h
        have hnil := List.infix_nil.1 ((infix_line_iff hkey hne []).1 h)
        exact absurd hnil hne
  · exact absurd (h.trans (infix_of_mem_reads (by decide) hp)) hlast

/-- What such a pass finds behind the key. -/
theorem standing_eq {key : Str} {quoted : Bool} {value : Str}
    (hline : r.OnLine key (keyLine key quoted value))
    (honce : ∀ l ∈ r.lines, key <:+: l → l = keyLine key quoted value)
    (hlast : ¬key <:+: r.last) (hkey : '\n' ∉ key) (hne : key ≠ [])
    (hlen : key.length + 2 < strSize) {before : List Str} {piece : Str} (hp : piece ∈ r.pieces)
    (h : (strstr piece key).isSome) : standing (before ++ [piece]) (key.length + 2) =
      (ended (keyLine key quoted value)).drop (key.length + 2) := by
  have hpe := r.eq_ended hline honce hlast hkey hne hp ((r.fits hp).strstr_iff.1 h)
  have hlength : key.length + 1 ≤ (keyLine key quoted value).length := by
    rw [keyLine, List.length_append, List.length_cons]
    omega
  have hfits : key.length + 2 ≤ piece.length := by
    rw [hpe, ended, List.length_append]
    split
    · rw [List.length_singleton]
      omega
    · omega
  rw [standing_concat, if_pos hfits, hpe]

variable {r}

/-- A pass over the line of the name finds it, as the other key is not in it. -/
theorem exists_hasName (h : Once r) : ∃ piece ∈ r.pieces, hasName piece := by
  have hmem := r.ended_mem_pieces r.nameOnLine
  have hpfx : nameKey <+: ended r.nameLine := prefix_ended _ _ _
  have hversion : ¬versionKey <:+: ended r.nameLine := by
    intro hv
    have heq := r.eq_ended r.versionOnLine h.version h.last.2 (by decide) (by decide) hmem hv
    have hpfx' : versionKey <+: ended r.nameLine := heq ▸ prefix_ended _ _ _
    exact absurd (List.prefix_of_prefix_length_le hpfx' hpfx (by decide)) (by decide)
  refine ⟨_, hmem, ?_⟩
  rw [hasName, hasVersion, Bool.and_eq_true, Bool.not_eq_true', ← Bool.not_eq_true,
    (r.fits hmem).strstr_iff, (r.fits hmem).strstr_iff]
  exact ⟨hversion, hpfx.isInfix⟩

/-- **Each key once**: the name is read only where the line fills the buffer, so that its newline
is not read with it. -/
theorem inPlace_iff (h : Once r) (prior : OsInterface) :
    InPlace r prior ↔
      (r.nameQuoted = true ∧ r.nameLine.length = strSize - 1) ∧
        if r.versionQuoted then r.number < 2 ^ 31 else Reads r.version.tail r.number := by
  obtain ⟨nl, hnl, hfull, hdrop⟩ := drop_ended nameKey r.nameQuoted r.name
  obtain ⟨nl', hnl', -, hdrop'⟩ := drop_ended versionKey r.versionQuoted r.version
  have hname : ∀ before {piece}, piece ∈ r.pieces → hasName piece →
      standing (before ++ [piece]) nameAt = (written r.nameQuoted r.name ++ nl).tail :=
    fun _ _ hp hn => (r.standing_eq r.nameOnLine h.name h.last.1 (by decide) (by decide)
      (by decide) hp (Bool.and_eq_true_iff.1 hn).2).trans hdrop
  obtain ⟨piece, hp, hpiece⟩ := exists_hasName h
  have hfound : upTo hasName r.pieces ≠ [] := fun hnil => upTo_eq_nil_iff.1 hnil piece hp hpiece
  have hnonempty : NamesThere r.pieces ↔ (written r.nameQuoted r.name ++ nl).tail ≠ [] := by
    constructor
    · intro hall
      obtain ⟨before, after, hsplit⟩ := List.append_of_mem hp
      rw [← hname before hp hpiece]
      exact hall before piece ⟨after, by rw [hsplit]; simp⟩ hpiece
    · exact fun hne before x hx hn => (hname before (hx.subset (by simp)) hn).symm ▸ hne
  have hstand : standing (upTo hasName r.pieces) nameAt =
      (written r.nameQuoted r.name ++ nl).tail := by
    obtain ⟨before, x, hx, hn, hpfx⟩ := (upTo_cases hasName r.pieces).resolve_left hfound
    rw [hx, hname before (hpfx.subset (by simp)) hn]
  have hversion : standing (upTo hasVersion r.pieces) versionAt =
      (written r.versionQuoted r.version ++ nl').tail := by
    obtain ⟨before, x, hx, hv, hpfx⟩ :=
      (upTo_cases hasVersion r.pieces).resolve_left r.upTo_hasVersion_ne_nil
    rw [hx, ← hdrop']
    exact r.standing_eq r.versionOnLine h.version h.last.2 (by decide) (by decide) (by decide)
      (hpfx.subset (by simp)) hv
  have hfirst : (written r.nameQuoted r.name ++ nl).tail ≠ [] ∧
      Closed (written r.nameQuoted r.name ++ nl).tail r.name ↔
      r.nameQuoted = true ∧ r.nameLine.length = strSize - 1 := by
    have hshort := r.nameOnLine.short
    have hlength : nl = [] ↔ r.nameLine.length = strSize - 1 := by
      refine hfull.trans ?_
      show strSize ≤ r.nameLine.length + 1 ↔ _
      omega
    rw [closed_iff r.newline_name hnl, hlength]
  have hsecond : Reads (standing (upTo hasVersion r.pieces) versionAt) r.number ↔
      if r.versionQuoted then r.number < 2 ^ 31 else Reads r.version.tail r.number := by
    obtain ⟨d, s, hvalue, hd⟩ := r.digit
    rw [hversion, OsReleaseText.number, hvalue]
    exact reads_tail_iff hd s hnl'
  constructor
  · intro hl
    exact ⟨hfirst.1 ⟨hnonempty.1 hl.nonempty, hstand ▸ hl.name hfound⟩, hsecond.1 hl.version⟩
  · rintro ⟨hn, hv⟩
    obtain ⟨hne, hc⟩ := hfirst.2 hn
    exact ⟨hnonempty.2 hne, fun _ => hstand.symm ▸ hc, fun hnil => absurd hnil hfound,
      hsecond.2 hv⟩

end OsRelease

/-- **When the release is that of the file.** -/
theorem setSystemDetails_released_iff (r : OsRelease) {system : System}
    (hfile : system.osRelease = some r.text) (osi : OsInterface) :
    (∃ osi', setSystemDetails system osi = some osi' ∧ Released r osi') ↔
      (readCpuInfo system.cpuInfo osi).isSome ∧ (execute system.hostnamectl).isSome ∧
        InPlace r osi := by
  refine setSystemDetails_release_iff fun osi1 hsame => ?_
  obtain ⟨hsome, hnone⟩ := releaseLoop_eq (fun _ => r.fits) osi1
  rw [hfile]
  show (∃ osi', releaseLoop r.pieces (List.replicate strSize '\x00') osi1 = some osi' ∧
    Released r osi') ↔ _
  by_cases hall : NamesThere r.pieces
  swap
  · rw [hnone hall]
    exact iff_of_false (fun ⟨_, h, _⟩ => by cases h) fun h => hall h.nonempty
  have hversion : (scanned r.pieces osi1).osVersion = r.number ↔
      Reads (standing (upTo hasVersion r.pieces) versionAt) r.number := by
    rw [← strToInt_eq_iff]
    exact Eq.congr (if_neg r.upTo_hasVersion_ne_nil) rfl
  have hname : (scanned r.pieces osi1).osName = r.name ↔
      (upTo hasName r.pieces ≠ [] → Closed (standing (upTo hasName r.pieces) nameAt) r.name) ∧
        (upTo hasName r.pieces = [] → osi.osName = r.name) := by
    rcases upTo_cases hasName r.pieces with hnil | ⟨before, piece, hup, hn, hpfx⟩
    · have hosName : (scanned r.pieces osi1).osName = osi1.osName := if_pos hnil
      rw [hosName, hsame.1]
      exact ⟨fun h => ⟨fun hc => absurd hnil hc, fun _ => h⟩, fun h => h.2 hnil⟩
    · -- the last name is one that a pass finds, and so not empty
      have hne : upTo hasName r.pieces ≠ [] := by rw [hup]; simp
      have hosName : (scanned r.pieces osi1).osName =
          nameIn (standing (upTo hasName r.pieces) nameAt) := if_neg hne
      rw [hosName, nameIn, eraseBack_closed (hup ▸ hall before piece hpfx hn) r.newline_name
        r.quotes.1]
      exact ⟨fun h => ⟨fun _ => h, fun hc => absurd hc hne⟩, fun h => h.1 hne⟩
  rw [hsome hall]
  constructor
  · rintro ⟨osi', h, hreleased⟩
    cases h
    obtain ⟨h1, h2⟩ := hname.1 hreleased.name
    exact ⟨hall, h1, h2, hversion.1 hreleased.version⟩
  · intro h
    exact ⟨_, rfl, hname.2 ⟨h.name, h.unnamed⟩, hversion.2 h.version⟩

def centos : OsRelease where
  lines := ["ID=\"centos\"".toList, "VERSION_ID=\"7\"".toList,
    "PRETTY_NAME=\"CentOS Linux 7 (Core)\"".toList]
  last := []
  name := "CentOS Linux 7 (Core)".toList
  nameQuoted := true
  version := "7".toList
  versionQuoted := true
  nul := by decide
  newline := by decide
  nameOnLine := ⟨by decide, by decide, by decide, by decide⟩
  versionOnLine := ⟨by decide, by decide, by decide, by decide⟩
  quotes := by decide
  digit := ⟨'7', [], rfl, rfl⟩

/-- A usual file: the newline is erased, and the quote before it stays. -/
theorem setSystemDetails_centos :
    (setSystemDetails ⟨none, none, some centos.text⟩ initial).map (·.osName) =
        some "CentOS Linux 7 (Core)\"".toList ∧
      centos.name = "CentOS Linux 7 (Core)".toList := by
  decide +kernel

/-- A name whose line fills the buffer. -/
def longName : OsRelease where
  lines := ["VERSION_ID=\"7.6\"".toList, keyLine nameKey true (List.replicate 1009 'x')]
  last := []
  name := List.replicate 1009 'x'
  nameQuoted := true
  version := "7.6".toList
  versionQuoted := true
  nul := by decide +kernel
  newline := by decide +kernel
  nameOnLine := ⟨by decide +kernel, by decide +kernel, by decide +kernel, by decide⟩
  versionOnLine := ⟨by decide +kernel, by decide, by decide +kernel, by decide⟩
  quotes := by decide +kernel
  digit := ⟨'7', ".6".toList, rfl, rfl⟩

theorem setSystemDetails_released_longName :
    ∃ osi', setSystemDetails ⟨none, none, some longName.text⟩ initial = some osi' ∧
      Released longName osi' := by
  have honce : Once longName :=
    ⟨by decide +kernel, by decide +kernel, by decide +kernel⟩
  refine (setSystemDetails_released_iff longName rfl initial).2 ⟨rfl, rfl, ?_⟩
  exact (OsRelease.inPlace_iff honce _).2 (by decide +kernel)

end OsInterface
