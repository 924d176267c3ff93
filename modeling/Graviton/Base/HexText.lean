import Graviton.Base.Scan
import Graviton.Lib.Word

/-!
# The string constructors of `Mac` and `Ipv6`

`libs/base/mac.h` and `libs/base/ipv6.h`. Both collect hex digits into a `tmpstr[8]`, without a
bound on their number. A run of eight digits or more leaves `tmpstr` unterminated or writes past
it, and what the constructor stores is then undefined; the models go on with what is in the
buffer.

* `Ipv6.scan_eq`: `Ipv6` reads the pieces between colons, one for each word.
* `hexText_inBounds_iff`: for which texts the writes stay within `tmpstr`.
-/

open Lib AddressText

/-- What `strtoul` makes of `tmpstr[8]`. -/
def hexValue (tmpstr : Writes) : BitVec 64 := strtoul 16 (cstr (fill 8 tmpstr))

/-! ## `Mac` -/

/-- `Mac`, of the six bytes the constructor sets. -/
structure Mac where
  u8 : Vector Byte 6
  deriving DecidableEq

namespace Mac

/-- `Constant::MacByteLength`. -/
def macByteLength : Nat := 6

/-- The passes of `Mac(String)`. -/
def passes (inputString : Str) : List Writes :=
  scan isXDigit (fun _ => true) macByteLength (cstr inputString)

/-- `Mac(String)`. -/
def ofString (inputString : Str) : Mac :=
  ⟨⟨((passes inputString).map fun tmpstr => (hexValue tmpstr).setWidth 8).toArray, by
    rw [List.size_toArray, List.length_map, passes, scan_length, macByteLength]⟩⟩

/-- The writes of `Mac(String)` into `tmpstr`. -/
def tmpstrWrites (inputString : Str) : Writes := (passes inputString).flatten

end Mac

/-! ## `Ipv6` -/

structure Ipv6 where
  u16 : Vector (BitVec 16) 8
  deriving DecidableEq

namespace Ipv6

/-- `Constant::Ipv6WordLength`. -/
def ipv6WordLength : Nat := 8

/-- The variables of the loop of `Ipv6(String)`: the pointer, as a position in the text, the
words set so far, and the writes into `tmpstr`. -/
structure Scan where
  instr : Nat
  toConvert : Bool
  u16 : List (BitVec 16)
  tmpstr : Writes

namespace Scan

def init : Scan := ⟨0, true, [], []⟩

/-- The word: a group of digits, or zero for a second colon. -/
def word (s : Str) (st : Scan) : Scan :=
  if st.toConvert then
    let (tmpstr, _) := collect isXDigit (fun _ => true) 0 (s.drop st.instr)
    { st with
      instr := st.instr + tmpstr.length
      u16 := st.u16 ++ [(hexValue tmpstr).setWidth 16]
      tmpstr := st.tmpstr ++ tmpstr }
  else { st with instr := st.instr - 1, toConvert := true, u16 := st.u16 ++ [0] }

/-- The colons after it. -/
def colon (s : Str) (st : Scan) : Scan :=
  if s[st.instr]? = some ':' then
    if s[st.instr + 1]? = some ':' then { st with instr := st.instr + 2, toConvert := false }
    else { st with instr := st.instr + 1, toConvert := true }
  else st

/-- `n` passes of the loop. -/
def loop (s : Str) : Nat → Scan → Scan
  | 0, st => st
  | n + 1, st => loop s n ((st.word s).colon s)

theorem word_u16_length (s : Str) (st : Scan) : (st.word s).u16.length = st.u16.length + 1 := by
  unfold word
  split <;> simp

theorem colon_u16 (s : Str) (st : Scan) : (st.colon s).u16 = st.u16 := by
  unfold colon
  split
  · split <;> rfl
  · rfl

theorem loop_u16_length (s : Str) : ∀ (n : Nat) (st : Scan),
    (loop s n st).u16.length = st.u16.length + n
  | 0, _ => rfl
  | n + 1, st => by
    rw [loop, loop_u16_length s n, colon_u16, word_u16_length]
    omega

end Scan

/-- The loop of `Ipv6(String)`: each pass sets a word. -/
def scan (inputString : Str) : Scan := Scan.loop (cstr inputString) ipv6WordLength .init

/-- `Ipv6(String)`. -/
def ofString (inputString : Str) : Ipv6 :=
  ⟨⟨(scan inputString).u16.toArray, by
    rw [List.size_toArray, scan, Scan.loop_u16_length]
    rfl⟩⟩

/-- The writes of `Ipv6(String)` into `tmpstr`. -/
def tmpstrWrites (inputString : Str) : Writes := (scan inputString).tmpstr

/-! ## What `Ipv6` reads -/

/-- The part of a text an address can stand in. -/
def hexOrColon (c : Char) : Bool := isXDigit c || c = ':'

/-- The pieces between the colons of an address. -/
def groups (s : Str) : List Str := (s.takeWhile hexOrColon).splitOn ':'

/-- The word of a group. -/
def groupWord (g : Str) : BitVec 16 := (hexValue (writesFrom 0 g)).setWidth 16

/-- A group that fits `tmpstr` is the number it denotes. -/
theorem groupWord_eq {g : Str} (hl : g.length ≤ 7) (hg : ∀ c ∈ g, isXDigit c = true) :
    groupWord g = BitVec.ofNat 16 (numeral 16 g) := by
  have hhex : ∀ c ∈ g, isDigitOf 16 c = true := fun c hc => (isDigitOf_sixteen c).trans (hg c hc)
  rw [groupWord, hexValue, strtoul_tmpstr (by decide) hhex hl (by decide) (by decide),
    BitVec.setWidth_ofNat_of_le (by decide)]

theorem groups_append {d s : Str} (hd : ∀ c ∈ d, isXDigit c = true) :
    groups (d ++ ':' :: s) = d :: groups s := by
  have hd' : ∀ c ∈ d, hexOrColon c = true := fun c hc => by simp [hexOrColon, hd c hc]
  have hcolon : ':' ∉ d := fun hm => absurd (hd _ hm) (by decide)
  rw [groups, List.takeWhile_append_of_pos hd', List.takeWhile_cons_of_pos (by decide),
    List.splitOn_append_cons_self_of_not_mem hcolon]
  rfl

theorem groups_stop {d s : Str} (hd : ∀ c ∈ d, isXDigit c = true)
    (hs : ∀ c ∈ s.head?, hexOrColon c = false) : groups (d ++ s) = [d] := by
  have hd' : ∀ c ∈ d, hexOrColon c = true := fun c hc => by simp [hexOrColon, hd c hc]
  have hcolon : ':' ∉ d := fun hm => absurd (hd _ hm) (by decide)
  have hs' : s.takeWhile hexOrColon = [] := by
    cases s with
    | nil => rfl
    | cons c s => rw [List.takeWhile_cons_of_neg (by simp [hs c rfl])]
  rw [groups, List.takeWhile_append_of_pos hd', hs', List.append_nil,
    List.splitOn_eq_singleton hcolon]

/-- Groups joined by colons are read as they are; what follows them is not read, if it starts with
another character. -/
theorem groups_intercalate_append {gs : List Str} (hne : gs ≠ [])
    (hgs : ∀ g ∈ gs, ∀ c ∈ g, isXDigit c = true) {s : Str} (hs : ∀ c ∈ s.head?, c = '%') :
    groups (cstr ([':'].intercalate gs ++ s)) = gs := by
  have htext : ∀ c ∈ [':'].intercalate gs, hexOrColon c = true := by
    intro c hc
    rcases mem_intercalate hc with rfl | ⟨g, hg, hc⟩
    · decide
    · simp [hexOrColon, hgs g hg c hc]
  have hnul : '\x00' ∉ [':'].intercalate gs := fun h => absurd (htext _ h) (by decide)
  have hstop : (cstr s).takeWhile hexOrColon = [] := by
    cases s with
    | nil => rfl
    | cons c s =>
      obtain rfl := hs c rfl
      rfl
  have hcolon : ∀ g ∈ gs, ':' ∉ g := fun g hg hm => absurd (hgs g hg _ hm) (by decide)
  rw [cstr_append_of_not_mem hnul, groups, List.takeWhile_append_of_pos htext, hstop,
    List.append_nil, List.splitOn_intercalate ':' hcolon hne]

theorem groups_intercalate {gs : List Str} (hne : gs ≠ [])
    (hgs : ∀ g ∈ gs, ∀ c ∈ g, isXDigit c = true) : groups (cstr ([':'].intercalate gs)) = gs := by
  have h := groups_intercalate_append (s := []) hne hgs (by simp)
  rwa [List.append_nil] at h

namespace Scan

/-- What is still to be read: after a `::`, an empty group first. -/
def remaining (s : Str) (st : Scan) : List Str :=
  if st.toConvert then groups (s.drop st.instr) else [] :: groups (s.drop st.instr)

/-- After a `::`, the pointer is past its second colon. -/
def PastColon (s : Str) (st : Scan) : Prop :=
  st.toConvert = false → 0 < st.instr ∧ s[st.instr - 1]? = some ':'

/-- A pass reads the group `g`, and leaves the others to be read. -/
structure Reads (s : Str) (st st' : Scan) (g : Str) (gs : List Str) : Prop where
  pastColon : PastColon s st'
  u16 : st'.u16 = st.u16 ++ [groupWord g]
  tmpstr : st'.tmpstr = st.tmpstr ++ writesFrom 0 g
  remaining : ∀ n, (st'.remaining s).takeD n [] = gs.takeD n []

theorem drop_of_getElem? {s : Str} {k : Nat} {c : Char} (h : s[k]? = some c) :
    s.drop k = c :: s.drop (k + 1) := by
  obtain ⟨hk, rfl⟩ := List.getElem?_eq_some_iff.1 h
  exact List.drop_eq_getElem_cons hk

/-- The colons at the pointer. -/
theorem colon_of_colon {s : Str} {st : Scan} (h : s[st.instr]? = some ':') :
    PastColon s (st.colon s) ∧ (st.colon s).remaining s = groups (s.drop (st.instr + 1)) := by
  rw [colon, if_pos h]
  split
  · rename_i h2
    refine ⟨fun _ => ⟨Nat.succ_pos _, h2⟩, ?_⟩
    rw [drop_of_getElem? h2]
    exact (groups_append (d := []) nofun).symm
  · exact ⟨nofun, rfl⟩

theorem colon_tmpstr (s : Str) (st : Scan) : (st.colon s).tmpstr = st.tmpstr := by
  unfold colon
  split
  · split <;> rfl
  · rfl

theorem word_of_toConvert {s d t : Str} {st : Scan} (hc : st.toConvert = true)
    (hd : ∀ c ∈ d, isXDigit c = true) (ht : ∀ c ∈ t.head?, isXDigit c = false)
    (hs : s.drop st.instr = d ++ t) :
    st.word s = { st with
      instr := st.instr + d.length
      u16 := st.u16 ++ [groupWord d]
      tmpstr := st.tmpstr ++ writesFrom 0 d } := by
  have htake : (d ++ t).takeWhile isXDigit = d := by
    rw [List.takeWhile_append_of_pos hd]
    cases t with
    | nil => exact List.append_nil d
    | cons c t =>
      rw [List.takeWhile_cons_of_neg (by simp [ht c rfl]), List.append_nil]
  rw [word, if_pos hc, collect_eq, hs, htake]
  dsimp only
  rw [length_writesFrom]
  rfl

/-- A pass at a group of digits. -/
theorem reads_group {s : Str} {st : Scan} (hc : st.toConvert = true) :
    Reads s st ((st.word s).colon s) ((st.remaining s).head?.getD []) (st.remaining s).tail := by
  obtain ⟨d, t, hs, hd, ht⟩ : ∃ d t, s.drop st.instr = d ++ t ∧ (∀ c ∈ d, isXDigit c = true) ∧
      ∀ c ∈ t.head?, isXDigit c = false :=
    ⟨_, _, List.takeWhile_append_dropWhile.symm, fun _ hm => List.mem_takeWhile_imp hm,
      head?_dropWhile_not⟩
  have hword := word_of_toConvert hc hd ht hs
  have hinstr : s.drop (st.word s).instr = t := by
    rw [hword]
    show s.drop (st.instr + d.length) = t
    rw [← List.drop_drop, hs, List.drop_left]
  have hu16 : ((st.word s).colon s).u16 = st.u16 ++ [groupWord d] := by rw [colon_u16, hword]
  have htmpstr : ((st.word s).colon s).tmpstr = st.tmpstr ++ writesFrom 0 d := by
    rw [colon_tmpstr, hword]
  rw [remaining, if_pos hc, hs]
  by_cases hcolon : s[(st.word s).instr]? = some ':'
  · obtain ⟨hpast, hrem⟩ := colon_of_colon hcolon
    rw [← hinstr, drop_of_getElem? hcolon, groups_append hd]
    exact ⟨hpast, hu16, htmpstr, fun n => by rw [hrem]; rfl⟩
  · -- the pointer stays where it is, and all groups left are empty
    have hstop : ∀ c ∈ t.head?, hexOrColon c = false := by
      intro c hm
      have hne : c ≠ ':' := by
        rintro rfl
        rw [← hinstr, List.head?_drop] at hm
        exact hcolon hm
      simp [hexOrColon, ht c hm, hne]
    have hsame : (st.word s).colon s = st.word s := if_neg hcolon
    have hc' : (st.word s).toConvert = true := by rw [hword]; exact hc
    have hrem : (st.word s).remaining s = [[]] := by
      rw [remaining, if_pos hc', hinstr]
      exact groups_stop (d := []) nofun hstop
    rw [groups_stop hd hstop]
    refine ⟨?_, hu16, htmpstr, fun n => ?_⟩
    · rw [hsame]
      exact fun hf => absurd (hc'.symm.trans hf) Bool.false_ne_true.symm
    · rw [hsame, hrem]
      cases n with
      | zero => rfl
      | succ n => rfl

/-- A pass at the second colon of a `::`. -/
theorem reads_colon {s : Str} {st : Scan} (hc : st.toConvert = false) (h : PastColon s st) :
    Reads s st ((st.word s).colon s) ((st.remaining s).head?.getD []) (st.remaining s).tail := by
  obtain ⟨hpos, hcolon⟩ := h hc
  have hc' : ¬ st.toConvert = true := by rw [hc]; exact Bool.false_ne_true
  have hword : st.word s =
      { st with instr := st.instr - 1, toConvert := true, u16 := st.u16 ++ [0] } := by
    rw [word, if_neg hc']
  have hcolon' : s[(st.word s).instr]? = some ':' := by rw [hword]; exact hcolon
  have hback : (st.word s).instr + 1 = st.instr := by
    rw [hword]
    exact Nat.sub_add_cancel hpos
  obtain ⟨hpast, hrem⟩ := colon_of_colon hcolon'
  rw [remaining, if_neg hc']
  refine ⟨hpast, ?_, ?_, fun n => ?_⟩
  · rw [colon_u16, hword]
    rfl
  · rw [colon_tmpstr, hword]
    exact (List.append_nil _).symm
  · rw [hrem, hback]
    rfl

/-- **A pass reads a group.** -/
theorem reads_step {s : Str} {st : Scan} (h : PastColon s st) :
    Reads s st ((st.word s).colon s) ((st.remaining s).head?.getD []) (st.remaining s).tail := by
  cases hc : st.toConvert with
  | true => exact reads_group hc
  | false => exact reads_colon hc h

theorem loop_reads {s : Str} : ∀ {n : Nat} {st : Scan}, PastColon s st →
    (loop s n st).u16 = st.u16 ++ ((st.remaining s).takeD n []).map groupWord ∧
      (loop s n st).tmpstr = st.tmpstr ++ ((st.remaining s).takeD n []).flatMap (writesFrom 0)
  | 0, st, _ => ⟨(List.append_nil _).symm, (List.append_nil _).symm⟩
  | n + 1, st, h => by
    obtain ⟨hpast, hu16, htmpstr, hrem⟩ := reads_step h
    obtain ⟨ihu, iht⟩ := loop_reads (n := n) hpast
    rw [loop, ihu, iht, hu16, htmpstr, hrem, List.takeD_succ, List.map_cons, List.flatMap_cons,
      List.append_assoc, List.append_assoc]
    exact ⟨rfl, rfl⟩

end Scan

/-- **What `Ipv6(String)` reads**: a word for each of the first eight groups. -/
theorem scan_eq (s : Str) :
    (scan s).u16 = ((groups (cstr s)).takeD 8 []).map groupWord ∧
      (scan s).tmpstr = ((groups (cstr s)).takeD 8 []).flatMap (writesFrom 0) :=
  Scan.loop_reads nofun

end Ipv6

/-! ## Bounds -/

/-- The writes of these texts, each from the start of `tmpstr`. -/
theorem writes_le_iff (bound : Nat) : ∀ (n : Nat) (texts : List Str),
    (∀ w ∈ (texts.takeD n []).flatMap (writesFrom 0), w.1 ≤ bound) ↔
      ∀ r ∈ texts.take n, r.length ≤ bound + 1
  | 0, _ => iff_of_true nofun nofun
  | n + 1, [] => by
    have ih := writes_le_iff bound n []
    rw [List.take_nil] at ih ⊢
    exact ih
  | n + 1, r :: texts => by
    have hr : (∀ w ∈ writesFrom 0 r, w.1 ≤ bound) ↔ r.length ≤ bound + 1 := by
      rw [← inBounds_writesFrom_zero_iff]
      exact forall₂_congr fun w _ => Nat.lt_succ_iff.symm
    show (∀ w ∈ writesFrom 0 r ++ (texts.takeD n []).flatMap (writesFrom 0), w.1 ≤ bound) ↔ _
    rw [List.forall_mem_append, hr, writes_le_iff bound n, List.take_succ_cons,
      List.forall_mem_cons]

/-- **When the writes stay within `tmpstr`** and leave it terminated: as long as no run of hex
digits that is read has more than seven. -/
theorem hexText_inBounds_iff (s : Str) :
    ((∀ w ∈ Mac.tmpstrWrites s, w.1 ≤ 6) ↔
        ∀ r ∈ (scanRuns isXDigit (cstr s)).take 6, r.length ≤ 7) ∧
      ((∀ w ∈ Ipv6.tmpstrWrites s, w.1 ≤ 6) ↔
        ∀ g ∈ (Ipv6.groups (cstr s)).take 8, g.length ≤ 7) := by
  constructor
  · rw [← writes_le_iff, Mac.tmpstrWrites, Mac.passes, scan_eq, List.flatMap_def]
    rfl
  · rw [← writes_le_iff, Ipv6.tmpstrWrites, (Ipv6.scan_eq s).2]

/-- An address written without separators. -/
theorem hexText_overrun :
    (11, '5') ∈ Mac.tmpstrWrites "001122334455".toList ∧
      (11, '5') ∈ Ipv6.tmpstrWrites "001122334455".toList := by
  decide
