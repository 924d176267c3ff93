import Graviton.Base.IpText
import Graviton.Utility.StringUtility

/-!
# `Split` and `SplitIpv4`

How a list or a range of addresses is split (`libs/utility/stringutility.cpp`). The text is copied
to an array of the function, which `strtok_r` cuts.

* `split_output`: the tokens are the runs of other characters; `split_cut`: the cuts are in the
  text.
* `splitIpv4_eq`: what `SplitIpv4` comes to for a text that fits.
* `rangeLoop_eq`, `rangeLoop_max`: the loop over a range ends unless the range ends at 255.
* `splitIpv4_range_iff`: which ranges are expanded.
* `splitIpv4_list`: a list of addresses is split into what was joined.
* `splitIpv4_returned`: the strings it returns are made of the text, and as many as it says.
* `safe_iff`: which texts are safe; `splitIpv4_undefined_iff`: for the others, the call is
  undefined.
-/

namespace StringUtility

open Lib

/-- What `Split` has done so far: the tokens it counted and stored, and the cuts in its text. -/
structure Splitting where
  count : Nat
  output : List Str
  cut : Writes

/-- The loop of `Split`, for at most `fuel` tokens of the text `s` at offset `pos`. -/
def splitLoop (delimiter : Str) : Nat → Nat → Str → Splitting → Splitting
  | 0, _, _, r => r
  | fuel + 1, pos, s, r =>
    match strtokR delimiter pos s with
    | none => r
    | some t => splitLoop delimiter fuel t.pos t.rest
        { count := r.count + 1, output := r.output ++ [t.text], cut := r.cut ++ t.cut }

/-- `Split`; each token takes a character at least. -/
def split (inString delimiter : Str) (output : List Str) : Splitting :=
  splitLoop delimiter ((cstr inString).length + 1) 0 (cstr inString) ⟨0, output, []⟩

/-- The size of `tmpIpAddresses`. -/
def tmpIpAddressesSize : Nat := 1024

/-- The `strncpy` of `SplitIpv4`: as many characters as its source has. -/
def copyAddresses (ipAddresses : Str) : Writes :=
  strncpy (cstr ipAddresses) (cstr ipAddresses).length

def tmpIpAddresses (ipAddresses : Str) : Str := fill tmpIpAddressesSize (copyAddresses ipAddresses)

/-- The loop over the last octet, for at most `fuel` tests of its condition; `none` when it has
not ended by then. -/
def rangeLoop (startIp : List Byte) (last : Byte) :
    Nat → Byte → Nat × List Str → Option (Nat × List Str)
  | 0, _, _ => none
  | fuel + 1, idx, (count, output) =>
    if idx ≤ last then
      rangeLoop startIp last fuel (idx + 1)
        (count + 1, output ++ [format "%d.%d.%d.%d".toList
          (Ip.dotted [startIp.getD 0 0, startIp.getD 1 0, startIp.getD 2 0, idx])])
    else some (count, output)

/-- What a call of `SplitIpv4` comes to: it writes or reads where it must not, its loop has not
ended, or it returns. -/
inductive Outcome
  | undefined
  | running
  | returned (count : Nat) (output : List Str)
  deriving DecidableEq

/-- The branch of `SplitIpv4` for a range, on the tokens of `ipList`: the first two are read, if
they are there or not. -/
def expandRange (fuel : Nat) (output : List Str) : List Str → Outcome
  | first :: second :: _ =>
    let startIp := (Ip.ofString first).toArray
    let last : Byte := (strtoul 10 (cstr second)).setWidth 8
    match rangeLoop startIp last fuel (startIp.getD 3 0) (0, output) with
    | none => .running
    | some (count, output) => .returned count output
  | _ => .undefined

/-- `output.clear()`. -/
def clear (_ : List Str) : List Str := []

/-- `SplitIpv4`, with at most `fuel` tests of its loop's condition. -/
def splitIpv4 (fuel : Nat) (ipAddresses : Str) (output : List Str) : Outcome :=
  let tmp := tmpIpAddresses ipAddresses
  if ¬(copyAddresses ipAddresses).InBounds tmpIpAddressesSize ∨ '\x00' ∉ tmp then .undefined
  else
    let output := clear output
    -- the range of addresses is checked first, e.g. 192.168.1.5-10
    if '-' ∈ cstr tmp then expandRange fuel output (split tmp "-".toList []).output
    else
      let r := split tmp ",".toList output
      .returned r.count r.output

/-! ## Tokens -/

theorem splitLoop_spec (delimiter : Str) : ∀ {fuel : Nat} (pos : Nat) (s : Str) (r : Splitting),
    s.length < fuel →
    let tokens := runs (isTokenChar delimiter) s
    let r' := splitLoop delimiter fuel pos s r
    r'.count = r.count + tokens.length ∧ r'.output = r.output ++ tokens ∧
      ∃ ws : Writes, r'.cut = r.cut ++ ws ∧ ∀ w ∈ ws, w.2 = '\x00' ∧ w.1 < pos + s.length
  | fuel + 1, pos, s, r, h => by
    rcases strtokR_cases delimiter pos s with ⟨hnone, htokens⟩ | ⟨t, ht, htokens, hpos, hlt, hcut⟩
    · rw [splitLoop, hnone, htokens]
      exact ⟨rfl, (List.append_nil _).symm, [], (List.append_nil _).symm, nofun⟩
    · obtain ⟨hcount, hout, ws, hws, hin⟩ := splitLoop_spec delimiter t.pos t.rest
        ⟨r.count + 1, r.output ++ [t.text], r.cut ++ t.cut⟩ (show t.rest.length < fuel by omega)
      rw [splitLoop, ht, htokens]
      dsimp only at hcount ⊢
      refine ⟨?_, ?_, t.cut ++ ws, ?_, List.forall_mem_append.2 ⟨hcut, fun w hw => ?_⟩⟩
      · rw [hcount, List.length_cons]
        omega
      · rw [hout, List.append_assoc, List.singleton_append]
      · rw [hws, List.append_assoc]
      · rw [← hpos]
        exact hin w hw

/-- **`Split`** stores the stretches between delimiters, and counts them. -/
theorem split_output (inString delimiter : Str) (output : List Str) :
    (split inString delimiter output).output =
        output ++ runs (isTokenChar delimiter) (cstr inString) ∧
      (split inString delimiter output).count =
        (runs (isTokenChar delimiter) (cstr inString)).length := by
  obtain ⟨hcount, hout, -⟩ := splitLoop_spec delimiter 0 (cstr inString)
    ⟨0, output, []⟩ (Nat.lt_succ_self _)
  exact ⟨hout, hcount.trans (Nat.zero_add _)⟩

/-- `Split` writes terminators into its text. -/
theorem split_cut (inString delimiter : Str) (output : List Str) :
    ∀ w ∈ (split inString delimiter output).cut, w.2 = '\x00' ∧ w.1 < (cstr inString).length := by
  obtain ⟨-, -, ws, hws, hin⟩ := splitLoop_spec delimiter 0 (cstr inString)
    ⟨0, output, []⟩ (Nat.lt_succ_self _)
  intro w hw
  rw [split, hws] at hw
  have := hin w hw
  rwa [Nat.zero_add] at this

/-! ## The copy -/

/-- A text that fits is copied whole, and terminated. -/
theorem cstr_tmpIpAddresses {s : Str} (h : (cstr s).length < tmpIpAddressesSize) :
    cstr (tmpIpAddresses s) = cstr s := by
  rw [tmpIpAddresses, copyAddresses, strncpy_length, cstr_fill h nul_not_mem_cstr]

theorem copyAddresses_iff {s : Str} :
    (copyAddresses s).InBounds tmpIpAddressesSize ∧ '\x00' ∈ tmpIpAddresses s ↔
      (cstr s).length < tmpIpAddressesSize := by
  rw [tmpIpAddresses, copyAddresses, strncpy_length, inBounds_writesFrom_zero_iff]
  constructor
  · rintro ⟨hle, hnul⟩
    exact (nul_mem_fill_iff hle nul_not_mem_cstr).1 hnul
  · intro hlt
    exact ⟨hlt.le, (nul_mem_fill_iff hlt.le nul_not_mem_cstr).2 hlt⟩

/-- **What `SplitIpv4` comes to** for a text that fits, whatever `output` held before: the branch
it takes, on the tokens. -/
theorem splitIpv4_eq (fuel : Nat) {s : Str} (h : (cstr s).length < tmpIpAddressesSize)
    (output : List Str) : splitIpv4 fuel s output =
      if '-' ∈ cstr s then expandRange fuel [] (runs (isTokenChar "-".toList) (cstr s))
      else .returned (runs (isTokenChar ",".toList) (cstr s)).length
        (runs (isTokenChar ",".toList) (cstr s)) := by
  obtain ⟨hcopy, hnul⟩ := copyAddresses_iff.2 h
  have hclear : clear output = [] := rfl
  obtain ⟨hout, hcount⟩ := split_output (tmpIpAddresses s) ",".toList []
  rw [splitIpv4]
  dsimp only
  rw [if_neg (not_or.2 ⟨not_not.2 hcopy, not_not.2 hnul⟩), hclear, (split_output _ _ _).1, hout,
    hcount, List.nil_append, List.nil_append, cstr_tmpIpAddresses h]

/-! ## Ranges -/

/-- The addresses `a.b.c.n` for `n` from `s` on, `count` of them. -/
def addresses (a b c : Byte) (s count : Nat) : List Str :=
  (List.range' s count).map fun n => Ip.dotted [a, b, c, BitVec.ofNat 8 n]

theorem addresses_succ (a b c idx : Byte) (n : Nat) : addresses a b c idx.toNat (n + 1) =
    Ip.dotted [a, b, c, idx] :: addresses a b c (idx.toNat + 1) n := by
  rw [addresses, List.range'_succ, List.map_cons, BitVec.ofNat_toNat, BitVec.setWidth_eq]
  rfl

theorem length_dotted_le (a b c d : Byte) : (Ip.dotted [a, b, c, d]).length ≤ 16 := by
  exact length_intercalate_le fun r hr => (Ip.of_mem_octets hr).2.1

/-- **The loop ends** after the addresses up to `last`, if the octet after it is one. -/
theorem rangeLoop_eq (a b c d last : Byte) (hlast : last.toNat < 255) : ∀ (n : Nat) (idx : Byte)
    (count : Nat) (output : List Str), idx.toNat + n = last.toNat + 1 →
    rangeLoop [a, b, c, d] last (n + 1) idx (count, output) =
      some (count + n, output ++ addresses a b c idx.toNat n)
  | 0, idx, count, output, h => by
    have hidx : ¬idx ≤ last := by
      rw [BitVec.le_def]
      omega
    rw [rangeLoop, if_neg hidx, addresses, List.range'_zero, List.map_nil, List.append_nil]
    rfl
  | n + 1, idx, count, output, h => by
    have hidx : idx ≤ last := by
      rw [BitVec.le_def]
      omega
    have hnext : (idx + 1).toNat = idx.toNat + 1 := by
      rw [BitVec.toNat_add]
      exact Nat.mod_eq_of_lt (show idx.toNat + 1 < 256 by omega)
    have htext : format "%d.%d.%d.%d".toList (Ip.dotted [a, b, c, idx]) =
        Ip.dotted [a, b, c, idx] :=
      format_of_lt (Nat.lt_of_le_of_lt (length_dotted_le a b c idx) (by decide))
    have hrest := rangeLoop_eq a b c d last hlast n (idx + 1) (count + 1)
      (output ++ [Ip.dotted [a, b, c, idx]]) (by rw [hnext]; omega)
    rw [rangeLoop, if_pos hidx]
    simp only [List.getD_cons_zero, List.getD_cons_succ]
    rw [htext, hrest, hnext, addresses_succ, List.append_assoc, List.singleton_append,
      Nat.add_right_comm, Nat.add_assoc]

/-- No octet is past 255. -/
theorem rangeLoop_max (startIp : List Byte) {last : Byte} (hlast : last.toNat = 255) :
    ∀ (fuel : Nat) (idx : Byte) (r : Nat × List Str), rangeLoop startIp last fuel idx r = none
  | 0, _, _ => rfl
  | fuel + 1, idx, (count, output) => by
    have hidx : idx ≤ last := by
      rw [BitVec.le_def, hlast]
      exact Nat.le_of_lt_succ idx.isLt
    rw [rangeLoop, if_pos hidx]
    exact rangeLoop_max startIp hlast fuel _ _

/-- The text of a range: `a.b.c.s-e`. -/
def rangeText (a b c s e : Byte) : Str :=
  Ip.dotted [a, b, c, s] ++ '-' :: Nat.toDigits 10 e.toNat

theorem length_rangeText_le (a b c s e : Byte) : (rangeText a b c s e).length ≤ 20 := by
  have h1 := length_dotted_le a b c s
  have h2 := (Ip.toDigits_octet e).2.1
  rw [rangeText, List.length_append, List.length_cons]
  omega

theorem mem_rangeText {a b c s e : Byte} {x : Char} (h : x ∈ rangeText a b c s e) :
    x = '.' ∨ x = '-' ∨ isDigit x = true := by
  rw [rangeText, List.mem_append, List.mem_cons] at h
  rcases h with h | rfl | h
  · exact (Ip.mem_dotted h).imp_right .inr
  · exact .inr (.inl rfl)
  · exact .inr (.inr ((Ip.toDigits_octet e).2.2 x h))

/-- The two tokens of a range. -/
theorem runs_rangeText (a b c s e : Byte) :
    runs (isTokenChar "-".toList) (rangeText a b c s e) =
      [Ip.dotted [a, b, c, s], Nat.toDigits 10 e.toNat] := by
  have hdigit : ∀ x, isDigit x = true → isTokenChar "-".toList x = true := by
    intro x hx
    have hne : x ≠ '-' := by rintro rfl; exact absurd hx (by decide)
    simpa [isTokenChar] using hne
  have hjoin : rangeText a b c s e =
      ['-'].intercalate [Ip.dotted [a, b, c, s], Nat.toDigits 10 e.toNat] := by
    rw [List.intercalate_cons_cons, List.intercalate_singleton, List.append_assoc]
    rfl
  rw [hjoin]
  refine runs_intercalate (by decide) ?_
  rw [List.forall_mem_cons, List.forall_mem_singleton]
  refine ⟨⟨?_, fun x hx => ?_⟩, (Ip.toDigits_octet e).1, fun x hx => ?_⟩
  · intro hnil
    have hruns := Ip.scanRuns_dotted [a, b, c, s]
    rw [hnil] at hruns
    cases hruns
  · rcases Ip.mem_dotted hx with rfl | hx
    · decide
    · exact hdigit x hx
  · exact hdigit x ((Ip.toDigits_octet e).2.2 x hx)

theorem cstr_rangeText (a b c s e : Byte) : cstr (rangeText a b c s e) = rangeText a b c s e := by
  rw [cstr_eq_self_iff]
  intro h
  rcases mem_rangeText h with h | h | h <;> revert h <;> decide

/-- What `SplitIpv4` does with the text of a range. -/
theorem splitIpv4_rangeText (fuel : Nat) (a b c s e : Byte) (output : List Str) :
    splitIpv4 fuel (rangeText a b c s e) output =
      match rangeLoop [a, b, c, s] e fuel s (0, []) with
      | none => .running
      | some (count, output) => .returned count output := by
  have hlt : (cstr (rangeText a b c s e)).length < tmpIpAddressesSize := by
    rw [cstr_rangeText]
    exact Nat.lt_of_le_of_lt (length_rangeText_le a b c s e) (by decide)
  have hstart : (Ip.ofString (Ip.dotted [a, b, c, s])).toArray = [a, b, c, s] := by
    rw [Ip.toArray_eq]
    exact congrArg Vector.toList (Ip.strToIpt_dotted #v[a, b, c, s])
  have hlast : (strtoul 10 (cstr (Nat.toDigits 10 e.toNat))).setWidth 8 = e := by
    obtain ⟨-, -, hd⟩ := Ip.toDigits_octet e
    have hnul : '\x00' ∉ Nat.toDigits 10 e.toNat := fun h => absurd (hd _ h) (by decide)
    have hnum := numeral_toDigits (b := 10) (by decide) (by decide) e.toNat
    rw [cstr_eq_self_iff.2 hnul, strtoul_of_digits (fun x hx => (isDigitOf_ten x).trans (hd x hx)),
      hnum, BitVec.setWidth_ofNat_of_le (by decide), BitVec.ofNat_toNat, BitVec.setWidth_eq]
    rw [hnum]
    exact Nat.lt_trans e.isLt (by decide)
  rw [splitIpv4_eq fuel hlt, cstr_rangeText, if_pos (by simp [rangeText]), runs_rangeText,
    expandRange, hstart, hlast]
  rfl

/-- **A range is expanded** exactly if it does not end at 255; one that does is never done. -/
theorem splitIpv4_range_iff (a b c s e : Byte) (h : s ≤ e) (output : List Str) :
    (∃ fuel, splitIpv4 fuel (rangeText a b c s e) output =
      .returned (e.toNat - s.toNat + 1) (addresses a b c s.toNat (e.toNat - s.toNat + 1))) ↔
    e.toNat < 255 := by
  simp only [splitIpv4_rangeText]
  constructor
  · rintro ⟨fuel, hret⟩
    refine Nat.lt_of_le_of_ne (Nat.le_of_lt_succ e.isLt) fun hmax => ?_
    rw [rangeLoop_max _ hmax] at hret
    cases hret
  · intro hlt
    rw [BitVec.le_def] at h
    have hloop := rangeLoop_eq a b c s e hlt (e.toNat - s.toNat + 1) s 0 [] (by omega)
    refine ⟨e.toNat - s.toNat + 1 + 1, ?_⟩
    rw [hloop, Nat.zero_add, List.nil_append]

/-- The range of the comment in `SplitIpv4`. -/
theorem splitIpv4_range_comment :
    ∃ fuel, splitIpv4 fuel (rangeText 192 168 1 5 10) [] =
      .returned 6 (addresses 192 168 1 5 6) :=
  (splitIpv4_range_iff 192 168 1 5 10 (by decide) []).2 (by decide)

/-- The upper half of a network: the octet wraps to 0 after 255, and the loop goes on. -/
theorem splitIpv4_range_running : rangeText 10 0 0 128 255 = "10.0.0.128-255".toList ∧
    (∀ fuel, splitIpv4 fuel "10.0.0.128-255".toList [] = .running) ∧
    ¬∃ fuel, splitIpv4 fuel "10.0.0.128-255".toList [] =
      .returned 128 (addresses 10 0 0 128 128) := by
  have htext : rangeText 10 0 0 128 255 = "10.0.0.128-255".toList := by decide
  have hrun : ∀ fuel, splitIpv4 fuel "10.0.0.128-255".toList [] = .running := by
    intro fuel
    rw [← htext, splitIpv4_rangeText, rangeLoop_max _ rfl]
  refine ⟨htext, hrun, ?_⟩
  rintro ⟨fuel, hret⟩
  rw [hrun] at hret
  cases hret

/-! ## Lists -/

/-- **A list of addresses** is split into what was joined. -/
theorem splitIpv4_list (fuel : Nat) (strings output : List Str)
    (h : ∀ s ∈ strings, s ≠ [] ∧ ',' ∉ s ∧ '-' ∉ s ∧ '\x00' ∉ s)
    (hlen : ([','].intercalate strings).length < 1024) :
    splitIpv4 fuel ([','].intercalate strings) output = .returned strings.length strings := by
  have hother : ∀ c, c ≠ ',' → (∀ s ∈ strings, c ∉ s) → c ∉ [','].intercalate strings := by
    intro c hc hs hm
    rcases mem_intercalate hm with heq | ⟨s, hmem, hin⟩
    · exact hc heq
    · exact hs s hmem hin
  have hnul : cstr ([','].intercalate strings) = [','].intercalate strings :=
    cstr_eq_self_iff.2 (hother _ (by decide) fun s hs => (h s hs).2.2.2)
  have hdash : '-' ∉ [','].intercalate strings :=
    hother _ (by decide) fun s hs => (h s hs).2.2.1
  have hruns : runs (isTokenChar ",".toList) ([','].intercalate strings) = strings := by
    refine runs_intercalate (by decide) fun s hs => ⟨(h s hs).1, fun c hc => ?_⟩
    have hne : c ≠ ',' := by
      rintro rfl
      exact (h s hs).2.1 hc
    simpa [isTokenChar] using hne
  rw [splitIpv4_eq fuel (by rw [hnul]; exact hlen), hnul, if_neg hdash, hruns]

/-- Two hosts, in place of an earlier one. -/
theorem splitIpv4_list_two :
    splitIpv4 0 "10.0.0.1,10.0.0.7".toList ["10.0.0.9".toList] =
      .returned 2 ["10.0.0.1".toList, "10.0.0.7".toList] :=
  splitIpv4_list 0 ["10.0.0.1".toList, "10.0.0.7".toList] ["10.0.0.9".toList] (by decide)
    (by decide)

/-! ## Safety -/

/-- What a call of `SplitIpv4` does to memory is defined. -/
structure Safe (ipAddresses : Str) : Prop where
  /-- The copy stays within the array. -/
  copied : (copyAddresses ipAddresses).InBounds tmpIpAddressesSize
  /-- The array is terminated when it is searched. -/
  terminated : '\x00' ∈ tmpIpAddresses ipAddresses
  /-- The cuts of either `Split` stay within the array, and leave it terminated. -/
  cut : ∀ delimiter ∈ ["-".toList, ",".toList],
    let r := split (tmpIpAddresses ipAddresses) delimiter []
    r.cut.InBounds tmpIpAddressesSize ∧ '\x00' ∈ write (tmpIpAddresses ipAddresses) r.cut
  /-- The two elements of `ipList` that are read exist. -/
  read : '-' ∈ cstr (tmpIpAddresses ipAddresses) →
    2 ≤ (split (tmpIpAddresses ipAddresses) "-".toList []).output.length

theorem safe_iff_runs (ipAddresses : Str) : Safe ipAddresses ↔
    (cstr ipAddresses).length < tmpIpAddressesSize ∧
      ('-' ∈ cstr ipAddresses →
        2 ≤ (runs (isTokenChar "-".toList) (cstr ipAddresses)).length) := by
  constructor
  · rintro ⟨hcopy, hnul, -, hread⟩
    have hlt := copyAddresses_iff.1 ⟨hcopy, hnul⟩
    rw [(split_output _ _ _).1, List.nil_append, cstr_tmpIpAddresses hlt] at hread
    exact ⟨hlt, hread⟩
  · rintro ⟨hlt, hread⟩
    obtain ⟨hcopy, hnul⟩ := copyAddresses_iff.2 hlt
    refine ⟨hcopy, hnul, fun delimiter _ => ?_, ?_⟩
    · have hcut := split_cut (tmpIpAddresses ipAddresses) delimiter []
      rw [cstr_tmpIpAddresses hlt] at hcut
      exact ⟨fun w hw => Nat.lt_trans (hcut w hw).2 hlt,
        nul_mem_write (fun w hw => (hcut w hw).1) hnul⟩
    · rw [(split_output _ _ _).1, List.nil_append, cstr_tmpIpAddresses hlt]
      exact hread

theorem expandRange_undefined_iff (fuel : Nat) (output : List Str) : ∀ tokens : List Str,
    expandRange fuel output tokens = .undefined ↔ ¬2 ≤ tokens.length
  | [] => iff_of_true rfl (by decide)
  | [_] => iff_of_true rfl (by simp)
  | _ :: _ :: _ => by
    refine iff_of_false ?_ (by simp)
    rw [expandRange]
    split <;> exact Outcome.noConfusion

/-- A call is undefined for the texts that are not safe, and no others. -/
theorem splitIpv4_undefined_iff (fuel : Nat) (ipAddresses : Str) (output : List Str) :
    splitIpv4 fuel ipAddresses output = .undefined ↔ ¬Safe ipAddresses := by
  rw [safe_iff_runs]
  by_cases hlt : (cstr ipAddresses).length < tmpIpAddressesSize
  · rw [splitIpv4_eq fuel hlt, and_iff_right hlt]
    split
    · rename_i hdash
      rw [expandRange_undefined_iff, forall_prop_of_true hdash]
    · rename_i hdash
      exact iff_of_false Outcome.noConfusion (not_not.2 fun h => absurd h hdash)
  · refine iff_of_true ?_ fun h => hlt h.1
    rw [splitIpv4]
    exact if_pos (not_and_or.1 (mt copyAddresses_iff.1 hlt))

/-- **Which texts are safe**: those that fit the array with their end and have, if a `-` at all,
one with other characters before and after it. -/
theorem safe_iff (ipAddresses : Str) : Safe ipAddresses ↔
    (cstr ipAddresses).length < 1024 ∧ ('-' ∈ cstr ipAddresses →
      ∃ p q, cstr ipAddresses = p ++ '-' :: q ∧ (∃ c ∈ p, c ≠ '-') ∧ ∃ c ∈ q, c ≠ '-') := by
  have htoken : ∀ c, isTokenChar "-".toList c = true ↔ c ≠ '-' := by
    intro c
    simp [isTokenChar]
  rw [safe_iff_runs, two_le_length_runs_iff]
  simp only [htoken, ← Bool.not_eq_true, not_not]
  refine and_congr_right fun _ => imp_congr_right fun _ => ?_
  constructor
  · rintro ⟨p, _, q, hs, rfl, hp, hq⟩
    exact ⟨p, q, hs, hp, hq⟩
  · rintro ⟨p, q, hs, hp, hq⟩
    exact ⟨p, '-', q, hs, rfl, hp, hq⟩

/-- A range without its end has no second token; a list of 1024 characters leaves no room for
its own. -/
theorem not_safe_open_range :
    ¬Safe "192.168.1.5-".toList ∧ ¬Safe (List.replicate 1024 '1') := by
  constructor
  · intro h
    exact absurd (h.read (by decide)) (by decide)
  · intro h
    have hnul : '\x00' ∉ List.replicate 1024 '1' := by
      intro hm
      exact absurd (List.eq_of_mem_replicate hm) (by decide)
    have hlt := copyAddresses_iff.1 ⟨h.copied, h.terminated⟩
    rw [cstr_eq_self_iff.2 hnul, List.length_replicate] at hlt
    exact Nat.lt_irrefl 1024 hlt

/-! ## What is returned -/

/-- A character of an address that is made of some text. -/
def AddressChar (s : Str) (c : Char) : Prop := c = '.' ∨ isDigit c = true ∨ c ∈ cstr s

/-- An address that is made of some text. -/
structure AddressOf (s ip : Str) : Prop where
  ne_nil : ip ≠ []
  chars : ∀ c ∈ ip, AddressChar s c

theorem AddressOf.not_mem {s ip : Str} (h : AddressOf s ip) {c : Char} (hdot : c ≠ '.')
    (hdigit : isDigit c = false) (hc : c ∉ cstr s) : c ∉ ip := fun hm => by
  rcases h.chars c hm with hm | hm | hm
  · exact hdot hm
  · rw [hdigit] at hm
    cases hm
  · exact hc hm

theorem addressOf_dotted (s : Str) (a b c d : Byte) : AddressOf s (Ip.dotted [a, b, c, d]) := by
  refine ⟨?_, fun x hx => (Ip.mem_dotted hx).imp_right .inl⟩
  intro hnil
  have hlen := congrArg List.length hnil
  simp [Ip.dotted, List.intercalate_cons_cons] at hlen

theorem rangeLoop_returned (s : Str) (startIp : List Byte) (last : Byte) : ∀ {fuel : Nat}
    {idx : Byte} {count n : Nat} {output ips : List Str},
    rangeLoop startIp last fuel idx (count, output) = some (n, ips) → count = output.length →
    (∀ ip ∈ output, AddressOf s ip) → n = ips.length ∧ ∀ ip ∈ ips, AddressOf s ip
  | 0, _, _, _, _, _, h, _, _ => by cases h
  | fuel + 1, idx, count, n, output, ips, h, hcount, houtput => by
    rw [rangeLoop] at h
    split at h
    · refine rangeLoop_returned s startIp last h ?_ (List.forall_mem_append.2 ⟨houtput, ?_⟩)
      · rw [List.length_append, List.length_singleton, hcount]
      · rw [List.forall_mem_singleton,
          format_of_lt (Nat.lt_of_le_of_lt (length_dotted_le _ _ _ _) (by decide))]
        exact addressOf_dotted s _ _ _ _
    · cases h
      exact ⟨hcount, houtput⟩

/-- **What is returned**: addresses made of the text, and their number. -/
theorem splitIpv4_returned {fuel n : Nat} {s : Str} {output ips : List Str}
    (h : splitIpv4 fuel s output = .returned n ips) :
    n = ips.length ∧ ∀ ip ∈ ips, AddressOf s ip := by
  have hlt : (cstr s).length < tmpIpAddressesSize := by
    by_contra hn
    have hsafe : ¬Safe s := fun hs => hn ((safe_iff_runs s).1 hs).1
    rw [(splitIpv4_undefined_iff fuel s output).2 hsafe] at h
    cases h
  rw [splitIpv4_eq fuel hlt] at h
  split at h
  · unfold expandRange at h
    split at h
    · dsimp only at h
      split at h
      · cases h
      · rename_i hloop
        cases h
        exact rangeLoop_returned s _ _ hloop rfl nofun
    · cases h
  · cases h
    exact ⟨rfl, fun ip hip => ⟨(of_mem_runs hip).1, fun c hc =>
      .inr (.inr ((infix_of_mem_runs hip).mem hc))⟩⟩

end StringUtility
