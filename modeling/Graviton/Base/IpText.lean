import Graviton.Base.Ip
import Graviton.Base.Scan

/-!
# `Ip` as a number and as text

The constructors of `Ip` (`libs/base/ip.h`) and its conversions. The netmask and the broadcast
address are stored and copied, and nothing reads them.

* `ofString_dotted`: the printed octets are read back; `ofString_toString`: so is every address.
* `ofString_runs_iff`: which texts the scanner reads as the numbers they hold.
-/

namespace Ip

open Lib AddressText

/-- `Constant::IpByteLength`. -/
def ipByteLength : Nat := 4

/-- `Constant::IpStringLength`. -/
def ipStringLength : Nat := 20

def findIpAddressType (u8 : Vector Byte 4) : IpAddressType :=
  if u8.get 0 = 127 then .loopback
  else if u8.get 0 = 169 ∧ u8.get 1 = 254 then .linkLocal
  else if u8.get 0 = 224 ∧ u8.get 1 = 239 then .multicast
  else if u8.get 0 = 10 then .classA
  else if u8.get 0 = 172 ∧ u8.get 1 &&& 0xF0 = 0x10 then .classB
  else if u8.get 0 = 192 ∧ u8.get 1 = 168 then .classC
  else .unknown

/-- The octet of a pass of `StrToIpt`: `(u8_t)strtoul(tmpstr, NULL, 10)`, of a `tmpstr[9]`. -/
def octetOf (tmpstr : Writes) : Byte := (strtoul 10 (cstr (fill 9 tmpstr))).setWidth 8

/-- `StrToIpt`: passes of at most eight digits. -/
def strToIpt (text : Str) : Vector Byte 4 :=
  ⟨((scan isDigit (fun len => len < 8) ipByteLength (cstr text)).map octetOf).toArray, by
    rw [List.size_toArray, List.length_map, scan_length, ipByteLength]⟩

/-- What `"%d.%d.%d.%d"` prints of octets. -/
def dotted (octets : List Byte) : Str :=
  ['.'].intercalate (octets.map fun b => Nat.toDigits 10 b.toNat)

def iptToStr (u8 : Vector Byte 4) : Str := snprintf ipStringLength (dotted u8.toList)

/-! ## Constructors and conversions -/

def ofOctets (u8 : Vector Byte 4) (flags : BitVec 32) : Ip := ⟨u8, findIpAddressType u8, flags⟩

/-- `Ip(u32_t)`, on a host of byte order `o`. -/
def ofU32 (o : Order) (address : BitVec 32) : Ip :=
  ofOctets ⟨(o.bytes 4 address).toArray, by rw [List.size_toArray, Order.bytes_length]⟩ 0

/-- `Ip(String)`. -/
def ofString (inputString : Str) : Ip := ofOctets (strToIpt inputString) 0

/-- What `Ip(struct ifaddrs*)` reads: the `sin_addr` of `ifa_addr`, and `ifa_flags`. -/
structure Ifaddrs where
  sinAddr : Vector Byte 4
  ifaFlags : BitVec 32

/-- `inet_ntop` and `inet_ntoa`: the octets in the order of memory. -/
def inetNtop (sinAddr : Vector Byte 4) : Str := dotted sinAddr.toList

def sockaddrToIpt (sinAddr : Vector Byte 4) : Vector Byte 4 := strToIpt (inetNtop sinAddr)

/-- `Ip(struct ifaddrs*)`. -/
def ofIfaddrs (ifa : Ifaddrs) : Ip := ofOctets (sockaddrToIpt ifa.sinAddr) ifa.ifaFlags

/-- `Copy`: what the copy constructor and the assignment leave. -/
def copy (right : Ip) : Ip :=
  { u8 := right.u8, ipAddressType := right.ipAddressType, flags := right.flags }

def toString (ip : Ip) : Str := iptToStr ip.u8

/-- `ToU32`, on a host of byte order `o`. -/
def toU32 (o : Order) (ip : Ip) : BitVec 32 := BitVec.ofNat 32 (o.load ip.u8.toList)

theorem toArray_eq (ip : Ip) : ip.toArray = ip.u8.toList := by
  obtain ⟨⟨⟨l⟩, hl⟩, t, f⟩ := ip
  have hl : l.length = 4 := hl
  match l, hl with
  | [_, _, _, _], _ => rfl

/-! ## Reading -/

theorem octetOf_writesFrom {r : Str} (hl : r.length ≤ 8) (hr : ∀ c ∈ r, isDigit c = true) :
    octetOf (writesFrom 0 r) = BitVec.ofNat 8 (numeral 10 r) := by
  have hten : ∀ c ∈ r, isDigitOf 10 c = true := fun c hc => (isDigitOf_ten c).trans (hr c hc)
  rw [octetOf, strtoul_tmpstr (by decide) hten hl (by decide) (by decide),
    BitVec.setWidth_ofNat_of_le (by decide)]

/-- **What `StrToIpt` stores**: a number for each piece of a run. -/
theorem strToIpt_toList (s : Str) : (strToIpt s).toList =
    (pieces 8 4 (scanRuns isDigit (cstr s))).map fun r => BitVec.ofNat 8 (numeral 10 r) := by
  show (scan isDigit (fun len => len < 8) 4 (cstr s)).map octetOf = _
  rw [scan_capped_eq (by decide), List.map_map]
  refine List.map_congr_left fun r hr => ?_
  obtain ⟨hl, hd⟩ := of_mem_pieces (fun _ => digit_of_mem_scanRuns) hr
  exact octetOf_writesFrom hl hd

/-- The bound on the digits keeps `tmpstr[9]` terminated. -/
theorem strToIpt_inBounds (s : Str) :
    ∀ tmpstr ∈ scan isDigit (fun len => len < 8) ipByteLength (cstr s), tmpstr.InBounds 8 := by
  intro tmpstr hm
  rw [scan_capped_eq (by decide)] at hm
  obtain ⟨r, hr, rfl⟩ := List.mem_map.1 hm
  rw [inBounds_writesFrom_zero_iff]
  exact (of_mem_pieces (fun _ => digit_of_mem_scanRuns) hr).1

theorem toDigits_octet (b : Byte) : Nat.toDigits 10 b.toNat ≠ [] ∧
    (Nat.toDigits 10 b.toNat).length ≤ 3 ∧ ∀ c ∈ Nat.toDigits 10 b.toNat, isDigit c = true := by
  refine ⟨Nat.toDigits_ne_nil, (Nat.length_toDigits_le_iff (by decide) (by decide)).2 ?_,
    fun _ hc => isDigit_of_mem_toDigits hc⟩
  exact Nat.lt_trans b.isLt (by decide)

theorem of_mem_octets {octets : List Byte} {r : Str}
    (h : r ∈ octets.map fun b => Nat.toDigits 10 b.toNat) :
    r ≠ [] ∧ r.length ≤ 3 ∧ ∀ c ∈ r, isDigit c = true := by
  obtain ⟨b, -, rfl⟩ := List.mem_map.1 h
  exact toDigits_octet b

theorem mem_dotted {octets : List Byte} {c : Char} (h : c ∈ dotted octets) :
    c = '.' ∨ isDigit c = true := by
  exact (mem_intercalate h).imp_right fun ⟨r, hr, hc⟩ => (of_mem_octets hr).2.2 c hc

theorem cstr_dotted (octets : List Byte) : cstr (dotted octets) = dotted octets :=
  cstr_eq_self_iff.2 fun h => (mem_dotted h).elim (by decide) (by decide)

theorem scanRuns_dotted (octets : List Byte) :
    scanRuns isDigit (dotted octets) = octets.map fun b => Nat.toDigits 10 b.toNat :=
  scanRuns_intercalate (by decide) fun _ hr => ⟨(of_mem_octets hr).1, (of_mem_octets hr).2.2⟩

/-- **Printed octets** are read back. -/
theorem strToIpt_dotted (u8 : Vector Byte 4) : strToIpt (dotted u8.toList) = u8 := by
  have hread : (strToIpt (dotted u8.toList)).toList = u8.toList := by
    have hshort : ∀ r ∈ u8.toList.map fun b => Nat.toDigits 10 b.toNat, r.length ≤ 8 :=
      fun r hr => Nat.le_trans (of_mem_octets hr).2.1 (by decide)
    have hlen : (u8.toList.map fun b => Nat.toDigits 10 b.toNat).length = 4 := by simp
    rw [strToIpt_toList, cstr_dotted, scanRuns_dotted, pieces_of_short hshort,
      List.takeD_eq_take _ hlen.ge, List.take_of_length_le hlen.le, List.map_map]
    refine (List.map_congr_left fun b _ => ?_).trans (List.map_id _)
    show BitVec.ofNat 8 (numeral 10 (Nat.toDigits 10 b.toNat)) = b
    rw [numeral_toDigits (by decide) (by decide), BitVec.ofNat_toNat, BitVec.setWidth_eq]
  exact Vector.toList_inj.1 hread

/-- No character of the octets is lost. -/
theorem iptToStr_eq (u8 : Vector Byte 4) : iptToStr u8 = dotted u8.toList := by
  refine snprintf_of_lt ?_
  have h : ∀ r ∈ u8.toList.map fun b => Nat.toDigits 10 b.toNat, r.length ≤ 3 :=
    fun r hr => (of_mem_octets hr).2.1
  calc (dotted u8.toList).length ≤ (3 + 1) * (u8.toList.map _).length := length_intercalate_le h
    _ < ipStringLength := by simp [ipStringLength]

/-- **Round trip**: an address printed and read back is the address, and no character of the text
is cut. -/
theorem ofString_toString (o : Order) (address : BitVec 32) :
    let ip := ofU32 o address
    ip.toString = dotted ip.toArray ∧
      (ofString ip.toString).toU32 o = ip.toU32 o ∧
      (ofString ip.toString).toArray = ip.toArray ∧
      (ofString ip.toString).ipAddressType = ip.ipAddressType := by
  intro ip
  have htext : ip.toString = dotted ip.u8.toList := iptToStr_eq ip.u8
  have hread : ofString ip.toString = ip := by
    rw [ofString, htext, strToIpt_dotted]
    rfl
  rw [hread]
  exact ⟨by rw [htext, toArray_eq], rfl, rfl, rfl⟩

/-! ## Scanning -/

/-- What the octets of the pieces of these runs are. -/
def pieceOctets (n : Nat) (rs : List Str) : List Nat :=
  (pieces 8 n rs).map fun r => numeral 10 r % 256

theorem toArray_ofString (s : Str) :
    (ofString s).toArray.map BitVec.toNat = pieceOctets 4 (scanRuns isDigit (cstr s)) := by
  rw [toArray_eq]
  show (strToIpt s).toList.map BitVec.toNat = _
  rw [strToIpt_toList, List.map_map]
  exact List.map_congr_left fun r _ => BitVec.toNat_ofNat _ _

theorem numeral_take_drop (k : Nat) (r : Str) :
    numeral 10 r = 10 ^ (r.length - k) * numeral 10 (r.take k) + numeral 10 (r.drop k) := by
  rw [← List.length_drop, ← numeral_append, List.take_append_drop]

theorem numeral_take_eq_zero {k : Nat} {r : Str} (h : numeral 10 r = 0) :
    numeral 10 (r.take k) = 0 ∧ numeral 10 (r.drop k) = 0 := by
  rw [numeral_take_drop k, Nat.add_eq_zero_iff, Nat.mul_eq_zero] at h
  exact ⟨h.1.resolve_left (Nat.pow_pos (by decide)).ne', h.2⟩

/-- A number that loses digits and stays what it was is zero. -/
theorem numeral_eq_zero_of_take {k : Nat} {r : Str} (hk : k < r.length)
    (h : numeral 10 (r.take k) = numeral 10 r) : numeral 10 r = 0 := by
  have hsplit := numeral_take_drop k r
  obtain ⟨m, hm⟩ : ∃ m, r.length - k = m + 1 := ⟨r.length - k - 1, by omega⟩
  have hpow : 10 ≤ 10 ^ (r.length - k) := by
    rw [hm, Nat.pow_succ]
    exact Nat.le_mul_of_pos_left _ (Nat.pow_pos (by decide))
  have hmul : 10 * numeral 10 (r.take k) ≤ 10 ^ (r.length - k) * numeral 10 (r.take k) :=
    Nat.mul_le_mul_right _ hpow
  omega

theorem numeral_take_le (k : Nat) (r : Str) : numeral 10 (r.take k) ≤ numeral 10 r := by
  have hsplit := numeral_take_drop k r
  have hmul := Nat.le_mul_of_pos_left (numeral 10 (r.take k))
    (Nat.pow_pos (n := r.length - k) (show 0 < 10 by decide))
  omega

theorem zero_of_mem_take_cons {n : Nat} {r : Str} {rs : List Str} (hr : numeral 10 r = 0)
    (hrs : ∀ x ∈ rs.take n, numeral 10 x = 0) : ∀ x ∈ (r :: rs).take n, numeral 10 x = 0 := by
  cases n with
  | zero => simp
  | succ n =>
    rw [List.take_succ_cons, List.forall_mem_cons]
    exact ⟨hr, fun x hx => hrs x (List.take_subset_take_left rs (Nat.le_succ n) hx)⟩

/-- Of runs of zeros, only zeros are read. -/
theorem pieceOctets_of_zero : ∀ {n : Nat} {rs : List Str},
    (∀ r ∈ rs.take n, numeral 10 r = 0) → pieceOctets n rs = List.replicate n 0
  | 0, _, _ => rfl
  | n + 1, [], _ => by
    rw [pieceOctets, pieces_nil, List.map_replicate]
    rfl
  | n + 1, r :: rs, h => by
    rw [List.take_succ_cons, List.forall_mem_cons] at h
    obtain ⟨hr, hrs⟩ := h
    obtain ⟨htake, hdrop⟩ := numeral_take_eq_zero (k := 8) hr
    have hnext : pieceOctets n (if r.length ≤ 8 then rs else r.drop 8 :: rs) =
        List.replicate n 0 := by
      apply pieceOctets_of_zero
      split
      · exact hrs
      · exact zero_of_mem_take_cons hdrop hrs
    rw [pieceOctets, pieces, List.map_cons, htake]
    exact congrArg (0 :: ·) hnext

theorem map_takeD_of_zero : ∀ {n : Nat} {rs : List Str}, (∀ r ∈ rs.take n, numeral 10 r = 0) →
    (rs.takeD n []).map (numeral 10) = List.replicate n 0
  | 0, _, _ => rfl
  | n + 1, [], _ => by rw [List.takeD_nil, List.map_replicate]; rfl
  | n + 1, r :: rs, h => by
    rw [List.take_succ_cons, List.forall_mem_cons] at h
    show numeral 10 r :: (rs.takeD n []).map (numeral 10) = _
    rw [h.1, map_takeD_of_zero h.2]
    rfl

/-- Where zeros are read before the runs, the numbers come out right only if they are zero too:
each octet is then what the next one should be. -/
theorem zero_of_shifted : ∀ {n : Nat} (zs : List Str) {rs : List Str}, zs ≠ [] →
    (∀ z ∈ zs, numeral 10 z = 0) →
    pieceOctets n (zs ++ rs) = (rs.takeD n []).map (numeral 10) →
    ∀ r ∈ rs.take n, numeral 10 r = 0
  | 0, _, _, _, _, _ => nofun
  | n + 1, z :: zs, [], _, _, _ => nofun
  | n + 1, z :: zs, r :: rs, _, hz, h => by
    obtain ⟨hz, hzs⟩ := List.forall_mem_cons.1 hz
    obtain ⟨htake, hdrop⟩ := numeral_take_eq_zero (k := 8) hz
    rw [List.cons_append, pieceOctets, pieces, List.map_cons, htake] at h
    obtain ⟨hr, h⟩ := List.cons.inj h
    have hr : numeral 10 r = 0 := hr.symm
    rw [List.take_succ_cons, List.forall_mem_cons]
    refine ⟨hr, ?_⟩
    split at h
    · refine zero_of_shifted (zs ++ [r]) (by simp) ?_ (by rwa [List.append_assoc])
      exact List.forall_mem_append.2 ⟨hzs, List.forall_mem_singleton.2 hr⟩
    · refine zero_of_shifted (z.drop 8 :: (zs ++ [r])) (by simp) ?_
        (by rwa [List.cons_append, List.append_assoc])
      exact List.forall_mem_cons.2 ⟨hdrop,
        List.forall_mem_append.2 ⟨hzs, List.forall_mem_singleton.2 hr⟩⟩

/-- From a text that starts with a run, the numbers come out right exactly if the first run of
more than eight digits and the runs after it are zero. -/
theorem pieceOctets_eq_iff : ∀ {n : Nat} {rs : List Str},
    (∀ r ∈ rs.take n, numeral 10 r ≤ 255) →
    (pieceOctets n rs = (rs.takeD n []).map (numeral 10) ↔
      ∀ r ∈ (rs.take n).dropWhile (·.length ≤ 8), numeral 10 r = 0)
  | 0, _, _ => iff_of_true rfl (by simp)
  | n + 1, [], _ => by
    have hnil : ∀ r ∈ ([] : List Str).take (n + 1), numeral 10 r = 0 := by simp
    refine iff_of_true ?_ (by simp)
    rw [pieceOctets_of_zero hnil, map_takeD_of_zero hnil]
  | n + 1, r :: rs, h => by
    rw [List.take_succ_cons] at h ⊢
    obtain ⟨hr, hrs⟩ := List.forall_mem_cons.1 h
    have hmod : numeral 10 (r.take 8) % 256 = numeral 10 (r.take 8) :=
      Nat.mod_eq_of_lt (Nat.lt_of_le_of_lt (numeral_take_le 8 r) (Nat.lt_succ_of_le hr))
    have heq : pieceOctets (n + 1) (r :: rs) = ((r :: rs).takeD (n + 1) []).map (numeral 10) ↔
        numeral 10 (r.take 8) = numeral 10 r ∧
          pieceOctets n (if r.length ≤ 8 then rs else r.drop 8 :: rs) =
            (rs.takeD n []).map (numeral 10) := by
      rw [pieceOctets, pieces, List.map_cons, hmod]
      exact List.cons_eq_cons
    by_cases hl : r.length ≤ 8
    · rw [heq, if_pos hl, List.take_of_length_le hl, List.dropWhile_cons_of_pos (by simpa using hl),
        ← pieceOctets_eq_iff hrs, and_iff_right rfl]
    · rw [heq, if_neg hl, List.dropWhile_cons_of_neg (by simpa using hl), List.forall_mem_cons]
      constructor
      · rintro ⟨htake, hnext⟩
        have h0 := numeral_eq_zero_of_take (Nat.lt_of_not_le hl) htake
        refine ⟨h0, zero_of_shifted [r.drop 8] (by simp) ?_ hnext⟩
        exact List.forall_mem_singleton.2 (numeral_take_eq_zero h0).2
      · rintro ⟨h0, hzero⟩
        obtain ⟨htake, hdrop⟩ := numeral_take_eq_zero (k := 8) h0
        refine ⟨htake.trans h0.symm, ?_⟩
        rw [map_takeD_of_zero hzero, pieceOctets_of_zero (zero_of_mem_take_cons hdrop hzero)]

/-- **Which numbers the scanner picks out**: those of a text that starts with its first number,
up to a number of more than eight digits; from there on, and in other texts, zeros alone. -/
theorem ofString_runs_iff {s : Str}
    (h : ∀ r ∈ (runs isDigit (cstr s)).take 4, numeral 10 r ≤ 255) :
    (ofString s).toArray.map BitVec.toNat =
        ((runs isDigit (cstr s)).takeD 4 []).map (numeral 10) ↔
      ∀ r ∈ if AtRun isDigit (cstr s) then
          ((runs isDigit (cstr s)).take 4).dropWhile (·.length ≤ 8)
        else (runs isDigit (cstr s)).take 4, numeral 10 r = 0 := by
  rw [toArray_ofString, scanRuns]
  split
  · exact pieceOctets_eq_iff h
  · constructor
    · exact zero_of_shifted [[]] (by simp) (by simp)
    · intro hzero
      rw [map_takeD_of_zero hzero,
        pieceOctets_of_zero (zero_of_mem_take_cons (numeral_nil 10) hzero)]

/-- The text of a public address, as the service sends it. -/
theorem ofString_runs_line :
    (ofString "203.0.113.7".toList).toArray.map BitVec.toNat =
      ((runs isDigit (cstr "203.0.113.7".toList)).takeD 4 []).map (numeral 10) :=
  (ofString_runs_iff (by decide)).2 (by decide)

/-- A space before the address moves the octets, and a number of nine digits is read as two. -/
theorem ofString_runs_ne :
    ((ofString " 10.0.0.1".toList).toArray.map BitVec.toNat = [0, 10, 0, 0] ∧
        ((runs isDigit (cstr " 10.0.0.1".toList)).takeD 4 []).map (numeral 10) = [10, 0, 0, 1]) ∧
      (ofString "000000010.1".toList).toArray.map BitVec.toNat = [1, 0, 1, 0] ∧
        ((runs isDigit (cstr "000000010.1".toList)).takeD 4 []).map (numeral 10) =
          [10, 1, 0, 0] := by
  decide

end Ip
