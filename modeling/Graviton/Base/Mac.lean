import Graviton.Base.HexText

/-!
# `Mac` as text and as a number

`mac_t` of `libs/base/mac.h` is a union: the six octets of the address, and a `u64` that also
covers the two bytes after them. Only the default constructor and the copies write those; the
other constructors leave there what the memory held.

* `toString_roundTrip`: a printed address is complete, and read back.
* `toU64_eq_iff`: equal addresses are equal numbers exactly if the values they go back to were
  constructed over the same two bytes; so always in zeroed memory (`toU64_eq_of_zeroed`).
* `ofString_pairs`: what a text of six pairs of digits is read as.
* `PairsText.getOui_iff`: for which addresses `GetOui` returns the OUI.
-/

namespace Mac

open Lib AddressText

/-! ## Printing -/

/-- `Constant::MacStringLength`. -/
def macStringLength : Nat := 18

/-- `"%02x"`. -/
def hex2 (b : Byte) : Str := (Nat.toDigits 16 b.toNat).leftpad 2 '0'

def toString (mac : Mac) : Str :=
  snprintf macStringLength ([':'].intercalate (mac.u8.toList.map hex2))

/-- Two hex digits. -/
def IsPair (g : Str) : Prop := g.length = 2 ∧ ∀ c ∈ g, isXDigit c = true

instance (g : Str) : Decidable (IsPair g) :=
  decidable_of_iff (g.length = 2 ∧ g.all isXDigit = true) (by rw [List.all_eq_true, IsPair])

theorem isPair_hex2 (b : Byte) : IsPair (hex2 b) :=
  ⟨length_leftpad_toDigits (by decide) b.isLt, fun _ => isXDigit_of_mem_leftpad⟩

/-- The byte of a run of two digits. -/
theorem hexValue_pair {g : Str} (h : IsPair g) :
    (hexValue (writesFrom 0 g)).setWidth 8 = BitVec.ofNat 8 (numeral 16 g) := by
  have hhex : ∀ c ∈ g, isDigitOf 16 c = true :=
    fun c hc => (isDigitOf_sixteen c).trans (h.2 c hc)
  have hlen : g.length ≤ 7 := by
    rw [h.1]
    decide
  rw [hexValue, strtoul_tmpstr (by decide) hhex hlen (by decide) (by decide),
    BitVec.setWidth_ofNat_of_le (by decide)]

/-- **A text of six pairs** is read as their values. -/
theorem ofString_pairs {gs : List Str} (hlen : gs.length = 6) (h : ∀ g ∈ gs, IsPair g) :
    (ofString ([':'].intercalate gs)).u8.toList =
      gs.map fun g => BitVec.ofNat 8 (numeral 16 g) := by
  have hnul : cstr ([':'].intercalate gs) = [':'].intercalate gs := by
    refine cstr_eq_self_iff.2 fun hm => ?_
    rcases mem_intercalate hm with hc | ⟨g, hg, hc⟩
    · exact absurd hc (by decide)
    · exact absurd ((h g hg).2 _ hc) (by decide)
  have hruns : scanRuns isXDigit ([':'].intercalate gs) = gs :=
    scanRuns_intercalate (by decide) fun g hg =>
      ⟨List.ne_nil_of_length_pos (by rw [(h g hg).1]; decide), (h g hg).2⟩
  show (passes ([':'].intercalate gs)).map (fun tmpstr => (hexValue tmpstr).setWidth 8) = _
  rw [passes, macByteLength, scan_eq, hnul, hruns, List.takeD_eq_take _ hlen.ge,
    List.take_of_length_le hlen.le, List.map_map]
  exact List.map_congr_left fun g hg => hexValue_pair (h g hg)

/-- The whole text of an address. -/
def printed (mac : Mac) : Str := [':'].intercalate (mac.u8.toList.map hex2)

theorem printed_length (mac : Mac) : mac.printed.length = 17 := by
  obtain ⟨⟨⟨l⟩, hl⟩⟩ := mac
  have hl : l.length = 6 := hl
  match l, hl with
  | [a, b, c, d, e, f], _ =>
    show ([':'].intercalate [hex2 a, hex2 b, hex2 c, hex2 d, hex2 e, hex2 f]).length = 17
    simp [List.intercalate_cons_cons, (isPair_hex2 _).1]

/-- No character is cut. -/
theorem toString_eq (mac : Mac) : mac.toString = mac.printed :=
  snprintf_of_lt (by rw [← printed, printed_length]; decide)

theorem ofString_printed (mac : Mac) : ofString mac.printed = mac := by
  have hpairs : ∀ g ∈ mac.u8.toList.map hex2, IsPair g := by
    rw [List.forall_mem_map]
    exact fun b _ => isPair_hex2 b
  have hread : (ofString mac.printed).u8.toList = mac.u8.toList := by
    rw [printed, ofString_pairs (by simp) hpairs, List.map_map]
    refine (List.map_congr_left fun b _ => ?_).trans (List.map_id _)
    show BitVec.ofNat 8 (numeral 16 ((Nat.toDigits 16 b.toNat).leftpad 2 '0')) = b
    rw [numeral_leftpad, numeral_toDigits (by decide) (by decide), BitVec.ofNat_toNat,
      BitVec.setWidth_eq]
  exact congrArg mk (Vector.toList_inj.1 hread)

/-- **Round trip**: a printed address is complete, and read back. -/
theorem toString_roundTrip (mac : Mac) :
    mac.toString = [':'].intercalate (mac.u8.toList.map hex2) ∧ mac.toString.length = 17 ∧
      ofString mac.toString = mac := by
  rw [toString_eq]
  exact ⟨rfl, printed_length mac, ofString_printed mac⟩

/-! ## The number -/

/-- `mac_t`: the octets, and the bytes after them that only `u64` covers. -/
@[ext]
structure MacT where
  u8 : Vector Byte 6
  rest : Vector Byte 2
  deriving DecidableEq

/-- `ToU64`, on a host of either byte order. -/
def MacT.toU64 (o : Order) (value : MacT) : BitVec 64 :=
  BitVec.ofNat 64 (o.load (value.u8.toList ++ value.rest.toList))

/-- What `Mac(ifaddrs)` reads of a `struct sockaddr_ll`. -/
structure SockaddrLl where
  sllHalen : Byte
  sllAddr : Vector Byte 8

/-- The first `halen` passes of the loop of `Mac(ifaddrs)`. -/
def storeOctets (s : SockaddrLl) (u8 : Vector Byte 6) : Nat → Vector Byte 6
  | 0 => u8
  | i + 1 =>
    let u8 := storeOctets s u8 i
    if h : i < macByteLength then u8.set i (s.sllAddr.get ⟨i, Nat.lt_of_lt_of_le h (by decide)⟩) h
    else u8

/-- How an object came to its value; `memory` is what its bytes held before the construction. The
source of a copy or an assignment is another object. -/
inductive Built
  | default
  | ofString (memory : MacT) (inputString : Str)
  | ofIfaddrs (memory : MacT) (ifaAddr : SockaddrLl)
  | copy (right : Built)
  | assign (left right : Built)

namespace Built

/-- `m_value`. -/
def value : Built → MacT
  | default => ⟨Vector.replicate 6 0, Vector.replicate 2 0⟩
  | ofString memory inputString => { memory with u8 := (Mac.ofString inputString).u8 }
  | ofIfaddrs memory s => { memory with u8 := storeOctets s memory.u8 s.sllHalen.toNat }
  | copy right => right.value
  | assign _ right => right.value

/-- What memory held after the octets when the value was first constructed. -/
def leftover : Built → Vector Byte 2
  | default => Vector.replicate 2 0
  | ofString memory _ => memory.rest
  | ofIfaddrs memory _ => memory.rest
  | copy right => right.leftover
  | assign _ right => right.leftover

/-- Every construction found zeroed memory. -/
def Zeroed : Built → Prop
  | default => True
  | ofString memory _ => memory.rest = Vector.replicate 2 0
  | ofIfaddrs memory _ => memory.rest = Vector.replicate 2 0
  | copy right => right.Zeroed
  | assign left right => left.Zeroed ∧ right.Zeroed

/-- No constructor writes past the octets, unless it writes all of `u64`. -/
theorem value_rest : ∀ b : Built, b.value.rest = b.leftover
  | default => rfl
  | ofString _ _ => rfl
  | ofIfaddrs _ _ => rfl
  | copy right => value_rest right
  | assign _ right => value_rest right

theorem leftover_of_zeroed : ∀ {b : Built}, b.Zeroed → b.leftover = Vector.replicate 2 0
  | default, _ => rfl
  | ofString _ _, h => h
  | ofIfaddrs _ _, h => h
  | copy right, h => leftover_of_zeroed (b := right) h
  | assign _ right, h => leftover_of_zeroed (b := right) h.2

end Built

/-- The number is all eight bytes. -/
theorem MacT.toU64_inj {o : Order} {v w : MacT} : v.toU64 o = w.toU64 o ↔ v = w := by
  refine ⟨fun h => ?_, fun h => h ▸ rfl⟩
  have hbytes : ∀ x : MacT, o.bytes 8 (x.toU64 o) = x.u8.toList ++ x.rest.toList :=
    fun x => o.bytes_load (by simp) rfl
  have hall : v.u8.toList ++ v.rest.toList = w.u8.toList ++ w.rest.toList := by
    rw [← hbytes, h, hbytes]
  obtain ⟨hu8, hrest⟩ := List.append_inj hall (by simp)
  exact MacT.ext (Vector.toList_inj.1 hu8) (Vector.toList_inj.1 hrest)

/-- Objects built in zeroed memory: equal addresses are equal numbers. -/
theorem toU64_eq_of_zeroed {o : Order} {a b : Built} (ha : a.Zeroed) (hb : b.Zeroed)
    (h : a.value.u8 = b.value.u8) : a.value.toU64 o = b.value.toU64 o := by
  have hrest : a.value.rest = b.value.rest := by
    rw [Built.value_rest, Built.value_rest, Built.leftover_of_zeroed ha,
      Built.leftover_of_zeroed hb]
  rw [MacT.ext h hrest]

/-- **When equal addresses are equal numbers**: if the values they go back to were constructed
over the same two bytes. -/
theorem toU64_eq_iff (o : Order) (a b : Built) (h : a.value.u8 = b.value.u8) :
    a.value.toU64 o = b.value.toU64 o ↔ a.leftover = b.leftover := by
  rw [MacT.toU64_inj, ← a.value_rest, ← b.value_rest]
  exact ⟨congrArg MacT.rest, fun hr => MacT.ext h hr⟩

/-- The default address and the same address read from a text, in memory that was not zero. -/
theorem toU64_ne :
    let memory : MacT := ⟨Vector.replicate 6 0xff, Vector.replicate 2 0xff⟩
    let a := Built.default
    let b := Built.copy (.ofString memory "00:00:00:00:00:00".toList)
    a.value.u8 = b.value.u8 ∧ a.value.toU64 .little = 0 ∧
      b.value.toU64 .little = 0xffff000000000000 := by
  decide

/-- The same text read twice. -/
theorem toU64_eq_iff_text :
    let a := Built.ofString ⟨Vector.replicate 6 0, Vector.replicate 2 0⟩ "02:42:0a".toList
    let b := Built.ofString ⟨Vector.replicate 6 1, Vector.replicate 2 0⟩ "02:42:0a".toList
    a.value.u8 = b.value.u8 ∧
      (a.value.toU64 .little = b.value.toU64 .little ↔ a.leftover = b.leftover) :=
  ⟨rfl, toU64_eq_iff .little (.ofString ⟨Vector.replicate 6 0, Vector.replicate 2 0⟩ _)
    (.ofString ⟨Vector.replicate 6 1, Vector.replicate 2 0⟩ _) rfl⟩

/-! ## The OUI -/

/-- `GetOui`: `||` makes a truth value of the three octets. -/
def getOui (mac : Mac) : BitVec 32 :=
  if mac.u8[0].setWidth 32 <<< 16 ≠ 0#32 ∨ mac.u8[1].setWidth 32 <<< 8 ≠ 0#32 ∨
    mac.u8[2].setWidth 32 ≠ 0#32 then 1 else 0

theorem part_eq_zero_iff {k : Nat} (hk : k ≤ 24) (x : Byte) :
    x.setWidth 32 <<< k = 0#32 ↔ x.toNat = 0 := by
  have hlt : x.toNat * 2 ^ k < 2 ^ 32 := by
    calc x.toNat * 2 ^ k < 2 ^ 8 * 2 ^ k := Nat.mul_lt_mul_of_pos_right x.isLt (Nat.two_pow_pos k)
      _ ≤ 2 ^ 8 * 2 ^ 24 := Nat.mul_le_mul_left _ (Nat.pow_le_pow_right (by decide) hk)
  have hx : x.toNat % 2 ^ 32 = x.toNat := Nat.mod_eq_of_lt (Nat.lt_trans x.isLt (by decide))
  rw [← BitVec.toNat_inj, BitVec.toNat_shiftLeft, BitVec.toNat_setWidth, hx, Nat.shiftLeft_eq,
    Nat.mod_eq_of_lt hlt]
  exact Nat.mul_eq_zero.trans (or_iff_left (Nat.two_pow_pos k).ne')

/-- The value is 0 or 1. -/
theorem toNat_getOui (mac : Mac) : mac.getOui.toNat =
    if mac.u8[0].toNat = 0 ∧ mac.u8[1].toNat = 0 ∧ mac.u8[2].toNat = 0 then 0 else 1 := by
  have h2 := part_eq_zero_iff (Nat.zero_le 24) mac.u8[2]
  rw [BitVec.shiftLeft_zero] at h2
  have hnone : mac.u8[0].toNat = 0 ∧ mac.u8[1].toNat = 0 ∧ mac.u8[2].toNat = 0 ↔
      ¬ (mac.u8[0].setWidth 32 <<< 16 ≠ 0#32 ∨ mac.u8[1].setWidth 32 <<< 8 ≠ 0#32 ∨
        mac.u8[2].setWidth 32 ≠ 0#32) := by
    rw [not_or, not_or, not_not, not_not, not_not, part_eq_zero_iff (by decide),
      part_eq_zero_iff (by decide), h2]
  rw [getOui, if_congr hnone rfl rfl, ite_not]
  split <;> rfl

/-- The text of an address: six groups of two hex digits. -/
structure PairsText where
  groups : Vector Str 6
  pairs : ∀ g ∈ groups.toList, IsPair g

namespace PairsText

def text (t : PairsText) : Str := [':'].intercalate t.groups.toList

/-- `b0` to `b5`. -/
def value (t : PairsText) (i : Fin 6) : Nat := numeral 16 t.groups[i]

/-- What `GetOui` should return. -/
def oui (t : PairsText) : Nat := t.value 0 * 65536 + t.value 1 * 256 + t.value 2

/-- `Mac(text).GetOui()`. -/
def getOui (t : PairsText) : Nat := (ofString t.text).getOui.toNat

def SameGroups (t u : PairsText) : Prop :=
  t.value 0 = u.value 0 ∧ t.value 1 = u.value 1 ∧ t.value 2 = u.value 2

def ZeroGroups (t : PairsText) : Prop := t.value 0 = 0 ∧ t.value 1 = 0 ∧ t.value 2 = 0

instance (t : PairsText) : Decidable t.ZeroGroups := inferInstanceAs (Decidable (_ ∧ _))

instance (t u : PairsText) : Decidable (t.SameGroups u) := inferInstanceAs (Decidable (_ ∧ _))

theorem isPair (t : PairsText) (i : Fin 6) : IsPair t.groups[i] :=
  t.pairs _ (Vector.mem_toList_iff.2 (Vector.getElem_mem i.isLt))

theorem value_lt (t : PairsText) (i : Fin 6) : t.value i < 256 := by
  obtain ⟨hlen, hdigits⟩ := t.isPair i
  exact numeral_lt_of_length_le (k := 2) (by decide)
    (fun c hc => (isDigitOf_sixteen c).trans (hdigits c hc)) hlen.le

theorem u8_ofString (t : PairsText) (i : Fin 6) :
    ((ofString t.text).u8[i]).toNat = t.value i := by
  have hlen : t.groups.toList.length = 6 := Vector.length_toList
  have hread := ofString_pairs hlen t.pairs
  have hget : (ofString t.text).u8[i] = BitVec.ofNat 8 (t.value i) := by
    have h := congrArg (fun l => l[(i : Nat)]?) hread
    simpa [text, value] using h
  rw [hget, BitVec.toNat_ofNat, Nat.mod_eq_of_lt (t.value_lt i)]

theorem getOui_eq (t : PairsText) : t.getOui = if t.ZeroGroups then 0 else 1 := by
  have h0 := t.u8_ofString 0
  have h1 := t.u8_ofString 1
  have h2 := t.u8_ofString 2
  simp only [Fin.getElem_fin] at h0 h1 h2
  rw [getOui, toNat_getOui]
  exact if_congr (by rw [ZeroGroups, ← h0, ← h1, ← h2]; rfl) rfl rfl

/-- **When the OUI is right**: for the first two prefixes only. So two addresses are told apart as
they should be if their groups are the same, or those of just one of them are zero. -/
theorem getOui_iff (t u : PairsText) :
    (t.getOui = t.oui ↔ t.value 0 = 0 ∧ t.value 1 = 0 ∧ t.value 2 ≤ 1) ∧
      ((t.getOui = u.getOui ↔ t.SameGroups u) ↔
        t.SameGroups u ∨ (t.ZeroGroups ↔ ¬ u.ZeroGroups)) := by
  constructor
  · rw [getOui_eq, oui]
    split
    · rename_i h
      obtain ⟨h0, h1, h2⟩ := h
      omega
    · rename_i h
      rw [ZeroGroups] at h
      omega
  · rw [getOui_eq, getOui_eq]
    have hsame : t.SameGroups u → (t.ZeroGroups ↔ u.ZeroGroups) := by
      rintro ⟨h0, h1, h2⟩
      rw [ZeroGroups, ZeroGroups, h0, h1, h2]
    by_cases h : t.ZeroGroups ↔ u.ZeroGroups
    · -- the same value
      have hne : ¬ (t.ZeroGroups ↔ ¬ u.ZeroGroups) := fun hn => iff_not_self (h.symm.trans hn)
      rw [if_congr h rfl rfl, eq_self, true_iff, or_iff_left hne]
    · have hne : t.ZeroGroups ↔ ¬ u.ZeroGroups :=
        not_iff_not.1 (by rw [not_not]; exact not_iff.1 h)
      refine iff_of_true (iff_of_false ?_ fun hs => h (hsame hs)) (.inr hne)
      rw [if_congr hne rfl rfl, ite_not]
      split <;> decide

end PairsText

/-- The addresses of two different makers have the same OUI, 1. -/
theorem getOui_makers :
    let t : PairsText := ⟨#v["00".toList, "1b".toList, "44".toList, "11".toList, "3a".toList,
      "b7".toList], by decide⟩
    let u : PairsText := ⟨#v["52".toList, "54".toList, "00".toList, "12".toList, "34".toList,
      "56".toList], by decide⟩
    t.text = "00:1b:44:11:3a:b7".toList ∧ u.text = "52:54:00:12:34:56".toList ∧
      t.getOui = 1 ∧ t.oui = 0x001b44 ∧ u.getOui = 1 ∧ u.oui = 0x525400 ∧
      ¬ (t.getOui = u.getOui ↔ t.SameGroups u) := by
  decide

end Mac
