import Graviton.Base.IpText
import Graviton.Lib.Run

/-!
# The address class of an `Ip`

The class an `Ip` carries is computed by the constructors and copied by the copy constructor and
the assignment. It is to be the class of the address block the octets lie in (`InClass`).

* `classRight_ofOctets_iff`: for which octets it is.
* `classRight_iff`: in which runs of constructions and assignments every object has its class.
-/

namespace Ip

open Lib

/-! ## Address blocks -/

/-- The octets lie in the block `net/len`: they agree with it on the first `len` bits. -/
def InBlock (octets net : List Byte) (len : Nat) : Prop :=
  ofBe octets / 2 ^ (32 - len) = ofBe net / 2 ^ (32 - len)

instance (octets net : List Byte) (len : Nat) : Decidable (InBlock octets net len) := by
  unfold InBlock; infer_instance

/-- The addresses of each class; `unknown` is for those of no other. -/
def InClass (octets : List Byte) : IpAddressType → Prop
  | .loopback => InBlock octets [127, 0, 0, 0] 8
  | .linkLocal => InBlock octets [169, 254, 0, 0] 16
  | .multicast => InBlock octets [224, 0, 0, 0] 4
  | .classA => InBlock octets [10, 0, 0, 0] 8
  | .classB => InBlock octets [172, 16, 0, 0] 12
  | .classC => InBlock octets [192, 168, 0, 0] 16
  | .unknown =>
    ¬ (InBlock octets [127, 0, 0, 0] 8 ∨ InBlock octets [169, 254, 0, 0] 16 ∨
      InBlock octets [224, 0, 0, 0] 4 ∨ InBlock octets [10, 0, 0, 0] 8 ∨
      InBlock octets [172, 16, 0, 0] 12 ∨ InBlock octets [192, 168, 0, 0] 16)

/-- The class an object carries is right: it is each class exactly for the addresses of that
class. -/
def ClassRight (ip : Ip) : Prop := ∀ t, ip.ipAddressType = t ↔ InClass ip.toArray t

theorem ofBe_four (a b c d : Byte) :
    ofBe [a, b, c, d] = a.toNat * 2 ^ 24 + b.toNat * 2 ^ 16 + c.toNat * 2 ^ 8 + d.toNat := by
  simp only [ofBe, List.reverse_cons, List.reverse_nil, List.nil_append, List.cons_append, ofLe]
  omega

theorem ofBe_toArray (ip : Ip) : ofBe ip.toArray = (ip.u8.get 0).toNat * 2 ^ 24 +
    (ip.u8.get 1).toNat * 2 ^ 16 + (ip.u8.get 2).toNat * 2 ^ 8 + (ip.u8.get 3).toNat :=
  ofBe_four _ _ _ _

/-- A block of eight bits is its first octet. -/
theorem inBlock_eight_iff (ip : Ip) (n : Byte) :
    InBlock ip.toArray [n, 0, 0, 0] 8 ↔ ip.u8.get 0 = n := by
  have h0 : (0 : Byte).toNat = 0 := rfl
  rw [InBlock, ofBe_toArray, ofBe_four, h0, ← BitVec.toNat_inj]
  omega

theorem inBlock_sixteen_iff (ip : Ip) (n m : Byte) :
    InBlock ip.toArray [n, m, 0, 0] 16 ↔ ip.u8.get 0 = n ∧ ip.u8.get 1 = m := by
  have h0 : (0 : Byte).toNat = 0 := rfl
  rw [InBlock, ofBe_toArray, ofBe_four, h0, ← BitVec.toNat_inj, ← BitVec.toNat_inj]
  omega

theorem inBlock_classB_iff (ip : Ip) :
    InBlock ip.toArray [172, 16, 0, 0] 12 ↔ ip.u8.get 0 = 172 ∧ ip.u8.get 1 &&& 0xF0 = 0x10 := by
  have hmask : (ip.u8.get 1 &&& 0xF0).toNat = 2 ^ 4 * ((ip.u8.get 1).toNat % 2 ^ 8 / 2 ^ 4) := by
    rw [BitVec.toNat_and]
    exact and_high_mask _ (by decide : 4 ≤ 8)
  have hn : ofBe [172, 16, 0, 0] = 172 * 2 ^ 24 + 16 * 2 ^ 16 := by decide
  rw [InBlock, ofBe_toArray, hn, ← BitVec.toNat_inj, ← BitVec.toNat_inj, hmask]
  show _ ↔ _ = 172 ∧ _ = 16
  omega

theorem inBlock_multicast_iff (ip : Ip) :
    InBlock ip.toArray [224, 0, 0, 0] 4 ↔
      224 ≤ (ip.u8.get 0).toNat ∧ (ip.u8.get 0).toNat ≤ 239 := by
  have hn : ofBe [224, 0, 0, 0] = 224 * 2 ^ 24 := by decide
  rw [InBlock, ofBe_toArray, hn]
  omega

/-- The class a first octet allows, beside `unknown`. -/
def classOfFirst (first : Nat) : IpAddressType :=
  if first = 127 then .loopback
  else if first = 169 then .linkLocal
  else if 224 ≤ first ∧ first ≤ 239 then .multicast
  else if first = 10 then .classA
  else if first = 172 then .classB
  else .classC

theorem classOfFirst_of_inClass {ip : Ip} {t : IpAddressType} (ht : t ≠ .unknown)
    (h : InClass ip.toArray t) : classOfFirst (ip.u8.get 0).toNat = t := by
  cases t with
  | unknown => exact absurd rfl ht
  | loopback => rw [(inBlock_eight_iff ip 127).1 h]; rfl
  | linkLocal => rw [((inBlock_sixteen_iff ip 169 254).1 h).1]; rfl
  | classA => rw [(inBlock_eight_iff ip 10).1 h]; rfl
  | classB => rw [((inBlock_classB_iff ip).1 h).1]; rfl
  | classC => rw [((inBlock_sixteen_iff ip 192 168).1 h).1]; rfl
  | multicast =>
    obtain ⟨hlo, hhi⟩ := (inBlock_multicast_iff ip).1 h
    rw [classOfFirst, if_neg (by omega), if_neg (by omega), if_pos ⟨hlo, hhi⟩]

theorem not_inClass_unknown {octets : List Byte} {t : IpAddressType} (ht : t ≠ .unknown)
    (h : InClass octets t) : ¬ InClass octets .unknown := by
  intro hu
  simp only [InClass, not_or] at hu
  obtain ⟨h1, h2, h3, h4, h5, h6⟩ := hu
  cases t <;> contradiction

/-- No address is in two classes. -/
theorem InClass.unique {ip : Ip} {t t' : IpAddressType} (h : InClass ip.toArray t)
    (h' : InClass ip.toArray t') : t = t' := by
  by_cases ht : t = .unknown
  · by_contra hne
    subst ht
    exact not_inClass_unknown (Ne.symm hne) h' h
  · by_cases ht' : t' = .unknown
    · subst ht'
      exact absurd h' (not_inClass_unknown ht h)
    · rw [← classOfFirst_of_inClass ht h, classOfFirst_of_inClass ht' h']

theorem classRight_iff_inClass (ip : Ip) : ClassRight ip ↔ InClass ip.toArray ip.ipAddressType :=
  ⟨fun h => (h _).1 rfl, fun h _ => ⟨fun ht => ht ▸ h, h.unique⟩⟩

/-- What the constructors take for the multicast block. -/
def MulticastRight (octets : List Byte) : Prop :=
  InBlock octets [224, 0, 0, 0] 4 → InBlock octets [224, 239, 0, 0] 16

instance (octets : List Byte) : Decidable (MulticastRight octets) := by
  unfold MulticastRight; infer_instance

/-- **When the computed class is right**: for every address that is no multicast address, and for
those of `224.239.0.0/16`. -/
theorem classRight_ofOctets_iff (u8 : Vector Byte 4) (flags : BitVec 32) :
    ClassRight (ofOctets u8 flags) ↔ MulticastRight (ofOctets u8 flags).toArray := by
  rw [classRight_iff_inClass]
  generalize hip : ofOctets u8 flags = ip
  have hu8 : ip.u8 = u8 := by rw [← hip]; rfl
  have htype : ip.ipAddressType = findIpAddressType ip.u8 := by rw [← hip]; rfl
  rw [htype, findIpAddressType, MulticastRight, inBlock_sixteen_iff, inBlock_multicast_iff]
  -- an address of another class has another first octet
  have hother : ∀ n : Byte, ip.u8.get 0 = n → n.toNat < 224 →
      (224 ≤ (ip.u8.get 0).toNat ∧ (ip.u8.get 0).toNat ≤ 239 →
        ip.u8.get 0 = 224 ∧ ip.u8.get 1 = 239) := by
    intro n hn hlt hm
    rw [hn] at hm
    omega
  split_ifs with h1 h2 h3 h4 h5 h6
  · exact iff_of_true ((inBlock_eight_iff ip 127).2 h1) (hother _ h1 (by decide))
  · exact iff_of_true ((inBlock_sixteen_iff ip 169 254).2 h2) (hother _ h2.1 (by decide))
  · refine iff_of_true ((inBlock_multicast_iff ip).2 ?_) fun _ => h3
    rw [h3.1]
    decide
  · exact iff_of_true ((inBlock_eight_iff ip 10).2 h4) (hother _ h4 (by decide))
  · exact iff_of_true ((inBlock_classB_iff ip).2 h5) (hother _ h5.1 (by decide))
  · exact iff_of_true ((inBlock_sixteen_iff ip 192 168).2 h6) (hother _ h6.1 (by decide))
  · rw [imp_iff_not h3, ← inBlock_multicast_iff]
    refine ⟨fun h hm => h (.inr (.inr (.inl hm))), fun hm h => ?_⟩
    rcases h with h | h | h | h | h | h
    · exact h1 ((inBlock_eight_iff ip 127).1 h)
    · exact h2 ((inBlock_sixteen_iff ip 169 254).1 h)
    · exact hm h
    · exact h4 ((inBlock_eight_iff ip 10).1 h)
    · exact h5 ((inBlock_classB_iff ip).1 h)
    · exact h6 ((inBlock_sixteen_iff ip 192 168).1 h)

/-! ## Constructions and assignments -/

/-- A construction or an assignment; `right` and `left` are objects, in the order they were
made. -/
inductive Op
  | default
  | ofU32 (address : BitVec 32)
  | ofString (inputString : Str)
  | ofIfaddrs (ifa : Ifaddrs)
  | copy (right : Nat)
  | assign (left right : Nat)

/-- The object a constructor makes. -/
def Op.construct (o : Order) (objects : List Ip) : Op → Option Ip
  | .default => some .new
  | .ofU32 address => some (.ofU32 o address)
  | .ofString inputString => some (.ofString inputString)
  | .ofIfaddrs ifa => some (.ofIfaddrs ifa)
  | .copy right => (objects[right]?).map Ip.copy
  | .assign _ _ => none

/-- The objects after an operation. -/
def step (o : Order) (objects : List Ip) : Op → Option (List Ip)
  | .assign left right =>
    if left < objects.length then
      (objects[right]?).map fun ip => if left = right then objects else objects.set left ip.copy
    else none
  | op => (op.construct o objects).map fun ip => objects ++ [ip]

/-- The operation stores no multicast address whose class is not found. -/
def Op.Right (o : Order) (_ : List Ip) : Op → Prop
  | .ofU32 address => MulticastRight (o.bytes 4 address)
  | .ofString inputString => MulticastRight (strToIpt inputString).toList
  | .ofIfaddrs ifa => MulticastRight ifa.sinAddr.toList
  | .default | .copy _ | .assign _ _ => True

def AllRight (objects : List Ip) : Prop := ∀ ip ∈ objects, ClassRight ip

theorem classRight_new : ClassRight new := (classRight_ofOctets_iff #v[0, 0, 0, 0] 0).2 (by decide)

theorem toArray_ofOctets (u8 : Vector Byte 4) (flags : BitVec 32) :
    (ofOctets u8 flags).toArray = u8.toList := toArray_eq _

theorem copy_eq (ip : Ip) : ip.copy = ip := rfl

/-- A new object is as right as its constructor. -/
theorem Op.construct_right_iff {o : Order} {objects : List Ip} {op : Op} {ip : Ip}
    (h : AllRight objects) (hc : op.construct o objects = some ip) :
    ClassRight ip ↔ op.Right o objects := by
  cases op with
  | default =>
    cases hc
    exact iff_of_true classRight_new trivial
  | ofU32 address =>
    cases hc
    rw [Ip.ofU32, classRight_ofOctets_iff, toArray_ofOctets]
    rfl
  | ofString inputString =>
    cases hc
    rw [Ip.ofString, classRight_ofOctets_iff, toArray_ofOctets]
    rfl
  | ofIfaddrs ifa =>
    cases hc
    rw [Ip.ofIfaddrs, sockaddrToIpt, inetNtop, strToIpt_dotted, classRight_ofOctets_iff,
      toArray_ofOctets]
    rfl
  | copy right =>
    obtain ⟨r, hr, rfl⟩ := Option.map_eq_some_iff.1 hc
    exact iff_of_true (h r (List.mem_of_getElem? hr)) trivial
  | assign left right => cases hc

/-- **What one operation keeps.** -/
theorem step_right_iff {o : Order} {objects objects' : List Ip} {op : Op}
    (h : AllRight objects) (hs : step o objects op = some objects') :
    AllRight objects' ↔ op.Right o objects := by
  have hnew : ∀ op : Op, (op.construct o objects).map (fun ip => objects ++ [ip]) = some objects' →
      (AllRight objects' ↔ op.Right o objects) := by
    intro op hop
    obtain ⟨ip, hip, rfl⟩ := Option.map_eq_some_iff.1 hop
    rw [AllRight, List.forall_mem_append, List.forall_mem_singleton,
      Op.construct_right_iff h hip]
    exact and_iff_right h
  cases op with
  | assign left right =>
    refine iff_of_true ?_ trivial
    obtain ⟨-, hs⟩ := Option.ite_none_right_eq_some.1 hs
    obtain ⟨ip, hip, rfl⟩ := Option.map_eq_some_iff.1 hs
    split
    · exact h
    · intro x hx
      rcases List.mem_or_eq_of_mem_set hx with hx | hx
      · exact h x hx
      · rw [hx, copy_eq]
        exact h ip (List.mem_of_getElem? hip)
  | default => exact hnew _ hs
  | ofU32 address => exact hnew _ hs
  | ofString inputString => exact hnew _ hs
  | ofIfaddrs ifa => exact hnew _ hs
  | copy right => exact hnew _ hs

/-- **The class of every object, in every run**: it stays right exactly as long as every
constructor stores an address that is no multicast address, or one of `224.239.0.0/16`. -/
theorem classRight_iff {o : Order} {ops : List Op} {objects : List Ip}
    (h : Run (step o) anyStep [] ops objects) :
    Always (step o) AllRight [] ops ↔ Run (step o) (Op.Right o) [] ops objects :=
  h.always_iff (fun _ _ _ (_ : True) _ => trivial) (fun _ _ _ _ hp hs => step_right_iff hp hs)
    trivial nofun

/-- An address from text, its copy, and an assignment. -/
theorem classRight_iff_copied :
    Always (step .little) AllRight []
        [.ofString "10.0.0.1".toList, .copy 0, .default, .assign 2 1] ↔
      Run (step .little) (Op.Right .little) []
        [.ofString "10.0.0.1".toList, .copy 0, .default, .assign 2 1]
        [ofString "10.0.0.1".toList, ofString "10.0.0.1".toList, ofString "10.0.0.1".toList] :=
  classRight_iff (.cons trivial rfl (.cons trivial rfl (.cons trivial rfl
    (.cons trivial rfl (.nil _)))))

/-- The discovery group `233.255.14.7` is a multicast address, and its class is `unknown`. -/
theorem not_classRight_group :
    InClass (ofString "233.255.14.7".toList).toArray .multicast ∧
      (ofString "233.255.14.7".toList).ipAddressType = .unknown ∧
      ¬ Always (step .little) AllRight [] [.ofString "233.255.14.7".toList] := by
  have hgroup : InClass (ofString "233.255.14.7".toList).toArray .multicast := by
    unfold InClass; decide
  have htype : (ofString "233.255.14.7".toList).ipAddressType = .unknown := by decide
  refine ⟨hgroup, htype, fun h => ?_⟩
  have hright : ClassRight (ofString "233.255.14.7".toList) :=
    (h.2 _ rfl) _ (.head _)
  have hmulticast := (hright .multicast).2 hgroup
  rw [htype] at hmulticast
  cases hmulticast

end Ip
