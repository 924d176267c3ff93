import Graviton.Lib.Multimap
import Graviton.Service.SockAddr
import Mathlib.Data.Char
import Mathlib.Data.List.Lex

/-!
# `EthHandler`: enumerating the interfaces

`EnumerateInterfaces` of `libs/service/ethhandler.cpp`. The list `getifaddrs` returns is a
parameter: any of the pointers of an entry may be NULL.

* `enumerateInterfaces_ok_iff`: for which lists no NULL pointer is read through.
* `enumerateInterfaces_reports_iff`: the map holds an entry for each address; the count says so
  only if there is none.
-/

open Lib

abbrev IpMap := Multimap Str Address

namespace EthHandler

def afInet6 : BitVec 16 := 10

def afPacket : BitVec 16 := 17

/-- `struct sockaddr`: the family, and the bytes that are the address of a `sockaddr_in`. -/
structure Sockaddr where
  saFamily : BitVec 16
  sinAddr : Vector Byte 4
  deriving DecidableEq

/-- `struct ifaddrs`, with what `getnameinfo` makes of its address. -/
structure Ifaddrs where
  ifaName : Str
  ifaFlags : BitVec 32
  ifaAddr : Option Sockaddr
  ifaNetmask : Option Sockaddr
  ifaBroadaddr : Option Sockaddr
  -- `ifa_data` is set
  ifaData : Bool
  host : Option Str

/-- The pointers of an entry. -/
inductive Pointer
  | ifaAddr
  | ifaNetmask
  | ifaBroadaddr
  deriving DecidableEq

/-- What a pointer points to; a NULL pointer faults. -/
def deref (pointer : Pointer) : Option Sockaddr → Except Pointer Sockaddr
  | none => .error pointer
  | some addr => .ok addr

/-- `Ip(struct ifaddrs*)`, which reads through all three pointers. -/
def newIp (ifa : Ifaddrs) : Except Pointer Ip := do
  let addr ← deref .ifaAddr ifa.ifaAddr
  let _ ← deref .ifaNetmask ifa.ifaNetmask
  let _ ← deref .ifaBroadaddr ifa.ifaBroadaddr
  return Ip.ofIfaddrs ⟨addr.sinAddr, ifa.ifaFlags⟩

/-- A pass of the loop. -/
def enumerateStep (interfaceMap : IpMap) (ifa : Ifaddrs) : Except Pointer IpMap :=
  match ifa.ifaAddr with
  | none => .ok interfaceMap
  | some addr =>
    let family := addr.saFamily
    if family = afInet ∨ family = afInet6 then
      match ifa.host with
      | none => .ok interfaceMap
      | some _ =>
        if family = afInet then do
          let ip ← newIp ifa
          return interfaceMap.insert ifa.ifaName (.ipv4 ip)
        else .ok (interfaceMap.insert ifa.ifaName .ipv6)
    else if family = afPacket ∧ ifa.ifaData then .ok (interfaceMap.insert ifa.ifaName .mac)
    else .ok interfaceMap

/-- `interfaceMap.clear()`. -/
def clear (_ : IpMap) : IpMap := Multimap.empty

/-- `EnumerateInterfaces`: the count it returns, and the map it leaves. Nothing adds to
`intfCount`. -/
def enumerateInterfaces (interfaceMap : IpMap) (getifaddrs : Option (List Ifaddrs)) :
    Except Pointer (Int × IpMap) :=
  let interfaceMap := clear interfaceMap
  let intfCount := 0
  match getifaddrs with
  | none => .ok (intfCount, interfaceMap)
  | some ifaddr => do
    let interfaceMap ← ifaddr.foldlM enumerateStep interfaceMap
    return (intfCount, interfaceMap)

/-! ## What is stored -/

/-- An IPv4 address, one the constructor of `Ip` is called for. -/
def IsInet (ifa : Ifaddrs) : Prop :=
  ∃ addr, ifa.ifaAddr = some addr ∧ addr.saFamily = afInet ∧ ifa.host.isSome

/-- What is read of an entry is there. -/
def Present (ifa : Ifaddrs) : Prop :=
  IsInet ifa → ifa.ifaNetmask.isSome ∧ ifa.ifaBroadaddr.isSome

/-- The entry of the map that an interface is due: one of its name, and of the type of its
address. -/
def entry (ifa : Ifaddrs) : Option (Str × Address) :=
  ifa.ifaAddr.bind fun addr =>
    if addr.saFamily = afInet then
      ifa.host.map fun _ => (ifa.ifaName, .ipv4 (Ip.ofOctets addr.sinAddr ifa.ifaFlags))
    else if addr.saFamily = afInet6 then ifa.host.map fun _ => (ifa.ifaName, .ipv6)
    else if addr.saFamily = afPacket ∧ ifa.ifaData then some (ifa.ifaName, .mac)
    else none

/-- A map with one more entry, if there is one. -/
def store (interfaceMap : IpMap) (e : Option (Str × Address)) : IpMap :=
  match e with
  | none => interfaceMap
  | some (name, address) => interfaceMap.insert name address

/-- The map holds what is due to the entries of the list, each once, and nothing else; the count
is the number of its entries. -/
structure ReportsAll (ifaddr : List Ifaddrs) (r : Int × IpMap) : Prop where
  entries : r.2.entries.Perm (ifaddr.filterMap entry)
  count : r.1 = r.2.size

/-- The constructor of `Ip`, with the pointers it reads through. -/
theorem newIp_eq {ifa : Ifaddrs} {addr : Sockaddr} (h : ifa.ifaAddr = some addr) :
    (ifa.ifaNetmask.isSome ∧ ifa.ifaBroadaddr.isSome →
        newIp ifa = .ok (Ip.ofOctets addr.sinAddr ifa.ifaFlags)) ∧
      (¬(ifa.ifaNetmask.isSome ∧ ifa.ifaBroadaddr.isSome) →
        ∃ pointer, newIp ifa = .error pointer) := by
  have hread : Ip.ofIfaddrs ⟨addr.sinAddr, ifa.ifaFlags⟩ =
      Ip.ofOctets addr.sinAddr ifa.ifaFlags := by
    rw [Ip.ofIfaddrs, Ip.sockaddrToIpt, Ip.inetNtop, Ip.strToIpt_dotted]
  rw [newIp, h]
  cases ifa.ifaNetmask with
  | none => exact ⟨fun hs => Bool.noConfusion hs.1, fun _ => ⟨.ifaNetmask, rfl⟩⟩
  | some netmask =>
    cases ifa.ifaBroadaddr with
    | none => exact ⟨fun hs => Bool.noConfusion hs.2, fun _ => ⟨.ifaBroadaddr, rfl⟩⟩
    | some broadaddr => exact ⟨fun _ => congrArg Except.ok hread, fun hs => absurd ⟨rfl, rfl⟩ hs⟩

/-- **A pass**: it stores the entry that is due, or reads through a NULL pointer. -/
theorem enumerateStep_eq (interfaceMap : IpMap) (ifa : Ifaddrs) :
    (Present ifa → enumerateStep interfaceMap ifa = .ok (store interfaceMap (entry ifa))) ∧
      (¬Present ifa → ∃ pointer, enumerateStep interfaceMap ifa = .error pointer) := by
  rw [enumerateStep, entry]
  cases haddr : ifa.ifaAddr with
  | none =>
    have hp : Present ifa := fun ⟨addr, h, _⟩ => by rw [haddr] at h; cases h
    exact ⟨fun _ => rfl, fun h => absurd hp h⟩
  | some addr =>
    have hinet : IsInet ifa → addr.saFamily = afInet ∧ ifa.host.isSome := by
      rintro ⟨addr', h, hrest⟩
      rw [haddr] at h
      cases h
      exact hrest
    dsimp only [Option.bind_some]
    by_cases h4 : addr.saFamily = afInet
    · simp only [if_pos h4, if_pos (Or.inl h4 : _ ∨ addr.saFamily = afInet6)]
      cases hhost : ifa.host with
      | none =>
        have hp : Present ifa := fun h => by rw [hhost] at hinet; exact Bool.noConfusion (hinet h).2
        exact ⟨fun _ => rfl, fun h => absurd hp h⟩
      | some host =>
        have hp : Present ifa ↔ ifa.ifaNetmask.isSome ∧ ifa.ifaBroadaddr.isSome :=
          forall_prop_of_true ⟨addr, haddr, h4, by rw [hhost]; rfl⟩
        obtain ⟨hok, herr⟩ := newIp_eq haddr
        rw [hp]
        refine ⟨fun h => ?_, fun h => ?_⟩
        · rw [hok h]
          rfl
        · obtain ⟨pointer, hnew⟩ := herr h
          exact ⟨pointer, by rw [hnew]; rfl⟩
    · have hp : Present ifa := fun h => absurd (hinet h).1 h4
      refine ⟨fun _ => ?_, fun h => absurd hp h⟩
      by_cases h6 : addr.saFamily = afInet6
      · simp only [if_neg h4, if_pos h6, if_pos (Or.inr h6 : addr.saFamily = afInet ∨ _)]
        cases ifa.host <;> rfl
      · simp only [if_neg h4, if_neg h6, if_neg (not_or.2 ⟨h4, h6⟩)]
        split <;> rfl

/-- The loop: by induction on the list, whose first entry is stored or faults. -/
theorem foldlM_enumerateStep : ∀ (l : List Ifaddrs) (m : IpMap),
    ((∀ ifa ∈ l, Present ifa) → l.foldlM enumerateStep m =
        .ok ((l.filterMap entry).foldl (fun m e => m.insert e.1 e.2) m)) ∧
      ((¬∀ ifa ∈ l, Present ifa) → ∃ pointer, l.foldlM enumerateStep m = .error pointer)
  | [], _ => ⟨fun _ => rfl, fun h => absurd (List.forall_mem_nil _) h⟩
  | ifa :: l, m => by
    obtain ⟨hok, herr⟩ := enumerateStep_eq m ifa
    rw [List.forall_mem_cons, List.foldlM_cons]
    by_cases hp : Present ifa
    · have hstore : (l.filterMap entry).foldl (fun m e => m.insert e.1 e.2) (store m (entry ifa)) =
          ((ifa :: l).filterMap entry).foldl (fun m e => m.insert e.1 e.2) m := by
        cases he : entry ifa with
        | none => rw [List.filterMap_cons_none he]; rfl
        | some e => rw [List.filterMap_cons_some he]; rfl
      have ih := foldlM_enumerateStep l (store m (entry ifa))
      rw [hstore] at ih
      rw [hok hp, and_iff_right hp]
      exact ih
    · refine ⟨fun h => absurd h.1 hp, fun _ => ?_⟩
      obtain ⟨pointer, hstep⟩ := herr hp
      exact ⟨pointer, by rw [hstep]; rfl⟩

/-- **`EnumerateInterfaces`** on a list whose entries are present: the map is the entries that
are due, the count zero. -/
theorem enumerateInterfaces_of_present {ifaddr : List Ifaddrs} (h : ∀ ifa ∈ ifaddr, Present ifa)
    (interfaceMap : IpMap) : enumerateInterfaces interfaceMap (some ifaddr) =
      .ok (0, Multimap.ofList (ifaddr.filterMap entry)) := by
  show (ifaddr.foldlM enumerateStep Multimap.empty >>= _) = _
  rw [(foldlM_enumerateStep ifaddr _).1 h]
  rfl

/-- **Which lists are enumerated without a fault**: those whose IPv4 interfaces have a netmask and
a broadcast address. -/
theorem enumerateInterfaces_ok_iff (interfaceMap : IpMap) (ifaddr : List Ifaddrs) :
    (∃ r, enumerateInterfaces interfaceMap (some ifaddr) = .ok r) ↔
      ∀ ifa ∈ ifaddr, IsInet ifa → ifa.ifaNetmask.isSome ∧ ifa.ifaBroadaddr.isSome := by
  constructor
  · rintro ⟨r, hr⟩
    by_contra hp
    obtain ⟨pointer, herr⟩ := (foldlM_enumerateStep ifaddr Multimap.empty).2 hp
    have hr : (ifaddr.foldlM enumerateStep Multimap.empty >>= _) = _ := hr
    rw [herr] at hr
    cases hr
  · exact fun hp => ⟨_, enumerateInterfaces_of_present hp interfaceMap⟩

/-- A tunnel: an address without a netmask. -/
theorem enumerateInterfaces_tunnel :
    let addr : Sockaddr := ⟨afInet, Vector.replicate 4 10⟩
    enumerateInterfaces Multimap.empty
      (some [⟨"tun0".toList, 0, some addr, none, some addr, false, some "10.10.10.10".toList⟩]) =
        .error .ifaNetmask := by
  rfl

/-- **When the count is right**: if there is nothing to count. -/
theorem enumerateInterfaces_reports_iff (interfaceMap : IpMap) (ifaddr : List Ifaddrs)
    (hset : ∀ ifa ∈ ifaddr, ifa.ifaNetmask.isSome ∧ ifa.ifaBroadaddr.isSome) :
    (∃ r, enumerateInterfaces interfaceMap (some ifaddr) = .ok r ∧ ReportsAll ifaddr r) ↔
      ∀ ifa ∈ ifaddr, entry ifa = none := by
  rw [enumerateInterfaces_of_present (fun ifa hm _ => hset ifa hm), ← List.filterMap_eq_nil_iff]
  constructor
  · rintro ⟨r, hr, hreports⟩
    cases hr
    have hcount := hreports.count
    rw [Multimap.size_ofList] at hcount
    exact List.length_eq_zero_iff.1 (Int.natCast_eq_zero.1 hcount.symm)
  · intro hnil
    refine ⟨_, rfl, Multimap.perm_ofList _, ?_⟩
    rw [hnil]
    rfl

/-- The loopback interface, its link and its address: two entries in the map, and a count of
zero. -/
theorem enumerateInterfaces_uncounted :
    let addr : Sockaddr := ⟨afInet, Vector.replicate 4 127⟩
    let link : Sockaddr := ⟨afPacket, Vector.replicate 4 0⟩
    ∃ m, enumerateInterfaces Multimap.empty
        (some [⟨"lo".toList, 0, some link, some addr, some addr, true, none⟩,
          ⟨"lo".toList, 0, some addr, some addr, some addr, false, some "127.0.0.1".toList⟩]) =
          .ok (0, m) ∧ m.size = 2 :=
  ⟨_, rfl, rfl⟩

/-- An interface that is down, without an address. -/
theorem enumerateInterfaces_reports_down :
    let mask : Sockaddr := ⟨afInet, Vector.replicate 4 255⟩
    let down : Ifaddrs := ⟨"sit0".toList, 0, none, some mask, some mask, false, none⟩
    ∃ r, enumerateInterfaces Multimap.empty (some [down]) = .ok r ∧ ReportsAll [down] r :=
  (enumerateInterfaces_reports_iff Multimap.empty _
    (List.forall_mem_singleton.2 ⟨rfl, rfl⟩)).2 (List.forall_mem_singleton.2 rfl)

end EthHandler
