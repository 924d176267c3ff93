import Graviton.Base.IpText
import Graviton.Protocol.Protocol
import Graviton.Service.Enumerate
import Mathlib.Data.Char
import Mathlib.Data.List.Lex

/-!
# `DiscoveryThread`: the interfaces and the heartbeat

The part of `libs/protocol/discovery.cpp` that fills and sends the registration packet. The
packet buffer is a flat memory with the packet at offset 0 (a write past the buffer changes what
follows it); what the program has not written, a local or the buffer, is whatever was there.

* `registrationStores`: every store of `PrepareRegistrationPacket`, in order.
* `initializeMcGroups`, `sendHeartbeatToMcGroup`: the two ends of a heartbeat.
-/

open Lib MemoryUtility Protocol

/-- `IpMulticast`: what it was constructed from. -/
structure IpMulticast where
  device : Str
  address : Ip
  port : BitVec 16
  mcGroup : Ip
  mcPort : BitVec 16
  deriving DecidableEq

/-- `MULTICAST_GROUP_STR`. -/
def multicastGroupStr : Str := "233.255.14.7".toList

/-- The members of `DiscoveryThread` that a heartbeat uses. -/
structure DiscoveryThread where
  ipIntfMap : IpMap
  mc : Option IpMulticast
  usableIntfList : List Interface
  -- `m_packet`, from its first byte on
  packet : Mem
  storageSize : BitVec 64
  featureBits : BitVec 32
  publicIp : Ip

/-- A call of `IpMulticast::Send`. -/
structure McSend where
  mc : Option IpMulticast
  bytes : List Byte
  deriving DecidableEq

namespace DiscoveryThread

def addFeature (d : DiscoveryThread) (feature : Feature) : DiscoveryThread :=
  { d with featureBits := d.featureBits ||| feature.toU32 }

/-! ## The registration packet -/

/-- `totalInterfaces`, a `u8_t`. -/
def totalInterfaces (d : DiscoveryThread) : BitVec 8 := BitVec.ofNat 8 d.usableIntfList.length

/-- `packetLength`: the count less one is an `int`, the rest is computed as `size_t` and cut to
`u16_t`. -/
def packetLength (d : DiscoveryThread) : BitVec 16 :=
  (BitVec.ofNat 64 RegistrationOffset.size +
    (d.totalInterfaces.setWidth 64 - 1) * BitVec.ofNat 64 InterfaceOffset.size).setWidth 16

/-- Offset of `intfs[idx]`. -/
def intfs (idx : Nat) : Nat := RegistrationOffset.interfaces + idx * InterfaceOffset.size

/-- The stores of one iteration of the interface loop. -/
def intfStores (o : Order) (idx : Nat) (intf : Interface) : List Store :=
  [⟨intfs idx + InterfaceOffset.address, intf.address⟩,
    ⟨intfs idx + InterfaceOffset.type, o.bytes 1 (checkAndSwap8 intf.type)⟩,
    ⟨intfs idx + InterfaceOffset.capBits, o.bytes 4 (checkAndSwap32 o intf.capBits)⟩]

def intfLoop (o : Order) : Nat → List Interface → List Store
  | _, [] => []
  | idx, intf :: l => intfStores o idx intf ++ intfLoop o (idx + 1) l

/-- The stores of `PrepareRegistrationPacket` between the `memset` and the loop. `p` is the
protocol with the sequence counter already moved on. -/
def fieldStores (o : Order) (p : Protocol) (d : DiscoveryThread) : List Store :=
  prepareHeader o p RegistrationOffset.header .registration .notification p.sequence 0
      d.packetLength ++
    [⟨RegistrationOffset.appType, o.bytes 1 (checkAndSwap8 p.appType.toU8)⟩,
      ⟨RegistrationOffset.appVersion, o.bytes 2 (checkAndSwap16 o p.appVersion)⟩,
      ⟨RegistrationOffset.storageSize, o.bytes 8 (checkAndSwap64 o d.storageSize)⟩,
      ⟨RegistrationOffset.featureBits, o.bytes 4 (checkAndSwap32 o d.featureBits)⟩,
      ⟨RegistrationOffset.publicIp, d.publicIp.toArray⟩,
      ⟨RegistrationOffset.totalInterfaces, o.bytes 1 (checkAndSwap8 d.totalInterfaces)⟩]

/-- Every store of `PrepareRegistrationPacket`. -/
def registrationStores (o : Order) (p : Protocol) (d : DiscoveryThread) : List Store :=
  ⟨0, List.replicate d.packetLength.toNat 0⟩ ::
    (fieldStores o p d ++ intfLoop o 0 d.usableIntfList)

def prepareRegistrationPacket (o : Order) (p : Protocol) (d : DiscoveryThread) :
    Protocol × DiscoveryThread :=
  let p := p.getNextSequence
  (p, { d with packet := exec d.packet (registrationStores o p d) })

/-- `m_packet.registration.header.length`, as the host loads it. -/
def headerLength (o : Order) (d : DiscoveryThread) : BitVec 16 :=
  BitVec.ofNat 16 (o.load (readBytes d.packet (RegistrationOffset.header + HeaderOffset.length) 2))

/-- `SendHeartbeatToMcGroup`, with the call of `Send` it makes. -/
def sendHeartbeatToMcGroup (o : Order) (p : Protocol) (d : DiscoveryThread) :
    Protocol × DiscoveryThread × Option McSend :=
  if d.usableIntfList = [] then (p, d, none)
  else
    let (p, d) := prepareRegistrationPacket o p d
    let length := checkAndSwap16 o (d.headerLength o)
    (p, d, some ⟨d.mc, readBytes d.packet 0 length.toNat⟩)

/-! ## The multicast group -/

/-- The local of `InitializeMcGroups`. -/
def mcIp : Ip := Ip.ofString multicastGroupStr

/-- The tests of an entry of the interface map: an active private IPv4 address. -/
def usable : Str × Address → Option (Str × Ip)
  | (name, .ipv4 ip) =>
    if (ip.ipAddressType = .classA ∨ ip.ipAddressType = .classB ∨ ip.ipAddressType = .classC) ∧
        ip.isActive then some (name, ip)
    else none
  | _ => none

/-- The local `intf`: what its memory held, with the fields the code fills in. `ToArray` writes
the first 4 of the 16 address bytes. -/
def localIntf (garbage : Interface) (ip : Ip) : Interface where
  type := InterfaceType.ipv4
  reserved := garbage.reserved
  capBits := InterfaceCapability.lan ||| InterfaceCapability.wan ||| InterfaceCapability.isl |||
    InterfaceCapability.ethernet1g
  address := ip.toArray ++ garbage.address.drop 4
  reserved_length := garbage.reserved_length
  address_length := by simp [garbage.address_length]

/-- `InitializeMcGroups`: `found` is what `EnumerateInterfaces` leaves in the map. The loop
stops at the first usable entry. -/
def initializeMcGroups (found : IpMap) (garbage : Interface) (p : Protocol)
    (d : DiscoveryThread) : Protocol × DiscoveryThread :=
  let p := p.setNodeId 1
  let d := { d with ipIntfMap := found }
  match found.entries.findSome? usable with
  | none => (p, d)
  | some (name, ip) =>
    (p, { d with
      usableIntfList := d.usableIntfList ++ [localIntf garbage ip]
      mc := some ⟨name, ip, Protocol.port.setWidth 16, mcIp, Protocol.port.setWidth 16⟩ })

end DiscoveryThread
