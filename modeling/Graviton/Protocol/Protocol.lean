import Graviton.Lib.Store
import Graviton.Utility.MemoryUtility

/-!
# `Protocol`: the packed packet structures and the header

`libs/protocol/protocol.h` and `protocol.cpp`. A packed structure is the offsets of its fields;
a function that fills one is the list of its stores, as the host of byte order `o` makes them.
-/

open Lib MemoryUtility

namespace Protocol

/-! ## Constants and enumerations -/

/-- `Constant::Signature`, an `int`. -/
def signature : BitVec 32 := 0x0EF4192A

def version : BitVec 32 := 100

def port : BitVec 32 := 19007

def maxPacketSize : Nat := 1400

inductive PacketType
  | undefined
  | request
  | response
  | ack
  | notification
  deriving DecidableEq, Repr

def PacketType.toU8 : PacketType → BitVec 8
  | .undefined => 0
  | .request => 1
  | .response => 2
  | .ack => 3
  | .notification => 4

inductive PacketId
  | registration
  deriving DecidableEq, Repr

def PacketId.toU8 : PacketId → BitVec 8
  | .registration => 0

inductive NodeType
  | unknown
  | ethSwitch
  | ethStorage
  | ethUser
  | ethScb
  | ibSwitch
  | ibStorage
  | ibUser
  | ibScb
  | nvmeStorage
  | fcSwitch
  | fcStorage
  | fcUser
  | fcScb
  | backupUser
  | drUser
  | switchZ
  | storeZ
  | userZ
  deriving DecidableEq, Repr

def NodeType.toU8 : NodeType → BitVec 8
  | .unknown => 0
  | .ethSwitch => 1
  | .ethStorage => 2
  | .ethUser => 3
  | .ethScb => 4
  | .ibSwitch => 5
  | .ibStorage => 6
  | .ibUser => 7
  | .ibScb => 8
  | .nvmeStorage => 9
  | .fcSwitch => 10
  | .fcStorage => 11
  | .fcUser => 12
  | .fcScb => 13
  | .backupUser => 14
  | .drUser => 15
  | .switchZ => 16
  | .storeZ => 17
  | .userZ => 18

inductive AppType
  | undefined
  | centos
  | ios
  | android
  | winPhone
  | webBrowser
  | thirdParty
  | windows
  deriving DecidableEq, Repr

def AppType.toU8 : AppType → BitVec 8
  | .undefined => 0
  | .centos => 1
  | .ios => 2
  | .android => 3
  | .winPhone => 4
  | .webBrowser => 5
  | .thirdParty => 6
  | .windows => 7

inductive Feature
  | undefined
  | backup
  | dr
  | encryption
  | dedup
  deriving DecidableEq, Repr

def Feature.toU32 : Feature → BitVec 32
  | .undefined => 0
  | .backup => 1 <<< 1
  | .dr => 1 <<< 2
  | .encryption => 1 <<< 3
  | .dedup => 1 <<< 4

def InterfaceType.ipv4 : BitVec 8 := 1

/-- `InterfaceCapability`, the bits the discovery thread sets. -/
def InterfaceCapability.lan : BitVec 32 := 1 <<< 1
def InterfaceCapability.isl : BitVec 32 := 1 <<< 2
def InterfaceCapability.wan : BitVec 32 := 1 <<< 3
def InterfaceCapability.ethernet1g : BitVec 32 := 1 <<< 16

/-! ## Packed structures -/

/-! Offsets in `Header`. -/
namespace HeaderOffset

def signature : Nat := 0
def sequence : Nat := signature + 4
def packetType : Nat := sequence + 2
def retryCount : Nat := packetType + 1
def length : Nat := retryCount + 1
def version : Nat := length + 2
def packetId : Nat := version + 1
def nodeType : Nat := packetId + 1
def nodeId : Nat := nodeType + 1
def reserved : Nat := nodeId + 2
def reserved2 : Nat := reserved + 1
def size : Nat := reserved2 + 4

end HeaderOffset

/-! Offsets in `Interface`. -/
namespace InterfaceOffset

def type : Nat := 0
def reserved : Nat := type + 1
def capBits : Nat := reserved + 3
def address : Nat := capBits + 4
def size : Nat := address + 16

end InterfaceOffset

/-! Offsets in `Registration`. -/
namespace RegistrationOffset

def header : Nat := 0
def appVersion : Nat := header + HeaderOffset.size
def appType : Nat := appVersion + 2
def reserved1 : Nat := appType + 1
def publicIp : Nat := reserved1 + 1
def featureBits : Nat := publicIp + 4
def storageSize : Nat := featureBits + 4
def totalInterfaces : Nat := storageSize + 8
def reserved2 : Nat := totalInterfaces + 1
def interfaces : Nat := reserved2 + 3
def size : Nat := interfaces + InterfaceOffset.size

end RegistrationOffset

/-- `Interface`, a local or an element of a list. -/
@[ext] structure Interface where
  type : BitVec 8
  reserved : List Byte
  capBits : BitVec 32
  address : List Byte
  reserved_length : reserved.length = 3
  address_length : address.length = 16
  deriving DecidableEq

end Protocol

/-- `Protocol`'s members. -/
structure Protocol where
  sequence : BitVec 16
  nodeId : BitVec 16
  nodeType : Protocol.NodeType
  appType : Protocol.AppType
  appVersion : BitVec 16
  deriving DecidableEq, Repr

namespace Protocol

def new : Protocol := ⟨0, 0, .unknown, .undefined, 0⟩

/-- `GetNextSequence`: the counter afterwards, which is also what it returns. -/
def getNextSequence (p : Protocol) : Protocol := { p with sequence := p.sequence + 1 }

def setNodeId (p : Protocol) (nodeId : BitVec 16) : Protocol := { p with nodeId }

def setNodeType (p : Protocol) (nodeType : NodeType) : Protocol := { p with nodeType }

def setAppType (p : Protocol) (appType : AppType) : Protocol := { p with appType }

def setAppVersion (p : Protocol) (major minor : BitVec 8) : Protocol :=
  { p with appVersion := (major.setWidth 16 <<< 8) + minor.setWidth 16 }

/-- `PrepareHeader`, of the header at the offset `header`. The signature is cast to `u16_t`, and
the swapped result widened to the field. -/
def prepareHeader (o : Order) (p : Protocol) (header : Nat) (packetId : PacketId)
    (packetType : PacketType) (sequence : BitVec 16) (retry : BitVec 8)
    (packetLength : BitVec 16) : List Store :=
  [⟨header + HeaderOffset.signature,
      o.bytes 4 ((checkAndSwap16 o (signature.setWidth 16)).setWidth 32)⟩,
    ⟨header + HeaderOffset.version, o.bytes 1 (checkAndSwap8 (version.setWidth 8))⟩,
    ⟨header + HeaderOffset.length, o.bytes 2 (checkAndSwap16 o packetLength)⟩,
    ⟨header + HeaderOffset.nodeId, o.bytes 2 (checkAndSwap16 o p.nodeId)⟩,
    ⟨header + HeaderOffset.nodeType, o.bytes 1 (checkAndSwap8 p.nodeType.toU8)⟩,
    ⟨header + HeaderOffset.sequence, o.bytes 2 (checkAndSwap16 o sequence)⟩,
    ⟨header + HeaderOffset.retryCount, o.bytes 1 (checkAndSwap8 retry)⟩,
    ⟨header + HeaderOffset.packetId, o.bytes 1 (checkAndSwap8 packetId.toU8)⟩,
    ⟨header + HeaderOffset.packetType, o.bytes 1 (checkAndSwap8 packetType.toU8)⟩,
    ⟨header + HeaderOffset.reserved, o.bytes 1 (0 : BitVec 8)⟩,
    ⟨header + HeaderOffset.reserved2, o.bytes 4 (0 : BitVec 32)⟩]

end Protocol
