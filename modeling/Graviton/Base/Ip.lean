import Graviton.Lib.Word

/-!
# `Address` and `Ip`

What the discovery thread uses of `libs/base/address.h` and `libs/base/ip.h`: the bytes of an
address, its class and the flags of its interface.
-/

open Lib

inductive IpAddressType
  | unknown
  | loopback
  | linkLocal
  | classA
  | classB
  | classC
  | multicast
  deriving DecidableEq, Repr

/-- `Ip`: the base address, its type and the flags. -/
structure Ip where
  u8 : Vector Byte 4
  ipAddressType : IpAddressType
  flags : BitVec 32
  deriving DecidableEq

namespace Ip

def new : Ip := ⟨#v[0, 0, 0, 0], .unknown, 0⟩

/-- `ToArray`: the bytes it stores at its argument. -/
def toArray (ip : Ip) : List Byte := [ip.u8[0], ip.u8[1], ip.u8[2], ip.u8[3]]

@[simp] theorem toArray_length (ip : Ip) : ip.toArray.length = 4 := rfl

/-- `IFF_UP`, `IFF_RUNNING` and `IFF_MULTICAST` of `net/if.h`. -/
def iffUp : BitVec 32 := 0x1
def iffRunning : BitVec 32 := 0x40
def iffMulticast : BitVec 32 := 0x1000

def isActive (ip : Ip) : Bool :=
  let checkBits := iffUp ||| iffRunning ||| iffMulticast
  ip.flags &&& checkBits = checkBits

end Ip

/-- The `Address` objects an interface map points to, by their type: only an `Ip` is looked
into. -/
inductive Address
  | ipv4 (ip : Ip)
  | ipv6
  | mac
  deriving DecidableEq
