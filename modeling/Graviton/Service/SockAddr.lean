import Graviton.Base.IpText
import Graviton.Utility.MemoryUtility

/-!
# `EthHandler`: socket addresses

`AddressToSockAddr` and `SockAddrToIp` of `libs/service/ethhandler.cpp`. The fields of a
`sockaddr_in` are words of the host; what the network sees are their bytes in memory.

* `addressToSockAddr_iff`: on which hosts, and for which ports, the bytes are in network order and
  convert back.
-/

namespace EthHandler

open Lib MemoryUtility

/-- `struct sockaddr_in`. -/
structure SockaddrIn where
  sinFamily : BitVec 16
  sinPort : BitVec 16
  sinAddr : BitVec 32
  deriving DecidableEq

def afInet : BitVec 16 := 2

/-- `AddressToSockAddr`: the structure is zeroed, and filled for an IPv4 address. -/
def addressToSockAddr (o : Order) (address : Address) (port : BitVec 16) : SockaddrIn :=
  match address with
  | .ipv4 ip => { sinFamily := afInet, sinAddr := ip.toU32 o, sinPort := swap16 port }
  | .ipv6 | .mac => { sinFamily := 0, sinAddr := 0, sinPort := 0 }

/-- `inet_ntoa`: the octets in the order of memory. -/
def inetNtoa (o : Order) (sinAddr : BitVec 32) : Str := Ip.dotted (o.bytes 4 sinAddr)

/-- `SockAddrToIp`: what it leaves in `ip` and `port`. -/
def sockAddrToIp (o : Order) (sockAddr : SockaddrIn) (ip : Ip) (port : BitVec 16) :
    Ip × BitVec 16 :=
  if sockAddr.sinFamily = afInet then
    ((Ip.ofString (inetNtoa o sockAddr.sinAddr)).copy, swap16 sockAddr.sinPort)
  else (ip, port)

theorem bytes_toU32 (o : Order) (ip : Ip) : o.bytes 4 (ip.toU32 o) = ip.u8.toList :=
  o.bytes_load ip.u8.length_toList rfl

/-- The conversion, without the text in between. -/
theorem sockAddrToIp_eq (o : Order) (sockAddr : SockaddrIn) (ip : Ip) (port : BitVec 16) :
    sockAddrToIp o sockAddr ip port =
      if sockAddr.sinFamily = afInet then (Ip.ofU32 o sockAddr.sinAddr, swap16 sockAddr.sinPort)
      else (ip, port) := by
  have hread : Ip.strToIpt (inetNtoa o sockAddr.sinAddr) = (Ip.ofU32 o sockAddr.sinAddr).u8 :=
    Ip.strToIpt_dotted (Ip.ofU32 o sockAddr.sinAddr).u8
  have htext : (Ip.ofString (inetNtoa o sockAddr.sinAddr)).copy = Ip.ofU32 o sockAddr.sinAddr := by
    rw [Ip.ofString, hread]
    rfl
  rw [sockAddrToIp, htext]

/-- **Back from a socket address**: the octets and the port, on every host. -/
theorem sockAddrToIp_addressToSockAddr (o : Order) (ip ip' : Ip) (port port' : BitVec 16) :
    (sockAddrToIp o (addressToSockAddr o (.ipv4 ip) port) ip' port').1.toArray = ip.toArray ∧
      (sockAddrToIp o (addressToSockAddr o (.ipv4 ip) port) ip' port').2 = port := by
  rw [addressToSockAddr, sockAddrToIp_eq, if_pos rfl, Ip.toArray_eq, Ip.toArray_eq]
  exact ⟨bytes_toU32 o ip, swap16_swap16 port⟩

/-- A port without regard to the host's byte order is in network order on a little-endian host. -/
theorem bytes_swap16_iff (o : Order) (port : BitVec 16) :
    o.bytes 2 (swap16 port) = beBytes 2 port ↔ o = .little ∨ byteAt port 0 = byteAt port 1 := by
  rw [swap16_reversesBytes.bytes_eq]
  cases o with
  | little => exact iff_of_true rfl (.inl rfl)
  | big =>
    show [byteAt port 0, byteAt port 1] = [byteAt port 1, byteAt port 0] ↔ _
    rw [or_iff_right (show ¬ Order.big = .little by decide)]
    exact ⟨fun h => (List.cons.inj h).1, fun h => by rw [h]⟩

/-- **Network order and back**: the octets always, the port on a little-endian host; elsewhere
only a port of two equal bytes. -/
theorem addressToSockAddr_iff (o : Order) (ip ip' : Ip) (port port' : BitVec 16) :
    let sockAddr := addressToSockAddr o (.ipv4 ip) port
    let back := sockAddrToIp o sockAddr ip' port'
    (o.bytes 2 sockAddr.sinPort = beBytes 2 port ∧ o.bytes 4 sockAddr.sinAddr = ip.toArray ∧
        back.1.toArray = ip.toArray ∧ back.2 = port) ↔
      o = .little ∨ byteAt port 0 = byteAt port 1 := by
  intro sockAddr back
  have haddr : o.bytes 4 sockAddr.sinAddr = ip.toArray :=
    (bytes_toU32 o ip).trans (Ip.toArray_eq ip).symm
  rw [← bytes_swap16_iff]
  exact and_iff_left ⟨haddr, sockAddrToIp_addressToSockAddr o ip ip' port port'⟩

/-- The discovery port on a big-endian host. -/
theorem addressToSockAddr_big :
    Order.big.bytes 2 (addressToSockAddr .big (.ipv4 Ip.new) 19007).sinPort = [0x3f, 0x4a] ∧
      beBytes 2 (19007 : BitVec 16) = [0x4a, 0x3f] := by
  decide

end EthHandler
