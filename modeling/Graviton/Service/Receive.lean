import Graviton.Service.SockAddr

/-!
# `EthHandler`: receiving

`Receive` and `ReceiveMc` of `libs/service/ethhandler.cpp`. What `recvfrom` comes to is a
parameter, and so is what the local `remoteSock` of `ReceiveMc` holds before.

* `receiveMc_iff`: when the caller's address and port are those of the datagram, and left alone if
  there is none.
-/

namespace EthHandler

open Lib MemoryUtility

/-- The IPv4 sender of a datagram. -/
structure Sender where
  octets : Vector Byte 4
  port : BitVec 16
  deriving DecidableEq

/-- The socket address of a sender: octets and port in network order. -/
def Sender.sockaddr (o : Order) (sender : Sender) : SockaddrIn where
  sinFamily := afInet
  sinPort := BitVec.ofNat 16 (o.load (beBytes 2 sender.port))
  sinAddr := BitVec.ofNat 32 (o.load sender.octets.toList)

/-- What a call of `recvfrom` comes to. -/
inductive Recvfrom
  | error
  | datagram (sender : Sender) (payload : List Byte)

/-- What a call returns, and leaves in `packet` and in the socket address. -/
structure Received where
  ret : Int
  packet : List Byte
  remote : SockaddrIn

/-- `recvfrom`: an error leaves the socket address alone, an empty datagram does not. -/
def recvfrom (o : Order) (maxLength : Nat) (remote : SockaddrIn) : Recvfrom → Received
  | .error => ⟨-1, [], remote⟩
  | .datagram sender payload =>
    ⟨(payload.take maxLength).length, payload.take maxLength, sender.sockaddr o⟩

/-- `EthHandler::Receive`. -/
def receive (o : Order) (outcome : Recvfrom) (maxLength : Nat) (remote : SockaddrIn) : Received :=
  let r := recvfrom o maxLength remote outcome
  if r.ret ≤ 0 then { r with ret := -1 } else r

end EthHandler

namespace IpMulticast

open Lib EthHandler MemoryUtility

structure ReceivedMc where
  ret : Int
  packet : List Byte
  remote : Ip
  remotePort : BitVec 16

/-- `ReceiveMc`: the sender is converted whatever `Receive` returned. -/
def receiveMc (o : Order) (outcome : Recvfrom) (remoteSock : SockaddrIn) (maxLength : Nat)
    (remote : Ip) (remotePort : BitVec 16) : ReceivedMc :=
  let r := receive o outcome maxLength remoteSock
  let (remote, remotePort) := sockAddrToIp o r.remote remote remotePort
  ⟨r.ret, r.packet, remote, remotePort⟩

/-- After an error the caller's address and port are what they were, otherwise those of the
datagram. -/
structure Reports (outcome : Recvfrom) (remote : Ip) (remotePort : BitVec 16) (r : ReceivedMc) :
    Prop where
  failed : r.ret = -1 → r.remote = remote ∧ r.remotePort = remotePort
  received : 0 < r.ret → ∃ sender payload, outcome = .datagram sender payload ∧
    r.remote.toArray = sender.octets.toList ∧ r.remotePort = sender.port

/-- What a conversion would store is what the caller has. -/
def Denotes (o : Order) (sock : SockaddrIn) (remote : Ip) (remotePort : BitVec 16) : Prop :=
  Ip.ofU32 o sock.sinAddr = remote ∧ swap16 sock.sinPort = remotePort

/-- When `ReceiveMc` reports what was received: after an error, if the local structure happens to
hold no IPv4 address, or the caller's; after an empty datagram, if it is from the caller's address
already; after data, where the bytes of the port are swapped for the host. -/
def Sound (o : Order) (outcome : Recvfrom) (remoteSock : SockaddrIn) (maxLength : Nat)
    (remote : Ip) (remotePort : BitVec 16) : Prop :=
  match outcome with
  | .error => remoteSock.sinFamily = afInet → Denotes o remoteSock remote remotePort
  | .datagram sender payload =>
    if maxLength = 0 ∨ payload = [] then Denotes o (sender.sockaddr o) remote remotePort
    else o = .little ∨ byteAt sender.port 0 = byteAt sender.port 1

section
variable {o : Order} {maxLength : Nat} {remoteSock : SockaddrIn} {remote : Ip}
  {remotePort : BitVec 16}

/-- A conversion leaves the caller's address and port alone unless it stores others. -/
theorem sockAddrToIp_unchanged_iff :
    (sockAddrToIp o remoteSock remote remotePort).1 = remote ∧
        (sockAddrToIp o remoteSock remote remotePort).2 = remotePort ↔
      (remoteSock.sinFamily = afInet → Denotes o remoteSock remote remotePort) := by
  rw [sockAddrToIp_eq]
  split
  · rename_i hinet
    exact ⟨fun h _ => h, fun h => h hinet⟩
  · rename_i hinet
    exact iff_of_true ⟨rfl, rfl⟩ fun h => absurd h hinet

/-- The octets of a sender come out right on every host, its port where the host is little-endian
or the order of its bytes does not matter. -/
theorem sockAddrToIp_sender (sender : Sender) :
    (sockAddrToIp o (sender.sockaddr o) remote remotePort).1.toArray = sender.octets.toList ∧
      ((sockAddrToIp o (sender.sockaddr o) remote remotePort).2 = sender.port ↔
        o = .little ∨ byteAt sender.port 0 = byteAt sender.port 1) := by
  have hinet : (sender.sockaddr o).sinFamily = afInet := rfl
  rw [sockAddrToIp_eq, if_pos hinet, Ip.toArray_eq]
  refine ⟨o.bytes_load sender.octets.length_toList rfl, ?_⟩
  have hport : o.bytes 2 (sender.sockaddr o).sinPort = beBytes 2 sender.port :=
    o.bytes_load (beBytes_length 2 _) rfl
  rw [← bytes_swap16_iff, ← hport]
  constructor
  · intro h
    rw [← h, swap16_swap16]
  · intro h
    rw [← Order.bytes_inj (by decide) h, swap16_swap16]

/-- A result of -1, whatever the local structure holds then. -/
theorem reports_failed_iff {outcome : Recvfrom} {packet : List Byte} {ip : Ip}
    {port : BitVec 16} :
    Reports outcome remote remotePort ⟨-1, packet, ip, port⟩ ↔ ip = remote ∧ port = remotePort :=
  ⟨fun h => h.failed rfl, fun h =>
    ⟨fun _ => h, fun (hpos : (0 : Int) < -1) => absurd hpos (by decide)⟩⟩

theorem reports_received_iff {sender : Sender} {payload packet : List Byte} {n : Nat} {ip : Ip}
    {port : BitVec 16} (hn : 0 < n) :
    Reports (.datagram sender payload) remote remotePort ⟨n, packet, ip, port⟩ ↔
      ip.toArray = sender.octets.toList ∧ port = sender.port := by
  constructor
  · intro h
    obtain ⟨_, _, heq, hip, hport⟩ := h.received (Int.natCast_pos.2 hn)
    cases heq
    exact ⟨hip, hport⟩
  · intro h
    refine ⟨fun hneg => ?_, fun _ => ⟨sender, payload, rfl, h⟩⟩
    have hneg : (n : Int) = -1 := hneg
    omega

end

/-- **When `ReceiveMc` reports what was received.** -/
theorem receiveMc_iff (o : Order) (outcome : Recvfrom) (remoteSock : SockaddrIn)
    (maxLength : Nat) (remote : Ip) (remotePort : BitVec 16) :
    Reports outcome remote remotePort
        (receiveMc o outcome remoteSock maxLength remote remotePort) ↔
      Sound o outcome remoteSock maxLength remote remotePort := by
  cases outcome with
  | error => exact reports_failed_iff.trans sockAddrToIp_unchanged_iff
  | datagram sender payload =>
    have hlen : (payload.take maxLength).length = 0 ↔ maxLength = 0 ∨ payload = [] := by
      rw [List.length_eq_zero_iff, List.take_eq_nil_iff]
    rw [receiveMc, receive, recvfrom, Sound]
    dsimp only
    by_cases hempty : maxLength = 0 ∨ payload = []
    · -- the datagram took no room: `Receive` fails, and the sender is converted
      rw [if_pos hempty, if_pos (by rw [hlen.2 hempty]; decide)]
      refine reports_failed_iff.trans (sockAddrToIp_unchanged_iff.trans ?_)
      exact ⟨fun h => h rfl, fun h _ => h⟩
    · have hpos : 0 < (payload.take maxLength).length :=
        Nat.pos_of_ne_zero fun h => hempty (hlen.1 h)
      rw [if_neg hempty, if_neg (by omega)]
      refine (reports_received_iff hpos).trans ?_
      obtain ⟨hip, hport⟩ := sockAddrToIp_sender sender
      exact (and_iff_right hip).trans hport

/-- An error after the stack held another socket address, and an empty datagram: both return -1,
and the caller's address is gone. -/
theorem receiveMc_overwritten :
    let remote := Ip.ofOctets #v[10, 0, 0, 1] 0
    let other : Sender := ⟨#v[192, 0, 2, 9], 5000⟩
    let failed := receiveMc .little .error (other.sockaddr .little) 1500 remote 19007
    let empty := receiveMc .little (.datagram other []) ⟨0, 0, 0⟩ 1500 remote 19007
    (failed.ret = -1 ∧ failed.remote.toArray = [192, 0, 2, 9] ∧ failed.remotePort = 5000) ∧
      empty.ret = -1 ∧ empty.remote.toArray = [192, 0, 2, 9] ∧ empty.remotePort = 5000 := by
  decide

end IpMulticast
