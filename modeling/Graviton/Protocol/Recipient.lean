import Graviton.Protocol.Cadence
import Graviton.Protocol.Heartbeat
import Graviton.Service.Receive
import Graviton.Service.Send

/-!
# What a recipient reads of the heartbeats

The heartbeats of a run of ticks of `libs/protocol/discovery.cpp`, as they are read from a buffer
that a datagram was received into.

* `readRegistration_received`: nothing behind the datagram is read.
* `ticks_registration`: what each heartbeat of a run says.
* `heartbeat_delivered`: so does what another host receives.
-/

open Lib MemoryUtility Protocol

namespace DiscoveryThread

/-! ## The buffer of a recipient -/

/-- A buffer after a datagram was received into it. -/
def received (packet : Mem) (bytes : List Byte) : Mem := (⟨0, bytes⟩ : Store).apply packet

theorem received_apply {m : Mem} {n a : Nat} (h : a < n) (packet : Mem) :
    received packet (readBytes m 0 n) a = m a := by
  have hc : (⟨0, readBytes m 0 n⟩ : Store).Covers a := by
    simp only [Store.Covers, Store.stop, read_length]
    omega
  rw [received, Store.apply_covers hc]
  simp [readBytes, h]

/-- A packet is read up to its last interface record. -/
theorem readRegistration_congr {m m' : Mem} {n : Nat} (h : ∀ a < n, m a = m' a)
    (hn : intfs (ofBe (readBytes m' RegistrationOffset.totalInterfaces 1)) ≤ n) :
    readRegistration m = readRegistration m' := by
  have h44 : 44 ≤ n := (Nat.le_add_right _ _).trans hn
  have hr : ∀ off k, off + k ≤ 44 → readBytes m off k = readBytes m' off k := fun off k hk =>
    read_congr fun a _ ha => h a (by omega)
  have hw : ∀ w off k, off + k ≤ 44 → wordAt w m off k = wordAt w m' off k := fun w off k hk => by
    rw [wordAt, wordAt, hr off k hk]
  have hcount := hr RegistrationOffset.totalInterfaces 1 (by decide)
  have hintf : ∀ k < ofBe (readBytes m' RegistrationOffset.totalInterfaces 1),
      readInterface m (intfs k) = readInterface m' (intfs k) := fun k hk =>
    readInterface_congr _ fun a _ ha => h a (by
      have hsize : InterfaceOffset.size = 24 := rfl
      rw [intfs_eq] at *
      omega)
  simp only [readRegistration, Registration.mk.injEq]
  refine ⟨?sequence, ?packetType, ?retryCount, ?length, ?version, ?packetId, ?nodeType, ?nodeId,
    ?headerReserved, ?headerReserved2, ?appVersion, ?appType, ?reserved1, ?publicIp,
    ?featureBits, ?storageSize, ?totalInterfaces, ?reserved2, ?interfaces⟩
  case length => exact congrArg ofBe (hr _ _ (by decide))
  case totalInterfaces => exact congrArg ofBe hcount
  case interfaces =>
    rw [hcount]
    exact List.map_congr_left fun k hk => hintf k (List.mem_range.1 hk)
  case publicIp | reserved2 => exact hr _ _ (by decide)
  all_goals exact hw _ _ _ (by decide)

/-- **A packet in a buffer**: nothing behind the datagram is read. -/
theorem readRegistration_received {m : Mem} {n : Nat}
    (hn : intfs (ofBe (readBytes m RegistrationOffset.totalInterfaces 1)) ≤ n) (packet : Mem) :
    readRegistration (received packet (readBytes m 0 n)) = readRegistration m :=
  readRegistration_congr (fun _ ha => received_apply ha packet) hn

/-- **What a heartbeat says**, with up to 56 interfaces. -/
theorem sent_registration {o : Order} {p : Protocol} {d : DiscoveryThread} {send : McSend}
    (h56 : d.usableIntfList.length ≤ 56)
    (h : (sendHeartbeatToMcGroup o p d).2.2 = some send) :
    send.mc = d.mc ∧ send.bytes.length = 44 + 24 * d.usableIntfList.length ∧
      ∀ packet, readRegistration (received packet send.bytes) = registration p d := by
  have hne : d.usableIntfList ≠ [] := by
    intro hnil
    rw [sendHeartbeatToMcGroup, if_pos hnil] at h
    cases h
  have hlen : d.packetLength.toNat = 44 + 24 * d.usableIntfList.length := by
    rw [packetLength_toNat, Nat.mod_eq_of_lt (by omega), intfs_eq, Nat.mul_comm]
  rw [sent_eq o p hne, Option.some.injEq] at h
  subst h
  refine ⟨rfl, by rw [read_length, hlen], fun packet => ?_⟩
  rw [readRegistration_received, readRegistration_eq (by omega)]
  rw [read_totalInterfaces, packetLength_toNat]

end DiscoveryThread

namespace Ticker

open DiscoveryThread

/-! ## A run of ticks -/

/-- The address the public one is known by before the `n`-th tick: the last that a minute tick
was told. -/
def publicIpBefore (publicIp : Ip) (ips : List (Option Ip)) : Nat → Ip
  | 0 => publicIp
  | n + 1 =>
    if minuteTick n then (ips[n]?.join).getD (publicIpBefore publicIp ips n)
    else publicIpBefore publicIp ips n

/-- But for the sequence counter and the packet, a thread is as it was, with the public address
`publicIp`. -/
structure Keeps (p : Protocol) (d : DiscoveryThread) (publicIp : Ip) (s : Ticker) : Prop where
  protocol : s.protocol = { p with sequence := s.protocol.sequence }
  thread : s.thread = { d with packet := s.thread.packet, publicIp := publicIp }

variable {p : Protocol} {d : DiscoveryThread} {publicIp : Ip} {s : Ticker}

theorem Keeps.of {s' : Ticker} (h : Keeps p d publicIp s) {n : BitVec 16} {m : Mem} {ip : Ip}
    (hp : s'.protocol = { s.protocol with sequence := n })
    (hd : s'.thread = { s.thread with packet := m, publicIp := ip }) : Keeps p d ip s' := by
  constructor
  · rw [hp, h.protocol]
  · rw [hd, h.thread]

theorem Keeps.publicIp_eq (h : Keeps p d publicIp s) : s.thread.publicIp = publicIp := by
  rw [h.thread]

theorem Keeps.tenSecondTick (h : Keeps p d publicIp s) (o : Order) :
    Keeps p d publicIp (s.processTenSecondTick o).1 := by
  rw [← h.publicIp_eq]
  simp only [processTenSecondTick, sendHeartbeatToMcGroup]
  split <;> exact h.of rfl rfl

theorem Keeps.oneMinuteTick (h : Keeps p d publicIp s) (o : Order) (found : Option Ip) :
    Keeps p d (found.getD publicIp) (s.processOneMinuteTick o found) := by
  rw [← h.publicIp_eq]
  simp only [processOneMinuteTick, DiscoveryThread.processOneMinuteTick,
    sendHeartbeatToRemoteOffice]
  split <;> exact h.of rfl rfl

/-- A tick asks for the public address once a minute. -/
theorem Keeps.secondTick (h : Keeps p d publicIp s) (o : Order) (found : Option Ip) :
    Keeps p d (if s.secondCounter % 60 = 0 then found.getD publicIp else publicIp)
      (s.processSecondTick o found).1 := by
  have hten := h.tenSecondTick o
  have hframe := processTenSecondTick_frame o s
  by_cases hd : s.secondCounter % 10 = 0 <;> by_cases hm : s.secondCounter % 60 = 0
  · simp only [processSecondTick, if_pos hd, hframe.secondCounter, if_pos hm]
    exact ⟨(hten.oneMinuteTick o found).protocol, (hten.oneMinuteTick o found).thread⟩
  · simp only [processSecondTick, if_pos hd, hframe.secondCounter, if_neg hm]
    exact ⟨hten.protocol, hten.thread⟩
  · simp only [processSecondTick, if_neg hd, if_pos hm]
    exact ⟨(h.oneMinuteTick o found).protocol, (h.oneMinuteTick o found).thread⟩
  · simp only [processSecondTick, if_neg hd, if_neg hm]
    exact ⟨h.protocol, h.thread⟩

/-- Every tick of a run is made in a state that keeps what the run began with. -/
theorem ticks_keeps (o : Order) {base : BitVec 16} {ips0 : List (Option Ip)} :
    ∀ {ips : List (Option Ip)} {s : Ticker} {n i : Nat}, ips0.drop n = ips → At base s n →
      Keeps p d (publicIpBefore d.publicIp ips0 n) s → i < ips.length →
      ∃ t found, At base t (n + i) ∧ Keeps p d (publicIpBefore d.publicIp ips0 (n + i)) t ∧
        (ticks o s ips)[i]? = some (t.processSecondTick o found).2
  | [], _, _, _, _, _, _, hi => absurd hi (Nat.not_lt_zero _)
  | found :: _, s, _, 0, _, h, hk, _ => ⟨s, found, h, hk, rfl⟩
  | found :: ips, s, n, i + 1, hdrop, h, hk, hi => by
    have hget : ips0[n]? = some found := by
      rw [← List.head?_drop, hdrop]
      rfl
    have hrest : ips0.drop (n + 1) = ips := by
      rw [← List.tail_drop, hdrop]
      rfl
    have hk' := hk.secondTick o found
    have hbefore : publicIpBefore d.publicIp ips0 (n + 1) =
        if s.secondCounter % 60 = 0 then found.getD (publicIpBefore d.publicIp ips0 n)
        else publicIpBefore d.publicIp ips0 n := by
      rw [publicIpBefore, hget]
      simp only [minuteTick_iff h.counter]
      rfl
    rw [← hbefore] at hk'
    obtain ⟨t, found', ht, htk, htick⟩ :=
      ticks_keeps o hrest (h.next o found) hk' (Nat.lt_of_succ_lt_succ hi)
    rw [Nat.add_right_comm, Nat.add_assoc] at ht htk
    exact ⟨t, found', ht, htk, htick⟩

/-- **What each heartbeat of a run says**: the members the thread began with, the sequence counter
moved on by the packets prepared before, and the public address found last before it. -/
theorem ticks_registration (o : Order) (p : Protocol) {d : DiscoveryThread}
    (hne : d.usableIntfList ≠ []) (h56 : d.usableIntfList.length ≤ 56) {ips : List (Option Ip)}
    {i : Nat} {send : McSend} (hs : (ticks o ⟨p, d, 0⟩ ips)[i]? = some (some send)) :
    send.mc = d.mc ∧ send.bytes.length = 44 + 24 * d.usableIntfList.length ∧
      ∀ packet, readRegistration (received packet send.bytes) =
        registration { p with sequence := p.sequence + BitVec.ofNat 16 (preparedBefore i) }
          { d with publicIp := publicIpBefore d.publicIp ips i } := by
  have hi : i < ips.length := by
    rw [← length_ticks o ips ⟨p, d, 0⟩]
    exact (List.getElem?_eq_some_iff.1 hs).1
  obtain ⟨t, found, ht, hk, hget⟩ :=
    ticks_keeps o (List.drop_zero (l := ips)) (at_zero p hne) ⟨rfl, rfl⟩ hi
  rw [Nat.zero_add] at ht hk
  rw [hs, Option.some.injEq, processSecondTick_send] at hget
  split at hget
  · have hlist : t.thread.usableIntfList = d.usableIntfList := by rw [hk.thread]
    obtain ⟨hmc, hlen, hread⟩ := sent_registration (hlist ▸ h56) hget.symm
    have hproto : t.protocol =
        { p with sequence := p.sequence + BitVec.ofNat 16 (preparedBefore i) } := by
      rw [hk.protocol, ht.sequence]
    refine ⟨by rw [hmc, hk.thread], by rw [hlen, hlist], fun packet => ?_⟩
    rw [hread, hproto, hk.thread]
    rfl
  · cases hget

/-! ## From one host to another -/

/-- What `IpMulticast::Send` gives to the network, if it does not return an error: the packet. -/
theorem accepted_of_send {packet : List Byte} (hpos : 0 < packet.length)
    {sendto : Nat → List Byte → Int} (hsendto : EthHandler.Accepts sendto) {fuel : Nat}
    (hfuel : 0 < fuel) {sent : EthHandler.Sent}
    (hsend : IpMulticast.send packet packet.length sendto fuel = some sent)
    (hret : sent.ret ≠ -1) : sent.accepted = packet := by
  obtain ⟨sent', hrun, hok⟩ := EthHandler.sendLoop_dgram hsendto (Nat.le_refl _) hpos
  obtain ⟨fuel, rfl⟩ : ∃ n, fuel = n + 1 := ⟨fuel - 1, by omega⟩
  obtain rfl : sent' = sent := Option.some.inj ((hrun fuel).symm.trans hsend)
  rw [(hok.success hret).2, List.take_length]

/-- **A heartbeat that arrives**: what one host sends in a run, and another one, of either byte
order, receives into a buffer for any packet, is read there as it was meant. -/
theorem heartbeat_delivered (o o' : Order) (p : Protocol) {d : DiscoveryThread}
    (hne : d.usableIntfList ≠ []) (h56 : d.usableIntfList.length ≤ 56) {ips : List (Option Ip)}
    {i : Nat} {send : McSend} (hs : (ticks o ⟨p, d, 0⟩ ips)[i]? = some (some send))
    {sendto : Nat → List Byte → Int} (hsendto : EthHandler.Accepts sendto) {fuel : Nat}
    (hfuel : 0 < fuel) {sent : EthHandler.Sent}
    (hsend : IpMulticast.send send.bytes send.bytes.length sendto fuel = some sent)
    (hret : sent.ret ≠ -1) (sender : EthHandler.Sender) (remoteSock : EthHandler.SockaddrIn)
    {maxLength : Nat} (hmax : maxPacketSize ≤ maxLength) (remote : Ip) (remotePort : BitVec 16) :
    let r := IpMulticast.receiveMc o' (.datagram sender sent.accepted) remoteSock maxLength remote
      remotePort
    r.ret = send.bytes.length ∧ r.remote.toArray = sender.octets.toList ∧
      ∀ packet, readRegistration (received packet r.packet) =
        registration { p with sequence := p.sequence + BitVec.ofNat 16 (preparedBefore i) }
          { d with publicIp := publicIpBefore d.publicIp ips i } := by
  obtain ⟨-, hlen, hread⟩ := ticks_registration o p hne h56 hs
  have haccepted := accepted_of_send (by omega) hsendto hfuel hsend hret
  have htake : send.bytes.take maxLength = send.bytes := by
    have hsize : maxPacketSize = 1400 := rfl
    exact List.take_of_length_le (by omega)
  have hpositive : ¬ ((send.bytes.length : Int) ≤ 0) := by omega
  intro r
  have hr : r = ⟨send.bytes.length, send.bytes,
      (EthHandler.sockAddrToIp o' (sender.sockaddr o') remote remotePort).1,
      (EthHandler.sockAddrToIp o' (sender.sockaddr o') remote remotePort).2⟩ := by
    simp only [r, IpMulticast.receiveMc, EthHandler.receive, EthHandler.recvfrom, haccepted, htake,
      if_neg hpositive]
  rw [hr]
  exact ⟨rfl, (@IpMulticast.sockAddrToIp_sender o' remote remotePort sender).1, hread⟩

/-- The second heartbeat of a minute, from a little-endian host to a big-endian one. -/
theorem heartbeat_delivered_sample :
    let p := initialized.1
    let d := initialized.2
    let ips := List.replicate 11 (some (Ip.ofOctets #v[198, 51, 100, 7] 0))
    ∃ send, (ticks .little ⟨p, d, 0⟩ ips)[10]? = some (some send) ∧
      let r := IpMulticast.receiveMc .big
        (.datagram ⟨#v[10, 0, 0, 1], 19007⟩ send.bytes) ⟨0, 0, 0⟩ 1400 Ip.new 0
      r.ret = send.bytes.length ∧ r.remote.toArray = [10, 0, 0, 1] ∧
        ∀ packet, readRegistration (received packet r.packet) =
          registration { p with sequence := p.sequence + BitVec.ofNat 16 (preparedBefore 10) }
            { d with publicIp := publicIpBefore d.publicIp ips 10 } := by
  intro p d ips
  have hne : d.usableIntfList ≠ [] := initialized_ne_nil
  obtain ⟨x, hget, hx⟩ := ticks_isSome .little p hne (show 10 < ips.length by decide)
  obtain ⟨send, rfl⟩ := Option.isSome_iff_exists.1 (hx.trans (by decide))
  have hpos : 0 < send.bytes.length := by
    rw [(ticks_registration .little p hne (by decide) hget).2.1]
    exact Nat.lt_of_lt_of_le (by decide) (Nat.le_add_right 44 _)
  have hsend : IpMulticast.send send.bytes send.bytes.length (fun _ bytes => bytes.length) 1 =
      some ⟨send.bytes.length, [⟨send.bytes, send.bytes.length⟩]⟩ := by
    simp [IpMulticast.send, EthHandler.send, EthHandler.sendLoop, List.length_pos_iff.1 hpos]
  have haccepts : EthHandler.Accepts fun _ bytes => bytes.length := fun _ bytes hb => .inr
    ⟨Int.natCast_pos.2 (List.length_pos_iff.2 hb), Int.le_refl _⟩
  have hret : (send.bytes.length : Int) ≠ -1 := by omega
  have haccepted := accepted_of_send hpos haccepts Nat.one_pos hsend hret
  refine ⟨send, hget, ?_⟩
  have hr := heartbeat_delivered .little .big p hne (by decide) hget haccepts
    Nat.one_pos hsend hret ⟨#v[10, 0, 0, 1], 19007⟩ ⟨0, 0, 0⟩
    (show maxPacketSize ≤ 1400 by decide) Ip.new 0
  rw [haccepted] at hr
  exact hr

end Ticker
