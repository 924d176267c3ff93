import Graviton.Protocol.Registration

/-!
# `DiscoveryThread`: the ticks

`ProcessSecondTick` of `libs/protocol/discovery.cpp` and what it calls. `Run` calls it once a
second; every tenth tick sends a heartbeat, every sixtieth asks for the public address and
prepares a packet for the remote office, which is not sent. What `GetPublicIp` answers is a
parameter.

* `sequenceOf_sent`: the sequence number a heartbeat carries.
* `processSecondTick_frame`, `processSecondTick_send`, `processSecondTick_sequence`: what one
  tick keeps, what it sends and how far it moves the sequence counter.
-/

open Lib MemoryUtility Protocol

/-- A discovery thread, the protocol object it uses and `m_secondCounter`. -/
structure Ticker where
  protocol : Protocol
  thread : DiscoveryThread
  secondCounter : BitVec 32

namespace DiscoveryThread

/-- `SendHeartbeatToRemoteOffice`: the packet is prepared only. -/
def sendHeartbeatToRemoteOffice (o : Order) (p : Protocol) (d : DiscoveryThread) :
    Protocol × DiscoveryThread :=
  if d.usableIntfList = [] then (p, d) else prepareRegistrationPacket o p d

/-- `ProcessOneMinuteTick`: `found` is the address `GetPublicIp` stores, if it returns `true`. -/
def processOneMinuteTick (o : Order) (found : Option Ip) (p : Protocol) (d : DiscoveryThread) :
    Protocol × DiscoveryThread :=
  sendHeartbeatToRemoteOffice o p { d with publicIp := found.getD d.publicIp }

/-- The sequence number in a packet that was sent. -/
def sequenceOf (send : McSend) : BitVec 16 :=
  BitVec.ofNat 16
    (ofBe ((send.bytes.drop (RegistrationOffset.header + HeaderOffset.sequence)).take 2))

/-- **The sequence number a heartbeat carries** is the counter, moved on. -/
theorem sequenceOf_sent (o : Order) (p : Protocol) (d : DiscoveryThread) (mc : Option IpMulticast) :
    sequenceOf ⟨mc, readBytes (prepareRegistrationPacket o p d).2.packet 0 d.packetLength.toNat⟩ =
      p.sequence + 1 := by
  have hlen : 2 ≤ d.packetLength.toNat - (RegistrationOffset.header + HeaderOffset.sequence) := by
    rw [packetLength_toNat, intfs_eq]
    show 2 ≤ _ - 4
    omega
  rw [sequenceOf, packet_prepareRegistrationPacket, read_drop, read_take _ _ hlen, ← wordAt]
  exact word_field (by simp [fieldStores, prepareHeader, getNextSequence]) (by decide) _

end DiscoveryThread

namespace Ticker

open DiscoveryThread

/-- `ProcessTenSecondTick`. -/
def processTenSecondTick (o : Order) (s : Ticker) : Ticker × Option McSend :=
  let (p, d, send) := sendHeartbeatToMcGroup o s.protocol s.thread
  ({ s with protocol := p, thread := d }, send)

/-- `ProcessOneMinuteTick`, on the whole state. -/
def processOneMinuteTick (o : Order) (found : Option Ip) (s : Ticker) : Ticker :=
  let (p, d) := DiscoveryThread.processOneMinuteTick o found s.protocol s.thread
  { s with protocol := p, thread := d }

/-- `ProcessSecondTick`, with the call of `Send` it makes. -/
def processSecondTick (o : Order) (found : Option Ip) (s : Ticker) : Ticker × Option McSend :=
  let (s, send) := if s.secondCounter % 10 = 0 then s.processTenSecondTick o else (s, none)
  let s := if s.secondCounter % 60 = 0 then s.processOneMinuteTick o found else s
  ({ s with secondCounter := s.secondCounter + 1 }, send)

/-- What neither kind of tick changes. -/
structure Frame (s s' : Ticker) : Prop where
  usableIntfList : s'.thread.usableIntfList = s.thread.usableIntfList
  mc : s'.thread.mc = s.thread.mc
  secondCounter : s'.secondCounter = s.secondCounter

theorem Frame.trans {s s' s'' : Ticker} (h : Frame s s') (h' : Frame s' s'') : Frame s s'' :=
  ⟨h'.usableIntfList.trans h.usableIntfList, h'.mc.trans h.mc,
    h'.secondCounter.trans h.secondCounter⟩

theorem processTenSecondTick_frame (o : Order) (s : Ticker) :
    Frame s (s.processTenSecondTick o).1 := by
  simp only [processTenSecondTick, sendHeartbeatToMcGroup]
  split <;> exact ⟨rfl, rfl, rfl⟩

theorem processOneMinuteTick_frame (o : Order) (found : Option Ip) (s : Ticker) :
    Frame s (s.processOneMinuteTick o found) := by
  simp only [processOneMinuteTick, DiscoveryThread.processOneMinuteTick,
    sendHeartbeatToRemoteOffice]
  split <;> exact ⟨rfl, rfl, rfl⟩

theorem processTenSecondTick_sequence (o : Order) {s : Ticker} (h : s.thread.usableIntfList ≠ []) :
    (s.processTenSecondTick o).1.protocol.sequence = s.protocol.sequence + 1 := by
  simp only [processTenSecondTick, sendHeartbeatToMcGroup, if_neg h]
  rfl

theorem processOneMinuteTick_sequence (o : Order) (found : Option Ip) {s : Ticker}
    (h : s.thread.usableIntfList ≠ []) :
    (s.processOneMinuteTick o found).protocol.sequence = s.protocol.sequence + 1 := by
  simp only [processOneMinuteTick, DiscoveryThread.processOneMinuteTick,
    sendHeartbeatToRemoteOffice, if_neg h]
  rfl

/-- A tick counts the second; the interfaces and the multicast group stay. -/
theorem processSecondTick_frame (o : Order) (found : Option Ip) (s : Ticker) :
    Frame { s with secondCounter := s.secondCounter + 1 } (s.processSecondTick o found).1 := by
  have hten := processTenSecondTick_frame o s
  have hmin := processOneMinuteTick_frame o found
  by_cases h : s.secondCounter % 10 = 0 <;> by_cases h' : s.secondCounter % 60 = 0
  · have hboth := hten.trans (hmin (s.processTenSecondTick o).1)
    simp only [processSecondTick, if_pos h, hten.secondCounter, if_pos h', hboth.secondCounter]
    exact ⟨hboth.usableIntfList, hboth.mc, rfl⟩
  · simp only [processSecondTick, if_pos h, hten.secondCounter, if_neg h']
    exact ⟨hten.usableIntfList, hten.mc, rfl⟩
  · simp only [processSecondTick, if_neg h, if_pos h', (hmin s).secondCounter]
    exact ⟨(hmin s).usableIntfList, (hmin s).mc, rfl⟩
  · simp only [processSecondTick, if_neg h, if_neg h']
    exact ⟨rfl, rfl, rfl⟩

/-- A tick sends a heartbeat if the counter is at a multiple of ten. -/
theorem processSecondTick_send (o : Order) (found : Option Ip) (s : Ticker) :
    (s.processSecondTick o found).2 =
      if s.secondCounter % 10 = 0 then (sendHeartbeatToMcGroup o s.protocol s.thread).2.2
      else none := by
  by_cases h : s.secondCounter % 10 = 0
  · simp only [processSecondTick, if_pos h, processTenSecondTick]
  · simp only [processSecondTick, if_neg h]

/-- A tick takes a sequence number for the heartbeat, and one more each minute. -/
theorem processSecondTick_sequence (o : Order) (found : Option Ip) {s : Ticker}
    (hne : s.thread.usableIntfList ≠ []) :
    (s.processSecondTick o found).1.protocol.sequence =
      s.protocol.sequence + (if s.secondCounter % 10 = 0 then 1 else 0) +
        (if s.secondCounter % 60 = 0 then 1 else 0) := by
  have hten := processTenSecondTick_frame o s
  have hne' : (s.processTenSecondTick o).1.thread.usableIntfList ≠ [] := by
    rwa [hten.usableIntfList]
  by_cases h : s.secondCounter % 10 = 0 <;> by_cases h' : s.secondCounter % 60 = 0
  · simp only [processSecondTick, if_pos h, hten.secondCounter, if_pos h',
      processOneMinuteTick_sequence o found hne', processTenSecondTick_sequence o hne]
  · simp only [processSecondTick, if_pos h, hten.secondCounter, if_neg h',
      processTenSecondTick_sequence o hne]
    simp
  · simp only [processSecondTick, if_neg h, if_pos h', processOneMinuteTick_sequence o found hne]
    simp
  · simp only [processSecondTick, if_neg h, if_neg h']
    simp

/-- The calls of `Send` of a series of ticks. -/
def ticks (o : Order) : Ticker → List (Option Ip) → List (Option McSend)
  | _, [] => []
  | s, found :: rest =>
    (s.processSecondTick o found).2 :: ticks o (s.processSecondTick o found).1 rest

end Ticker
