import Graviton.Protocol.Registration

/-!
# What a heartbeat gives away

The first heartbeat after `InitializeMcGroups`, and what of it depends on memory the program has
not written: the local `intf` and the bytes `m_packet` held.

* `heartbeat_some`: what is sent after an interface was found.
* `heartbeat_eq_of_none`, `heartbeat_eq_of_ge`: when nothing leaks.
* `heartbeat_noLeak_iff`: exactly when.
-/

open Lib MemoryUtility Protocol

namespace DiscoveryThread

/-- `InitializeMcGroups`, then `SendHeartbeatToMcGroup`: the call of `Send`, if there is one. -/
def heartbeat (o : Order) (found : IpMap) (garbage : Interface) (p : Protocol)
    (d : DiscoveryThread) : Option McSend :=
  let (p, d) := initializeMcGroups found garbage p d
  (sendHeartbeatToMcGroup o p d).2.2

/-! ## What the stores depend on -/

/-- The stores before the loop depend on the list by its length only. -/
theorem fieldStores_congr {o : Order} {p : Protocol} {d d' : DiscoveryThread}
    (hl : d.usableIntfList.length = d'.usableIntfList.length)
    (hs : d.storageSize = d'.storageSize) (hf : d.featureBits = d'.featureBits)
    (hp : d.publicIp = d'.publicIp) : fieldStores o p d = fieldStores o p d' := by
  have ht : d.totalInterfaces = d'.totalInterfaces := by
    rw [totalInterfaces, totalInterfaces, hl]
  rw [fieldStores, fieldStores, packetLength, packetLength, ht, hs, hf, hp]

theorem intfLoop_append (o : Order) : ∀ (idx : Nat) (l l' : List Interface),
    intfLoop o idx (l ++ l') = intfLoop o idx l ++ intfLoop o (idx + l.length) l'
  | _, [], _ => rfl
  | idx, x :: l, l' => by
    rw [List.cons_append, intfLoop, intfLoop, intfLoop_append o (idx + 1) l l', List.append_assoc,
      List.length_cons, Nat.add_assoc idx 1, Nat.add_comm 1]

/-- What the buffer held does not show in the packet. -/
theorem read_packet_congr (o : Order) (p : Protocol) {d : DiscoveryThread} {n : Nat}
    (hn : n ≤ d.packetLength.toNat) (m m' : Mem) :
    readBytes (exec m (registrationStores o p d)) 0 n =
      readBytes (exec m' (registrationStores o p d)) 0 n := by
  refine read_congr fun a _ ha => exec_congr (.inr ⟨_, .head _, ?_⟩)
  simp only [Store.Covers, Store.stop, List.length_replicate]
  omega

/-- The record of the last interface is written last. -/
theorem registrationStores_append {o : Order} {p : Protocol} {d : DiscoveryThread}
    {l : List Interface} {x : Interface} (hd : d.usableIntfList = l ++ [x]) :
    registrationStores o p d =
      (⟨0, List.replicate d.packetLength.toNat 0⟩ :: (fieldStores o p d ++ intfLoop o 0 l)) ++
        intfLoop o l.length [x] := by
  rw [registrationStores, hd, intfLoop_append, Nat.zero_add, List.cons_append, List.append_assoc]

/-- The last interface does not show before its record. -/
theorem read_packet_append (o : Order) (p : Protocol) (d d' : DiscoveryThread) (m : Mem)
    {l : List Interface} {x y : Interface} (hd : d.usableIntfList = l ++ [x])
    (hd' : d'.usableIntfList = l ++ [y]) (hs : d.storageSize = d'.storageSize)
    (hf : d.featureBits = d'.featureBits) (hp : d.publicIp = d'.publicIp)
    {n : Nat} (hn : n ≤ intfs l.length) :
    readBytes (exec m (registrationStores o p d)) 0 n =
      readBytes (exec m (registrationStores o p d')) 0 n := by
  have hlen : d.usableIntfList.length = d'.usableIntfList.length := by simp [hd, hd']
  have hpl : d.packetLength = d'.packetLength := by
    rw [packetLength, packetLength, totalInterfaces, totalInterfaces, hlen]
  have hmiss : ∀ (z : Interface) (a : Nat), a < n →
      ∀ s ∈ intfLoop o l.length [z], ¬ s.Covers a := by
    intro z a ha s hs hc
    have := (bounds_of_mem_intfLoop hs).1
    have := hc.1
    omega
  refine read_congr fun a _ ha => ?_
  rw [Nat.zero_add] at ha
  rw [registrationStores_append hd, registrationStores_append hd', fieldStores_congr hlen hs hf hp,
    ← hpl, exec_append, exec_append, exec_of_not_covers (hmiss x a ha),
    exec_of_not_covers (hmiss y a ha)]

/-! ## One heartbeat -/

theorem sent_eq (o : Order) (p : Protocol) {d : DiscoveryThread} (h : d.usableIntfList ≠ []) :
    (sendHeartbeatToMcGroup o p d).2.2 =
      some ⟨d.mc, readBytes (exec d.packet (registrationStores o p.getNextSequence d)) 0
        d.packetLength.toNat⟩ := by
  rw [sendHeartbeatToMcGroup_eq o p h]
  rfl

/-- The thread after an interface was found. -/
def joined (found : IpMap) (garbage : Interface) (d : DiscoveryThread) (name : Str) (ip : Ip) :
    DiscoveryThread :=
  { d with
    ipIntfMap := found
    usableIntfList := d.usableIntfList ++ [localIntf garbage ip]
    mc := some ⟨name, ip, Protocol.port.setWidth 16, mcIp, Protocol.port.setWidth 16⟩ }

theorem heartbeat_some {o : Order} {found : IpMap} {name : Str} {ip : Ip}
    (h : found.entries.findSome? usable = some (name, ip)) (g : Interface) (p : Protocol)
    (d : DiscoveryThread) (m : Mem) :
    heartbeat o found g p { d with packet := m } =
      some ⟨(joined found g d name ip).mc,
        readBytes (exec m (registrationStores o (p.setNodeId 1).getNextSequence
          (joined found g d name ip))) 0 (intfs ((d.usableIntfList.length + 1) % 256))⟩ := by
  have hi : initializeMcGroups found g p { d with packet := m } =
      (p.setNodeId 1, joined found g { d with packet := m } name ip) := by
    simp only [initializeMcGroups, h]
    rfl
  have hl : (joined found g { d with packet := m } name ip).usableIntfList.length =
      d.usableIntfList.length + 1 := List.length_append
  simp only [heartbeat, hi]
  rw [sent_eq o _ (by simp [joined]), packetLength_toNat, hl]
  rfl

theorem joined_packetLength (found : IpMap) (g : Interface) (d : DiscoveryThread) (name : Str)
    (ip : Ip) : (joined found g d name ip).packetLength.toNat =
      intfs ((d.usableIntfList.length + 1) % 256) := by
  rw [packetLength_toNat, joined, List.length_append, List.length_singleton]

/-- With no usable interface in the map, what is sent does not depend on unwritten memory. -/
theorem heartbeat_eq_of_none {o : Order} {found : IpMap}
    (h : found.entries.findSome? usable = none) (p : Protocol) (d : DiscoveryThread)
    (g g' : Interface) (m m' : Mem) :
    heartbeat o found g p { d with packet := m } =
      heartbeat o found g' p { d with packet := m' } := by
  simp only [heartbeat, initializeMcGroups, h]
  by_cases hl : d.usableIntfList = []
  · simp only [sendHeartbeatToMcGroup, hl, if_true]
  · rw [sent_eq o (p.setNodeId 1) (d := { d with ipIntfMap := found, packet := m }) hl,
      sent_eq o (p.setNodeId 1) (d := { d with ipIntfMap := found, packet := m' }) hl]
    exact congrArg (fun bytes => some (McSend.mk d.mc bytes))
      (read_packet_congr o (p.setNodeId 1).getNextSequence (Nat.le_refl d.packetLength.toNat) m m')

/-- With 255 interfaces in the list already, the new record is past the packet's length. -/
theorem heartbeat_eq_of_ge {o : Order} {found : IpMap} {name : Str} {ip : Ip}
    (h : found.entries.findSome? usable = some (name, ip)) (p : Protocol) {d : DiscoveryThread}
    (hl : 255 ≤ d.usableIntfList.length) (g g' : Interface) (m m' : Mem) :
    heartbeat o found g p { d with packet := m } =
      heartbeat o found g' p { d with packet := m' } := by
  have hn : intfs ((d.usableIntfList.length + 1) % 256) ≤ intfs d.usableIntfList.length := by
    rw [intfs_eq, intfs_eq]
    omega
  rw [heartbeat_some h, heartbeat_some h,
    read_packet_congr o _ (joined_packetLength found g d name ip).ge m m',
    read_packet_append o (p.setNodeId 1).getNextSequence (joined found g d name ip)
      (joined found g' d name ip) m' rfl rfl rfl rfl rfl hn]
  rfl

theorem readInterface_congr {m m' : Mem} (off : Nat)
    (h : ∀ a, off ≤ a → a < off + InterfaceOffset.size → m a = m' a) :
    readInterface m off = readInterface m' off := by
  have hr : ∀ k n, k + n ≤ InterfaceOffset.size →
      readBytes m (off + k) n = readBytes m' (off + k) n := fun k n hk =>
    read_congr fun a h1 h2 => h a (by omega) (by omega)
  have hw : ∀ w k n, k + n ≤ InterfaceOffset.size →
      wordAt w m (off + k) n = wordAt w m' (off + k) n := fun w k n hk => by
    rw [wordAt, wordAt, hr k n hk]
  exact Interface.ext (hw _ _ _ (by decide)) (hr _ _ (by decide)) (hw _ _ _ (by decide))
    (hr _ _ (by decide))

/-- With fewer, the last 12 address bytes of the new record are sent. -/
theorem address_drop_eq_of_heartbeat {o : Order} {found : IpMap} {name : Str} {ip : Ip}
    (h : found.entries.findSome? usable = some (name, ip)) {p : Protocol} {d : DiscoveryThread}
    (hl : d.usableIntfList.length < 255) {g g' : Interface} {m m' : Mem}
    (he : heartbeat o found g p { d with packet := m } =
      heartbeat o found g' p { d with packet := m' }) :
    g.address.drop 4 = g'.address.drop 4 := by
  rw [heartbeat_some h, heartbeat_some h, Option.some.injEq, McSend.mk.injEq, read_eq_iff,
    Nat.mod_eq_of_lt (by omega)] at he
  have hrec : ∀ (g : Interface) (m : Mem),
      readInterface (exec m (registrationStores o (p.setNodeId 1).getNextSequence
        (joined found g d name ip))) (intfs d.usableIntfList.length) =
        (localIntf g ip).onWire := fun g m =>
    readInterface_eq List.getElem?_concat_length
      (by rw [joined, List.length_append, List.length_singleton]; omega) m
  have hsame := readInterface_congr (intfs d.usableIntfList.length) fun a h1 h2 =>
    he.2 a (Nat.zero_le a) (by
      have hsize : InterfaceOffset.size = 24 := rfl
      rw [intfs_eq] at *
      omega)
  rw [hrec, hrec] at hsame
  exact List.append_cancel_left (congrArg Interface.address hsame)

/-- **When a heartbeat leaks nothing**: no entry of the map is usable, or there are 255
interfaces in the list already. -/
theorem heartbeat_noLeak_iff (o : Order) (found : IpMap) (p : Protocol) (d : DiscoveryThread) :
    (∀ (g g' : Interface) (m m' : Mem),
      heartbeat o found g p { d with packet := m } =
        heartbeat o found g' p { d with packet := m' }) ↔
      (∀ e ∈ found.entries, usable e = none) ∨ 255 ≤ d.usableIntfList.length := by
  rw [← List.findSome?_eq_none_iff]
  cases h : found.entries.findSome? usable with
  | none => exact ⟨fun _ => .inl rfl, fun _ => heartbeat_eq_of_none h p d⟩
  | some e =>
    obtain ⟨name, ip⟩ := e
    constructor
    · intro he
      refine .inr (Nat.le_of_not_lt fun hl => ?_)
      have hd := address_drop_eq_of_heartbeat h hl
        (he (filled 0) (filled 1) (fun _ => 0) fun _ => 0)
      exact absurd hd (by decide)
    · rintro (h0 | hl)
      · cases h0
      · exact heartbeat_eq_of_ge h p hl

/-- One usable interface: the heartbeat shows what the stack held. -/
theorem heartbeat_leaks :
    heartbeat .little oneInterfaceMap (filled 0) Protocol.new
        { withInterfaces [] with packet := fun _ => 0 } ≠
      heartbeat .little oneInterfaceMap (filled 1) Protocol.new
        { withInterfaces [] with packet := fun _ => 0 } := by
  intro he
  have hu : oneInterfaceMap.entries.findSome? usable =
      some ("eth0".toList, ⟨#v[10, 0, 0, 1], .classA, 0x1041⟩) := rfl
  exact absurd (address_drop_eq_of_heartbeat hu (by decide) he) (by decide)

end DiscoveryThread
