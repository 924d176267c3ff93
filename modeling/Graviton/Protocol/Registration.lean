import Graviton.Protocol.DiscoveryProof

/-!
# Reading a registration packet

`readRegistration` reads a packet as its recipient would: every field at its offset, in network
order, and as many interface records as the packet says.

* `sendHeartbeatToMcGroup_registration`: with 1 to 56 interfaces a recipient reads what the
  sender put in, on either host.
* `registration_byteOrder`: the packet depends on the host, but in its signature only; on
  neither host is the signature there.
* `registration_inBounds_iff`: the stores stay in the buffer, and the length and the count are
  right, for up to 56 interfaces and no more.
-/

open Lib MemoryUtility Protocol

namespace Protocol

/-- The content of a registration packet, less the signature. -/
structure Registration where
  sequence : BitVec 16
  packetType : BitVec 8
  retryCount : BitVec 8
  length : Nat
  version : BitVec 8
  packetId : BitVec 8
  nodeType : BitVec 8
  nodeId : BitVec 16
  headerReserved : BitVec 8
  headerReserved2 : BitVec 32
  appVersion : BitVec 16
  appType : BitVec 8
  reserved1 : BitVec 8
  publicIp : List Byte
  featureBits : BitVec 32
  storageSize : BitVec 64
  totalInterfaces : Nat
  reserved2 : List Byte
  interfaces : List Interface
  deriving DecidableEq

def readInterface (m : Mem) (off : Nat) : Interface where
  type := wordAt 8 m (off + InterfaceOffset.type) 1
  reserved := readBytes m (off + InterfaceOffset.reserved) 3
  capBits := wordAt 32 m (off + InterfaceOffset.capBits) 4
  address := readBytes m (off + InterfaceOffset.address) 16
  reserved_length := read_length _ _ _
  address_length := read_length _ _ _

/-- The registration packet at the start of a memory. -/
def readRegistration (m : Mem) : Registration where
  sequence := wordAt 16 m (RegistrationOffset.header + HeaderOffset.sequence) 2
  packetType := wordAt 8 m (RegistrationOffset.header + HeaderOffset.packetType) 1
  retryCount := wordAt 8 m (RegistrationOffset.header + HeaderOffset.retryCount) 1
  length := ofBe (readBytes m (RegistrationOffset.header + HeaderOffset.length) 2)
  version := wordAt 8 m (RegistrationOffset.header + HeaderOffset.version) 1
  packetId := wordAt 8 m (RegistrationOffset.header + HeaderOffset.packetId) 1
  nodeType := wordAt 8 m (RegistrationOffset.header + HeaderOffset.nodeType) 1
  nodeId := wordAt 16 m (RegistrationOffset.header + HeaderOffset.nodeId) 2
  headerReserved := wordAt 8 m (RegistrationOffset.header + HeaderOffset.reserved) 1
  headerReserved2 := wordAt 32 m (RegistrationOffset.header + HeaderOffset.reserved2) 4
  appVersion := wordAt 16 m RegistrationOffset.appVersion 2
  appType := wordAt 8 m RegistrationOffset.appType 1
  reserved1 := wordAt 8 m RegistrationOffset.reserved1 1
  publicIp := readBytes m RegistrationOffset.publicIp 4
  featureBits := wordAt 32 m RegistrationOffset.featureBits 4
  storageSize := wordAt 64 m RegistrationOffset.storageSize 8
  totalInterfaces := ofBe (readBytes m RegistrationOffset.totalInterfaces 1)
  reserved2 := readBytes m RegistrationOffset.reserved2 3
  interfaces :=
    (List.range (ofBe (readBytes m RegistrationOffset.totalInterfaces 1))).map fun k =>
      readInterface m (RegistrationOffset.interfaces + k * InterfaceOffset.size)

theorem length_readRegistration (m : Mem) : (readRegistration m).length =
    ofBe (readBytes m (RegistrationOffset.header + HeaderOffset.length) 2) := rfl

theorem totalInterfaces_readRegistration (m : Mem) : (readRegistration m).totalInterfaces =
    ofBe (readBytes m RegistrationOffset.totalInterfaces 1) := rfl

/-- An interface record as it goes over the wire: nothing in its reserved bytes. -/
def Interface.onWire (intf : Interface) : Interface :=
  { intf with reserved := [0, 0, 0], reserved_length := rfl }

end Protocol

namespace DiscoveryThread

/-- What the sender puts into its packet. -/
def registration (p : Protocol) (d : DiscoveryThread) : Registration where
  sequence := p.sequence + 1
  packetType := PacketType.notification.toU8
  retryCount := 0
  length := 44 + 24 * d.usableIntfList.length
  version := 100
  packetId := PacketId.registration.toU8
  nodeType := p.nodeType.toU8
  nodeId := p.nodeId
  headerReserved := 0
  headerReserved2 := 0
  appVersion := p.appVersion
  appType := p.appType.toU8
  reserved1 := 0
  publicIp := d.publicIp.toArray
  featureBits := d.featureBits
  storageSize := d.storageSize
  totalInterfaces := d.usableIntfList.length
  reserved2 := [0, 0, 0]
  interfaces := d.usableIntfList.map Interface.onWire

/-! ## Fields -/

theorem read_field {o : Order} {p : Protocol} {d : DiscoveryThread} {off n : Nat}
    {b : List Byte} (h : (⟨off, b⟩ : Store) ∈ fieldStores o p d) (hn : b.length = n)
    (m : Mem) : readBytes (exec m (registrationStores o p d)) off n = b := by
  subst hn
  exact read_of_mem (List.mem_append_left _ h) m

theorem word_field {o : Order} {p : Protocol} {d : DiscoveryThread} {off n w : Nat}
    {v : BitVec w} (h : (⟨off, beBytes n v⟩ : Store) ∈ fieldStores o p d) (hw : w ≤ 8 * n)
    (m : Mem) : wordAt w (exec m (registrationStores o p d)) off n = v :=
  wordAt_of_read hw (read_field h (beBytes_length n v) m)

theorem fieldStores_reserved {o : Order} {p : Protocol} {d : DiscoveryThread} {a : Nat}
    (ha : a = 23 ∨ 41 ≤ a) {s : Store} (hs : s ∈ fieldStores o p d) : ¬ s.Covers a := by
  have h := forall_fieldStores (P := fun x => ¬ (x.1 ≤ a ∧ a < x.1 + x.2)) o p d (by
    simp only [List.mem_cons, List.not_mem_nil, or_false, forall_eq_or_imp, forall_eq]
    omega) s hs
  exact h

/-- The reserved bytes of the fixed part are zero. -/
theorem read_reserved {o : Order} {p : Protocol} {d : DiscoveryThread} {off n : Nat}
    (h : off = 23 ∧ n = 1 ∨ off = 41 ∧ n = 3) (m : Mem) :
    readBytes (exec m (registrationStores o p d)) off n = List.replicate n 0 := by
  refine read_zero (fun a h1 h2 s hs => ?_) ?_ m
  · rcases List.mem_append.1 hs with hs | hs
    · exact fieldStores_reserved (by omega) hs
    · have := (bounds_of_mem_intfLoop hs).1
      simp only [Store.Covers, intfs_eq] at *
      omega
  · rw [packetLength_toNat, intfs_eq]
    omega

/-! ## Interface records -/

theorem intfStores_reserved {o : Order} {idx a : Nat} {intf : Interface} {s : Store}
    (h1 : intfs idx + 1 ≤ a) (h2 : a < intfs idx + 4) (hs : s ∈ intfStores o idx intf) :
    ¬ s.Covers a := by
  have hm : s.span ∈ (intfStores o idx intf).map Store.span := List.mem_map_of_mem hs
  rw [intfStores_span] at hm
  simp only [Store.span, List.mem_cons, Prod.mk.injEq, List.not_mem_nil, or_false] at hm
  simp only [Store.Covers, Store.stop]
  omega

/-- **An interface record** holds the interface of its place in the list, and zeros in its
reserved bytes. -/
theorem readInterface_eq {o : Order} {p : Protocol} {d : DiscoveryThread} {k : Nat}
    {intf : Interface} (hk : d.usableIntfList[k]? = some intf)
    (hl : d.usableIntfList.length < 256) (m : Mem) :
    readInterface (exec m (registrationStores o p d)) (intfs k) = intf.onWire := by
  have hlt : k < d.usableIntfList.length := (List.getElem?_eq_some_iff.1 hk).1
  have hmem : ∀ s ∈ intfStores o k intf,
      s ∈ fieldStores o p d ++ intfLoop o 0 d.usableIntfList := fun s hs =>
    List.mem_append_right _ (mem_intfLoop.2 ⟨k, intf, hk, by rwa [Nat.zero_add]⟩)
  have htype := read_of_mem (hmem ⟨intfs k + InterfaceOffset.type, beBytes 1 intf.type⟩
    (by simp [intfStores])) m
  have hcap := read_of_mem (hmem ⟨intfs k + InterfaceOffset.capBits, beBytes 4 intf.capBits⟩
    (by simp [intfStores])) m
  have haddr := read_of_mem (hmem ⟨intfs k + InterfaceOffset.address, intf.address⟩
    (by simp [intfStores])) m
  have hres : readBytes (exec m (registrationStores o p d))
      (intfs k + InterfaceOffset.reserved) 3 = List.replicate 3 0 := by
    have hoff : InterfaceOffset.reserved = 1 := rfl
    refine read_zero (fun a h1 h2 s hs => ?_) ?_ m
    · rw [hoff] at h1 h2
      rcases List.mem_append.1 hs with hs | hs
      · have := stop_le_of_mem_fieldStores hs
        simp only [Store.Covers, intfs_eq] at *
        omega
      · obtain ⟨j, intf', hj, hs⟩ := mem_intfLoop.1 hs
        rw [Nat.zero_add] at hs
        rcases Nat.lt_trichotomy j k with hjk | rfl | hjk
        · have := (bounds_of_mem_intfStores hs).2
          simp only [Store.Covers, intfs_eq] at *
          omega
        · exact intfStores_reserved h1 h2 hs
        · have := (bounds_of_mem_intfStores hs).1
          simp only [Store.Covers, intfs_eq] at *
          omega
    · rw [packetLength_toNat, Nat.mod_eq_of_lt hl, intfs_eq, intfs_eq, hoff]
      omega
  rw [intf.address_length] at haddr
  rw [beBytes_length] at htype hcap
  exact Interface.ext (wordAt_of_read (by decide) htype) hres (wordAt_of_read (by decide) hcap)
    haddr

/-! ## The whole packet -/

theorem read_totalInterfaces (o : Order) (p : Protocol) (d : DiscoveryThread) (m : Mem) :
    ofBe (readBytes (exec m (registrationStores o p d)) RegistrationOffset.totalInterfaces 1) =
      d.usableIntfList.length % 256 := by
  rw [read_field (b := beBytes 1 d.totalInterfaces) (by simp [fieldStores]) (beBytes_length _ _),
    ofBe_beBytes _ (by decide), totalInterfaces, BitVec.toNat_ofNat]

theorem read_length_field (o : Order) (p : Protocol) (d : DiscoveryThread) (m : Mem) :
    ofBe (readBytes (exec m (registrationStores o p d))
      (RegistrationOffset.header + HeaderOffset.length) 2) =
      intfs (d.usableIntfList.length % 256) := by
  rw [read_field (b := beBytes 2 d.packetLength) (by simp [fieldStores, prepareHeader])
    (beBytes_length _ _), ofBe_beBytes _ (by decide), packetLength_toNat]

theorem readInterfaces_eq {o : Order} {p : Protocol} {d : DiscoveryThread}
    (hl : d.usableIntfList.length < 256) (m : Mem) :
    ((List.range d.usableIntfList.length).map fun k =>
      readInterface (exec m (registrationStores o p d)) (intfs k)) =
      d.usableIntfList.map Interface.onWire := by
  apply List.ext_getElem (by simp)
  intro k h1 h2
  have hk : k < d.usableIntfList.length := by simpa using h2
  rw [List.getElem_map, List.getElem_range, List.getElem_map,
    readInterface_eq (List.getElem?_eq_getElem hk) hl]

/-- A recipient reads what the sender put in, as long as the count fits its byte. -/
theorem readRegistration_eq {o : Order} {p : Protocol} {d : DiscoveryThread}
    (hl : d.usableIntfList.length < 256) (m : Mem) :
    readRegistration (exec m (registrationStores o p.getNextSequence d)) = registration p d := by
  have hn : d.usableIntfList.length % 256 = d.usableIntfList.length := Nat.mod_eq_of_lt hl
  simp only [readRegistration, registration, read_totalInterfaces, read_length_field, hn,
    Registration.mk.injEq]
  refine ⟨?sequence, ?packetType, ?retryCount, ?length, ?version, ?packetId, ?nodeType, ?nodeId,
    ?headerReserved, ?headerReserved2, ?appVersion, ?appType, ?reserved1, ?publicIp,
    ?featureBits, ?storageSize, trivial, ?reserved2, readInterfaces_eq hl m⟩
  case length => rw [intfs_eq, Nat.mul_comm]
  case reserved1 =>
    exact wordAt_of_read (by decide)
      ((read_reserved (.inl ⟨rfl, rfl⟩) m).trans (by decide))
  case publicIp => exact read_field (b := d.publicIp.toArray) (by simp [fieldStores]) rfl m
  case reserved2 => exact read_reserved (.inr ⟨rfl, rfl⟩) m
  all_goals
    exact word_field (by simp [fieldStores, prepareHeader, getNextSequence, version])
      (by decide) m

/-- **A heartbeat carries its content without loss**: with 1 to 56 interfaces the length sent is
the one in the packet, and a recipient reads what the sender put in. -/
theorem sendHeartbeatToMcGroup_registration (o : Order) (p : Protocol) (d : DiscoveryThread)
    (h1 : 1 ≤ d.usableIntfList.length) (h56 : d.usableIntfList.length ≤ 56) :
    sendHeartbeatToMcGroup o p d =
        (p.getNextSequence, (prepareRegistrationPacket o p d).2,
          some ⟨d.mc, readBytes (prepareRegistrationPacket o p d).2.packet 0
            (44 + 24 * d.usableIntfList.length)⟩) ∧
      readRegistration (prepareRegistrationPacket o p d).2.packet = registration p d := by
  have hne : d.usableIntfList ≠ [] := List.length_pos_iff.1 h1
  have hlen : d.packetLength.toNat = 44 + 24 * d.usableIntfList.length := by
    rw [packetLength_toNat, Nat.mod_eq_of_lt (by omega), intfs_eq, Nat.mul_comm]
  refine ⟨by rw [sendHeartbeatToMcGroup_eq o p hne, hlen], ?_⟩
  rw [packet_prepareRegistrationPacket, readRegistration_eq (by omega)]

/-- A discovery thread with a list of usable interfaces, and otherwise as constructed. -/
def withInterfaces (l : List Interface) : DiscoveryThread where
  ipIntfMap := Multimap.empty
  mc := none
  usableIntfList := l
  packet := fun _ => 0
  storageSize := 0
  featureBits := 0
  publicIp := Ip.new

def sampleIntf : Interface :=
  ⟨1, [0, 0, 0], 0x1000e, [10, 0, 0, 1] ++ List.replicate 12 0, rfl, rfl⟩

theorem sendHeartbeatToMcGroup_sample :
    readRegistration
        (prepareRegistrationPacket .little Protocol.new (withInterfaces [sampleIntf])).2.packet =
      registration Protocol.new (withInterfaces [sampleIntf]) :=
  (sendHeartbeatToMcGroup_registration .little Protocol.new (withInterfaces [sampleIntf])
    (by decide) (by decide)).2

/-- A local whose memory holds one byte throughout. -/
def filled (b : Byte) : Interface :=
  ⟨b, List.replicate 3 b, 0, List.replicate 16 b, rfl, rfl⟩

/-- A map with one interface, active at 10.0.0.1. -/
def oneInterfaceMap : IpMap :=
  Multimap.ofList [("eth0".toList, .ipv4 ⟨#v[10, 0, 0, 1], .classA, 0x1041⟩)]

/-- The protocol and a thread that has joined at this interface. -/
def initialized : Protocol × DiscoveryThread :=
  initializeMcGroups oneInterfaceMap (filled 0) Protocol.new (withInterfaces [])

theorem initialized_ne_nil : initialized.2.usableIntfList ≠ [] := List.cons_ne_nil _ _

/-! ## Byte order -/

/-- The signature as it is stored. -/
def signatureStore (o : Order) : Store :=
  ⟨RegistrationOffset.header + HeaderOffset.signature,
    o.bytes 4 ((checkAndSwap16 o (signature.setWidth 16)).setWidth 32)⟩

/-- Only the signature is stored differently on the two hosts. -/
theorem fieldStores_order (o : Order) (p : Protocol) (d : DiscoveryThread) :
    fieldStores o p d = signatureStore o :: (fieldStores .big p d).tail := by
  simp [fieldStores, prepareHeader, signatureStore]

theorem intfLoop_order (o : Order) : ∀ (idx : Nat) (l : List Interface),
    intfLoop o idx l = intfLoop .big idx l
  | _, [] => rfl
  | idx, x :: l => by
    simp [intfLoop, intfStores, intfLoop_order o (idx + 1) l]

/-- The `n` bytes of a prepared packet, in a buffer that held `m`. -/
def packetBytes (o : Order) (p : Protocol) (d : DiscoveryThread) (m : Mem) (n : Nat) :
    List Byte :=
  readBytes (prepareRegistrationPacket o p { d with packet := m }).2.packet 0 n

theorem registrationStores_packet (o : Order) (p : Protocol) (d : DiscoveryThread) (m : Mem) :
    registrationStores o p { d with packet := m } = registrationStores o p d := rfl

theorem packetBytes_eq (o : Order) (p : Protocol) (d : DiscoveryThread) (m : Mem) (n : Nat) :
    packetBytes o p d m n =
      readBytes (exec m (registrationStores o p.getNextSequence d)) 0 n := by
  rw [packetBytes, packet_prepareRegistrationPacket, registrationStores_packet]

theorem packetBytes_take (o : Order) (p : Protocol) (d : DiscoveryThread) (m : Mem) {n : Nat}
    (hn : 4 ≤ n) : (packetBytes o p d m n).take 4 = (signatureStore o).bytes := by
  rw [packetBytes_eq, read_take _ _ hn]
  refine read_field (b := (signatureStore o).bytes) ?_ (Order.bytes_length _ _ _) m
  rw [fieldStores_order]
  exact .head _

/-- Past the signature the packet depends on neither the host nor what the buffer held. -/
theorem packetBytes_drop (o : Order) (p : Protocol) (d : DiscoveryThread) (m m' : Mem) {n : Nat}
    (hn : n ≤ d.packetLength.toNat) :
    (packetBytes o p d m n).drop 4 = (packetBytes .big p d m' n).drop 4 := by
  rw [packetBytes_eq, packetBytes_eq, read_drop, read_drop]
  refine read_congr fun a h1 h2 => ?_
  have hsig : ∀ o, ¬ (signatureStore o).Covers a := fun o hc => by
    have : (signatureStore o).stop = 4 := by
      rw [Store.stop, signatureStore, Order.bytes_length]
      rfl
    have := hc.2
    omega
  have hc : (⟨0, List.replicate d.packetLength.toNat 0⟩ : Store).Covers a := by
    simp only [Store.Covers, Store.stop, List.length_replicate]
    omega
  rw [registrationStores, registrationStores, exec_cons, exec_cons, fieldStores_order o,
    fieldStores_order .big, intfLoop_order o, List.cons_append, List.cons_append,
    exec_cons_of_not_covers (hsig _), exec_cons_of_not_covers (hsig _)]
  exact exec_congr (.inl (by rw [Store.apply_covers hc, Store.apply_covers hc]))

/-- **The packet depends on the host**: on no state are its bytes the same on both, and on
neither host does it start with the signature in network order; past the signature the bytes
are the same. -/
theorem registration_byteOrder (p : Protocol) (d : DiscoveryThread) (m m' : Mem)
    (h1 : 1 ≤ d.usableIntfList.length) (h56 : d.usableIntfList.length ≤ 56) :
    let n := 44 + 24 * d.usableIntfList.length
    packetBytes .little p d m n ≠ packetBytes .big p d m' n ∧
      (packetBytes .little p d m n).take 4 ≠ beBytes 4 signature ∧
      (packetBytes .big p d m' n).take 4 ≠ beBytes 4 signature ∧
      (packetBytes .little p d m n).drop 4 = (packetBytes .big p d m' n).drop 4 := by
  intro n
  have hn : n ≤ d.packetLength.toNat := by
    rw [packetLength_toNat, Nat.mod_eq_of_lt (by omega), intfs_eq]
    omega
  have hl := packetBytes_take .little p d m (show 4 ≤ n by omega)
  have hb := packetBytes_take .big p d m' (show 4 ≤ n by omega)
  refine ⟨fun h => ?_, ?_, ?_, packetBytes_drop .little p d m m' hn⟩
  · have he : (signatureStore .little).bytes = (signatureStore .big).bytes := by
      rw [← hl, ← hb, h]
    exact absurd he (by decide)
  · rw [hl]
    decide
  · rw [hb]
    decide

theorem registration_byteOrder_sample :
    packetBytes .little Protocol.new (withInterfaces [sampleIntf]) (fun _ => 0) 68 ≠
      packetBytes .big Protocol.new (withInterfaces [sampleIntf]) (fun _ => 0) 68 :=
  (registration_byteOrder Protocol.new (withInterfaces [sampleIntf]) (fun _ => 0) (fun _ => 0)
    (by decide) (by decide)).1

/-- The packets start with 19 2a 00 00 and 00 00 19 2a, not with 0e f4 19 2a. -/
theorem registration_not_portable :
    ¬ (packetBytes .little Protocol.new (withInterfaces [sampleIntf]) (fun _ => 0) 68 =
          packetBytes .big Protocol.new (withInterfaces [sampleIntf]) (fun _ => 0) 68 ∧
        ∀ o, (packetBytes o Protocol.new (withInterfaces [sampleIntf]) (fun _ => 0) 68).take 4 =
          beBytes 4 signature) := by
  rintro ⟨-, h⟩
  have hl := h .little
  rw [packetBytes_take _ _ _ _ (by decide)] at hl
  exact absurd hl (by decide)

/-! ## The buffer -/

/-- What keeps `PrepareRegistrationPacket` inside its buffer: every store does, and the length
and the count in the packet are right. -/
structure InBounds (o : Order) (p : Protocol) (d : DiscoveryThread) : Prop where
  stores : ∀ s ∈ registrationStores o p.getNextSequence d, s.Within maxPacketSize
  length : (readRegistration (prepareRegistrationPacket o p d).2.packet).length ≤ maxPacketSize
  total : (readRegistration (prepareRegistrationPacket o p d).2.packet).totalInterfaces =
    d.usableIntfList.length

/-- From 57 interfaces on, the last record ends past the buffer. -/
theorem not_within_of_lt {o : Order} {p : Protocol} {d : DiscoveryThread}
    (h : 56 < d.usableIntfList.length) :
    ¬ ∀ s ∈ registrationStores o p d, s.Within maxPacketSize := by
  intro hw
  obtain ⟨k, hk⟩ : ∃ k, d.usableIntfList.length = k + 1 := ⟨_, (Nat.succ_pred (by omega)).symm⟩
  have hget := List.getElem?_eq_getElem (l := d.usableIntfList) (i := k) (by omega)
  set intf := d.usableIntfList[k]
  have hs : (⟨intfs k + InterfaceOffset.address, intf.address⟩ : Store) ∈
      registrationStores o p d := by
    refine .tail _ (List.mem_append_right _ (mem_intfLoop.2 ⟨k, intf, hget, ?_⟩))
    simp [intfStores]
  have hne : intf.address ≠ [] := List.ne_nil_of_length_pos (by rw [intf.address_length]; decide)
  have hstop := (Store.within_iff hne).1 (hw _ hs)
  have hoff : InterfaceOffset.address = 8 := rfl
  have hmax : maxPacketSize = 1400 := rfl
  simp only [Store.stop, intf.address_length, intfs_eq, hoff, hmax] at hstop
  omega

/-- **When the packet stays inside its buffer**: up to 56 interfaces. -/
theorem registration_inBounds_iff (o : Order) (p : Protocol) (d : DiscoveryThread) :
    InBounds o p d ↔ d.usableIntfList.length ≤ 56 := by
  constructor
  · intro h
    by_contra hc
    exact not_within_of_lt (Nat.lt_of_not_le hc) h.stores
  · intro h
    have hn : d.usableIntfList.length % 256 = d.usableIntfList.length :=
      Nat.mod_eq_of_lt (by omega)
    have hmax : maxPacketSize = 1400 := rfl
    refine ⟨fun s hs => Store.Within.of_stop_le ?_, ?_, ?_⟩
    · rcases List.mem_cons.1 hs with rfl | hs
      · simp only [Store.stop, List.length_replicate, packetLength_toNat, hn, intfs_eq, hmax]
        omega
      rcases List.mem_append.1 hs with hs | hs
      · have := stop_le_of_mem_fieldStores hs
        rw [intfs_eq] at this
        omega
      · have := (bounds_of_mem_intfLoop hs).2
        rw [intfs_eq] at this
        omega
    · rw [packet_prepareRegistrationPacket, length_readRegistration, read_length_field, hn,
        intfs_eq]
      omega
    · rw [packet_prepareRegistrationPacket, totalInterfaces_readRegistration,
        read_totalInterfaces, hn]

theorem registration_not_inBounds :
    ¬ InBounds .little Protocol.new (withInterfaces (List.replicate 57 sampleIntf)) :=
  fun h => not_within_of_lt (by decide) h.stores

end DiscoveryThread
