import Graviton.Protocol.Discovery

/-!
# The stores of a registration packet

Where `PrepareRegistrationPacket` writes, and what a byte of the packet holds afterwards.

* `packetLength_toNat`: the length of the packet, from the count of interfaces cut to a byte.
* `registration_pairwise`: after the `memset` no byte is written twice.
* `read_of_mem`, `read_zero`: a field holds what was stored in it, a byte without a store is
  zero.
* `sendHeartbeatToMcGroup_eq`: the bytes sent are the first `packetLength` ones.
-/

open Lib MemoryUtility Protocol

namespace DiscoveryThread

theorem intfs_eq (idx : Nat) : intfs idx = 44 + idx * 24 := rfl

/-- The length of the packet: no interface, or 256 of them, leave the fixed part. -/
theorem packetLength_toNat (d : DiscoveryThread) :
    d.packetLength.toNat = intfs (d.usableIntfList.length % 256) := by
  have ht : (d.totalInterfaces.setWidth 64).toNat = d.usableIntfList.length % 256 := by
    rw [totalInterfaces, BitVec.toNat_setWidth, BitVec.toNat_ofNat]
    omega
  have hs : RegistrationOffset.size = 68 := rfl
  have hi : InterfaceOffset.size = 24 := rfl
  rw [packetLength, hs, hi, BitVec.toNat_setWidth, BitVec.toNat_add, BitVec.toNat_mul,
    BitVec.toNat_sub, ht, intfs_eq, show (1 : BitVec 64).toNat = 1 from rfl]
  simp only [BitVec.toNat_ofNat]
  have := Nat.mod_lt d.usableIntfList.length (show 256 > 0 by decide)
  omega

/-! ## Where the stores are -/

theorem fieldStores_span (o : Order) (p : Protocol) (d : DiscoveryThread) :
    (fieldStores o p d).map Store.span =
      [(0, 4), (10, 1), (8, 2), (13, 2), (12, 1), (4, 2), (7, 1), (11, 1), (6, 1), (15, 1),
        (16, 4), (22, 1), (20, 2), (32, 8), (28, 4), (24, 4), (40, 1)] := by
  simp [fieldStores, prepareHeader, Store.span]
  decide

theorem forall_fieldStores {P : Nat × Nat → Prop} (o : Order) (p : Protocol)
    (d : DiscoveryThread)
    (h : ∀ x ∈ [(0, 4), (10, 1), (8, 2), (13, 2), (12, 1), (4, 2), (7, 1), (11, 1), (6, 1),
      (15, 1), (16, 4), (22, 1), (20, 2), (32, 8), (28, 4), (24, 4), (40, 1)], P x) :
    ∀ s ∈ fieldStores o p d, P s.span := by
  rw [← fieldStores_span o p d] at h
  exact fun s hs => h _ (List.mem_map_of_mem hs)

theorem stop_le_of_mem_fieldStores {o : Order} {p : Protocol} {d : DiscoveryThread} {s : Store}
    (h : s ∈ fieldStores o p d) : s.stop ≤ intfs 0 :=
  forall_fieldStores (P := fun x => x.1 + x.2 ≤ intfs 0) o p d (by decide) s h

theorem fieldStores_pairwise (o : Order) (p : Protocol) (d : DiscoveryThread) :
    (fieldStores o p d).Pairwise Store.Disjoint := by
  rw [Store.pairwise_disjoint_iff, fieldStores_span]
  decide

theorem intfStores_span (o : Order) (idx : Nat) (intf : Interface) :
    (intfStores o idx intf).map Store.span =
      [(intfs idx + 8, 16), (intfs idx, 1), (intfs idx + 4, 4)] := by
  simp [intfStores, Store.span, intf.address_length]
  decide

theorem bounds_of_mem_intfStores {o : Order} {idx : Nat} {intf : Interface} {s : Store}
    (h : s ∈ intfStores o idx intf) : intfs idx ≤ s.off ∧ s.stop ≤ intfs (idx + 1) := by
  have hs : s.span ∈ (intfStores o idx intf).map Store.span := List.mem_map_of_mem h
  rw [intfStores_span] at hs
  simp only [Store.span, List.mem_cons, Prod.mk.injEq, List.not_mem_nil, or_false] at hs
  simp only [Store.stop, intfs_eq] at *
  omega

theorem intfStores_pairwise (o : Order) (idx : Nat) (intf : Interface) :
    (intfStores o idx intf).Pairwise Store.Disjoint := by
  rw [Store.pairwise_disjoint_iff, intfStores_span]
  simp only [List.pairwise_cons, List.mem_cons, List.not_mem_nil, or_false, forall_eq_or_imp,
    forall_eq, List.Pairwise.nil, and_true, IsEmpty.forall_iff, implies_true]
  omega

theorem mem_intfLoop {o : Order} {s : Store} : ∀ {idx : Nat} {l : List Interface},
    s ∈ intfLoop o idx l ↔ ∃ k intf, l[k]? = some intf ∧ s ∈ intfStores o (idx + k) intf
  | idx, [] => by simp [intfLoop]
  | idx, x :: l => by
    rw [intfLoop, List.mem_append, mem_intfLoop]
    constructor
    · rintro (h | ⟨k, intf, hk, h⟩)
      · exact ⟨0, x, rfl, h⟩
      · exact ⟨k + 1, intf, hk, by rwa [Nat.add_assoc, Nat.add_comm 1] at h⟩
    · rintro ⟨k, intf, hk, h⟩
      cases k with
      | zero =>
        obtain rfl : x = intf := by simpa using hk
        exact .inl h
      | succ k => exact .inr ⟨k, intf, hk, by rwa [Nat.add_assoc, Nat.add_comm 1]⟩

theorem bounds_of_mem_intfLoop {o : Order} {idx : Nat} {l : List Interface} {s : Store}
    (h : s ∈ intfLoop o idx l) : intfs idx ≤ s.off ∧ s.stop ≤ intfs (idx + l.length) := by
  obtain ⟨k, intf, hk, hs⟩ := mem_intfLoop.1 h
  have hb := bounds_of_mem_intfStores hs
  have hl := (List.getElem?_eq_some_iff.1 hk).1
  simp only [intfs_eq] at *
  omega

theorem intfLoop_pairwise (o : Order) : ∀ (idx : Nat) (l : List Interface),
    (intfLoop o idx l).Pairwise Store.Disjoint
  | _, [] => List.Pairwise.nil
  | idx, x :: l => by
    refine List.pairwise_append.2 ⟨intfStores_pairwise o idx x, intfLoop_pairwise o (idx + 1) l,
      fun s hs t ht => .inl ?_⟩
    exact (bounds_of_mem_intfStores hs).2.trans (bounds_of_mem_intfLoop ht).1

/-- **After the `memset` no byte is written twice.** -/
theorem registration_pairwise (o : Order) (p : Protocol) (d : DiscoveryThread) :
    (fieldStores o p d ++ intfLoop o 0 d.usableIntfList).Pairwise Store.Disjoint :=
  List.pairwise_append.2 ⟨fieldStores_pairwise o p d, intfLoop_pairwise o 0 _,
    fun _ hs _ ht => .inl ((stop_le_of_mem_fieldStores hs).trans (bounds_of_mem_intfLoop ht).1)⟩

/-! ## What the packet holds -/

/-- **A field holds what was stored in it.** -/
theorem read_of_mem {o : Order} {p : Protocol} {d : DiscoveryThread} {s : Store}
    (h : s ∈ fieldStores o p d ++ intfLoop o 0 d.usableIntfList) (m : Mem) :
    readBytes (exec m (registrationStores o p d)) s.off s.bytes.length = s.bytes := by
  rw [registrationStores, exec_cons]
  exact read_exec_of_mem _ (registration_pairwise o p d) h

/-- **A byte of the packet without a store** is zero. -/
theorem read_zero {o : Order} {p : Protocol} {d : DiscoveryThread} {off n : Nat}
    (h : ∀ a, off ≤ a → a < off + n →
      ∀ s ∈ fieldStores o p d ++ intfLoop o 0 d.usableIntfList, ¬ s.Covers a)
    (hn : off + n ≤ d.packetLength.toNat) (m : Mem) :
    readBytes (exec m (registrationStores o p d)) off n = List.replicate n 0 := by
  rw [registrationStores, exec_cons, read_exec_of_not_covers _ h]
  apply List.ext_getElem (by simp)
  intro i h1 h2
  have hi : i < n := by simpa using h2
  have hc : (⟨0, List.replicate d.packetLength.toNat 0⟩ : Store).Covers (off + i) := by
    simp only [Store.Covers, Store.stop, List.length_replicate]
    omega
  rw [List.getElem_replicate]
  simp only [readBytes, List.getElem_map, List.getElem_range, Store.apply_covers hc]
  rw [List.getD_eq_getElem?_getD, List.getElem?_replicate]
  split <;> rfl

theorem packet_prepareRegistrationPacket (o : Order) (p : Protocol) (d : DiscoveryThread) :
    (prepareRegistrationPacket o p d).2.packet =
      exec d.packet (registrationStores o p.getNextSequence d) := by
  simp only [prepareRegistrationPacket]

theorem headerLength_eq (o : Order) (p : Protocol) (d : DiscoveryThread) :
    checkAndSwap16 o ((prepareRegistrationPacket o p d).2.headerLength o) = d.packetLength := by
  have hs : (⟨RegistrationOffset.header + HeaderOffset.length, beBytes 2 d.packetLength⟩ : Store) ∈
      fieldStores o p.getNextSequence d ++ intfLoop o 0 d.usableIntfList :=
    List.mem_append_left _ (by simp [fieldStores, prepareHeader])
  have hr := read_of_mem hs d.packet
  rw [beBytes_length] at hr
  rw [headerLength, packet_prepareRegistrationPacket, hr, checkAndSwap16_load]

/-- **What a heartbeat sends**: the packet, up to its length. -/
theorem sendHeartbeatToMcGroup_eq (o : Order) (p : Protocol) {d : DiscoveryThread}
    (h : d.usableIntfList ≠ []) :
    sendHeartbeatToMcGroup o p d =
      (p.getNextSequence, (prepareRegistrationPacket o p d).2,
        some ⟨d.mc,
          readBytes (prepareRegistrationPacket o p d).2.packet 0 d.packetLength.toNat⟩) := by
  rw [sendHeartbeatToMcGroup, if_neg h]
  set r := prepareRegistrationPacket o p d with hr
  show (r.1, r.2, some (McSend.mk r.2.mc
    (readBytes r.2.packet 0 (checkAndSwap16 o (r.2.headerLength o)).toNat))) = _
  rw [hr, headerLength_eq]
  rfl

end DiscoveryThread
