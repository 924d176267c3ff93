import Graviton.Base.IpClass
import Graviton.Protocol.Heartbeat

/-!
# Which interface joins the multicast group

`EnumerateInterfaces` and then `InitializeMcGroups`, on the list that `getifaddrs` returns. The map
between them is ordered by name, and the loop over it stops at the first usable address.

* `joinable_iff`: which entries of the list can be used.
* `initializeMcGroups_joins`: the one that is.
-/

open Lib Protocol EthHandler

namespace DiscoveryThread

/-- An address of one of the private networks. -/
def IsPrivate (ip : Ip) : Prop :=
  Ip.InBlock ip.toArray [10, 0, 0, 0] 8 ∨ Ip.InBlock ip.toArray [172, 16, 0, 0] 12 ∨
    Ip.InBlock ip.toArray [192, 168, 0, 0] 16

/-- An interface that is up, running and able to multicast. -/
def IsUp (flags : BitVec 32) : Prop :=
  flags &&& (Ip.iffUp ||| Ip.iffRunning ||| Ip.iffMulticast) =
    Ip.iffUp ||| Ip.iffRunning ||| Ip.iffMulticast

/-- An IPv4 address with a printable name, of a private network, at an interface that is up. -/
structure Joinable (ifa : Ifaddrs) (ip : Ip) : Prop where
  inet : ∃ addr, ifa.ifaAddr = some addr ∧ addr.saFamily = afInet ∧ ifa.host.isSome ∧
    ip = Ip.ofOctets addr.sinAddr ifa.ifaFlags
  isPrivate : IsPrivate ip
  isUp : IsUp ip.flags

/-- The test of the classes says that the address is private. -/
theorem class_iff (ip : Ip) :
    (Ip.findIpAddressType ip.u8 = .classA ∨ Ip.findIpAddressType ip.u8 = .classB ∨
      Ip.findIpAddressType ip.u8 = .classC) ↔ IsPrivate ip := by
  rw [Ip.findIpAddressType, IsPrivate, Ip.inBlock_eight_iff, Ip.inBlock_classB_iff,
    Ip.inBlock_sixteen_iff]
  generalize ip.u8.get 0 = a
  generalize ip.u8.get 1 = b
  -- no two of the networks share a first octet
  split_ifs with h127 h169 h224 h10 h172 h192
  · subst h127
    simp
  · rw [h169.1]
    simp
  · rw [h224.1]
    simp
  · exact iff_of_true (.inl rfl) (.inl h10)
  · exact iff_of_true (.inr (.inl rfl)) (.inr (.inl h172))
  · exact iff_of_true (.inr (.inr rfl)) (.inr (.inr h192))
  · refine iff_of_false (by simp) ?_
    rintro (h | h | h)
    · exact h10 h
    · exact h172 h
    · exact h192 h

theorem usable_ofOctets (name : Str) (u8 : Vector Byte 4) (flags : BitVec 32) (r : Str × Ip) :
    usable (name, .ipv4 (Ip.ofOctets u8 flags)) = some r ↔
      IsPrivate (Ip.ofOctets u8 flags) ∧ IsUp flags ∧ r = (name, Ip.ofOctets u8 flags) := by
  have hclass := class_iff (Ip.ofOctets u8 flags)
  have hup : (Ip.ofOctets u8 flags).isActive = true ↔ IsUp flags := decide_eq_true_iff
  rw [usable, Option.ite_none_right_eq_some, hup, and_assoc, eq_comm (a := r)]
  exact and_congr hclass (and_congr_right fun _ => Option.some_inj)

/-- **Which entries can be used.** -/
theorem joinable_iff (ifa : Ifaddrs) (name : Str) (ip : Ip) :
    (entry ifa).bind usable = some (name, ip) ↔ ifa.ifaName = name ∧ Joinable ifa ip := by
  rw [entry]
  constructor
  · intro h
    obtain ⟨⟨name', address⟩, he, hu⟩ := Option.bind_eq_some_iff.1 h
    obtain ⟨addr, haddr, he⟩ := Option.bind_eq_some_iff.1 he
    by_cases h4 : addr.saFamily = afInet
    · rw [if_pos h4] at he
      obtain ⟨host, hhost, he⟩ := Option.map_eq_some_iff.1 he
      cases he
      obtain ⟨hprivate, hup, heq⟩ := (usable_ofOctets _ _ _ _).1 hu
      cases heq
      exact ⟨rfl, ⟨addr, haddr, h4, by rw [hhost]; rfl, rfl⟩, hprivate, hup⟩
    · rw [if_neg h4] at he
      split at he
      · obtain ⟨host, -, he⟩ := Option.map_eq_some_iff.1 he
        cases he
        cases hu
      · split at he
        · cases he
          cases hu
        · cases he
  · rintro ⟨rfl, ⟨addr, haddr, h4, hhost, rfl⟩, hprivate, hup⟩
    obtain ⟨host, hhost⟩ := Option.isSome_iff_exists.1 hhost
    rw [haddr, Option.bind_some, if_pos h4, hhost]
    exact (usable_ofOctets _ _ _ _).2 ⟨hprivate, hup, rfl⟩

theorem entry_fst {ifa : Ifaddrs} {e : Str × Address} (h : entry ifa = some e) :
    e.1 = ifa.ifaName := by
  obtain ⟨addr, -, h⟩ := Option.bind_eq_some_iff.1 h
  split at h
  · obtain ⟨_, -, rfl⟩ := Option.map_eq_some_iff.1 h
    rfl
  · split at h
    · obtain ⟨_, -, rfl⟩ := Option.map_eq_some_iff.1 h
      rfl
    · split at h
      · cases h
        rfl
      · cases h

/-- The thread after `name` with the address `ip` joined, and the protocol, with its node id. -/
def JoinedAt (garbage : Interface) (p : Protocol) (d : DiscoveryThread) (name : Str) (ip : Ip)
    (r : Protocol × DiscoveryThread) : Prop :=
  r.1 = p.setNodeId 1 ∧
    r.2 = { d with
      ipIntfMap := r.2.ipIntfMap
      usableIntfList := d.usableIntfList ++ [localIntf garbage ip]
      mc := some ⟨name, ip, 19007, mcIp, 19007⟩ }

/-- **Which interface joins**: of the interfaces that can be used, one with the least name, and of
its addresses the first in the list; if there is none, nothing is joined. -/
theorem initializeMcGroups_joins {ifaddr : List Ifaddrs} (hpresent : ∀ ifa ∈ ifaddr, Present ifa)
    (interfaceMap : IpMap) (garbage : Interface) (p : Protocol) (d : DiscoveryThread) :
    ∃ found, enumerateInterfaces interfaceMap (some ifaddr) = .ok (0, found) ∧
      ((∀ ifa ∈ ifaddr, ∀ ip, ¬ Joinable ifa ip) ∧
          initializeMcGroups found garbage p d = (p.setNodeId 1, { d with ipIntfMap := found }) ∨
        ∃ before ifa after ip, ifaddr = before ++ ifa :: after ∧ Joinable ifa ip ∧
          (∀ x ∈ before, (∃ ip', Joinable x ip') → ifa.ifaName < x.ifaName) ∧
          (∀ x ∈ after, (∃ ip', Joinable x ip') → ifa.ifaName ≤ x.ifaName) ∧
          JoinedAt garbage p d ifa.ifaName ip (initializeMcGroups found garbage p d)) := by
  refine ⟨_, enumerateInterfaces_of_present hpresent interfaceMap, ?_⟩
  have hjoin : ∀ {ifa e r}, entry ifa = some e → usable e = some r →
      ifa.ifaName = r.1 ∧ Joinable ifa r.2 := fun {ifa e r} he hr =>
    (joinable_iff ifa r.1 r.2).1 (by rw [he]; exact hr)
  have hstored : ∀ {ifa ip}, Joinable ifa ip →
      ∃ e, entry ifa = some e ∧ e.1 = ifa.ifaName ∧ usable e ≠ none := by
    intro ifa ip hj
    obtain ⟨e, he, hu⟩ := Option.bind_eq_some_iff.1 ((joinable_iff ifa ifa.ifaName ip).2 ⟨rfl, hj⟩)
    exact ⟨e, he, entry_fst he, by rw [hu]; nofun⟩
  rcases Multimap.findSome?_ofList usable (ifaddr.filterMap entry) with
    ⟨hnone, hall⟩ | ⟨l1, e, l2, ⟨name, ip⟩, hsome, hl, he, h1, h2⟩
  · refine .inl ⟨fun ifa hm ip hj => ?_, by simp only [initializeMcGroups, hnone]⟩
    obtain ⟨e, he, -, hu⟩ := hstored hj
    exact hu (hall e (List.mem_filterMap.2 ⟨ifa, hm, he⟩))
  · obtain ⟨before, rest, rfl, hbefore, hrest⟩ := List.filterMap_eq_append_iff.1 hl
    obtain ⟨skipped, ifa, after, rfl, hskipped, hifa, hafter⟩ :=
      List.filterMap_eq_cons_iff.1 hrest
    obtain ⟨hname, hj⟩ := hjoin hifa he
    have hfst := entry_fst hifa
    refine .inr ⟨before ++ skipped, ifa, after, ip, by simp, hj, ?_, ?_, ?_⟩
    · rintro x hx ⟨ip', hj'⟩
      obtain ⟨e', he', hfst', hu'⟩ := hstored hj'
      rw [← hfst, ← hfst']
      rcases List.mem_append.1 hx with hx | hx
      · exact h1 e' (hbefore ▸ List.mem_filterMap.2 ⟨x, hx, he'⟩) hu'
      · rw [hskipped x hx] at he'
        cases he'
    · rintro x hx ⟨ip', hj'⟩
      obtain ⟨e', he', hfst', hu'⟩ := hstored hj'
      rw [← hfst, ← hfst']
      exact h2 e' (hafter ▸ List.mem_filterMap.2 ⟨x, hx, he'⟩) hu'
    · rw [hname]
      constructor
      · simp only [initializeMcGroups, hsome]
      · simp only [initializeMcGroups, hsome]
        rfl

/-- Three interfaces, the last of which is not running. -/
def sampleIfaddr : List Ifaddrs :=
  let up (name : Str) (flags : BitVec 32) (b : Byte) : Ifaddrs :=
    ⟨name, flags, some ⟨afInet, #v[10, 0, 0, b]⟩, some ⟨afInet, #v[255, 0, 0, 0]⟩,
      some ⟨afInet, #v[10, 255, 255, 255]⟩, false, some "host".toList⟩
  [up "eth2".toList 0x1043 2, up "eth1".toList 0x1043 1, up "eth0".toList 0x1003 0]

theorem initializeMcGroups_joins_sample :
    ∃ found, enumerateInterfaces Multimap.empty (some sampleIfaddr) = .ok (0, found) ∧
      (initializeMcGroups found (filled 0) Protocol.new (withInterfaces [])).2.mc ≠ none := by
  have hpresent : ∀ ifa ∈ sampleIfaddr, Present ifa := by
    intro ifa hm _
    simp only [sampleIfaddr, List.mem_cons, List.not_mem_nil, or_false] at hm
    rcases hm with rfl | rfl | rfl <;> exact ⟨rfl, rfl⟩
  obtain ⟨found, hfound, ⟨hnone, -⟩ | ⟨_, ifa, _, ip, -, -, -, -, hjoined⟩⟩ :=
    initializeMcGroups_joins hpresent Multimap.empty (filled 0) Protocol.new (withInterfaces [])
  · have hj := ((joinable_iff (sampleIfaddr.get ⟨1, by decide⟩) "eth1".toList
      (Ip.ofOctets #v[10, 0, 0, 1] 0x1043)).1 (by decide)).2
    exact absurd hj (hnone _ (List.get_mem _ _) _)
  · exact ⟨found, hfound, by rw [hjoined.2]; nofun⟩

end DiscoveryThread
