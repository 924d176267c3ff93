import Graviton.Protocol.Lifecycle
import Graviton.Protocol.Recipient
import Graviton.Service.Multicast

/-!
# The discovery thread and its socket

The operations of `DiscoveryThread` (`libs/protocol/discovery.cpp`) together with the `IpMulticast`
objects they construct and delete, whatever the system calls return. `m_mc` is overwritten when
`InitializeMcGroups` joins a group; only `ClearMcGroups` deletes the object.

* `step_effect`, `step_life`: what a step does to the sockets, and to the thread.
* `heartbeat_announces`: what a heartbeat says about the socket that it leaves through.
* `noLeak_iff`: in exactly which runs no object is left behind.
-/

open Lib Protocol

/-- The discovery thread, the sockets of the process, and the object that `m_mc` points to. -/
structure Station where
  life : Lifecycle
  net : Multicasts
  mcObject : Option Nat

/-- An operation of the discovery thread, with the address of the `IpMulticast` object it may
construct and what the system calls return; or a descriptor of the rest of the program. -/
inductive StationAct
  | discovery (a : LifecycleAct) (this : Nat) (r : Outcomes) (dropMembership : Bool)
  | openOther (fd : Int)
  | closeOther (fd : Int)

namespace Station

open DiscoveryThread

def init (p : Protocol) (d : DiscoveryThread) : Station := ⟨.init p d, .init, none⟩

/-- The port of the group, and of the socket. -/
def mcPort : BitVec 16 := Protocol.port.setWidth 16

/-- The sockets after `InitializeMcGroups`, and `m_mc`. -/
def openMc (o : Order) (found : List (Str × Address)) (this : Nat) (r : Outcomes) (s : Station) :
    Option (Multicasts × Option Nat) :=
  match (Multimap.ofList found).entries.findSome? usable with
  | none => some (s.net, s.mcObject)
  | some (name, ip) =>
    (s.net.step o (.construct this name ip mcPort mcIp mcPort r)).map fun net => (net, some this)

/-- The sockets after `delete m_mc`. -/
def deleteMc (o : Order) (dropMembership : Bool) (s : Station) : Option Multicasts :=
  match s.mcObject with
  | none => some s.net
  | some this => s.net.step o (.destroy this dropMembership)

def step (o : Order) (s : Station) : StationAct → Option Station
  | .discovery (.initializeThread driveList found garbage) this r _ =>
    (s.openMc o found this r).map fun (net, mcObject) =>
      ⟨s.life.initializeThread driveList found garbage, net, mcObject⟩
  | .discovery .stop _ _ dropMembership =>
    (s.deleteMc o dropMembership).map fun net => ⟨s.life.stop, net, none⟩
  | .discovery .start _ _ _ => (s.life.step o .start).map fun life => { s with life }
  | .discovery (.tick publicIp) _ _ _ =>
    (s.life.step o (.tick publicIp)).map fun life => { s with life }
  | .openOther fd => (s.net.step o (.openOther fd)).map fun net => { s with net }
  | .closeOther fd => (s.net.step o (.closeOther fd)).map fun net => { s with net }

/-- An object that was constructed from what `m` says. -/
structure Matches (handler : MulticastHandler) (m : IpMulticast) : Prop where
  device : handler.device = m.device
  address : handler.address = m.address
  port : handler.port = m.port
  mcGroup : handler.mcGroup = m.mcGroup
  mcPort : handler.mcPort = m.mcPort

/-! ## The thread alone -/

/-- The list has an interface of the address that the group was joined at, or none. -/
structure OneInterface (s : Lifecycle) : Prop where
  list : s.ticker.thread.usableIntfList = [] ∨
    ∃ garbage ip, s.ticker.thread.usableIntfList = [localIntf garbage ip] ∧
      ∀ m, s.ticker.thread.mc = some m → m.address = ip
  nodeId : s.ticker.thread.usableIntfList ≠ [] → s.ticker.protocol.nodeId = 1

/-- `Initialize`, when no interface can be used: the list is empty, and `m_mc` as before. -/
theorem initializeThread_none {found : List (Str × Address)}
    (h : (Multimap.ofList found).entries.findSome? usable = none) (driveList : List Str)
    (garbage : Interface) (s : Lifecycle) :
    (s.initializeThread driveList found garbage).ticker.thread.usableIntfList = [] ∧
      (s.initializeThread driveList found garbage).ticker.thread.mc = s.ticker.thread.mc := by
  simp only [Lifecycle.initializeThread, initializeMcGroups, h]
  exact ⟨rfl, rfl⟩

/-- `Initialize`, when one can be. -/
theorem initializeThread_some {found : List (Str × Address)} {name : Str} {ip : Ip}
    (h : (Multimap.ofList found).entries.findSome? usable = some (name, ip))
    (driveList : List Str) (garbage : Interface) (s : Lifecycle) :
    (s.initializeThread driveList found garbage).ticker.thread.usableIntfList =
        [localIntf garbage ip] ∧
      (s.initializeThread driveList found garbage).ticker.thread.mc =
        some ⟨name, ip, mcPort, mcIp, mcPort⟩ ∧
      (s.initializeThread driveList found garbage).ticker.protocol.nodeId = 1 := by
  simp only [Lifecycle.initializeThread, initializeMcGroups, h]
  exact ⟨rfl, rfl, rfl⟩

theorem nodeId_tick (o : Order) (publicIp : Option Ip) (s : Lifecycle) :
    (s.tick o publicIp).ticker.protocol.nodeId = s.ticker.protocol.nodeId := by
  have hk : Ticker.Keeps s.ticker.protocol s.ticker.thread s.ticker.thread.publicIp s.ticker :=
    ⟨rfl, rfl⟩
  have hp := (hk.secondTick o publicIp).protocol
  show (s.ticker.processSecondTick o publicIp).1.protocol.nodeId = _
  rw [hp]

theorem oneInterface_step {o : Order} {s s' : Lifecycle} {a : LifecycleAct} (hi : OneInterface s)
    (h : s.step o a = some s') : OneInterface s' := by
  obtain ⟨driveList, found, garbage, -, rfl⟩ | ⟨-, rfl⟩ | ⟨publicIp, -, -, rfl⟩ | ⟨-, rfl⟩ :=
    Lifecycle.step_cases h
  · cases hf : (Multimap.ofList found).entries.findSome? usable with
    | none =>
      obtain ⟨hlist, -⟩ := initializeThread_none hf driveList garbage s
      exact ⟨.inl hlist, fun hne => absurd hlist hne⟩
    | some e =>
      obtain ⟨name, ip⟩ := e
      obtain ⟨hlist, hmc, hnode⟩ := initializeThread_some hf driveList garbage s
      refine ⟨.inr ⟨garbage, ip, hlist, fun m hm => ?_⟩, fun _ => hnode⟩
      rw [hmc] at hm
      cases hm
      rfl
  · exact ⟨hi.list, hi.nodeId⟩
  · obtain ⟨hlist, hmc⟩ := Lifecycle.thread_tick o publicIp s
    constructor
    · rw [hlist, hmc]
      exact hi.list
    · rw [hlist, nodeId_tick]
      exact hi.nodeId
  · -- the list stays, and there is no group any more
    refine ⟨hi.list.imp_right ?_, hi.nodeId⟩
    rintro ⟨garbage, ip, hlist, -⟩
    exact ⟨garbage, ip, hlist, nofun⟩

theorem oneInterface_init (p : Protocol) (d : DiscoveryThread) :
    OneInterface (Lifecycle.init p d) :=
  ⟨.inl rfl, fun h => absurd rfl h⟩

/-! ## What each step does -/

/-- The group the thread sends to. -/
def mc (s : Station) : Option IpMulticast := s.life.ticker.thread.mc

/-- A step that joins a group. -/
def Joins : StationAct → Prop
  | .discovery (.initializeThread _ found _) _ _ _ =>
    (Multimap.ofList found).entries.findSome? usable ≠ none
  | _ => False

/-- What a step does to the sockets, to `m_mc` and to the group. -/
inductive Effect (o : Order) (s s' : Station) (a : StationAct) : Prop
  | keep : ¬Joins a → s'.net = s.net → s'.mcObject = s.mcObject → s'.mc = s.mc → Effect o s s' a
  | join {this : Nat} {name : Str} {ip : Ip} {r : Outcomes} : Joins a →
      s.net.step o (.construct this name ip mcPort mcIp mcPort r) = some s'.net →
      s'.mcObject = some this →
      s'.mc = some ⟨name, ip, mcPort, mcIp, mcPort⟩ → Effect o s s' a
  | clear : ¬Joins a → s.mcObject = none → s'.net = s.net → s'.mcObject = none → s'.mc = none →
      Effect o s s' a
  | delete {this : Nat} {dropMembership : Bool} : ¬Joins a → s.mcObject = some this →
      s.net.step o (.destroy this dropMembership) = some s'.net →
      s'.mcObject = none → s'.mc = none → Effect o s s' a
  | rest {b : MulticastAct} : ¬Joins a → s.net.step o b = some s'.net → s'.net.live = s.net.live →
      s'.mcObject = s.mcObject → s'.mc = s.mc → Effect o s s' a

theorem live_of_other {o : Order} {net net' : Multicasts} {fd : Int}
    (h : net.step o (.openOther fd) = some net' ∨ net.step o (.closeOther fd) = some net') :
    net'.live = net.live := by
  rcases h with h | h
  · obtain ⟨-, h⟩ := Option.ite_none_right_eq_some.1 h
    cases h
    rfl
  · obtain ⟨-, h⟩ := Option.ite_none_right_eq_some.1 h
    cases h
    rfl

/-- **What a step can do.** -/
theorem step_effect {o : Order} {s s' : Station} {a : StationAct} (h : s.step o a = some s') :
    Effect o s s' a := by
  cases a with
  | discovery a this r dropMembership =>
    cases a with
    | initializeThread driveList found garbage =>
      obtain ⟨⟨net, mcObject⟩, hopen, rfl⟩ := Option.map_eq_some_iff.1 h
      rw [openMc] at hopen
      cases hf : (Multimap.ofList found).entries.findSome? usable with
      | none =>
        rw [hf] at hopen
        cases hopen
        exact .keep (fun hj => hj hf) rfl rfl (initializeThread_none hf driveList garbage s.life).2
      | some e =>
        rw [hf] at hopen
        obtain ⟨net', hnet, he⟩ := Option.map_eq_some_iff.1 hopen
        cases he
        exact .join (by rw [Joins, hf]; nofun) hnet rfl
          (initializeThread_some hf driveList garbage s.life).2.1
    | start =>
      cases h
      exact .keep id rfl rfl rfl
    | tick publicIp =>
      obtain ⟨life, hlife, rfl⟩ := Option.map_eq_some_iff.1 h
      obtain ⟨-, hlife⟩ := Option.ite_none_right_eq_some.1 hlife
      cases hlife
      exact .keep id rfl rfl (Lifecycle.thread_tick o publicIp s.life).2
    | stop =>
      obtain ⟨net, hdelete, rfl⟩ := Option.map_eq_some_iff.1 h
      rw [deleteMc] at hdelete
      cases hmc : s.mcObject with
      | none =>
        rw [hmc] at hdelete
        cases hdelete
        exact .clear id hmc rfl rfl rfl
      | some that =>
        rw [hmc] at hdelete
        exact .delete id hmc hdelete rfl rfl
  | openOther fd =>
    obtain ⟨net, hnet, rfl⟩ := Option.map_eq_some_iff.1 h
    exact .rest id hnet (live_of_other (.inl hnet)) rfl rfl
  | closeOther fd =>
    obtain ⟨net, hnet, rfl⟩ := Option.map_eq_some_iff.1 h
    exact .rest id hnet (live_of_other (.inr hnet)) rfl rfl

/-- **The thread**: it takes the same steps as alone. -/
theorem step_life {o : Order} {s s' : Station} {a : StationAct} (h : s.step o a = some s') :
    s'.life = s.life ∨ ∃ b this r dropMembership, a = .discovery b this r dropMembership ∧
      s.life.step o b = some s'.life := by
  cases a with
  | discovery a this r dropMembership =>
    refine .inr ⟨a, this, r, dropMembership, rfl, ?_⟩
    cases a with
    | initializeThread driveList found garbage =>
      obtain ⟨x, -, rfl⟩ := Option.map_eq_some_iff.1 h
      rfl
    | start =>
      cases h
      rfl
    | tick publicIp =>
      obtain ⟨life, hlife, rfl⟩ := Option.map_eq_some_iff.1 h
      exact hlife
    | stop =>
      obtain ⟨net, -, rfl⟩ := Option.map_eq_some_iff.1 h
      rfl
  | openOther fd =>
    obtain ⟨net, -, rfl⟩ := Option.map_eq_some_iff.1 h
    exact .inl rfl
  | closeOther fd =>
    obtain ⟨net, -, rfl⟩ := Option.map_eq_some_iff.1 h
    exact .inl rfl

/-! ## The invariant -/

/-- The object that `m_mc` points to is live, and was constructed as the thread says. -/
structure Inv (o : Order) (s : Station) : Prop where
  net : s.net.Inv o
  life : OneInterface s.life
  null : s.mcObject = none → s.mc = none
  object : ∀ this, s.mcObject = some this → ∃ handler m, s.net.live.lookup this = some handler ∧
    s.mc = some m ∧ Matches handler m

theorem inv_init (o : Order) (p : Protocol) (d : DiscoveryThread) : Inv o (init p d) :=
  ⟨Multicasts.inv_init o, oneInterface_init p d, fun _ => rfl, nofun⟩

variable {o : Order} {s s' : Station}

/-- After a construction the object is live, beside the others. -/
theorem live_construct {net net' : Multicasts} {this : Nat} {name : Str} {ip : Ip} {r : Outcomes}
    (h : net.step o (.construct this name ip mcPort mcIp mcPort r) = some net') :
    ∃ handler, net.live.lookup this = none ∧ net'.live = net.live.insert this handler ∧
      Matches handler ⟨name, ip, mcPort, mcIp, mcPort⟩ := by
  obtain ⟨⟨hlive, -⟩, h⟩ := Option.ite_none_right_eq_some.1 h
  cases h
  exact ⟨_, hlive, rfl, rfl, rfl, rfl, rfl, rfl⟩

theorem inv_step (hi : Inv o s) {a : StationAct} (h : s.step o a = some s') : Inv o s' := by
  have hlife : OneInterface s'.life := by
    rcases step_life h with hlife | ⟨b, _, _, _, -, hlife⟩
    · rw [hlife]
      exact hi.life
    · exact oneInterface_step hi.life hlife
  rcases step_effect h with ⟨-, hnet, hobj, hmc⟩ | ⟨-, hnet, hobj, hmc⟩ |
    ⟨-, -, hnet, hobj, hmc⟩ | ⟨-, -, hnet, hobj, hmc⟩ | ⟨-, hnet, hlive, hobj, hmc⟩
  · refine ⟨hnet ▸ hi.net, hlife, ?_, ?_⟩
    · rw [hobj, hmc]
      exact hi.null
    · rw [hobj, hmc, hnet]
      exact hi.object
  · obtain ⟨handler, -, hlive, hmatches⟩ := live_construct hnet
    refine ⟨Multicasts.inv_step hi.net hnet, hlife, fun hn => ?_, fun that ht => ?_⟩
    · rw [hobj] at hn
      cases hn
    · obtain rfl := Option.some.inj (hobj.symm.trans ht)
      exact ⟨handler, _, by rw [hlive]; exact AList.lookup_insert _, hmc, hmatches⟩
  · exact ⟨hnet ▸ hi.net, hlife, fun _ => hmc, fun that ht => by rw [hobj] at ht; cases ht⟩
  · exact ⟨Multicasts.inv_step hi.net hnet, hlife, fun _ => hmc,
      fun that ht => by rw [hobj] at ht; cases ht⟩
  · refine ⟨Multicasts.inv_step hi.net hnet, hlife, ?_, ?_⟩
    · rw [hobj, hmc]
      exact hi.null
    · rw [hobj, hmc, hlive]
      exact hi.object

theorem inv_run {p : Protocol} {d : DiscoveryThread} {as : List StationAct}
    (h : Run (step o) anyStep (init p d) as s) : Inv o s :=
  h.inv (fun _ _ _ hi _ hs => inv_step hi hs) (inv_init o p d)

/-! ## What leaves through the socket -/

/-- A packet with the one address of the object. -/
structure Announces (handler : MulticastHandler) (r : Registration) : Prop where
  length : r.length = 68
  nodeId : r.nodeId = 1
  totalInterfaces : r.totalInterfaces = 1
  interfaces : ∃ x, r.interfaces = [x] ∧ x.type = InterfaceType.ipv4 ∧
    x.address.take 4 = handler.address.toArray

/-- **What a heartbeat announces**: in every run, one that is sent to a group goes through a live
object, whose socket is bound and joined at the address in the packet, if it could be opened. -/
theorem heartbeat_announces {p : Protocol} {d : DiscoveryThread} {as : List StationAct}
    (h : Run (step o) anyStep (init p d) as s) {publicIp : Option Ip} {send : McSend}
    {m : IpMulticast} (hsend : (s.life.ticker.processSecondTick o publicIp).2 = some send)
    (hm : send.mc = some m) :
    ∃ this handler, s.mcObject = some this ∧ s.net.live.lookup this = some handler ∧
      Matches handler m ∧
      (handler.sockFd = -1 ∨ ∃ x, s.net.descriptors.lookup handler.sockFd = some (.socket x) ∧
        handler.Ready o x) ∧
      send.bytes.length = 68 ∧
      ∀ packet, Announces handler (readRegistration (received packet send.bytes)) := by
  have hi := inv_run h
  rw [Ticker.processSecondTick_send] at hsend
  split at hsend
  · have hne : s.life.ticker.thread.usableIntfList ≠ [] := by
      intro hnil
      rw [sendHeartbeatToMcGroup, if_pos hnil] at hsend
      cases hsend
    obtain ⟨garbage, ip, hlist, hip⟩ := hi.life.list.resolve_left hne
    have hlen : s.life.ticker.thread.usableIntfList.length = 1 := by rw [hlist]; rfl
    obtain ⟨hmc, hbytes, hread⟩ := sent_registration (by rw [hlen]; decide) hsend
    have hmc : s.mc = some m := hmc.symm.trans hm
    cases hobj : s.mcObject with
    | none =>
      rw [hi.null hobj] at hmc
      cases hmc
    | some this =>
      obtain ⟨handler, m', hlive, hm', hmatches⟩ := hi.object this hobj
      obtain rfl : m' = m := Option.some.inj (hm'.symm.trans hmc)
      refine ⟨this, handler, rfl, hlive, hmatches, hi.net.socket_of_live hlive, ?_, fun packet => ?_⟩
      · rw [hbytes, hlen]
      · rw [hread]
        refine ⟨by rw [registration, hlen], hi.life.nodeId hne, hlen,
          (localIntf garbage ip).onWire, by rw [registration, hlist]; rfl, rfl, ?_⟩
        rw [hmatches.address, hip m' hmc]
        rfl
  · cases hsend

/-- `Initialize` on a host with one active interface at 10.0.0.1; the new socket is descriptor 4. -/
def initializeOne (this : Nat) : StationAct :=
  .discovery Lifecycle.initializeOne this (Multicasts.allSucceed 4) true

def initSample : Station := init Protocol.new (withInterfaces [])

def operation (a : LifecycleAct) : StationAct :=
  .discovery a 0 (Multicasts.allSucceed (-1)) true

theorem heartbeat_announces_first :
    ∃ s send m, Run (step .little) anyStep initSample [initializeOne 0, operation .start] s ∧
      (s.life.ticker.processSecondTick .little none).2 = some send ∧ send.mc = some m ∧
      ∃ this handler, s.mcObject = some this ∧ s.net.live.lookup this = some handler ∧
        Matches handler m ∧
        (handler.sockFd = -1 ∨ ∃ x, s.net.descriptors.lookup handler.sockFd = some (.socket x) ∧
          handler.Ready .little x) ∧
        send.bytes.length = 68 ∧
        ∀ packet, Announces handler (readRegistration (received packet send.bytes)) := by
  have hrun : ∃ s send m, Run (step .little) anyStep initSample
      [initializeOne 0, operation .start] s ∧
      (s.life.ticker.processSecondTick .little none).2 = some send ∧ send.mc = some m :=
    ⟨_, _, _, .cons trivial rfl (.cons trivial rfl (.nil _)), rfl, rfl⟩
  obtain ⟨s, send, m, hr, hsend, hm⟩ := hrun
  exact ⟨s, send, m, hr, hsend, hm, heartbeat_announces hr hsend hm⟩

/-! ## Objects that are left behind -/

/-- Every `IpMulticast` object that is live is the one `m_mc` points to. -/
def NoLeak (s : Station) : Prop :=
  ∀ this handler, s.net.live.lookup this = some handler → s.mcObject = some this

/-- A group is joined only when `m_mc` is null. -/
def JoinsOnce (s : Station) (a : StationAct) : Prop := Joins a → s.mcObject = none

theorem noLeak_step_iff (hi : Inv o s) (hs : NoLeak s) {a : StationAct}
    (h : s.step o a = some s') : NoLeak s' ↔ JoinsOnce s a := by
  have hsame : ¬Joins a → NoLeak s' → (NoLeak s' ↔ JoinsOnce s a) := fun hj hn =>
    iff_of_true hn fun hj' => absurd hj' hj
  rcases step_effect h with ⟨hj, hnet, hobj, -⟩ | ⟨hj, hnet, hobj, -⟩ |
    ⟨hj, hnone, hnet, -, -⟩ | ⟨hj, hthis, hnet, -, -⟩ | ⟨hj, -, hlive, hobj, -⟩
  · refine hsame hj fun that handler hl => ?_
    rw [hobj]
    exact hs that handler (hnet ▸ hl)
  · obtain ⟨handler, hfree, hlive, -⟩ := live_construct hnet
    constructor
    · -- an object that was live before is no longer pointed to
      intro hn _
      by_contra hne
      obtain ⟨that, hthat⟩ := Option.ne_none_iff_exists'.1 hne
      obtain ⟨old, -, hold, -⟩ := hi.object that hthat
      have hdiff : that ≠ _ := fun he => by rw [he, hfree] at hold; cases hold
      have hpoint := hn that old (by rw [hlive, AList.lookup_insert_ne hdiff]; exact hold)
      exact hdiff (Option.some.inj (hpoint.symm.trans hobj))
    · intro hok that handler' hl
      rw [hlive] at hl
      rcases Multicasts.of_lookup_insert hl with ⟨rfl, -⟩ | ⟨-, hl⟩
      · exact hobj
      · have hpoint := hs that handler' hl
        rw [hok hj] at hpoint
        cases hpoint
  · refine hsame hj fun that handler hl => ?_
    rw [hs that handler (hnet ▸ hl)] at hnone
    cases hnone
  · refine hsame hj fun that handler hl => ?_
    obtain ⟨_, -, he⟩ := Option.map_eq_some_iff.1 hnet
    rw [← he] at hl
    obtain ⟨hne, hl⟩ := Multicasts.of_lookup_erase hl
    exact absurd (Option.some.inj ((hs that handler hl).symm.trans hthis)) hne
  · refine hsame hj fun that handler hl => ?_
    rw [hobj]
    exact hs that handler (hlive ▸ hl)

/-- **When no object is left behind**: in exactly the runs in which an `Initialize` that finds a
usable interface comes only after the group before it was cleared. -/
theorem noLeak_iff {p : Protocol} {d : DiscoveryThread} {as : List StationAct}
    (h : Run (step o) anyStep (init p d) as s) :
    Always (step o) NoLeak (init p d) as ↔ Run (step o) JoinsOnce (init p d) as s :=
  h.always_iff (fun _ _ _ hi hs => inv_step hi hs) (fun _ _ _ hi hn hs => noLeak_step_iff hi hn hs)
    (inv_init o p d) (fun _ _ h => nomatch h)

/-- A thread that is stopped before it is initialized again. -/
def stoppedRun : List StationAct := [initializeOne 0, operation .stop, initializeOne 1]

theorem noLeak_iff_stopped : ∃ s, Run (step .little) anyStep initSample stoppedRun s ∧
    (Always (step .little) NoLeak initSample stoppedRun ↔
      Run (step .little) JoinsOnce initSample stoppedRun s) := by
  have hrun : ∃ s, Run (step .little) anyStep initSample stoppedRun s :=
    ⟨_, .cons trivial rfl (.cons trivial rfl (.cons trivial rfl (.nil _)))⟩
  obtain ⟨s, hr⟩ := hrun
  exact ⟨s, hr, noLeak_iff hr⟩

end Station
