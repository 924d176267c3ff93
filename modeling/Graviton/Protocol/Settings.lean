import Graviton.Lib.History
import Graviton.Protocol.Recipient

/-!
# The settings a heartbeat announces

The setters of `libs/protocol/protocol.h` and `AddFeature` of `libs/protocol/discovery.h`, called
in any order between the ticks of the discovery thread. A call is one step: none comes while a
packet is prepared.

* `announcement_registration`: a recipient decodes the settings of the sender.
* `after_state`: the state of the thread after a history of calls.
* `heartbeat_announcement`: a heartbeat is sent when the ticks alone say so, and announces what
  was set last before it, and every feature that was added.
-/

open Lib MemoryUtility Protocol

namespace Protocol

/-! ## Decoding -/

def NodeType.all : List NodeType :=
  [.unknown, .ethSwitch, .ethStorage, .ethUser, .ethScb, .ibSwitch, .ibStorage, .ibUser, .ibScb,
    .nvmeStorage, .fcSwitch, .fcStorage, .fcUser, .fcScb, .backupUser, .drUser, .switchZ, .storeZ,
    .userZ]

def NodeType.ofU8 (b : BitVec 8) : Option NodeType := all.find? (·.toU8 = b)

theorem NodeType.ofU8_toU8 (t : NodeType) : ofU8 t.toU8 = some t := by cases t <;> rfl

def AppType.all : List AppType :=
  [.undefined, .centos, .ios, .android, .winPhone, .webBrowser, .thirdParty, .windows]

def AppType.ofU8 (b : BitVec 8) : Option AppType := all.find? (·.toU8 = b)

theorem AppType.ofU8_toU8 (t : AppType) : ofU8 t.toU8 = some t := by cases t <;> rfl

/-- The features a bit stands for. -/
def Feature.named : List Feature := [.backup, .dr, .encryption, .dedup]

theorem Feature.toU32_ne_zero {f : Feature} (h : f ∈ named) : f.toU32 ≠ 0 := by
  cases f <;> revert h <;> decide

theorem Feature.toU32_own : Pairwise fun f g : Feature => f.toU32 &&& g.toU32 = 0 := by
  intro f g h
  cases f <;> cases g <;> first | rfl | exact absurd rfl h

/-- Major and minor version. -/
def versionOf (appVersion : BitVec 16) : BitVec 8 × BitVec 8 :=
  ((appVersion >>> 8).setWidth 8, appVersion.setWidth 8)

theorem versionOf_setAppVersion (p : Protocol) (major minor : BitVec 8) :
    versionOf (p.setAppVersion major minor).appVersion = (major, minor) := by
  have hmajor := major.isLt
  have hminor := minor.isLt
  refine Prod.ext (BitVec.eq_of_toNat_eq ?_) (BitVec.eq_of_toNat_eq ?_) <;>
    simp [versionOf, setAppVersion, Nat.shiftLeft_eq, Nat.shiftRight_eq_div_pow] <;> omega

/-- What a registration packet says of its sender, but for the interfaces and the storage. -/
structure Announcement where
  sequence : BitVec 16
  nodeId : BitVec 16
  nodeType : Option NodeType
  appType : Option AppType
  version : BitVec 8 × BitVec 8
  features : List Feature
  publicIp : List Byte
  deriving DecidableEq

def Registration.announcement (r : Registration) : Announcement where
  sequence := r.sequence
  nodeId := r.nodeId
  nodeType := NodeType.ofU8 r.nodeType
  appType := AppType.ofU8 r.appType
  version := versionOf r.appVersion
  features := Feature.named.filter fun f => HasFlag r.featureBits f.toU32
  publicIp := r.publicIp

end Protocol

namespace Ticker

open DiscoveryThread

/-! ## Calls -/

/-- A call of a setter, or a tick with what `GetPublicIp` answers at it. -/
inductive Call
  | setNodeId (nodeId : BitVec 16)
  | setNodeType (nodeType : NodeType)
  | setAppType (appType : AppType)
  | setAppVersion (major minor : BitVec 8)
  | addFeature (feature : Feature)
  | secondTick (found : Option Ip)
  deriving DecidableEq

/-- What a call sets. -/
def configure : Protocol × DiscoveryThread → Call → Protocol × DiscoveryThread
  | (p, d), .setNodeId nodeId => (p.setNodeId nodeId, d)
  | (p, d), .setNodeType nodeType => (p.setNodeType nodeType, d)
  | (p, d), .setAppType appType => (p.setAppType appType, d)
  | (p, d), .setAppVersion major minor => (p.setAppVersion major minor, d)
  | (p, d), .addFeature feature => (p, d.addFeature feature)
  | (p, d), .secondTick _ => (p, d)

def call (o : Order) (s : Ticker) : Call → Ticker
  | .secondTick found => (s.processSecondTick o found).1
  | c =>
    let (p, d) := configure (s.protocol, s.thread) c
    { s with protocol := p, thread := d }

/-- The state after a history of calls. -/
def after (o : Order) (s : Ticker) (history : List Call) : Ticker := history.foldl (call o) s

namespace Call

def nodeId? : Call → Option (BitVec 16)
  | .setNodeId nodeId => some nodeId
  | _ => none

def nodeType? : Call → Option NodeType
  | .setNodeType nodeType => some nodeType
  | _ => none

def appType? : Call → Option AppType
  | .setAppType appType => some appType
  | _ => none

def version? : Call → Option (BitVec 8 × BitVec 8)
  | .setAppVersion major minor => some (major, minor)
  | _ => none

def answer? : Call → Option (Option Ip)
  | .secondTick found => some found
  | _ => none

theorem eq_of_answer? {c : Call} {found : Option Ip} (h : c.answer? = some found) :
    c = .secondTick found := by
  cases c with
  | secondTick => rw [Option.some.inj h]
  | _ => cases h

end Call

/-- The answers at the ticks of a history. -/
def answers (history : List Call) : List (Option Ip) := history.filterMap Call.answer?

/-- What a heartbeat is to say after a history: what was set last, every feature added, the last
public address found, and how many packets there were. -/
def announced (p : Protocol) (d : DiscoveryThread) (history : List Call) : Announcement where
  sequence := p.sequence + BitVec.ofNat 16 (preparedBefore (answers history).length) + 1
  nodeId := latest Call.nodeId? p.nodeId history
  nodeType := some (latest Call.nodeType? p.nodeType history)
  appType := some (latest Call.appType? p.appType history)
  version := latest Call.version? (versionOf p.appVersion) history
  features := Feature.named.filter fun f =>
    HasFlag d.featureBits f.toU32 ∨ Call.addFeature f ∈ history
  publicIp := (publicIpBefore d.publicIp (answers history) (answers history).length).toArray

/-! ## What was set -/

variable {p : Protocol} {d : DiscoveryThread}

/-- What a history of calls sets. -/
def configured (p : Protocol) (d : DiscoveryThread) (history : List Call) :
    Protocol × DiscoveryThread := history.foldl configure (p, d)

theorem configured_concat (history : List Call) (c : Call) :
    configured p d (history ++ [c]) = configure (configured p d history) c := by
  rw [configured, configured, List.foldl_append, List.foldl_cons, List.foldl_nil]

theorem configured_nodeId (history : List Call) :
    (configured p d history).1.nodeId = latest Call.nodeId? p.nodeId history :=
  foldl_latest (·.1.nodeId) (fun _ c => by cases c <;> rfl) (p, d) history

theorem configured_nodeType (history : List Call) :
    (configured p d history).1.nodeType = latest Call.nodeType? p.nodeType history :=
  foldl_latest (·.1.nodeType) (fun _ c => by cases c <;> rfl) (p, d) history

theorem configured_appType (history : List Call) :
    (configured p d history).1.appType = latest Call.appType? p.appType history :=
  foldl_latest (·.1.appType) (fun _ c => by cases c <;> rfl) (p, d) history

theorem configured_version (history : List Call) :
    versionOf (configured p d history).1.appVersion =
      latest Call.version? (versionOf p.appVersion) history := by
  refine foldl_latest (fun s : Protocol × DiscoveryThread => versionOf s.1.appVersion)
    (fun s c => ?_) (p, d) history
  cases c with
  | setAppVersion major minor => exact versionOf_setAppVersion s.1 major minor
  | _ => rfl

theorem configured_feature (history : List Call) {f : Feature} (hf : f ∈ Feature.named) :
    HasFlag (configured p d history).2.featureBits f.toU32 ↔
      HasFlag d.featureBits f.toU32 ∨ Call.addFeature f ∈ history := by
  have hstep : ∀ (s : Protocol × DiscoveryThread) (c : Call),
      HasFlag (configure s c).2.featureBits f.toU32 ↔
        HasFlag s.2.featureBits f.toU32 ∨ c = Call.addFeature f := by
    intro s c
    cases c with
    | addFeature g =>
      rw [Call.addFeature.injEq, eq_comm (a := g)]
      exact hasFlag_or_mask Feature.toU32_own (Feature.toU32_ne_zero hf)
    | _ => simp [configure]
  have h := foldl_gained (HasFlag ·.2.featureBits f.toU32) hstep (p, d) history
  rw [configured]
  simpa only [exists_eq_right] using h

theorem configured_usableIntfList (history : List Call) :
    (configured p d history).2.usableIntfList = d.usableIntfList := by
  induction history using List.reverseRecOn with
  | nil => rfl
  | append_singleton history c ih =>
    rw [configured_concat, ← ih]
    cases c <;> rfl

/-- **Decoding**: a recipient decodes the settings of the sender. -/
theorem announcement_registration (history : List Call) (n : BitVec 16) (ip : Ip) :
    (registration { (configured p d history).1 with sequence := n }
      { (configured p d history).2 with publicIp := ip }).announcement =
      { announced p d history with sequence := n + 1, publicIp := ip.toArray } := by
  simp only [registration, Registration.announcement, announced, Announcement.mk.injEq, true_and,
    and_true, configured_nodeId, configured_nodeType, configured_appType, configured_version,
    NodeType.ofU8_toU8, AppType.ofU8_toU8]
  refine List.filter_congr fun f hf => ?_
  simp only [decide_eq_decide]
  exact configured_feature history hf

/-! ## The state of the thread -/

theorem publicIpBefore_append (ip : Ip) (ips ips' : List (Option Ip)) :
    ∀ {n : Nat}, n ≤ ips.length → publicIpBefore ip (ips ++ ips') n = publicIpBefore ip ips n
  | 0, _ => rfl
  | n + 1, h => by
    rw [publicIpBefore, publicIpBefore, publicIpBefore_append ip ips ips' (Nat.le_of_succ_le h),
      List.getElem?_append_left h]

theorem publicIpBefore_concat (ip : Ip) (ips : List (Option Ip)) (found : Option Ip) :
    publicIpBefore ip (ips ++ [found]) (ips.length + 1) =
      if minuteTick ips.length then found.getD (publicIpBefore ip ips ips.length)
      else publicIpBefore ip ips ips.length := by
  rw [publicIpBefore, publicIpBefore_append ip ips [found] (Nat.le_refl _),
    List.getElem?_concat_length, Option.join_some]

variable {base : BitVec 16} {ip : Ip} {s : Ticker} {n : Nat}

/-- A setter leaves the cadence alone. -/
theorem At.set (h : At base s n) (o : Order) {c : Call} (hc : c.answer? = none) :
    At base (s.call o c) n := by
  cases c with
  | secondTick => cases hc
  | _ => exact ⟨h.counter, h.sequence, h.usable⟩

theorem Keeps.set (h : Keeps p d ip s) (o : Order) {c : Call} (hc : c.answer? = none) :
    Keeps (configure (p, d) c).1 (configure (p, d) c).2 ip (s.call o c) := by
  obtain ⟨hp, hd⟩ := h
  cases c with
  | secondTick => cases hc
  | addFeature f =>
    refine ⟨hp, ?_⟩
    simp only [call, configure]
    rw [hd]
    rfl
  | _ =>
    refine ⟨?_, hd⟩
    simp only [call, configure]
    rw [hp]
    rfl

/-- **The state after a history**: what was set, and what the ticks alone make of the rest. -/
theorem after_state (o : Order) (p : Protocol) (hne : d.usableIntfList ≠ [])
    (history : List Call) :
    At p.sequence (after o ⟨p, d, 0⟩ history) (answers history).length ∧
      Keeps (configured p d history).1 (configured p d history).2
        (publicIpBefore d.publicIp (answers history) (answers history).length)
        (after o ⟨p, d, 0⟩ history) := by
  induction history using List.reverseRecOn with
  | nil => exact ⟨at_zero p hne, rfl, rfl⟩
  | append_singleton history c ih =>
    obtain ⟨hat, hk⟩ := ih
    rw [after, List.foldl_append, List.foldl_cons, List.foldl_nil, ← after, configured_concat,
      answers, List.filterMap_append, ← answers]
    cases hc : c.answer? with
    | none =>
      rw [List.filterMap_cons_none hc, List.filterMap_nil, List.append_nil]
      exact ⟨hat.set o hc, hk.set o hc⟩
    | some found =>
      obtain rfl := Call.eq_of_answer? hc
      have hk' := hk.secondTick o found
      simp only [minuteTick_iff hat.counter, ← publicIpBefore_concat] at hk'
      rw [List.filterMap_cons_some hc, List.filterMap_nil, List.length_append,
        List.length_singleton]
      exact ⟨hat.next o found, hk'⟩

/-- **What the heartbeats announce**, however the calls of the setters fall between the ticks. -/
theorem heartbeat_announcement (o : Order) (p : Protocol) (hne : d.usableIntfList ≠ [])
    (h56 : d.usableIntfList.length ≤ 56) (history : List Call) (found : Option Ip) :
    let send := ((after o ⟨p, d, 0⟩ history).processSecondTick o found).2
    send.isSome = heartbeatTick (answers history).length ∧
      ∀ sent ∈ send, ∀ packet, (readRegistration (received packet sent.bytes)).announcement =
        announced p d history := by
  obtain ⟨hat, hk⟩ := after_state o p hne history
  intro send
  refine ⟨hat.isSome_send o found, fun sent hsent packet => ?_⟩
  have hsend := (processSecondTick_send o found (after o ⟨p, d, 0⟩ history)).symm.trans hsent
  split at hsend
  · have hlist : (after o ⟨p, d, 0⟩ history).thread.usableIntfList = d.usableIntfList := by
      rw [hk.thread]
      exact configured_usableIntfList history
    obtain ⟨-, -, hread⟩ := sent_registration (hlist ▸ h56) hsend
    have hproto := hk.protocol
    rw [hat.sequence] at hproto
    rw [hread, hproto, hk.thread]
    exact announcement_registration history _ _
  · cases hsend

/-- A version set twice, and two features, before the first tick. -/
theorem heartbeat_announcement_sample :
    let history := [Call.setAppVersion 1 2, .addFeature .dr, .setNodeType .storeZ,
      .addFeature .backup, .setAppVersion 1 3, .setNodeId 7]
    let send := ((after .little ⟨initialized.1, initialized.2, 0⟩
      history).processSecondTick .little none).2
    send.isSome = true ∧ ∀ sent ∈ send, ∀ packet,
      (readRegistration (received packet sent.bytes)).announcement =
        ⟨1, 7, some .storeZ, some .undefined, (1, 3), [.backup, .dr], [0, 0, 0, 0]⟩ :=
  heartbeat_announcement .little initialized.1 initialized_ne_nil (by decide) _ none

end Ticker
