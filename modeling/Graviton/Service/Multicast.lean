import Graviton.Lib.Run
import Graviton.Service.SockAddr
import Mathlib.Data.List.AList

/-!
# `IpMulticast`: the sockets

The constructors and destructors of `EthHandler` and `IpMulticast` (`libs/service/ethhandler.cpp`)
over the descriptors of the process. The outcome of every system call is an argument; a call on
something that is not an open socket fails, and `socket` returns a descriptor that is not open. The
kernel takes a socket out of its groups when it is closed, and reuses its descriptor.

* `construct_spec`, `destroy_spec`: what one object does to the descriptors.
* `owns_sockets`, `sockets_ready`: the objects and the open sockets, over any run.
-/

open Lib

/-- An open socket, with the options the constructors set. -/
structure Socket where
  nonBlocking : Bool
  reuseAddr : Bool
  hdrIncl : Bool
  bound : Option EthHandler.SockaddrIn
  multicastLoop : Bool
  multicastIf : BitVec 32
  -- the groups it is a member of, each with the address of the interface
  groups : List (BitVec 32 × BitVec 32)
  deriving DecidableEq

/-- What an open descriptor of the process is: a socket of a handler, or something else. -/
inductive Descriptor
  | socket (s : Socket)
  | other
  deriving DecidableEq

/-- The open descriptors. -/
abbrev Descriptors := AList fun _ : Int => Descriptor

/-- What the system calls of a construction return: `socket` a descriptor or -1, each of the others
success or an error. -/
structure Outcomes where
  socket : Int
  fcntl : Bool
  reuseAddr : Bool
  hdrIncl : Bool
  bind : Bool
  multicastLoop : Bool
  multicastIf : Bool
  addMembership : Bool
  deriving DecidableEq

/-- The members of an `IpMulticast` object. -/
structure MulticastHandler where
  sockFd : Int
  device : Str
  address : Ip
  port : BitVec 16
  mcGroup : Ip
  mcPort : BitVec 16
  deriving DecidableEq

namespace Socket

/-- A new socket: Linux gives it blocking mode and the multicast loop, and no group. -/
def new : Socket := ⟨false, false, false, none, true, 0, []⟩

def join (group address : BitVec 32) (s : Socket) : Socket :=
  { s with groups := (group, address) :: s.groups }

def leave (group address : BitVec 32) (s : Socket) : Socket :=
  { s with groups := s.groups.erase (group, address) }

end Socket

namespace Descriptors

/-- A call that sets something on a socket, if it succeeds. -/
def set (sockFd : Int) (ok : Bool) (f : Socket → Socket) (t : Descriptors) : Bool × Descriptors :=
  match t.lookup sockFd, ok with
  | some (.socket s), true => (true, t.insert sockFd (.socket (f s)))
  | _, _ => (false, t)

def close (sockFd : Int) (t : Descriptors) : Descriptors := t.erase sockFd

/-- `m_sockFd` after a call whose failure closes the socket. -/
def orClose (sockFd : Int) (r : Bool × Descriptors) : Int × Descriptors :=
  if r.1 then (sockFd, r.2) else (-1, close sockFd r.2)

end Descriptors

namespace EthHandler

open Descriptors

/-- `EthHandler::EthHandler`: `m_sockFd` and the descriptors. -/
def construct (o : Order) (address : Address) (port : BitVec 16) (r : Outcomes) (t : Descriptors) :
    Int × Descriptors :=
  let sockFd := r.socket
  let t := if sockFd = -1 then t else t.insert sockFd (.socket Socket.new)
  let (_, t) := set sockFd r.fcntl (fun s => { s with nonBlocking := true }) t
  let (_, t) := set sockFd r.reuseAddr (fun s => { s with reuseAddr := true }) t
  let (_, t) := set sockFd r.hdrIncl (fun s => { s with hdrIncl := true }) t
  let localAddr := addressToSockAddr o address port
  orClose sockFd (set sockFd r.bind (fun s => { s with bound := some localAddr }) t)

/-- `EthHandler::~EthHandler`. -/
def destroy (sockFd : Int) (t : Descriptors) : Descriptors :=
  if sockFd = -1 then t else close sockFd t

end EthHandler

namespace MulticastHandler

open Descriptors

/-- `IpMulticast::IpMulticast`. -/
def construct (o : Order) (device : Str) (address : Ip) (port : BitVec 16) (mcGroup : Ip)
    (mcPort : BitVec 16) (r : Outcomes) (t : Descriptors) : MulticastHandler × Descriptors :=
  let (sockFd, t) := EthHandler.construct o (.ipv4 address) port r t
  let (sockFd, t) :=
    if sockFd = -1 then (sockFd, t)
    else orClose sockFd (set sockFd r.multicastLoop (fun s => { s with multicastLoop := false }) t)
  let (_, t) :=
    if sockFd = -1 then (false, t)
    else set sockFd r.multicastIf (fun s => { s with multicastIf := address.toU32 o }) t
  let (sockFd, t) :=
    if sockFd = -1 then (sockFd, t)
    else orClose sockFd
      (set sockFd r.addMembership (Socket.join (mcGroup.toU32 o) (address.toU32 o)) t)
  (⟨sockFd, device, address, port, mcGroup, mcPort⟩, t)

/-- `IpMulticast::~IpMulticast`, and then that of `EthHandler`; `dropMembership` is the outcome of
the call. -/
def destroy (o : Order) (h : MulticastHandler) (dropMembership : Bool) (t : Descriptors) :
    Descriptors :=
  let (_, t) :=
    if h.sockFd = -1 then (false, t)
    else set h.sockFd dropMembership
      (Socket.leave (h.mcGroup.toU32 o) (h.address.toU32 o)) t
  EthHandler.destroy h.sockFd t

end MulticastHandler

/-- The sockets of the process, the live objects by address, and the descriptors that the rest of
the program has open. -/
structure Multicasts where
  descriptors : Descriptors
  live : AList fun _ : Nat => MulticastHandler
  others : List Int

/-- An `IpMulticast` object constructed at an address, or destroyed; or a descriptor that the rest
of the program opens or closes. -/
inductive MulticastAct
  | construct (this : Nat) (device : Str) (address : Ip) (port : BitVec 16) (mcGroup : Ip)
      (mcPort : BitVec 16) (r : Outcomes)
  | destroy (this : Nat) (dropMembership : Bool)
  | openOther (fd : Int)
  | closeOther (fd : Int)

/-! ## One object -/

namespace Descriptors

/-- The socket at `fd` has `P`; all else is as in `t0`. -/
structure Holds (t0 : Descriptors) (fd : Int) (P : Socket → Prop) (t : Descriptors) : Prop where
  here : ∃ s, t.lookup fd = some (.socket s) ∧ P s
  elsewhere : ∀ x, x ≠ fd → t.lookup x = t0.lookup x

/-- A constructor so far: no socket and the descriptors as they were, or a socket with `P`. -/
def Opened (t0 : Descriptors) (fd : Int) (P : Socket → Prop) (r : Int × Descriptors) : Prop :=
  (r.1 = -1 ∧ ∀ x, r.2.lookup x = t0.lookup x) ∨ (r.1 = fd ∧ fd ≠ -1 ∧ Holds t0 fd P r.2)

variable {t0 t : Descriptors} {fd : Int} {P Q : Socket → Prop} {f : Socket → Socket}

theorem set_of_none (h : t.lookup fd = none) (ok : Bool) (f : Socket → Socket) :
    set fd ok f t = (false, t) := by
  simp only [set, h]

theorem lookup_set_ne {x : Int} (hx : x ≠ fd) (ok : Bool) (f : Socket → Socket) :
    (set fd ok f t).2.lookup x = t.lookup x := by
  unfold set
  split
  · exact AList.lookup_insert_ne hx
  · rfl

theorem Holds.weaken (h : Holds t0 fd P t) (hPQ : ∀ s, P s → Q s) : Holds t0 fd Q t := by
  obtain ⟨s, hs, hp⟩ := h.here
  exact ⟨⟨s, hs, hPQ s hp⟩, h.elsewhere⟩

/-- A call on an open socket. -/
theorem Holds.set (h : Holds t0 fd P t) (ok : Bool) (hf : ∀ s, P s → Q (f s)) :
    (Descriptors.set fd ok f t).1 = ok ∧
      Holds t0 fd (fun s => if ok then Q s else P s) (Descriptors.set fd ok f t).2 := by
  obtain ⟨s, hs, hp⟩ := h.here
  cases ok with
  | false =>
    have hset : Descriptors.set fd false f t = (false, t) := by simp only [Descriptors.set, hs]
    rw [hset]
    exact ⟨rfl, ⟨s, hs, hp⟩, h.elsewhere⟩
  | true =>
    have hset : Descriptors.set fd true f t = (true, t.insert fd (.socket (f s))) := by
      simp only [Descriptors.set, hs]
    rw [hset]
    refine ⟨rfl, ⟨f s, AList.lookup_insert _, hf s hp⟩, fun x hx => ?_⟩
    rw [AList.lookup_insert_ne hx]
    exact h.elsewhere x hx

/-- A call whose failure is only reported. -/
theorem Holds.setAny (h : Holds t0 fd P t) (ok : Bool) (hf : ∀ s, P s → P (f s)) :
    Holds t0 fd P (Descriptors.set fd ok f t).2 :=
  (h.set ok hf).2.weaken fun s hs => by rwa [ite_self] at hs

theorem lookup_close (hfresh : t0.lookup fd = none)
    (h : ∀ x, x ≠ fd → t.lookup x = t0.lookup x) (x : Int) :
    (close fd t).lookup x = t0.lookup x := by
  by_cases hx : x = fd
  · rw [hx, close, AList.lookup_erase, hfresh]
  · rw [close, AList.lookup_erase_ne hx, h x hx]

/-- A call whose failure closes the socket. -/
theorem Holds.orClose (h : Holds t0 fd P t) (hfd : fd ≠ -1) (hfresh : t0.lookup fd = none)
    (ok : Bool) (hf : ∀ s, P s → Q (f s)) :
    Opened t0 fd Q (Descriptors.orClose fd (Descriptors.set fd ok f t)) := by
  obtain ⟨hok, hset⟩ := h.set ok hf
  rw [Descriptors.orClose, hok]
  cases ok with
  | true => exact .inr ⟨rfl, hfd, hset⟩
  | false => exact .inl ⟨rfl, lookup_close hfresh hset.elsewhere⟩

/-- The same, if there is a socket. -/
theorem Opened.orClose {r : Int × Descriptors} (h : Opened t0 fd P r)
    (hfresh : t0.lookup fd = none) (ok : Bool) (hf : ∀ s, P s → Q (f s)) :
    Opened t0 fd Q (if r.1 = -1 then (r.1, r.2)
      else Descriptors.orClose r.1 (Descriptors.set r.1 ok f r.2)) := by
  rcases h with ⟨hr, ht⟩ | ⟨hr, hfd, ht⟩
  · rw [if_pos hr]
    exact .inl ⟨hr, ht⟩
  · rw [if_neg (hr ▸ hfd), hr]
    exact ht.orClose hfd hfresh ok hf

theorem Opened.setAny {r : Int × Descriptors} (h : Opened t0 fd P r) (ok : Bool)
    (hPQ : ∀ s, P s → Q s) (hf : ∀ s, Q s → Q (f s)) :
    Opened t0 fd Q (r.1, (if r.1 = -1 then (false, r.2) else Descriptors.set r.1 ok f r.2).2) := by
  rcases h with ⟨hr, ht⟩ | ⟨hr, hfd, ht⟩
  · rw [if_pos hr]
    exact .inl ⟨hr, ht⟩
  · rw [if_neg (hr ▸ hfd), hr]
    exact .inr ⟨rfl, hfd, (ht.weaken hPQ).setAny ok hf⟩

end Descriptors

namespace EthHandler

open Descriptors

/-- **The base class**: a bound socket, or none. -/
theorem construct_spec {t : Descriptors} {r : Outcomes} (hminus : t.lookup (-1) = none)
    (hfresh : t.lookup r.socket = none) (o : Order) (address : Address) (port : BitVec 16) :
    Opened t r.socket
      (fun s => s.bound = some (addressToSockAddr o address port) ∧ s.multicastLoop = true ∧
        s.multicastIf = 0 ∧ s.groups = [])
      (construct o address port r t) := by
  rw [construct]
  by_cases hfd : r.socket = -1
  · simp only [hfd, if_true, set_of_none hminus, orClose, Bool.false_eq_true, if_false]
    exact .inl ⟨rfl, lookup_close hminus fun _ _ => rfl⟩
  · simp only [if_neg hfd]
    have hnew : Holds t r.socket
        (fun s => s.multicastLoop = true ∧ s.multicastIf = 0 ∧ s.groups = [])
        (t.insert r.socket (.socket Socket.new)) :=
      ⟨⟨_, AList.lookup_insert _, rfl, rfl, rfl⟩, fun x hx => AList.lookup_insert_ne hx⟩
    have hset := ((hnew.setAny (f := fun s => { s with nonBlocking := true }) r.fcntl
      fun _ h => h).setAny (f := fun s => { s with reuseAddr := true }) r.reuseAddr
      fun _ h => h).setAny (f := fun s => { s with hdrIncl := true }) r.hdrIncl fun _ h => h
    exact hset.orClose hfd hfresh r.bind fun _ h => ⟨rfl, h⟩

/-- The destructor closes the socket of its object, and no other descriptor. -/
theorem lookup_destroy {sockFd : Int} {t : Descriptors} (hminus : t.lookup (-1) = none) (x : Int) :
    (destroy sockFd t).lookup x = if x = sockFd then none else t.lookup x := by
  rw [destroy]
  by_cases hfd : sockFd = -1
  · rw [if_pos hfd]
    by_cases hx : x = sockFd
    · rw [if_pos hx, hx, hfd, hminus]
    · rw [if_neg hx]
  · rw [if_neg hfd]
    by_cases hx : x = sockFd
    · rw [if_pos hx, hx, close, AList.lookup_erase]
    · rw [if_neg hx, close, AList.lookup_erase_ne hx]

end EthHandler

namespace MulticastHandler

open Descriptors

/-- A socket that is set up: bound to the address of its object and member of the object's group
there, and of no other; what the object sends does not come back. -/
structure Ready (o : Order) (h : MulticastHandler) (s : Socket) : Prop where
  bound : s.bound = some (EthHandler.addressToSockAddr o (.ipv4 h.address) h.port)
  multicastLoop : s.multicastLoop = false
  -- the choice of the interface may have failed
  multicastIf : s.multicastIf = h.address.toU32 o ∨ s.multicastIf = 0
  groups : s.groups = [(h.mcGroup.toU32 o, h.address.toU32 o)]

/-- **A construction**: a socket that is set up in full, or none and all descriptors as before. -/
theorem construct_spec {t : Descriptors} {r : Outcomes} (hminus : t.lookup (-1) = none)
    (hfresh : t.lookup r.socket = none) (o : Order) (device : Str) (address : Ip)
    (port : BitVec 16) (mcGroup : Ip) (mcPort : BitVec 16) :
    let c := construct o device address port mcGroup mcPort r t
    Opened t r.socket (Ready o c.1) (c.1.sockFd, c.2) := by
  intro c
  have hbound := EthHandler.construct_spec hminus hfresh o (.ipv4 address) port
  have hloop := hbound.orClose (f := fun s => { s with multicastLoop := false })
    (Q := fun s => s.bound = some (EthHandler.addressToSockAddr o (.ipv4 address) port) ∧
      s.multicastLoop = false ∧ s.multicastIf = 0 ∧ s.groups = [])
    hfresh r.multicastLoop fun _ hs => ⟨hs.1, rfl, hs.2.2⟩
  have hif := hloop.setAny (f := fun s => { s with multicastIf := address.toU32 o })
    (Q := fun s => s.bound = some (EthHandler.addressToSockAddr o (.ipv4 address) port) ∧
      s.multicastLoop = false ∧ (s.multicastIf = address.toU32 o ∨ s.multicastIf = 0) ∧
      s.groups = [])
    r.multicastIf (fun _ hs => ⟨hs.1, hs.2.1, .inr hs.2.2.1, hs.2.2.2⟩)
    fun _ hs => ⟨hs.1, hs.2.1, .inl rfl, hs.2.2.2⟩
  exact hif.orClose (f := Socket.join (mcGroup.toU32 o) (address.toU32 o)) (Q := Ready o c.1)
    hfresh r.addMembership fun _ hs => ⟨hs.1, hs.2.1, hs.2.2.1, by
      rw [Socket.join, hs.2.2.2]; rfl⟩

/-- **A destruction** closes the socket of the object, and no other descriptor. -/
theorem lookup_destroy {t : Descriptors} (hminus : t.lookup (-1) = none) (o : Order)
    (h : MulticastHandler) (dropMembership : Bool) (x : Int) :
    (destroy o h dropMembership t).lookup x = if x = h.sockFd then none else t.lookup x := by
  rw [destroy]
  by_cases hfd : h.sockFd = -1
  · simp only [if_pos hfd]
    exact EthHandler.lookup_destroy hminus x
  · simp only [if_neg hfd]
    rw [EthHandler.lookup_destroy (by rw [lookup_set_ne (Ne.symm hfd), hminus])]
    by_cases hx : x = h.sockFd
    · rw [if_pos hx, if_pos hx]
    · rw [if_neg hx, if_neg hx, lookup_set_ne hx]

end MulticastHandler

/-! ## Any number of objects -/

namespace Multicasts

def init : Multicasts := ⟨∅, ∅, []⟩

/-- What a step does. An address is free for a new object once the old one is gone; the rest of
the program closes what it has opened. -/
def step (o : Order) (s : Multicasts) : MulticastAct → Option Multicasts
  | .construct this device address port mcGroup mcPort r =>
    if s.live.lookup this = none ∧
        (r.socket = -1 ∨ 0 ≤ r.socket ∧ s.descriptors.lookup r.socket = none) then
      let (h, t) := MulticastHandler.construct o device address port mcGroup mcPort r s.descriptors
      some { s with descriptors := t, live := s.live.insert this h }
    else none
  | .destroy this dropMembership =>
    (s.live.lookup this).map fun h =>
      { s with
        descriptors := h.destroy o dropMembership s.descriptors
        live := s.live.erase this }
  | .openOther fd =>
    if 0 ≤ fd ∧ s.descriptors.lookup fd = none then
      some { s with descriptors := s.descriptors.insert fd .other, others := fd :: s.others }
    else none
  | .closeOther fd =>
    if fd ∈ s.others then
      some { s with descriptors := s.descriptors.erase fd, others := s.others.filter (· ≠ fd) }
    else none

/-- What the objects own: each with a socket has it for itself, every open socket is that of a
live object, and what the rest of the program has open is not touched. -/
structure Owned (s : Multicasts) : Prop where
  opened : ∀ this h, s.live.lookup this = some h → h.sockFd ≠ -1 →
    ∃ x, s.descriptors.lookup h.sockFd = some (.socket x)
  alone : ∀ this that h h', s.live.lookup this = some h → s.live.lookup that = some h' →
    h.sockFd ≠ -1 → h.sockFd = h'.sockFd → this = that
  owner : ∀ fd x, s.descriptors.lookup fd = some (.socket x) →
    ∃ this h, s.live.lookup this = some h ∧ h.sockFd = fd
  others : ∀ fd, s.descriptors.lookup fd = some .other ↔ fd ∈ s.others

/-- The socket of every object is set up. -/
def AllReady (o : Order) (s : Multicasts) : Prop :=
  ∀ this h x, s.live.lookup this = some h → s.descriptors.lookup h.sockFd = some (.socket x) →
    h.Ready o x

structure Inv (o : Order) (s : Multicasts) : Prop where
  owned : s.Owned
  ready : s.AllReady o
  minus : s.descriptors.lookup (-1) = none

theorem inv_init (o : Order) : Inv o init where
  owned :=
    { opened := fun _ _ h => nomatch h
      alone := fun _ _ _ _ h => nomatch h
      owner := fun _ _ h => nomatch h
      others := fun _ => ⟨fun h => (nomatch h), fun h => absurd h List.not_mem_nil⟩ }
  ready := fun _ _ _ h => nomatch h
  minus := rfl

/-! ## The invariant -/

/-- What a step can do. -/
theorem step_cases {o : Order} {s s' : Multicasts} {a : MulticastAct} (h : s.step o a = some s') :
    (∃ this device address port mcGroup mcPort r,
      a = .construct this device address port mcGroup mcPort r ∧ s.live.lookup this = none ∧
      (r.socket = -1 ∨ 0 ≤ r.socket ∧ s.descriptors.lookup r.socket = none) ∧
      s' = { s with
        descriptors :=
          (MulticastHandler.construct o device address port mcGroup mcPort r s.descriptors).2
        live := s.live.insert this
          (MulticastHandler.construct o device address port mcGroup mcPort r s.descriptors).1 }) ∨
    (∃ this dropMembership handler, a = .destroy this dropMembership ∧
      s.live.lookup this = some handler ∧
      s' = { s with
        descriptors := handler.destroy o dropMembership s.descriptors
        live := s.live.erase this }) ∨
    (∃ fd, a = .openOther fd ∧ 0 ≤ fd ∧ s.descriptors.lookup fd = none ∧
      s' = { s with descriptors := s.descriptors.insert fd .other, others := fd :: s.others }) ∨
    ∃ fd, a = .closeOther fd ∧ fd ∈ s.others ∧
      s' = { s with
        descriptors := s.descriptors.erase fd
        others := s.others.filter (· ≠ fd) } := by
  cases a with
  | construct this device address port mcGroup mcPort r =>
    obtain ⟨⟨hlive, hsocket⟩, h⟩ := Option.ite_none_right_eq_some.1 h
    exact .inl ⟨this, device, address, port, mcGroup, mcPort, r, rfl, hlive, hsocket,
      (Option.some.inj h).symm⟩
  | destroy this dropMembership =>
    obtain ⟨handler, hlive, rfl⟩ := Option.map_eq_some_iff.1 h
    exact .inr (.inl ⟨this, dropMembership, handler, rfl, hlive, rfl⟩)
  | openOther fd =>
    obtain ⟨⟨hpos, hfree⟩, h⟩ := Option.ite_none_right_eq_some.1 h
    exact .inr (.inr (.inl ⟨fd, rfl, hpos, hfree, (Option.some.inj h).symm⟩))
  | closeOther fd =>
    obtain ⟨hmem, h⟩ := Option.ite_none_right_eq_some.1 h
    exact .inr (.inr (.inr ⟨fd, rfl, hmem, (Option.some.inj h).symm⟩))

theorem of_lookup_insert {l : AList fun _ : Nat => MulticastHandler} {this that : Nat}
    {h h' : MulticastHandler} (hl : (l.insert this h).lookup that = some h') :
    (that = this ∧ h' = h) ∨ (that ≠ this ∧ l.lookup that = some h') := by
  by_cases ht : that = this
  · subst ht
    rw [AList.lookup_insert] at hl
    exact .inl ⟨rfl, (Option.some.inj hl).symm⟩
  · rw [AList.lookup_insert_ne ht] at hl
    exact .inr ⟨ht, hl⟩

theorem of_lookup_erase {l : AList fun _ : Nat => MulticastHandler} {this that : Nat}
    {h : MulticastHandler} (hl : (l.erase this).lookup that = some h) :
    that ≠ this ∧ l.lookup that = some h := by
  by_cases ht : that = this
  · rw [ht, AList.lookup_erase] at hl
    cases hl
  · exact ⟨ht, by rwa [AList.lookup_erase_ne ht] at hl⟩

variable {o : Order} {s s' : Multicasts}

/-- A live object has no descriptor that is free. -/
theorem Inv.lookup_ne {this : Nat} {h : MulticastHandler} (hi : Inv o s)
    (hl : s.live.lookup this = some h) {fd : Int} (hfree : s.descriptors.lookup fd = none)
    (hfd : h.sockFd = fd) : fd = -1 := by
  by_contra hne
  obtain ⟨x, hx⟩ := hi.owned.opened this h hl (hfd ▸ hne)
  rw [hfd, hfree] at hx
  cases hx

/-- An object without a socket is added. -/
theorem inv_add_none (hi : Inv o s) {this : Nat} (hlive : s.live.lookup this = none)
    {h : MulticastHandler} (hfd : h.sockFd = -1) {t : Descriptors}
    (ht : ∀ x, t.lookup x = s.descriptors.lookup x) :
    Inv o { s with descriptors := t, live := s.live.insert this h } where
  owned :=
    { opened := by
        intro that h' hl hne
        rcases of_lookup_insert hl with ⟨-, rfl⟩ | ⟨-, hl⟩
        · exact absurd hfd hne
        · simp only [ht]
          exact hi.owned.opened that h' hl hne
      alone := by
        intro p q hp hq hlp hlq hne heq
        rcases of_lookup_insert hlp with ⟨-, rfl⟩ | ⟨-, hlp⟩
        · exact absurd hfd hne
        · rcases of_lookup_insert hlq with ⟨-, rfl⟩ | ⟨-, hlq⟩
          · exact absurd (heq.trans hfd) hne
          · exact hi.owned.alone p q hp hq hlp hlq hne heq
      owner := by
        intro fd x hx
        rw [ht] at hx
        obtain ⟨that, h', hl, hfd'⟩ := hi.owned.owner fd x hx
        refine ⟨that, h', ?_, hfd'⟩
        rwa [AList.lookup_insert_ne (fun he => by rw [he, hlive] at hl; cases hl)]
      others := by
        intro fd
        rw [ht]
        exact hi.owned.others fd }
  ready := by
    intro that h' x hl hx
    rw [ht] at hx
    rcases of_lookup_insert hl with ⟨-, rfl⟩ | ⟨-, hl⟩
    · rw [hfd, hi.minus] at hx
      cases hx
    · exact hi.ready that h' x hl hx
  minus := (ht _).trans hi.minus

/-- An object with a new socket, set up, is added. -/
theorem inv_add_some (hi : Inv o s) {this : Nat} (hlive : s.live.lookup this = none)
    {h : MulticastHandler} (hne : h.sockFd ≠ -1)
    (hfree : s.descriptors.lookup h.sockFd = none) {t : Descriptors}
    (ht : Descriptors.Holds s.descriptors h.sockFd (h.Ready o) t) :
    Inv o { s with descriptors := t, live := s.live.insert this h } := by
  obtain ⟨x0, hx0, hready⟩ := ht.here
  have hold : ∀ {that h'}, s.live.lookup that = some h' → h'.sockFd ≠ h.sockFd :=
    fun hl heq => hne (hi.lookup_ne hl hfree heq)
  refine ⟨⟨?_, ?_, ?_, ?_⟩, ?_, ?_⟩
  · intro that h' hl hne'
    rcases of_lookup_insert hl with ⟨-, rfl⟩ | ⟨-, hl⟩
    · exact ⟨x0, hx0⟩
    · obtain ⟨x, hx⟩ := hi.owned.opened that h' hl hne'
      exact ⟨x, by rw [ht.elsewhere _ (hold hl)]; exact hx⟩
  · intro p q hp hq hlp hlq hne' heq
    rcases of_lookup_insert hlp with ⟨rfl, rfl⟩ | ⟨-, hp'⟩ <;>
      rcases of_lookup_insert hlq with ⟨rfl, rfl⟩ | ⟨-, hq'⟩
    · rfl
    · exact absurd heq.symm (hold hq')
    · exact absurd heq (hold hp')
    · exact hi.owned.alone p q hp hq hp' hq' hne' heq
  · intro fd x hx
    by_cases hfd : fd = h.sockFd
    · exact ⟨this, h, AList.lookup_insert _, hfd.symm⟩
    · rw [ht.elsewhere _ hfd] at hx
      obtain ⟨that, h', hl, hfd'⟩ := hi.owned.owner fd x hx
      refine ⟨that, h', ?_, hfd'⟩
      rwa [AList.lookup_insert_ne (fun he => by rw [he, hlive] at hl; cases hl)]
  · intro fd
    by_cases hfd : fd = h.sockFd
    · have hnot : fd ∉ s.others := fun hm => by
        have ho := (hi.owned.others fd).2 hm
        rw [hfd, hfree] at ho
        cases ho
      rw [hfd, hx0]
      exact ⟨nofun, fun hm => absurd (hfd ▸ hm) hnot⟩
    · rw [ht.elsewhere _ hfd]
      exact hi.owned.others fd
  · intro that h' x hl hx
    rcases of_lookup_insert hl with ⟨-, rfl⟩ | ⟨-, hl⟩
    · obtain rfl : x0 = x := by rw [hx0] at hx; cases hx; rfl
      exact hready
    · rw [ht.elsewhere _ (hold hl)] at hx
      exact hi.ready that h' x hl hx
  · rw [ht.elsewhere _ (Ne.symm hne)]
    exact hi.minus

theorem inv_construct (hi : Inv o s) {this : Nat} (hlive : s.live.lookup this = none)
    {r : Outcomes} (hsocket : r.socket = -1 ∨ 0 ≤ r.socket ∧ s.descriptors.lookup r.socket = none)
    (device : Str) (address : Ip) (port : BitVec 16) (mcGroup : Ip) (mcPort : BitVec 16) :
    let c := MulticastHandler.construct o device address port mcGroup mcPort r s.descriptors
    Inv o { s with descriptors := c.2, live := s.live.insert this c.1 } := by
  intro c
  have hfree : s.descriptors.lookup r.socket = none := by
    rcases hsocket with hfd | ⟨-, hfree⟩
    · rw [hfd, hi.minus]
    · exact hfree
  rcases MulticastHandler.construct_spec hi.minus hfree o device address port mcGroup mcPort with
    ⟨hfd, ht⟩ | ⟨hfd, hne, ht⟩
  · exact inv_add_none hi hlive hfd ht
  · have hfd : c.1.sockFd = r.socket := hfd
    exact inv_add_some hi hlive (hfd ▸ hne) (hfd ▸ hfree) (hfd ▸ ht)

theorem inv_destroy (hi : Inv o s) {this : Nat} {h : MulticastHandler}
    (hlive : s.live.lookup this = some h) (dropMembership : Bool) :
    Inv o { s with
      descriptors := h.destroy o dropMembership s.descriptors
      live := s.live.erase this } := by
  have hlook := MulticastHandler.lookup_destroy hi.minus o h dropMembership
  have hother : ∀ {that h'}, that ≠ this → s.live.lookup that = some h' → h'.sockFd ≠ -1 →
      h'.sockFd ≠ h.sockFd := fun hne hl hfd heq =>
    hne (hi.owned.alone _ _ _ _ hl hlive hfd heq)
  refine ⟨⟨?_, ?_, ?_, ?_⟩, ?_, ?_⟩
  · intro that h' hl hne
    obtain ⟨ht, hl⟩ := of_lookup_erase hl
    rw [hlook, if_neg (hother ht hl hne)]
    exact hi.owned.opened that h' hl hne
  · intro p q hp hq hlp hlq
    exact hi.owned.alone p q hp hq (of_lookup_erase hlp).2 (of_lookup_erase hlq).2
  · intro fd x hx
    rw [hlook] at hx
    split at hx
    · cases hx
    · rename_i hfd
      obtain ⟨that, h', hl, hfd'⟩ := hi.owned.owner fd x hx
      refine ⟨that, h', ?_, hfd'⟩
      rwa [AList.lookup_erase_ne]
      rintro rfl
      rw [hlive] at hl
      cases hl
      exact hfd hfd'.symm
  · intro fd
    rw [hlook]
    by_cases hfd : fd = h.sockFd
    · rw [if_pos hfd, ← hi.owned.others fd, hfd]
      refine ⟨nofun, fun ho => ?_⟩
      by_cases hne : h.sockFd = -1
      · rw [hne, hi.minus] at ho
        cases ho
      · obtain ⟨x, hx⟩ := hi.owned.opened this h hlive hne
        rw [hx] at ho
        cases ho
    · rw [if_neg hfd]
      exact hi.owned.others fd
  · intro that h' x hl hx
    obtain ⟨-, hl⟩ := of_lookup_erase hl
    rw [hlook] at hx
    split at hx
    · cases hx
    · exact hi.ready that h' x hl hx
  · rw [hlook]
    split
    · rfl
    · exact hi.minus

/-- The rest of the program opens or closes something of its own: the sockets stay. -/
theorem Inv.others (hi : Inv o s) {t : Descriptors} {others : List Int}
    (hsock : ∀ x y, t.lookup x = some (.socket y) ↔ s.descriptors.lookup x = some (.socket y))
    (hother : ∀ x, t.lookup x = some .other ↔ x ∈ others) (hminus : t.lookup (-1) = none) :
    Inv o { s with descriptors := t, others := others } where
  owned :=
    { opened := fun this h hl hne => by
        obtain ⟨x, hx⟩ := hi.owned.opened this h hl hne
        exact ⟨x, (hsock _ _).2 hx⟩
      alone := hi.owned.alone
      owner := fun x y hx => hi.owned.owner x y ((hsock x y).1 hx)
      others := hother }
  ready := fun this h x hl hx => hi.ready this h x hl ((hsock _ _).1 hx)
  minus := hminus

theorem inv_openOther (hi : Inv o s) {fd : Int} (hpos : 0 ≤ fd)
    (hfree : s.descriptors.lookup fd = none) :
    Inv o { s with
      descriptors := s.descriptors.insert fd .other
      others := fd :: s.others } := by
  refine hi.others (fun x y => ?_) (fun x => ?_) ?_
  · by_cases hx : x = fd
    · rw [hx, AList.lookup_insert, hfree]
      exact ⟨nofun, nofun⟩
    · rw [AList.lookup_insert_ne hx]
  · by_cases hx : x = fd
    · rw [hx, AList.lookup_insert]
      exact ⟨fun _ => List.mem_cons_self, fun _ => rfl⟩
    · rw [AList.lookup_insert_ne hx, List.mem_cons, or_iff_right hx]
      exact hi.owned.others x
  · rw [AList.lookup_insert_ne (by omega)]
    exact hi.minus

theorem inv_closeOther (hi : Inv o s) {fd : Int} (hmem : fd ∈ s.others) :
    Inv o { s with
      descriptors := s.descriptors.erase fd
      others := s.others.filter (· ≠ fd) } := by
  have hother := (hi.owned.others fd).2 hmem
  refine hi.others (fun x y => ?_) (fun x => ?_) ?_
  · by_cases hx : x = fd
    · rw [hx, AList.lookup_erase, hother]
      exact ⟨nofun, nofun⟩
    · rw [AList.lookup_erase_ne hx]
  · rw [List.mem_filter, decide_eq_true_eq]
    by_cases hx : x = fd
    · rw [hx, AList.lookup_erase]
      exact ⟨nofun, fun h => absurd rfl h.2⟩
    · rw [AList.lookup_erase_ne hx, and_iff_left hx]
      exact hi.owned.others x
  · by_cases hfd : (-1 : Int) = fd
    · rw [hfd, AList.lookup_erase]
    · rw [AList.lookup_erase_ne hfd]
      exact hi.minus

theorem inv_step (hi : Inv o s) {a : MulticastAct} (h : s.step o a = some s') : Inv o s' := by
  obtain ⟨this, device, address, port, mcGroup, mcPort, r, -, hlive, hsocket, rfl⟩ |
    ⟨this, dropMembership, handler, -, hlive, rfl⟩ | ⟨fd, -, hpos, hfree, rfl⟩ |
    ⟨fd, -, hmem, rfl⟩ := step_cases h
  · exact inv_construct hi hlive hsocket device address port mcGroup mcPort
  · exact inv_destroy hi hlive dropMembership
  · exact inv_openOther hi hpos hfree
  · exact inv_closeOther hi hmem

/-- A live object has no socket, or one that is set up. -/
theorem Inv.socket_of_live (hi : Inv o s) {this : Nat} {handler : MulticastHandler}
    (hlive : s.live.lookup this = some handler) :
    handler.sockFd = -1 ∨
      ∃ x, s.descriptors.lookup handler.sockFd = some (.socket x) ∧ handler.Ready o x := by
  by_cases hfd : handler.sockFd = -1
  · exact .inl hfd
  · obtain ⟨x, hx⟩ := hi.owned.opened this handler hlive hfd
    exact .inr ⟨x, hx, hi.ready this handler x hlive hx⟩

theorem inv_run {as : List MulticastAct} (h : Run (step o) anyStep init as s) : Inv o s :=
  h.inv (fun _ _ _ hi _ hs => inv_step hi hs) (inv_init o)

/-- **Who owns a socket**: whatever is constructed and destroyed, and whichever calls fail, each
object has its socket for itself, no socket is left without its object, and no descriptor of
the rest of the program is closed. -/
theorem owns_sockets {as : List MulticastAct} (h : Run (step o) anyStep init as s) : s.Owned :=
  (inv_run h).owned

/-- All calls succeed, on the descriptor `fd`. -/
def allSucceed (fd : Int) : Outcomes := ⟨fd, true, true, true, true, true, true, true⟩

def constructAt (this : Nat) (r : Outcomes) : MulticastAct :=
  .construct this "eth0".toList Ip.new 19007 Ip.new 19007 r

/-- A second object takes over the descriptor of one that could not join its group; the first is
destroyed. -/
def sampleRun : List MulticastAct :=
  [.openOther 3, constructAt 0 { allSucceed 4 with addMembership := false },
    constructAt 1 (allSucceed 4), .destroy 0 false, .closeOther 3]

theorem owns_sockets_sample :
    ∃ s, Run (step .little) anyStep init sampleRun s ∧ s.Owned := by
  have h : ∃ s, Run (step .little) anyStep init sampleRun s :=
    ⟨_, .cons trivial rfl (.cons trivial rfl (.cons trivial rfl (.cons trivial rfl
      (.cons trivial rfl (.nil _)))))⟩
  obtain ⟨s, hr⟩ := h
  exact ⟨s, hr, owns_sockets hr⟩

/-- **No half-made socket**: a live object has none, or one that is bound to its address, keeps its
own datagrams off, and is a member of its group alone. -/
theorem sockets_ready {as : List MulticastAct} (h : Run (step o) anyStep init as s) {this : Nat}
    {handler : MulticastHandler} (hlive : s.live.lookup this = some handler) :
    handler.sockFd = -1 ∨
      ∃ x, s.descriptors.lookup handler.sockFd = some (.socket x) ∧ handler.Ready o x :=
  (inv_run h).socket_of_live hlive

theorem sockets_ready_sample : ∃ s handler, Run (step .little) anyStep init sampleRun s ∧
    s.live.lookup 1 = some handler ∧ (handler.sockFd = -1 ∨
      ∃ x, s.descriptors.lookup handler.sockFd = some (.socket x) ∧ handler.Ready .little x) := by
  have h : ∃ s handler, Run (step .little) anyStep init sampleRun s ∧
      s.live.lookup 1 = some handler :=
    ⟨_, _, .cons trivial rfl (.cons trivial rfl (.cons trivial rfl (.cons trivial rfl
      (.cons trivial rfl (.nil _))))), rfl⟩
  obtain ⟨s, handler, hr, hl⟩ := h
  exact ⟨s, handler, hr, hl, sockets_ready hr hl⟩

end Multicasts
