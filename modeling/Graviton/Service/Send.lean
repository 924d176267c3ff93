import Graviton.Lib.Word

/-!
# `EthHandler`: sending

`Send` of `libs/service/ethhandler.cpp`. The results of `sendto` are a parameter: for the call
with number `k`, offered some bytes, the number of them it accepts or -1 (`Accepts`).

* `send_delivers`: `Send` ends, and its result says if the whole packet was accepted.
-/

namespace EthHandler

open Lib

/-- `m_l4Type`. -/
inductive L4Type
  | sockStream
  | sockDgram
  deriving DecidableEq

/-- A call of `sendto`: the bytes it was offered, and its result. -/
structure Call where
  bytes : List Byte
  bytecount : Int
  deriving DecidableEq

/-- What a call accepted; of a call that failed, nothing. -/
def Call.accepted (c : Call) : List Byte := c.bytes.take c.bytecount.toNat

/-- What `Send` returns, and its calls of `sendto`. -/
structure Sent where
  ret : Int
  calls : List Call
  deriving DecidableEq

def Sent.accepted (s : Sent) : List Byte := s.calls.flatMap Call.accepted

/-- The loop of `Send`, for at most `fuel` tests of its condition; `none` when it has not ended by
then. -/
def sendLoop (l4Type : L4Type) (packet : List Byte) (length : Int)
    (sendto : Nat → List Byte → Int) : Nat → Int → List Call → Option Sent
  | 0, _, _ => none
  | fuel + 1, sent, calls =>
    if sent < length then
      let bytes := (packet.drop sent.toNat).take (length - sent).toNat
      let bytecount := sendto calls.length bytes
      let calls := calls ++ [⟨bytes, bytecount⟩]
      let sent := sent + bytecount
      let isTcp := l4Type = .sockStream
      if (isTcp ∧ bytecount < 0) ∨ (¬isTcp ∧ sent ≠ length) then some ⟨-1, calls⟩
      else if ¬isTcp then some ⟨sent, calls⟩
      else sendLoop l4Type packet length sendto fuel sent calls
    else some ⟨sent, calls⟩

/-- `EthHandler::Send`. -/
def send (l4Type : L4Type) (packet : List Byte) (length : Int) (sendto : Nat → List Byte → Int)
    (fuel : Nat) : Option Sent :=
  sendLoop l4Type packet length sendto fuel 0 []

/-- What `sendto` promises: an error, or some of the bytes it is offered. -/
def Accepts (sendto : Nat → List Byte → Int) : Prop :=
  ∀ k bytes, bytes ≠ [] →
    sendto k bytes = -1 ∨ 1 ≤ sendto k bytes ∧ sendto k bytes ≤ bytes.length

/-- The result of `Send` says what became of the data, and took few calls. -/
structure Delivers (l4Type : L4Type) (data : List Byte) (s : Sent) : Prop where
  calls : s.calls.length ≤ max 1 data.length
  success : s.ret ≠ -1 → s.ret = data.length ∧ s.accepted = data
  failure : s.ret = -1 → s.accepted <+: data ∧ s.accepted ≠ data
  datagram : l4Type = .sockDgram → s.calls.length ≤ 1

/-- At the head of the loop: every call so far was accepted, in part at least. -/
structure Sending (data : List Byte) (sent : Nat) (calls : List Call) : Prop where
  le : sent ≤ data.length
  count : calls.length ≤ sent
  accepted : calls.flatMap Call.accepted = data.take sent

theorem Sending.init (data : List Byte) : Sending data 0 [] :=
  ⟨Nat.zero_le _, Nat.le_refl _, rfl⟩

/-- A call that accepts `n` bytes of the rest. -/
theorem Sending.call {data : List Byte} {sent : Nat} {calls : List Call}
    (h : Sending data sent calls) {n : Nat} (hpos : 1 ≤ n) (hle : n ≤ data.length - sent) :
    Sending data (sent + n) (calls ++ [⟨data.drop sent, n⟩]) := by
  have hsent := h.le
  have hcount := h.count
  refine ⟨by omega, by rw [List.length_append, List.length_singleton]; omega, ?_⟩
  rw [List.flatMap_append, h.accepted, List.flatMap_singleton, Call.accepted, Int.toNat_natCast,
    List.take_add]

theorem take_proper {data : List Byte} {n : Nat} (h : n < data.length) :
    data.take n <+: data ∧ data.take n ≠ data := by
  refine ⟨List.take_prefix n data, fun he => ?_⟩
  have hlen := congrArg List.length he
  rw [List.length_take] at hlen
  omega

section
variable {l4Type : L4Type} {data : List Byte} {sent : Nat} {calls : List Call}

/-- An end with -1, when not all is accepted. -/
theorem delivers_short (hacc : calls.flatMap Call.accepted = data.take sent)
    (hcount : calls.length ≤ sent + 1) (hlt : sent < data.length)
    (hdgram : l4Type = .sockDgram → calls.length ≤ 1) : Delivers l4Type data ⟨-1, calls⟩ := by
  refine ⟨?_, fun hne => absurd rfl hne, fun _ => ?_, hdgram⟩
  · show calls.length ≤ _
    omega
  · rw [Sent.accepted, hacc]
    exact take_proper hlt

/-- A call that fails accepts nothing. -/
theorem Sending.failed (h : Sending data sent calls) (hlt : sent < data.length)
    (hdgram : l4Type = .sockDgram → calls = []) :
    Delivers l4Type data ⟨-1, calls ++ [⟨data.drop sent, -1⟩]⟩ := by
  have hcount := h.count
  refine delivers_short ?_ ?_ hlt ?_
  · rw [List.flatMap_append, h.accepted]
    exact List.append_nil _
  · rw [List.length_append, List.length_singleton]
    omega
  · intro hd
    rw [hdgram hd]
    exact Nat.le_refl 1

/-- The end of the loop. -/
theorem Sending.done (h : Sending data data.length calls)
    (hdgram : l4Type = .sockDgram → calls.length ≤ 1) :
    Delivers l4Type data ⟨data.length, calls⟩ := by
  have hcount := h.count
  refine ⟨?_, fun _ => ⟨rfl, h.accepted.trans List.take_length⟩, fun hf => ?_, hdgram⟩
  · show calls.length ≤ _
    omega
  · have hf : (data.length : Int) = -1 := hf
    omega

end

section
variable {l4Type : L4Type} {packet : List Byte} {length : Nat} {sendto : Nat → List Byte → Int}

/-- A pass of the loop, before its end. -/
theorem sendLoop_succ {fuel sent : Nat} {calls : List Call} (h : sent < length) :
    let bytes := (packet.take length).drop sent
    let bytecount := sendto calls.length bytes
    sendLoop l4Type packet length sendto (fuel + 1) sent calls =
      if (l4Type = .sockStream ∧ bytecount < 0) ∨
          (¬l4Type = .sockStream ∧ sent + bytecount ≠ length) then
        some ⟨-1, calls ++ [⟨bytes, bytecount⟩]⟩
      else if ¬l4Type = .sockStream then some ⟨sent + bytecount, calls ++ [⟨bytes, bytecount⟩]⟩
      else sendLoop l4Type packet length sendto fuel (sent + bytecount)
        (calls ++ [⟨bytes, bytecount⟩]) := by
  intro bytes bytecount
  have hrest : (packet.drop sent).take ((length : Int) - sent).toNat = bytes := by
    rw [← Int.ofNat_sub h.le, Int.toNat_natCast, ← List.drop_take]
  rw [sendLoop, if_pos (Int.ofNat_lt.2 h), Int.toNat_natCast, hrest]

/-- A pass whose call fails ends the loop, whatever `sent` is then. -/
theorem sendLoop_failed {fuel sent : Nat} {calls : List Call} (h : sent < length)
    (hfail : sendto calls.length ((packet.take length).drop sent) = -1) :
    sendLoop l4Type packet length sendto (fuel + 1) sent calls =
      some ⟨-1, calls ++ [⟨(packet.take length).drop sent, -1⟩]⟩ := by
  rw [sendLoop_succ h, hfail]
  cases l4Type with
  | sockStream => rw [if_pos (.inl ⟨rfl, by decide⟩)]
  | sockDgram => rw [if_pos (.inr ⟨nofun, by omega⟩)]

variable (sendto) in
/-- The end of the loop, with all bytes accepted. -/
theorem sendLoop_end (hpacket : length ≤ packet.length) {calls : List Call}
    (h : Sending (packet.take length) length calls)
    (hdgram : l4Type = .sockDgram → calls.length ≤ 1) :
    ∃ s, (∀ fuel, sendLoop l4Type packet length sendto (fuel + 1) length calls = some s) ∧
      Delivers l4Type (packet.take length) s := by
  have hlen : (packet.take length).length = length := List.length_take_of_le hpacket
  have h' : Sending (packet.take length) (packet.take length).length calls := by rwa [hlen]
  have hdone := h'.done hdgram
  rw [hlen] at hdone
  refine ⟨_, fun fuel => ?_, hdone⟩
  rw [sendLoop, if_neg (Int.lt_irrefl _)]

/-- The loop on a stream: by induction on the bytes that are left. -/
theorem sendLoop_stream (hsendto : Accepts sendto) (hpacket : length ≤ packet.length) {n : Nat} :
    ∀ {sent : Nat} {calls : List Call}, Sending (packet.take length) sent calls →
      length - sent = n →
      ∃ s, (∀ fuel, n < fuel →
          sendLoop .sockStream packet length sendto fuel sent calls = some s) ∧
        Delivers .sockStream (packet.take length) s := by
  have hlen : (packet.take length).length = length := List.length_take_of_le hpacket
  induction n using Nat.strongRecOn with
  | ind n ih =>
    intro sent calls hs hn
    have hle := hs.le
    rw [hlen] at hle
    by_cases hend : sent < length
    · have hne : (packet.take length).drop sent ≠ [] := by
        rw [List.ne_nil_iff_length_pos, List.length_drop, hlen]
        omega
      obtain hfail | ⟨hpos, hacc⟩ := hsendto calls.length _ hne
      · refine ⟨_, fun fuel hf => ?_, hs.failed (hend.trans_eq hlen.symm) fun hd => nomatch hd⟩
        obtain ⟨f, rfl⟩ : ∃ f, fuel = f + 1 := ⟨fuel - 1, by omega⟩
        exact sendLoop_failed hend hfail
      · obtain ⟨m, hm⟩ := Int.eq_ofNat_of_zero_le (Int.le_trans (by decide) hpos)
        rw [hm] at hpos hacc
        rw [List.length_drop, hlen] at hacc
        have hs' := hs.call (n := m) (by omega) (by rw [hlen]; omega)
        obtain ⟨s, hrun, hok⟩ := ih (length - (sent + m)) (by omega) hs' rfl
        refine ⟨s, fun fuel hf => ?_, hok⟩
        obtain ⟨f, rfl⟩ : ∃ f, fuel = f + 1 := ⟨fuel - 1, by omega⟩
        rw [sendLoop_succ hend, hm, if_neg (by simp), if_neg (by simp)]
        exact hrun f (by omega)
    · obtain rfl : sent = length := Nat.le_antisymm hle (Nat.not_lt.1 hend)
      have hdgram : L4Type.sockStream = .sockDgram → calls.length ≤ 1 := nofun
      obtain ⟨s, hrun, hok⟩ := sendLoop_end sendto hpacket hs hdgram
      refine ⟨s, fun fuel hf => ?_, hok⟩
      obtain ⟨f, rfl⟩ : ∃ f, fuel = f + 1 := ⟨fuel - 1, by omega⟩
      exact hrun f

/-- On a datagram socket there is one pass. -/
theorem sendLoop_dgram (hsendto : Accepts sendto) (hpacket : length ≤ packet.length)
    (hlength : 0 < length) :
    ∃ s, (∀ fuel, sendLoop .sockDgram packet length sendto (fuel + 1) (0 : Nat) [] = some s) ∧
      Delivers .sockDgram (packet.take length) s := by
  have hlen : (packet.take length).length = length := List.length_take_of_le hpacket
  have hpos := hlength.trans_eq hlen.symm
  have hinit := Sending.init (packet.take length)
  obtain hfail | ⟨hpos', hacc⟩ := hsendto 0 (packet.take length) (List.ne_nil_of_length_pos hpos)
  · exact ⟨_, fun _ => sendLoop_failed hlength hfail, hinit.failed hpos fun _ => rfl⟩
  · obtain ⟨m, hm⟩ := Int.eq_ofNat_of_zero_le (Int.le_trans (by decide) hpos')
    have hm' : sendto ([] : List Call).length ((packet.take length).drop 0) = m := hm
    rw [hm] at hpos' hacc
    rw [hlen] at hacc
    have hs := hinit.call (n := m) (by omega) (by omega)
    rw [Nat.zero_add] at hs
    by_cases hall : m = length
    · -- the whole packet at once
      subst hall
      have hs' : Sending (packet.take m) (packet.take m).length
          [⟨(packet.take m).drop 0, m⟩] := by rwa [hlen]
      have hdone : Delivers .sockDgram (packet.take m) ⟨_, _⟩ := hs'.done fun _ => Nat.le_refl 1
      rw [hlen] at hdone
      refine ⟨_, fun fuel => ?_, hdone⟩
      rw [sendLoop_succ hlength, hm', if_neg (by simp), if_pos (by decide), Int.ofNat_zero,
        Int.zero_add]
      rfl
    · refine ⟨⟨-1, [⟨(packet.take length).drop 0, m⟩]⟩, fun fuel => ?_, ?_⟩
      · rw [sendLoop_succ hlength, hm', if_pos (.inr ⟨by decide, by omega⟩)]
        rfl
      · exact delivers_short hs.accepted (Nat.le_add_left 1 m) (by omega) fun _ => Nat.le_refl 1

end

/-- **`Send`** ends after few calls; unless it returns -1, the calls accepted the whole packet, in
order. -/
theorem send_delivers {l4Type : L4Type} {packet : List Byte} {length : Int}
    {sendto : Nat → List Byte → Int} (hlength : 0 ≤ length) (hpacket : length ≤ packet.length)
    (hsendto : Accepts sendto) :
    ∃ s, (∀ fuel : Nat, length < fuel → send l4Type packet length sendto fuel = some s) ∧
      Delivers l4Type (packet.take length.toNat) s := by
  obtain ⟨length, rfl⟩ := Int.eq_ofNat_of_zero_le hlength
  have hpacket := Int.ofNat_le.1 hpacket
  have hinit := Sending.init (packet.take length)
  have hsucc : ∀ {fuel : Nat}, (length : Int) < fuel → ∃ f, fuel = f + 1 :=
    fun {fuel} hf => ⟨fuel - 1, by omega⟩
  rw [Int.toNat_natCast]
  cases l4Type with
  | sockStream =>
    obtain ⟨s, hrun, hok⟩ := sendLoop_stream hsendto hpacket hinit rfl
    exact ⟨s, fun fuel hf => hrun fuel (Int.ofNat_lt.1 hf), hok⟩
  | sockDgram =>
    obtain rfl | hpos := Nat.eq_zero_or_pos length
    · obtain ⟨s, hrun, hok⟩ := sendLoop_end sendto hpacket hinit fun _ => Nat.zero_le 1
      refine ⟨s, fun fuel hf => ?_, hok⟩
      obtain ⟨f, rfl⟩ := hsucc hf
      exact hrun f
    · obtain ⟨s, hrun, hok⟩ := sendLoop_dgram hsendto hpacket hpos
      refine ⟨s, fun fuel hf => ?_, hok⟩
      obtain ⟨f, rfl⟩ := hsucc hf
      exact hrun f

/-- A socket that takes at most two bytes at a time, on a packet of three. -/
theorem send_delivers_two :
    let sendto : Nat → List Byte → Int := fun _ bytes => (min 2 bytes.length : Nat)
    send .sockStream [1, 2, 3] 3 sendto 4 = some ⟨3, [⟨[1, 2, 3], 2⟩, ⟨[3], 1⟩]⟩ ∧
      ∃ s, (∀ fuel : Nat, (3 : Int) < fuel → send .sockStream [1, 2, 3] 3 sendto fuel = some s) ∧
        Delivers .sockStream [1, 2, 3] s := by
  refine ⟨by decide, send_delivers (by decide) (by decide) fun _ bytes hne => .inr ?_⟩
  have hpos := List.length_pos_of_ne_nil hne
  omega

end EthHandler

namespace IpMulticast

open Lib EthHandler

/-- `IpMulticast::Send`: the socket of a multicast group is a datagram socket. -/
def send (packet : List Byte) (length : Int) (sendto : Nat → List Byte → Int) (fuel : Nat) :
    Option Sent :=
  EthHandler.send .sockDgram packet length sendto fuel

end IpMulticast
