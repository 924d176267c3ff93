import Graviton.Protocol.Tick
import Mathlib.Data.Nat.Count

/-!
# The cadence of the heartbeats

A series of ticks of a discovery thread with usable interfaces. The second counter is a `u32_t`
whose modulus is a multiple of neither 10 nor 60, so both schedules start over when it wraps.

* `ticks_isSome`: which ticks send a heartbeat.
* `count_heartbeatTick`, `count_minuteTick`: how many ticks of either kind there were.
* `ticks_sequenceOf`: a heartbeat carries the number of packets prepared before it.
* `ticks_cadence`: the first tick sends a heartbeat, the next one is at most 10 ticks later, and
  the sequence numbers of two heartbeats with fewer than 56000 between them differ.
-/

open Lib Protocol

namespace Ticker

open DiscoveryThread

/-- The `n`-th tick sends a heartbeat. -/
def heartbeatTick (n : Nat) : Bool := n % 2 ^ 32 % 10 = 0

/-- The `n`-th tick prepares a packet for the remote office. -/
def minuteTick (n : Nat) : Bool := n % 2 ^ 32 % 60 = 0

/-! ## How many ticks of a kind there were -/

/-- The next tick: the counter moves on, or wraps. -/
theorem div_mod_succ (n : Nat) :
    (n + 1) / 2 ^ 32 = n / 2 ^ 32 ∧ (n + 1) % 2 ^ 32 = n % 2 ^ 32 + 1 ∨
      (n + 1) / 2 ^ 32 = n / 2 ^ 32 + 1 ∧ (n + 1) % 2 ^ 32 = 0 ∧ n % 2 ^ 32 = 2 ^ 32 - 1 := by
  omega

theorem count_heartbeatTick (n : Nat) :
    Nat.count (heartbeatTick ·) n = 429496730 * (n / 2 ^ 32) + (n % 2 ^ 32 + 9) / 10 := by
  induction n with
  | zero => rfl
  | succ n ih =>
    rw [Nat.count_succ, ih]
    simp only [heartbeatTick, decide_eq_true_eq]
    rcases div_mod_succ n with ⟨hq, hr⟩ | ⟨hq, hr, hlast⟩
    · rw [hq, hr]
      split <;> omega
    · rw [hq, hr, hlast]
      simp
      omega

theorem count_minuteTick (n : Nat) :
    Nat.count (minuteTick ·) n = 71582789 * (n / 2 ^ 32) + (n % 2 ^ 32 + 59) / 60 := by
  induction n with
  | zero => rfl
  | succ n ih =>
    rw [Nat.count_succ, ih]
    simp only [minuteTick, decide_eq_true_eq]
    rcases div_mod_succ n with ⟨hq, hr⟩ | ⟨hq, hr, hlast⟩
    · rw [hq, hr]
      split <;> omega
    · rw [hq, hr, hlast]
      simp
      omega

/-- The packets prepared before the `n`-th tick. -/
def preparedBefore (n : Nat) : Nat :=
  Nat.count (heartbeatTick ·) n + Nat.count (minuteTick ·) n

/-- Fewer than 56000 heartbeats after a heartbeat, the packets prepared since do not fill the
range of a `u16_t`: at most one wrap of the second counter comes between them. -/
theorem preparedBefore_sub_lt {i j : Nat} (hij : i < j) (hi : heartbeatTick i = true)
    (h : Nat.count (heartbeatTick ·) j ≤ Nat.count (heartbeatTick ·) i + 56000) :
    preparedBefore i < preparedBefore j ∧ preparedBefore j < preparedBefore i + 2 ^ 16 := by
  have hpos : Nat.count (heartbeatTick ·) i < Nat.count (heartbeatTick ·) j :=
    (Nat.count_lt_count_succ_iff.2 hi).trans_le (Nat.count_monotone _ hij)
  have hmin := Nat.count_monotone (minuteTick ·) hij.le
  refine ⟨Nat.add_lt_add_of_lt_of_le hpos hmin, ?_⟩
  simp only [preparedBefore, count_heartbeatTick, count_minuteTick] at *
  have hri := Nat.mod_lt i (show 2 ^ 32 > 0 by decide)
  have hrj := Nat.mod_lt j (show 2 ^ 32 > 0 by decide)
  generalize i / 2 ^ 32 = qi at *
  generalize i % 2 ^ 32 = ri at *
  generalize j / 2 ^ 32 = qj at *
  generalize j % 2 ^ 32 = rj at *
  have hwrap : qj ≤ qi + 1 := by omega
  omega

/-- The next heartbeat is at most 10 ticks away; it comes early when the counter wraps. -/
theorem exists_heartbeatTick {i : Nat} (hi : heartbeatTick i = true) :
    ∃ k, i < k ∧ k ≤ i + 10 ∧ heartbeatTick k = true := by
  simp only [heartbeatTick, decide_eq_true_eq] at *
  by_cases hr : i % 2 ^ 32 + 10 < 2 ^ 32
  · refine ⟨i + 10, by omega, by omega, ?_⟩
    rw [show (i + 10) % 2 ^ 32 = i % 2 ^ 32 + 10 by omega]
    omega
  · refine ⟨i + (2 ^ 32 - i % 2 ^ 32), by omega, by omega, ?_⟩
    rw [show (i + (2 ^ 32 - i % 2 ^ 32)) % 2 ^ 32 = 0 by omega]

/-! ## A series of ticks -/

theorem umod_eq_zero_iff (n m : Nat) (hm : m < 2 ^ 32) :
    BitVec.ofNat 32 n % BitVec.ofNat 32 m = 0 ↔ n % 2 ^ 32 % m = 0 := by
  rw [← BitVec.toNat_inj, BitVec.toNat_umod, BitVec.toNat_ofNat, BitVec.toNat_ofNat,
    Nat.mod_eq_of_lt hm]
  rfl

theorem heartbeatTick_iff {s : Ticker} {n : Nat} (h : s.secondCounter = BitVec.ofNat 32 n) :
    s.secondCounter % 10 = 0 ↔ heartbeatTick n = true := by
  rw [h, heartbeatTick, decide_eq_true_eq]
  exact umod_eq_zero_iff n 10 (by decide)

theorem minuteTick_iff {s : Ticker} {n : Nat} (h : s.secondCounter = BitVec.ofNat 32 n) :
    s.secondCounter % 60 = 0 ↔ minuteTick n = true := by
  rw [h, minuteTick, decide_eq_true_eq]
  exact umod_eq_zero_iff n 60 (by decide)

/-- `n` ticks have gone by since the sequence counter was at `base`. -/
structure At (base : BitVec 16) (s : Ticker) (n : Nat) : Prop where
  counter : s.secondCounter = BitVec.ofNat 32 n
  sequence : s.protocol.sequence = base + BitVec.ofNat 16 (preparedBefore n)
  usable : s.thread.usableIntfList ≠ []

theorem At.next {base : BitVec 16} {s : Ticker} {n : Nat} (h : At base s n) (o : Order)
    (found : Option Ip) : At base (s.processSecondTick o found).1 (n + 1) := by
  have hf := processSecondTick_frame o found s
  refine ⟨?_, ?_, by rw [hf.usableIntfList]; exact h.usable⟩
  · rw [hf.secondCounter]
    simp only [h.counter, BitVec.ofNat_add]
    rfl
  · rw [processSecondTick_sequence o found h.usable, h.sequence, preparedBefore, preparedBefore,
      Nat.count_succ, Nat.count_succ]
    simp only [heartbeatTick_iff h.counter, minuteTick_iff h.counter]
    cases heartbeatTick n <;> cases minuteTick n <;>
      simp only [if_true, Bool.false_eq_true, if_false] <;>
      simp only [BitVec.ofNat_add] <;> simp <;> ac_rfl

theorem At.isSome_send {base : BitVec 16} {s : Ticker} {n : Nat} (h : At base s n) (o : Order)
    (found : Option Ip) : (s.processSecondTick o found).2.isSome = heartbeatTick n := by
  rw [processSecondTick_send, sendHeartbeatToMcGroup_eq o _ h.usable]
  simp only [heartbeatTick_iff h.counter]
  cases heartbeatTick n <;> rfl

theorem At.sequenceOf_send {base : BitVec 16} {s : Ticker} {n : Nat} (h : At base s n) (o : Order)
    {found : Option Ip} {send : McSend} (hs : (s.processSecondTick o found).2 = some send) :
    sequenceOf send = base + BitVec.ofNat 16 (preparedBefore n) + 1 := by
  rw [processSecondTick_send, sendHeartbeatToMcGroup_eq o _ h.usable] at hs
  split at hs
  · obtain rfl := Option.some.inj hs
    rw [sequenceOf_sent, h.sequence]
  · cases hs

theorem length_ticks (o : Order) : ∀ (ips : List (Option Ip)) (s : Ticker),
    (ticks o s ips).length = ips.length
  | [], _ => rfl
  | _ :: ips, _ => congrArg (· + 1) (length_ticks o ips _)

/-- Every tick of a series is made in the state the ticks before it lead to. -/
theorem ticks_getElem (o : Order) {base : BitVec 16} :
    ∀ {ips : List (Option Ip)} {s : Ticker} {n i : Nat}, At base s n → i < ips.length →
      ∃ t found, At base t (n + i) ∧ (ticks o s ips)[i]? = some (t.processSecondTick o found).2
  | [], _, _, _, _, hi => absurd hi (Nat.not_lt_zero _)
  | found :: _, s, _, 0, h, _ => ⟨s, found, h, rfl⟩
  | found :: ips, s, n, i + 1, h, hi => by
    obtain ⟨t, found', ht, hget⟩ := ticks_getElem o (h.next o found) (Nat.lt_of_succ_lt_succ hi)
    exact ⟨t, found', by rwa [Nat.add_right_comm, Nat.add_assoc] at ht, hget⟩

section Run

variable (o : Order) (p : Protocol) {d : DiscoveryThread} (hne : d.usableIntfList ≠ [])
include hne

theorem at_zero : At p.sequence ⟨p, d, 0⟩ 0 := ⟨rfl, by simp [preparedBefore], hne⟩

/-- **Which ticks send a heartbeat.** -/
theorem ticks_isSome {ips : List (Option Ip)} {i : Nat} (hi : i < ips.length) :
    ∃ x, (ticks o ⟨p, d, 0⟩ ips)[i]? = some x ∧ x.isSome = heartbeatTick i := by
  obtain ⟨t, found, ht, hget⟩ := ticks_getElem o (at_zero p hne) hi
  rw [Nat.zero_add] at ht
  exact ⟨_, hget, ht.isSome_send o found⟩

/-- **The sequence number** of the heartbeat of the `i`-th tick. -/
theorem ticks_sequenceOf {ips : List (Option Ip)} {i : Nat} {send : McSend}
    (hs : (ticks o ⟨p, d, 0⟩ ips)[i]? = some (some send)) :
    heartbeatTick i = true ∧
      sequenceOf send = p.sequence + BitVec.ofNat 16 (preparedBefore i) + 1 := by
  have hi : i < ips.length := by
    rw [← length_ticks o ips ⟨p, d, 0⟩]
    exact (List.getElem?_eq_some_iff.1 hs).1
  obtain ⟨t, found, ht, hget⟩ := ticks_getElem o (at_zero p hne) hi
  rw [Nat.zero_add] at ht
  rw [hs, Option.some.injEq] at hget
  exact ⟨by rw [← ht.isSome_send o found, ← hget]; rfl, ht.sequenceOf_send o hget.symm⟩

/-- The heartbeats among the first `n` ticks. -/
theorem countP_take_ticks (ips : List (Option Ip)) : ∀ {n : Nat}, n ≤ ips.length →
    ((ticks o ⟨p, d, 0⟩ ips).take n).countP Option.isSome = Nat.count (heartbeatTick ·) n
  | 0, _ => rfl
  | n + 1, hn => by
    obtain ⟨x, hget, hx⟩ := ticks_isSome o p hne hn
    rw [List.take_add_one, hget, List.countP_append, countP_take_ticks ips (Nat.le_of_succ_le hn),
      Nat.count_succ, ← hx]
    cases x <;> rfl

end Run

/-- The tick `i` sent a heartbeat. -/
def Sent (sends : List (Option McSend)) (i : Nat) : Prop := ∃ send, sends[i]? = some (some send)

/-- What a series of ticks from a fresh start promises. -/
structure Cadence (sends : List (Option McSend)) : Prop where
  first : sends ≠ [] → Sent sends 0
  next : ∀ i, Sent sends i → i + 10 < sends.length → ∃ j, i < j ∧ j ≤ i + 10 ∧ Sent sends j
  gap : ∀ i j, Sent sends i → Sent sends j → i < j →
    (∀ k, i < k → k < j → ¬ Sent sends k) → j ≤ i + 10
  distinct : ∀ i j a b, sends[i]? = some (some a) → sends[j]? = some (some b) → i < j →
    ((sends.take j).drop (i + 1)).countP Option.isSome < 56000 → sequenceOf a ≠ sequenceOf b

/-- **The cadence of the heartbeats**, over any number of ticks of a thread with usable
interfaces: up to 56, the packet has no room for more (`registration_inBounds_iff`). -/
theorem ticks_cadence (o : Order) (p : Protocol) {d : DiscoveryThread}
    (hne : d.usableIntfList ≠ []) (ips : List (Option Ip)) :
    Cadence (ticks o ⟨p, d, 0⟩ ips) := by
  have hsent : ∀ i, i < ips.length → heartbeatTick i = true →
      Sent (ticks o ⟨p, d, 0⟩ ips) i := by
    intro i hi hb
    obtain ⟨x, hget, hx⟩ := ticks_isSome o p hne hi
    obtain ⟨send, rfl⟩ := Option.isSome_iff_exists.1 (hx.trans hb)
    exact ⟨send, hget⟩
  have hlt : ∀ i, Sent (ticks o ⟨p, d, 0⟩ ips) i → i < ips.length := by
    rintro i ⟨send, hs⟩
    rw [← length_ticks o ips ⟨p, d, 0⟩]
    exact (List.getElem?_eq_some_iff.1 hs).1
  refine ⟨?first, ?next, ?gap, ?distinct⟩
  case first =>
    intro hn
    refine hsent 0 ?_ rfl
    rw [← length_ticks o ips ⟨p, d, 0⟩]
    exact List.length_pos_iff.2 hn
  case next =>
    rintro i ⟨a, ha⟩ hi
    rw [length_ticks] at hi
    obtain ⟨j, hij, hj, hb⟩ := exists_heartbeatTick (ticks_sequenceOf o p hne ha).1
    exact ⟨j, hij, hj, hsent j (Nat.lt_of_le_of_lt hj hi) hb⟩
  case gap =>
    rintro i j ⟨a, ha⟩ hj hij hbetween
    by_contra hc
    obtain ⟨k, hik, hk, hb⟩ := exists_heartbeatTick (ticks_sequenceOf o p hne ha).1
    exact hbetween k hik (by omega) (hsent k (by have := hlt j hj; omega) hb)
  case distinct =>
    intro i j a b ha hb hij hcount hsame
    obtain ⟨hi, hseqa⟩ := ticks_sequenceOf o p hne ha
    obtain ⟨hj, hseqb⟩ := ticks_sequenceOf o p hne hb
    have hjl := hlt j ⟨b, hb⟩
    -- the heartbeats between the two, as a difference of two counts
    have hsplit : ((ticks o ⟨p, d, 0⟩ ips).take (i + 1)).countP Option.isSome +
        (((ticks o ⟨p, d, 0⟩ ips).take j).drop (i + 1)).countP Option.isSome =
        ((ticks o ⟨p, d, 0⟩ ips).take j).countP Option.isSome := by
      rw [← List.countP_append, ← Nat.min_eq_left (show i + 1 ≤ j from hij), ← List.take_take,
        Nat.min_eq_left (show i + 1 ≤ j from hij), List.take_append_drop]
    rw [countP_take_ticks o p hne ips (by omega), countP_take_ticks o p hne ips hjl.le,
      Nat.count_succ, if_pos hi] at hsplit
    obtain ⟨hlo, hhi⟩ := preparedBefore_sub_lt hij hi (by omega)
    rw [hseqa, hseqb, BitVec.add_left_inj, BitVec.add_right_inj] at hsame
    have hnat := congrArg BitVec.toNat hsame
    rw [BitVec.toNat_ofNat, BitVec.toNat_ofNat] at hnat
    omega

/-- A little more than a minute of a thread with one interface. -/
theorem ticks_cadence_sample :
    Cadence (ticks .little ⟨initialized.1, initialized.2, 0⟩ (List.replicate 70 none)) :=
  ticks_cadence .little initialized.1 initialized_ne_nil _

end Ticker
