import Mathlib.Algebra.Order.Floor.Div
import Mathlib.Data.List.Basic
import Mathlib.Data.Nat.Bits
import Mathlib.Tactic

/-!
# Machine words as bytes

The bytes of a word in memory (`leBytes`, `beBytes`), on a host of either byte order
(`Order.bytes`), and the number a byte string denotes (`ofLe`, `ofBe`). The bytes of a word
denote its value (`ofBe_beBytes`); a word stored and loaded on the same host is unchanged
(`Order.load_bytes`), and so are bytes loaded and stored (`Order.bytes_load`). A function that
reverses the bytes of every word (`ReversesBytes`) reverses them in memory, and undoes itself.
-/

namespace Lib

abbrev Byte := BitVec 8

inductive Order
  | little
  | big
  deriving DecidableEq, Repr

/-- Byte `k` of a word; byte 0 is the least significant one. -/
def byteAt {w : Nat} (v : BitVec w) (k : Nat) : Byte := v.extractLsb' (8 * k) 8

/-- The low `n` bytes of a word, least significant first. -/
def leBytes {w : Nat} (n : Nat) (v : BitVec w) : List Byte := (List.range n).map (byteAt v)

/-- The low `n` bytes of a word, most significant first (network order). -/
def beBytes {w : Nat} (n : Nat) (v : BitVec w) : List Byte := (leBytes n v).reverse

/-- The `n` bytes of a word as the host lays them out. -/
def Order.bytes {w : Nat} : Order → Nat → BitVec w → List Byte
  | .little, n, v => leBytes n v
  | .big, n, v => beBytes n v

/-- The number a byte string denotes, least significant byte first. -/
def ofLe : List Byte → Nat
  | [] => 0
  | b :: bs => b.toNat + 256 * ofLe bs

/-- The number a byte string denotes, most significant byte first. -/
def ofBe (bs : List Byte) : Nat := ofLe bs.reverse

/-- The number the host reads from a byte string. -/
def Order.load : Order → List Byte → Nat
  | .little, bs => ofLe bs
  | .big, bs => ofBe bs

/-! ## Lengths -/

@[simp] theorem leBytes_length {w : Nat} (n : Nat) (v : BitVec w) : (leBytes n v).length = n := by
  simp [leBytes]

@[simp] theorem beBytes_length {w : Nat} (n : Nat) (v : BitVec w) : (beBytes n v).length = n := by
  simp [beBytes]

@[simp] theorem Order.bytes_length {w : Nat} (o : Order) (n : Nat) (v : BitVec w) :
    (o.bytes n v).length = n := by
  cases o <;> simp [Order.bytes]

/-! ## The value of a byte string -/

theorem byteAt_toNat {w : Nat} (v : BitVec w) (k : Nat) :
    (byteAt v k).toNat = v.toNat / 256 ^ k % 256 := by
  rw [byteAt, BitVec.extractLsb'_toNat, Nat.shiftRight_eq_div_pow, Nat.pow_mul]

theorem leBytes_succ {w : Nat} (n : Nat) (v : BitVec w) :
    leBytes (n + 1) v = leBytes n v ++ [byteAt v n] := by
  simp [leBytes, List.range_succ]

theorem ofLe_append_singleton (bs : List Byte) (b : Byte) :
    ofLe (bs ++ [b]) = ofLe bs + 256 ^ bs.length * b.toNat := by
  induction bs with
  | nil => simp [ofLe]
  | cons c bs ih =>
    simp only [List.cons_append, ofLe, ih, List.length_cons]
    ring

theorem ofLe_leBytes_mod {w : Nat} (n : Nat) (v : BitVec w) :
    ofLe (leBytes n v) = v.toNat % 256 ^ n := by
  induction n with
  | zero => simp [leBytes, ofLe, Nat.mod_one]
  | succ n ih =>
    rw [leBytes_succ, ofLe_append_singleton, ih, leBytes_length, byteAt_toNat, Nat.pow_succ,
      Nat.mod_mul]

theorem ofLe_leBytes {w : Nat} {n : Nat} (v : BitVec w) (h : w ≤ 8 * n) :
    ofLe (leBytes n v) = v.toNat := by
  rw [ofLe_leBytes_mod, Nat.mod_eq_of_lt]
  calc v.toNat < 2 ^ w := v.isLt
    _ ≤ 2 ^ (8 * n) := Nat.pow_le_pow_right (by decide) h
    _ = 256 ^ n := by rw [Nat.pow_mul]

theorem ofBe_beBytes {w : Nat} {n : Nat} (v : BitVec w) (h : w ≤ 8 * n) :
    ofBe (beBytes n v) = v.toNat := by
  rw [ofBe, beBytes, List.reverse_reverse, ofLe_leBytes v h]

theorem Order.load_bytes {w : Nat} {n : Nat} (o : Order) (v : BitVec w) (h : w ≤ 8 * n) :
    o.load (o.bytes n v) = v.toNat := by
  cases o
  · exact ofLe_leBytes v h
  · exact ofBe_beBytes v h

theorem Order.bytes_inj {w : Nat} {n : Nat} {o : Order} {v v' : BitVec w} (h : w ≤ 8 * n)
    (he : o.bytes n v = o.bytes n v') : v = v' := by
  apply BitVec.eq_of_toNat_eq
  rw [← o.load_bytes v h, he, o.load_bytes v' h]

theorem ofLe_lt : ∀ bs : List Byte, ofLe bs < 256 ^ bs.length
  | [] => Nat.one_pos
  | b :: bs => by
    have hb := b.isLt
    have ih := ofLe_lt bs
    rw [ofLe, List.length_cons, Nat.pow_succ]
    omega

theorem ofLe_inj : ∀ {bs bs' : List Byte}, bs.length = bs'.length → ofLe bs = ofLe bs' → bs = bs'
  | [], [], _, _ => rfl
  | b :: bs, b' :: bs', hl, h => by
    have hb := b.isLt
    have hb' := b'.isLt
    rw [ofLe, ofLe] at h
    obtain rfl : b = b' := BitVec.eq_of_toNat_eq (by omega)
    rw [ofLe_inj (Nat.succ.inj hl) (by omega)]

theorem leBytes_ofLe {w : Nat} {bs : List Byte} (h : 8 * bs.length = w) :
    leBytes bs.length (BitVec.ofNat w (ofLe bs)) = bs := by
  refine ofLe_inj (leBytes_length _ _) ?_
  rw [ofLe_leBytes _ (Nat.le_of_eq h.symm), BitVec.toNat_ofNat, Nat.mod_eq_of_lt]
  calc ofLe bs < 256 ^ bs.length := ofLe_lt bs
    _ = 2 ^ w := by rw [← h, Nat.pow_mul]

/-- A word loaded and stored on the same host is the bytes it was loaded from. -/
theorem Order.bytes_load {w n : Nat} (o : Order) {bs : List Byte} (hn : bs.length = n)
    (h : 8 * n = w) : o.bytes n (BitVec.ofNat w (o.load bs)) = bs := by
  subst hn
  cases o
  · exact leBytes_ofLe h
  · have hr : 8 * bs.reverse.length = w := by rwa [List.length_reverse]
    have := congrArg List.reverse (leBytes_ofLe hr)
    rwa [List.length_reverse, List.reverse_reverse] at this

theorem leBytes_zero {w : Nat} (n : Nat) : leBytes n 0#w = List.replicate n 0 := by
  refine List.eq_replicate_iff.2 ⟨leBytes_length n _, fun b hb => ?_⟩
  obtain ⟨k, -, rfl⟩ := List.mem_map.1 hb
  simp [byteAt]

/-- Zero lies in memory the same way on both hosts. -/
@[simp] theorem Order.bytes_zero {w : Nat} (o : Order) (n : Nat) :
    o.bytes n 0#w = beBytes n 0#w := by
  cases o
  · rw [beBytes, leBytes_zero, List.reverse_replicate]
    exact leBytes_zero n
  · rfl

/-! ## Words put together from bytes -/

theorem byteAt_or {w : Nat} (v v' : BitVec w) (k : Nat) :
    byteAt (v ||| v') k = byteAt v k ||| byteAt v' k := BitVec.extractLsb'_or

theorem byteAt_and {w : Nat} (v v' : BitVec w) (k : Nat) :
    byteAt (v &&& v') k = byteAt v k &&& byteAt v' k := BitVec.extractLsb'_and

/-- The bytes of a word shifted right by whole bytes. -/
theorem byteAt_ushiftRight {w s : Nat} (v : BitVec w) (k : Nat) (hs : s % 8 = 0) :
    byteAt (v >>> s) k = byteAt v (k + s / 8) := by
  apply BitVec.eq_of_getLsbD_eq
  intro i hi
  rw [byteAt, byteAt, BitVec.getLsbD_extractLsb', BitVec.getLsbD_extractLsb',
    BitVec.getLsbD_ushiftRight, show s + (8 * k + i) = 8 * (k + s / 8) + i by omega]

/-- The bytes of a word shifted left by whole bytes. -/
theorem byteAt_shiftLeft {w s k : Nat} (v : BitVec w) (hs : s % 8 = 0) (hk : 8 * k + 8 ≤ w) :
    byteAt (v <<< s) k = if k < s / 8 then 0 else byteAt v (k - s / 8) := by
  apply BitVec.eq_of_getLsbD_eq
  intro i hi
  rw [byteAt, BitVec.getLsbD_extractLsb', BitVec.getLsbD_shiftLeft,
    decide_eq_true (show 8 * k + i < w by omega)]
  split
  · rw [decide_eq_true (show 8 * k + i < s by omega)]
    simp
  · rw [decide_eq_false (show ¬ 8 * k + i < s by omega), byteAt, BitVec.getLsbD_extractLsb',
      show 8 * k + i - s = 8 * (k - s / 8) + i by omega]
    simp

/-- `f` puts the low `n` bytes of a word the other way round. -/
def ReversesBytes {w : Nat} (n : Nat) (f : BitVec w → BitVec w) : Prop :=
  ∀ v, ∀ k < n, byteAt (f v) k = byteAt v (n - 1 - k)

namespace ReversesBytes

variable {w n : Nat} {f : BitVec w → BitVec w}

theorem leBytes_eq (h : ReversesBytes n f) (v : BitVec w) : leBytes n (f v) = beBytes n v := by
  apply List.ext_getElem (by simp)
  intro k hk _
  have hk : k < n := by simpa using hk
  simp [beBytes, leBytes, List.getElem_reverse, h v k hk]

theorem beBytes_eq (h : ReversesBytes n f) (v : BitVec w) : beBytes n (f v) = leBytes n v := by
  rw [beBytes, h.leBytes_eq, beBytes, List.reverse_reverse]

/-- On either host, the bytes in memory are reversed. -/
theorem bytes_eq (h : ReversesBytes n f) (o : Order) (v : BitVec w) :
    o.bytes n (f v) = (o.bytes n v).reverse := by
  cases o
  · exact h.leBytes_eq v
  · exact (h.beBytes_eq v).trans (List.reverse_reverse _).symm

theorem involutive (h : ReversesBytes n f) (hw : w ≤ 8 * n) (v : BitVec w) : f (f v) = v := by
  apply Order.bytes_inj (o := .little) hw
  rw [h.bytes_eq, h.bytes_eq, List.reverse_reverse]

end ReversesBytes

/-! ## Rounding -/

/-- The least multiple of `a` from `n` on. -/
theorem isLeast_mul_ceilDiv {a : Nat} (h : 0 < a) (n : Nat) :
    IsLeast {m | a ∣ m ∧ n ≤ m} (a * (n ⌈/⌉ a)) := by
  refine ⟨⟨Nat.dvd_mul_right a _, le_smul_ceilDiv h⟩, ?_⟩
  rintro _ ⟨⟨k, rfl⟩, hn⟩
  exact Nat.mul_le_mul_left a ((ceilDiv_le_iff_le_smul h).2 hn)

/-! ## Masks -/

/-- A mask of the bits `k` to `n - 1` keeps the multiple of `2 ^ k` below `x`, modulo `2 ^ n`. -/
theorem and_high_mask (x : Nat) {k n : Nat} (h : k ≤ n) :
    x &&& (2 ^ (n - k) - 1) * 2 ^ k = 2 ^ k * (x % 2 ^ n / 2 ^ k) := by
  apply Nat.eq_of_testBit_eq
  intro j
  rw [Nat.testBit_and, Nat.testBit_mul_two_pow, Nat.mul_comm, Nat.testBit_mul_two_pow,
    Nat.testBit_two_pow_sub_one, Nat.testBit_div_two_pow, Nat.testBit_mod_two_pow]
  by_cases hj : k ≤ j
  · rw [Nat.sub_add_cancel hj, show decide (j - k < n - k) = decide (j < n) by
      rw [decide_eq_decide]; omega]
    simp [hj, Bool.and_comm]
  · simp [hj]

end Lib
