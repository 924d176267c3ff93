import Graviton.Lib.Buffer
import Graviton.Lib.Numeral
import Graviton.Lib.Word

/-!
# `NodeId` as text

`NodeId` of `libs/base/nodeid.h`. `ToString` prints six components and leaves room for fifteen
characters, thirteen of which are the first three components and the marks around them.

* `toString_eq`: what is left of the other three.
* `toString_ne_iff`: which identifiers print differently.
-/

namespace NodeId

open Lib

/-- `nodeid_t`, by its components. -/
structure NodeidT where
  functionality : Byte
  connection : Byte
  device : Byte
  location : Byte
  network : BitVec 16
  node : BitVec 16
  deriving DecidableEq

/-- `Constant::NodeIdStringLength`. -/
def nodeIdStringLength : Nat := 16

/-- `"%0kx"`. -/
def hex (k n : Nat) : Str := (Nat.toDigits 16 n).leftpad k '0'

/-- `"%d"`, of an octet. -/
def dec (b : Byte) : Str := Nat.toDigits 10 b.toNat

/-- The components that are printed in hex, with the marks after them. -/
def hexPart (v : NodeidT) : Str :=
  hex 2 v.location.toNat ++ ':' :: (hex 4 v.network.toNat ++ ':' :: (hex 4 v.node.toNat ++ ['-']))

/-- The components that are printed in decimal. -/
def decPart (v : NodeidT) : Str :=
  dec v.functionality ++ '-' :: (dec v.connection ++ '-' :: dec v.device)

def toString (v : NodeidT) : Str := snprintf nodeIdStringLength (hexPart v ++ decPart v)

/-- What two characters show of the functionality: all of it, up to two digits. -/
def lead (b : Byte) : Nat := if b.toNat < 100 then b.toNat else b.toNat / 10

/-! ## The first three components -/

theorem numeral_hex (k n : Nat) : numeral 16 (hex k n) = n := by
  rw [hex, numeral_leftpad, numeral_toDigits (by decide) (by decide)]

theorem length_hex {k n : Nat} (hk : 0 < k) (hn : n < 16 ^ k) : (hex k n).length = k :=
  length_leftpad_toDigits hk hn

theorem hexPart_lengths (v : NodeidT) : (hex 2 v.location.toNat).length = 2 ∧
    (hex 4 v.network.toNat).length = 4 ∧ (hex 4 v.node.toNat).length = 4 :=
  ⟨length_hex (by decide) v.location.isLt, length_hex (by decide) v.network.isLt,
    length_hex (by decide) v.node.isLt⟩

theorem length_hexPart (v : NodeidT) : (hexPart v).length = 13 := by
  obtain ⟨h1, h2, h3⟩ := hexPart_lengths v
  simp [hexPart, h1, h2, h3]

theorem hexPart_inj {v w : NodeidT} : hexPart v = hexPart w ↔
    v.location = w.location ∧ v.network = w.network ∧ v.node = w.node := by
  constructor
  · intro h
    obtain ⟨hv1, hv2, hv3⟩ := hexPart_lengths v
    obtain ⟨hw1, hw2, hw3⟩ := hexPart_lengths w
    have hnumber : ∀ {k m n : Nat}, hex k m = hex k n → m = n := by
      intro k m n heq
      rw [← numeral_hex k m, heq, numeral_hex]
    obtain ⟨hlocation, h⟩ := List.append_inj h (hv1.trans hw1.symm)
    obtain ⟨hnetwork, h⟩ := List.append_inj (List.cons.inj h).2 (hv2.trans hw2.symm)
    obtain ⟨hnode, -⟩ := List.append_inj (List.cons.inj h).2 (hv3.trans hw3.symm)
    exact ⟨BitVec.eq_of_toNat_eq (hnumber hlocation), BitVec.eq_of_toNat_eq (hnumber hnetwork),
      BitVec.eq_of_toNat_eq (hnumber hnode)⟩
  · rintro ⟨h1, h2, h3⟩
    rw [hexPart, hexPart, h1, h2, h3]

/-! ## The other three -/

/-- The two characters of the decimal part that are printed. -/
def leadText (b : Byte) : Str := (dec b ++ ['-']).take 2

theorem take_decPart (v : NodeidT) : (decPart v).take 2 = leadText v.functionality := by
  have hdec : 0 < (dec v.functionality).length :=
    List.length_pos_of_ne_nil (Nat.toDigits_ne_nil)
  rw [decPart, leadText, ← List.singleton_append, ← List.append_assoc,
    List.take_append_of_le_length (by simp only [List.length_append, List.length_singleton]; omega)]

/-- **What is printed**: the first three components, and two characters. -/
theorem toString_eq (v : NodeidT) : toString v = hexPart v ++ leadText v.functionality := by
  have hsize : nodeIdStringLength - 1 = (hexPart v).length + 2 := by rw [length_hexPart]; rfl
  rw [toString, snprintf, hsize, List.take_length_add_append, take_decPart]

theorem lead_lt (b : Byte) : lead b < 100 := by
  have := b.isLt
  rw [lead]
  split <;> omega

/-- The characters are those of the leading digits. -/
theorem leadText_eq (b : Byte) : leadText b = (Nat.toDigits 10 (lead b) ++ ['-']).take 2 := by
  rw [leadText, dec, lead]
  split
  · rfl
  · have hb := b.isLt
    have hlen : (Nat.toDigits 10 (b.toNat / 10)).length ≥ 2 := by
      have h1 : ¬ (Nat.toDigits 10 (b.toNat / 10)).length ≤ 1 := by
        rw [Nat.length_toDigits_le_iff (by decide) (by decide)]
        omega
      omega
    rw [Nat.toDigits_eq_if (by decide), if_neg (by omega), List.append_assoc,
      List.take_append_of_le_length hlen, List.take_append_of_le_length hlen]

/-- The digits are read back. -/
theorem numeral_leadText (b : Byte) : numeral 10 ((leadText b).takeWhile isDigit) = lead b := by
  have hlen : (Nat.toDigits 10 (lead b)).length ≤ 2 :=
    (Nat.length_toDigits_le_iff (by decide) (by decide)).2 (lead_lt b)
  have hdigits : ∀ c ∈ Nat.toDigits 10 (lead b), isDigit c = true :=
    fun _ hc => isDigit_of_mem_toDigits hc
  have hmark : ∀ k, ((['-'] : Str).take k).takeWhile isDigit = []
    | 0 => rfl
    | _ + 1 => rfl
  rw [leadText_eq, List.take_append, List.take_of_length_le hlen,
    List.takeWhile_append_of_pos hdigits, hmark, List.append_nil,
    numeral_toDigits (by decide) (by decide)]

theorem leadText_inj {b c : Byte} : leadText b = leadText c ↔ lead b = lead c := by
  constructor
  · intro h
    rw [← numeral_leadText b, h, numeral_leadText]
  · intro h
    rw [leadText_eq, h, ← leadText_eq]

/-- **Which identifiers print differently**: those that differ in the first three components, or
in the leading digits of the functionality. -/
theorem toString_ne_iff (v w : NodeidT) :
    toString v ≠ toString w ↔ v.location ≠ w.location ∨ v.network ≠ w.network ∨
      v.node ≠ w.node ∨ lead v.functionality ≠ lead w.functionality := by
  have heq : toString v = toString w ↔ (v.location = w.location ∧ v.network = w.network ∧
      v.node = w.node) ∧ lead v.functionality = lead w.functionality := by
    rw [toString_eq, toString_eq, ← hexPart_inj, ← leadText_inj]
    constructor
    · exact fun h => List.append_inj h ((length_hexPart v).trans (length_hexPart w).symm)
    · rintro ⟨h1, h2⟩
      rw [h1, h2]
  rw [ne_eq, heq, not_and_or, not_and_or, not_and_or, or_assoc, or_assoc]

/-- Two devices of one node. -/
theorem toString_device :
    (⟨1, 2, 3, 4, 5, 6⟩ : NodeidT) ≠ ⟨1, 2, 0, 4, 5, 6⟩ ∧
      toString ⟨1, 2, 3, 4, 5, 6⟩ = "04:0005:0006-1-".toList ∧
      toString ⟨1, 2, 0, 4, 5, 6⟩ = "04:0005:0006-1-".toList := by
  decide

end NodeId
