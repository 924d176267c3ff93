import Graviton.Lib.Text

/-!
# Numerals

The number a text of digits denotes in a base up to sixteen (`numeral`), against the text that
is printed for a number (`Nat.toDigits`), and `strtoul` of the C library.

* `numeral_append`: a numeral in two pieces; `numeral_lt`: its bound.
* `numeral_toDigits`: a printed number denotes itself; `numeral_leftpad`: so does a padded one.
* `columns_lt_iff`: columns of digits sort as text as their numbers do.
* `strtoul_of_digits`: `strtoul` of digits alone is their numeral; `strtoul_ten` is for any text in
  base ten.
-/

namespace Lib

/-- `isdigit` in the C locale. -/
def isDigit (c : Char) : Bool := '0' ≤ c && c ≤ '9'

/-- `isxdigit` in the C locale. -/
def isXDigit (c : Char) : Bool := isDigit c || ('a' ≤ c && c ≤ 'f') || ('A' ≤ c && c ≤ 'F')

/-- The value of a digit; its code point places it in one of the three ranges. -/
def digitVal (c : Char) : Nat :=
  if c.toNat < 58 then c.toNat - 48 else if c.toNat < 71 then c.toNat - 55 else c.toNat - 87

/-- The digits of a base. -/
def isDigitOf (b : Nat) (c : Char) : Bool := isXDigit c && digitVal c < b

/-- The number a text of digits denotes. -/
def numeral (b : Nat) (s : Str) : Nat := s.foldl (fun n c => b * n + digitVal c) 0

/-! ## Digits -/

theorem isDigit_iff (c : Char) : isDigit c = true ↔ 48 ≤ c.toNat ∧ c.toNat ≤ 57 := by
  simp only [isDigit, Bool.and_eq_true, decide_eq_true_eq, Char.le_def, UInt32.le_iff_toNat_le]
  exact Iff.rfl

theorem isXDigit_iff (c : Char) : isXDigit c = true ↔
    48 ≤ c.toNat ∧ c.toNat ≤ 57 ∨ 97 ≤ c.toNat ∧ c.toNat ≤ 102 ∨ 65 ≤ c.toNat ∧ c.toNat ≤ 70 := by
  simp only [isXDigit, Bool.or_eq_true, isDigit_iff, Bool.and_eq_true, decide_eq_true_eq,
    Char.le_def, UInt32.le_iff_toNat_le, or_assoc]
  exact Iff.rfl

/-- The decimal digits are those of base ten. -/
theorem isDigitOf_ten (c : Char) : isDigitOf 10 c = isDigit c := by
  rw [Bool.eq_iff_iff, isDigitOf, Bool.and_eq_true, isXDigit_iff, isDigit_iff, decide_eq_true_eq,
    digitVal]
  split
  · omega
  · split <;> omega

theorem isDigitOf_sixteen (c : Char) : isDigitOf 16 c = isXDigit c := by
  rw [Bool.eq_iff_iff, isDigitOf, Bool.and_eq_true, isXDigit_iff, decide_eq_true_eq, digitVal]
  split
  · omega
  · split <;> omega

theorem digitVal_digitChar : ∀ {d : Nat}, d < 16 → digitVal d.digitChar = d
  | 0, _ | 1, _ | 2, _ | 3, _ | 4, _ | 5, _ | 6, _ | 7, _ | 8, _ | 9, _ | 10, _ | 11, _ | 12, _
  | 13, _ | 14, _ | 15, _ => by decide
  | _ + 16, h => absurd h (by omega)

theorem isXDigit_digitChar : ∀ {d : Nat}, d < 16 → isXDigit d.digitChar = true
  | 0, _ | 1, _ | 2, _ | 3, _ | 4, _ | 5, _ | 6, _ | 7, _ | 8, _ | 9, _ | 10, _ | 11, _ | 12, _
  | 13, _ | 14, _ | 15, _ => by decide
  | _ + 16, h => absurd h (by omega)

theorem isDigitOf_digitChar {b d : Nat} (hd : d < b) (hb : b ≤ 16) :
    isDigitOf b d.digitChar = true := by
  have hd' : d < 16 := Nat.lt_of_lt_of_le hd hb
  rw [isDigitOf, isXDigit_digitChar hd', digitVal_digitChar hd', Bool.true_and,
    decide_eq_true_eq]
  exact hd

/-! ## The value of a numeral -/

@[simp] theorem numeral_nil (b : Nat) : numeral b [] = 0 := rfl

theorem numeral_append_singleton (b : Nat) (s : Str) (c : Char) :
    numeral b (s ++ [c]) = b * numeral b s + digitVal c := by
  simp [numeral]

theorem numeral_append (b : Nat) (s t : Str) :
    numeral b (s ++ t) = b ^ t.length * numeral b s + numeral b t := by
  induction t using List.reverseRecOn with
  | nil => simp
  | append_singleton t c ih =>
    rw [← List.append_assoc, numeral_append_singleton, ih, numeral_append_singleton,
      List.length_append, List.length_singleton, Nat.pow_succ]
    ring

theorem numeral_lt {b : Nat} {s : Str} (h : ∀ c ∈ s, isDigitOf b c = true) :
    numeral b s < b ^ s.length := by
  induction s using List.reverseRecOn with
  | nil => simp
  | append_singleton s c ih =>
    obtain ⟨hs, hc⟩ := List.forall_mem_append.1 h
    have hd : digitVal c < b := by
      have := hc c (.head _)
      rw [isDigitOf, Bool.and_eq_true, decide_eq_true_eq] at this
      exact this.2
    rw [numeral_append_singleton, List.length_append, List.length_singleton, Nat.pow_succ]
    calc b * numeral b s + digitVal c < b * numeral b s + b := Nat.add_lt_add_left hd _
      _ = b * (numeral b s + 1) := by ring
      _ ≤ b * b ^ s.length := Nat.mul_le_mul_left b (ih hs)
      _ = b ^ s.length * b := Nat.mul_comm _ _

theorem numeral_lt_of_length_le {b k : Nat} {s : Str} (hb : 0 < b)
    (h : ∀ c ∈ s, isDigitOf b c = true) (hl : s.length ≤ k) : numeral b s < b ^ k :=
  Nat.lt_of_lt_of_le (numeral_lt h) (Nat.pow_le_pow_right hb hl)

theorem numeral_replicate_zero (b k : Nat) : numeral b (List.replicate k '0') = 0 := by
  induction k with
  | zero => rfl
  | succ k ih => rw [List.replicate_succ', numeral_append_singleton, ih]; rfl

/-! ## Printed numbers -/

/-- **A printed number** denotes itself. -/
theorem numeral_toDigits {b : Nat} (h1 : 1 < b) (hb : b ≤ 16) (n : Nat) :
    numeral b (Nat.toDigits b n) = n := by
  induction n using Nat.strongRecOn with
  | ind n ih =>
    rw [Nat.toDigits_eq_if h1]
    split
    · rename_i hn
      exact (Nat.zero_add _).trans (digitVal_digitChar (Nat.lt_of_lt_of_le hn hb))
    · rename_i hn
      have hlt : n / b < n := Nat.div_lt_self (by omega) h1
      have hmod : n % b < 16 := Nat.lt_of_lt_of_le (Nat.mod_lt _ (by omega)) hb
      rw [numeral_append_singleton, ih _ hlt, digitVal_digitChar hmod, Nat.div_add_mod]

theorem isDigitOf_of_mem_toDigits {b : Nat} (h1 : 1 < b) (hb : b ≤ 16) {n : Nat} {c : Char}
    (h : c ∈ Nat.toDigits b n) : isDigitOf b c = true := by
  induction n using Nat.strongRecOn with
  | ind n ih =>
    rw [Nat.toDigits_eq_if h1] at h
    split at h
    · rename_i hn
      rw [List.mem_singleton.1 h]
      exact isDigitOf_digitChar hn hb
    · rename_i hn
      rcases List.mem_append.1 h with h | h
      · exact ih _ (Nat.div_lt_self (by omega) h1) h
      · rw [List.mem_singleton.1 h]
        exact isDigitOf_digitChar (Nat.mod_lt _ (by omega)) hb

/-- The characters of a decimal number. -/
theorem isDigit_of_mem_toDigits {n : Nat} {c : Char} (h : c ∈ Nat.toDigits 10 n) :
    isDigit c = true := by
  rw [← isDigitOf_ten]
  exact isDigitOf_of_mem_toDigits (by decide) (by decide) h

/-! ## Padded numbers -/

theorem numeral_leftpad (b k : Nat) (s : Str) : numeral b (s.leftpad k '0') = numeral b s := by
  rw [List.leftpad, numeral_append, numeral_replicate_zero, Nat.mul_zero, Nat.zero_add]

theorem isXDigit_of_mem_leftpad {k n : Nat} {c : Char}
    (h : c ∈ (Nat.toDigits 16 n).leftpad k '0') : isXDigit c = true := by
  rcases List.mem_append.1 h with h | h
  · rw [List.eq_of_mem_replicate h]
    rfl
  · rw [← isDigitOf_sixteen]
    exact isDigitOf_of_mem_toDigits (by decide) (by decide) h

theorem length_leftpad_toDigits {k n : Nat} (hk : 0 < k) (hn : n < 16 ^ k) :
    ((Nat.toDigits 16 n).leftpad k '0').length = k := by
  rw [List.length_leftpad]
  exact Nat.max_eq_left ((Nat.length_toDigits_le_iff (by decide) hk).2 hn)

theorem isDigit_of_mem_leftpad {k n : Nat} {c : Char}
    (h : c ∈ (Nat.toDigits 10 n).leftpad k '0') : isDigit c = true := by
  rcases List.mem_append.1 h with h | h
  · rw [List.eq_of_mem_replicate h]
    rfl
  · exact isDigit_of_mem_toDigits h

theorem leftpad_toDigits_ne_nil {b k n : Nat} : (Nat.toDigits b n).leftpad k '0' ≠ [] := by
  rw [List.leftpad, ne_eq, List.append_eq_nil_iff, not_and]
  exact fun _ => Nat.toDigits_ne_nil

theorem numeral_leftpad_toDigits (k n : Nat) :
    numeral 10 ((Nat.toDigits 10 n).leftpad k '0') = n := by
  rw [numeral_leftpad, numeral_toDigits (by decide) (by decide)]

/-! ## The order of numerals -/

theorem append_lt_append_iff : ∀ {s s' t t' : Str}, s.length = s'.length →
    (s ++ t < s' ++ t' ↔ s < s' ∨ s = s' ∧ t < t')
  | [], [], _, _, _ => by simp
  | c :: s, d :: s', t, t', h => by
    have ih : s ++ t < s' ++ t' ↔ s < s' ∨ s = s' ∧ t < t' :=
      append_lt_append_iff (Nat.succ.inj h)
    rw [List.cons_append, List.cons_append, List.cons_lt_cons_iff, List.cons_lt_cons_iff, ih,
      List.cons.injEq]
    tauto

theorem digitVal_lt_iff {c d : Char} (hc : isDigit c = true) (hd : isDigit d = true) :
    digitVal c < digitVal d ↔ c < d := by
  rw [isDigit_iff] at hc hd
  rw [digitVal, digitVal, if_pos (by omega), if_pos (by omega), Char.lt_def, UInt32.lt_iff_toNat_lt]
  show _ ↔ c.toNat < d.toNat
  omega

theorem digitVal_inj {c d : Char} (hc : isDigit c = true) (hd : isDigit d = true) :
    digitVal c = digitVal d ↔ c = d := by
  refine ⟨fun heq => Char.toNat_inj.1 ?_, congrArg _⟩
  rw [isDigit_iff] at hc hd
  rw [digitVal, digitVal, if_pos (by omega), if_pos (by omega)] at heq
  omega

theorem numeral_cons (b : Nat) (c : Char) (s : Str) :
    numeral b (c :: s) = b ^ s.length * digitVal c + numeral b s := by
  have hone : numeral b [c] = digitVal c := Nat.zero_add _
  rw [← List.singleton_append, numeral_append, hone]

/-- **Digits of one length** are in the order of the numbers they denote. -/
theorem lt_iff_numeral_lt : ∀ {s t : Str}, s.length = t.length → (∀ c ∈ s, isDigit c = true) →
    (∀ c ∈ t, isDigit c = true) → (s < t ↔ numeral 10 s < numeral 10 t)
  | [], [], _, _, _ => by simp
  | c :: s, d :: t, h, hs, ht => by
    obtain ⟨hc, hs⟩ := List.forall_mem_cons.1 hs
    obtain ⟨hd, ht⟩ := List.forall_mem_cons.1 ht
    have hlen : s.length = t.length := Nat.succ.inj h
    have hs10 := numeral_lt fun c hc => (isDigitOf_ten c).trans (hs c hc)
    have ht10 := numeral_lt fun c hc => (isDigitOf_ten c).trans (ht c hc)
    rw [hlen] at hs10
    rw [List.cons_lt_cons_iff, lt_iff_numeral_lt hlen hs ht, ← digitVal_lt_iff hc hd,
      ← digitVal_inj hc hd, numeral_cons, numeral_cons, hlen]
    constructor
    · rintro (hlt | ⟨heq, hlt⟩)
      · calc 10 ^ t.length * digitVal c + numeral 10 s
            < 10 ^ t.length * (digitVal c + 1) := by rw [Nat.mul_succ]; omega
          _ ≤ 10 ^ t.length * digitVal d := Nat.mul_le_mul_left _ hlt
          _ ≤ 10 ^ t.length * digitVal d + numeral 10 t := Nat.le_add_right _ _
      · rw [heq]
        omega
    · intro hlt
      rcases Nat.lt_trichotomy (digitVal c) (digitVal d) with hcd | hcd | hcd
      · exact .inl hcd
      · rw [hcd] at hlt
        exact .inr ⟨hcd, by omega⟩
      · have hle : 10 ^ t.length * (digitVal d + 1) ≤ 10 ^ t.length * digitVal c :=
          Nat.mul_le_mul_left _ hcd
        rw [Nat.mul_succ] at hle
        omega

/-- Numbers in columns of `k` digits. -/
def columns (k : Nat) (ns : List Nat) : Str :=
  ns.flatMap fun n => (Nat.toDigits 10 n).leftpad k '0'

/-- **Columns** sort as the lists of the numbers. -/
theorem columns_lt_iff {k : Nat} (hk : 0 < k) : ∀ {ms ns : List Nat}, ms.length = ns.length →
    (∀ m ∈ ms, m < 10 ^ k) → (∀ n ∈ ns, n < 10 ^ k) → (columns k ms < columns k ns ↔ ms < ns)
  | [], [], _, _, _ => by simp [columns]
  | m :: ms, n :: ns, h, hms, hns => by
    obtain ⟨hm, hms⟩ := List.forall_mem_cons.1 hms
    obtain ⟨hn, hns⟩ := List.forall_mem_cons.1 hns
    have ih := columns_lt_iff hk (Nat.succ.inj h) hms hns
    have hwidth : ∀ {n : Nat}, n < 10 ^ k → ((Nat.toDigits 10 n).leftpad k '0').length = k := by
      intro n hn
      rw [List.length_leftpad]
      exact Nat.max_eq_left ((Nat.length_toDigits_le_iff (by decide) hk).2 hn)
    have hlen := (hwidth hm).trans (hwidth hn).symm
    have heq : (Nat.toDigits 10 m).leftpad k '0' = (Nat.toDigits 10 n).leftpad k '0' ↔ m = n := by
      refine ⟨fun heq => ?_, fun heq => by rw [heq]⟩
      rw [← numeral_leftpad_toDigits k m, heq, numeral_leftpad_toDigits]
    have hlt := lt_iff_numeral_lt hlen (fun _ => isDigit_of_mem_leftpad)
      fun _ => isDigit_of_mem_leftpad
    rw [numeral_leftpad_toDigits, numeral_leftpad_toDigits] at hlt
    rw [columns, columns] at ih ⊢
    rw [List.flatMap_cons, List.flatMap_cons, append_lt_append_iff hlen, hlt, heq, ih,
      List.cons_lt_cons_iff]

/-! ## `strtoul` -/

/-- Base sixteen allows a `0x` before the digits. -/
def skipMarker : Str → Str
  | '0' :: x :: d :: s => if (x = 'x' || x = 'X') && isXDigit d then d :: s else '0' :: x :: d :: s
  | s => s

/-- The digits at the start of a text as an `unsigned long`; `ULONG_MAX` for a number that does
not fit. -/
def strtoulDigits (b : Nat) (negative : Bool) (s : Str) : BitVec 64 :=
  let n := numeral b ((if b = 16 then skipMarker s else s).takeWhile (isDigitOf b))
  if 2 ^ 64 ≤ n then BitVec.allOnes 64
  else if negative then -BitVec.ofNat 64 n else BitVec.ofNat 64 n

/-- `strtoul(s, NULL, b)` for the bases ten and sixteen: white space, a sign, and digits as far
as they go. -/
def strtoul (b : Nat) (s : Str) : BitVec 64 :=
  match s.dropWhile isSpace with
  | '-' :: s => strtoulDigits b true s
  | '+' :: s => strtoulDigits b false s
  | s => strtoulDigits b false s

theorem not_isSpace_of_isXDigit {c : Char} (h : isXDigit c = true) : isSpace c = false := by
  rw [isXDigit_iff] at h
  rw [isSpace, decide_eq_false_iff_not]
  intro hm
  simp only [List.mem_cons, List.not_mem_nil, or_false] at hm
  rcases hm with rfl | rfl | rfl | rfl | rfl | rfl <;> revert h <;> decide

theorem skipMarker_of_digits {s : Str} (h : ∀ c ∈ s, isXDigit c = true) : skipMarker s = s := by
  unfold skipMarker
  split
  · rename_i x d s
    have hx : isXDigit x = true := h x (.tail _ (.head _))
    have h1 : x ≠ 'x' := by rintro rfl; exact absurd hx (by decide)
    have h2 : x ≠ 'X' := by rintro rfl; exact absurd hx (by decide)
    rw [if_neg (by simp [h1, h2])]
  · rfl

theorem strtoul_unsigned {b : Nat} {c : Char} {s t : Str} (hs : s.dropWhile isSpace = c :: t)
    (hminus : c ≠ '-') (hplus : c ≠ '+') : strtoul b s = strtoulDigits b false (c :: t) := by
  rw [strtoul, hs]
  split
  · rename_i heq
    cases heq
    exact absurd rfl hminus
  · rename_i heq
    cases heq
    exact absurd rfl hplus
  · rfl

/-- A text that starts with a digit has no white space or sign to skip. -/
theorem strtoul_cons {b : Nat} {c : Char} (h : isXDigit c = true) (s : Str) :
    strtoul b (c :: s) = strtoulDigits b false (c :: s) := by
  refine strtoul_unsigned ?_ ?_ ?_
  · exact List.dropWhile_cons_of_neg (by simp [not_isSpace_of_isXDigit h])
  · rintro rfl
    exact absurd h (by decide)
  · rintro rfl
    exact absurd h (by decide)

/-- **`strtoul` of digits** that denote a number that fits. -/
theorem strtoul_of_digits {b : Nat} {s : Str} (h : ∀ c ∈ s, isDigitOf b c = true)
    (hn : numeral b s < 2 ^ 64) : strtoul b s = BitVec.ofNat 64 (numeral b s) := by
  have hx : ∀ c ∈ s, isXDigit c = true := fun c hc => (Bool.and_eq_true_iff.1 (h c hc)).1
  have hdigits : strtoulDigits b false s = BitVec.ofNat 64 (numeral b s) := by
    have hs : (if b = 16 then skipMarker s else s) = s := by
      rw [skipMarker_of_digits hx, ite_self]
    rw [strtoulDigits, hs, List.takeWhile_eq_self_iff.2 h]
    simp only [if_neg (Nat.not_le.2 hn), if_neg Bool.false_ne_true]
  cases s with
  | nil => exact hdigits
  | cons c s => rw [strtoul_cons (hx c (.head _)), hdigits]

/-! ## The number a text starts with -/

/-- What base ten finds in a text: after white space a sign, if it is a minus, and a number. -/
def leading (s : Str) : Bool × Nat :=
  let t := s.dropWhile isSpace
  let signed := t.head? = some '-' ∨ t.head? = some '+'
  (t.head? = some '-', numeral 10 ((if signed then t.tail else t).takeWhile isDigit))

/-- **`strtoul` of a decimal text**: the number it starts with. -/
theorem strtoul_ten (s : Str) :
    strtoul 10 s =
      if 2 ^ 64 ≤ (leading s).2 then BitVec.allOnes 64
      else if (leading s).1 then -BitVec.ofNat 64 (leading s).2
      else BitVec.ofNat 64 (leading s).2 := by
  have hten : isDigitOf 10 = isDigit := funext isDigitOf_ten
  have hdigits : ∀ negative t, strtoulDigits 10 negative t =
      if 2 ^ 64 ≤ numeral 10 (t.takeWhile isDigit) then BitVec.allOnes 64
      else if negative then -BitVec.ofNat 64 (numeral 10 (t.takeWhile isDigit))
      else BitVec.ofNat 64 (numeral 10 (t.takeWhile isDigit)) := fun negative t => by
    rw [strtoulDigits, hten]
    rfl
  rw [strtoul, leading]
  cases hs : s.dropWhile isSpace with
  | nil => exact hdigits false []
  | cons c t =>
    by_cases hminus : c = '-'
    · subst hminus
      exact hdigits true t
    · by_cases hplus : c = '+'
      · subst hplus
        exact hdigits false t
      · rw [← hs, ← strtoul, strtoul_unsigned hs hminus hplus, hdigits]
        simp [hs, hminus, hplus]

/-- A digit needs no sign before it. -/
theorem leading_of_digit {c : Char} (h : isDigit c = true) (s : Str) :
    leading (c :: s) = (false, numeral 10 ((c :: s).takeWhile isDigit)) := by
  have hx : isXDigit c = true := by rw [isXDigit, h]; rfl
  have hspace : (c :: s).dropWhile isSpace = c :: s :=
    List.dropWhile_cons_of_neg (by simp [not_isSpace_of_isXDigit hx])
  have hsign : c ≠ '-' ∧ c ≠ '+' := by
    constructor <;> rintro rfl <;> exact absurd h (by decide)
  simp [leading, hspace, hsign]

/-- The digits at the start end before a character that is none. -/
theorem takeWhile_isDigit_append_cons {c : Char} (h : ¬isDigit c = true) (s t : Str) :
    (s ++ c :: t).takeWhile isDigit = s.takeWhile isDigit := by
  rw [List.takeWhile_append]
  split
  · rename_i hall
    rw [List.takeWhile_cons_of_neg h, List.append_nil,
      (List.takeWhile_sublist _).eq_of_length hall]
  · rfl

/-- A newline at the end is not looked at. -/
theorem leading_append_newline (s : Str) : leading (s ++ ['\n']) = leading s := by
  have htake : ∀ t : Str, (t ++ ['\n']).takeWhile isDigit = t.takeWhile isDigit := fun t =>
    takeWhile_isDigit_append_cons (by decide) t []
  cases hs : s.dropWhile isSpace with
  | nil =>
    have hspace : (s ++ ['\n']).dropWhile isSpace = [] := by
      rw [List.dropWhile_append, hs]
      rfl
    rw [leading, leading, hs, hspace]
  | cons c t =>
    have hspace : (s ++ ['\n']).dropWhile isSpace = c :: (t ++ ['\n']) := by
      rw [List.dropWhile_append, hs]
      rfl
    simp only [leading, hs, hspace, List.head?_cons, List.tail_cons]
    split
    · rw [htake]
    · rw [← List.cons_append, htake]

end Lib
