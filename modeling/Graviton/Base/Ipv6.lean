import Graviton.Base.HexText

/-!
# `Ipv6` as text

What the `Ipv6(String)` constructor makes of the texts of IPv6 addresses, and of the text
`ToString` prints.

* `ofString_text_iff`: which of the texts with a `::` are read as what they denote.
* `ofString_toString_iff`: which addresses are read back from what is printed of them.
-/

open Lib

/-! ## The texts of an address -/

/-- A group of an IPv6 text: one to four hex digits. -/
structure HexGroup where
  digits : Str
  pos : 0 < digits.length
  le_four : digits.length ≤ 4
  hex : ∀ c ∈ digits, isXDigit c = true

namespace HexGroup

/-- The number the digits denote. -/
def value (g : HexGroup) : Nat := numeral 16 g.digits

end HexGroup

/-- An IPv6 text: eight groups, or fewer around a `::` that stands for the missing ones. -/
inductive Ipv6Text
  | full (groups : Vector HexGroup 8)
  | elided (left right : List HexGroup) (h : left.length + right.length < 8)

namespace Ipv6Text

/-- Groups as they are written. -/
def joined (groups : List HexGroup) : Str := [':'].intercalate (groups.map (·.digits))

def text : Ipv6Text → Str
  | full groups => joined groups.toList
  | elided left right _ => joined left ++ "::".toList ++ joined right

/-- The words a text denotes. -/
def words : Ipv6Text → List Nat
  | full groups => groups.toList.map (·.value)
  | elided left right _ =>
    left.map (·.value) ++ List.replicate (8 - (left.length + right.length)) 0 ++
      right.map (·.value)

/-- A text is followed by a scope, or by nothing. -/
def withScope (t : Ipv6Text) : Option Str → Str
  | none => t.text
  | some scope => t.text ++ '%' :: scope

/-- The constructor takes the `::` for the zeros it stands for: one group of them, or two at the
start, unless only zeros come after it. -/
def Readable : Ipv6Text → Prop
  | full _ => True
  | elided left right _ =>
    (∀ g ∈ right, g.value = 0) ∨
      8 - (left.length + right.length) = if left = [] then 2 else 1

/-- The pieces of a text between its colons. -/
def pieces : Ipv6Text → List Str
  | full groups => groups.toList.map (·.digits)
  | elided left right _ =>
    (if left = [] then [[]] else left.map (·.digits)) ++
      [] :: (if right = [] then [[]] else right.map (·.digits))

theorem pieces_ne_nil : ∀ t : Ipv6Text, t.pieces ≠ []
  | full groups => by simp [pieces]
  | elided left right _ => by simp [pieces]

theorem of_mem_digits {groups : List HexGroup} {p : Str} (h : p ∈ groups.map (·.digits)) :
    p.length ≤ 4 ∧ ∀ c ∈ p, isXDigit c = true := by
  obtain ⟨g, -, rfl⟩ := List.mem_map.1 h
  exact ⟨g.le_four, g.hex⟩

theorem of_mem_pieces {t : Ipv6Text} {p : Str} (h : p ∈ t.pieces) :
    p.length ≤ 4 ∧ ∀ c ∈ p, isXDigit c = true := by
  have hside : ∀ groups : List HexGroup,
      p ∈ (if groups = [] then [[]] else groups.map (·.digits)) →
        p.length ≤ 4 ∧ ∀ c ∈ p, isXDigit c = true := by
    intro groups hp
    split at hp
    · rw [List.mem_singleton.1 hp]
      exact ⟨Nat.zero_le 4, nofun⟩
    · exact of_mem_digits hp
  cases t with
  | full groups => exact of_mem_digits h
  | elided left right _ =>
    rcases List.mem_append.1 h with h | h
    · exact hside left h
    · rcases List.mem_cons.1 h with rfl | h
      · exact ⟨Nat.zero_le 4, nofun⟩
      · exact hside right h

/-- No groups are written like one empty group. -/
theorem joined_eq (groups : List HexGroup) :
    joined groups = [':'].intercalate (if groups = [] then [[]] else groups.map (·.digits)) := by
  split
  · rename_i h
    rw [h]
    rfl
  · rfl

theorem side_ne_nil (groups : List HexGroup) :
    (if groups = [] then [[]] else groups.map (·.digits)) ≠ [] := by
  split
  · exact List.cons_ne_nil _ _
  · rename_i h
    exact mt List.map_eq_nil_iff.1 h

theorem text_eq : ∀ t : Ipv6Text, t.text = [':'].intercalate t.pieces
  | full groups => rfl
  | elided left right _ => by
    have hright := intercalate_append (c := ':') (List.cons_ne_nil [] []) (side_ne_nil right)
    rw [List.singleton_append] at hright
    rw [text, pieces, intercalate_append (side_ne_nil left) (List.cons_ne_nil _ _), joined_eq,
      joined_eq, hright, List.append_assoc]
    rfl

/-- The constructor reads the pieces, whatever the scope. -/
theorem groups_withScope (t : Ipv6Text) : ∀ scope : Option Str,
    Ipv6.groups (cstr (t.withScope scope)) = t.pieces
  | none => by
    rw [withScope, text_eq]
    exact Ipv6.groups_intercalate t.pieces_ne_nil fun _ hp => (of_mem_pieces hp).2
  | some scope => by
    rw [withScope, text_eq]
    exact Ipv6.groups_intercalate_append t.pieces_ne_nil (fun _ hp => (of_mem_pieces hp).2)
      fun _ hc => (Option.some.inj hc).symm

/-- The pieces of a text with a `::`, as numbers: the zeros it is read as stand where it does. -/
theorem map_numeral_pieces_elided (left right : List HexGroup)
    (h : left.length + right.length < 8) :
    (elided left right h).pieces.map (numeral 16) =
      left.map (·.value) ++
          (List.replicate (if left = [] then 2 else 1) 0 ++ right.map (·.value)) ++
        List.replicate (if right = [] then 1 else 0) 0 := by
  have hvalue : ∀ groups : List HexGroup,
      (groups.map (·.digits)).map (numeral 16) = groups.map (·.value) := fun groups => by
    rw [List.map_map]
    rfl
  have hleft : (if left = [] then [[]] else left.map (·.digits)).map (numeral 16) ++ [0] =
      left.map (·.value) ++ List.replicate (if left = [] then 2 else 1) 0 := by
    split
    · rename_i hl
      rw [hl]
      rfl
    · rw [hvalue]
      rfl
  have hright : (if right = [] then [[]] else right.map (·.digits)).map (numeral 16) =
      right.map (·.value) ++ List.replicate (if right = [] then 1 else 0) 0 := by
    split
    · rename_i hr
      rw [hr]
      rfl
    · rw [hvalue]
      exact (List.append_nil _).symm
  calc (elided left right h).pieces.map (numeral 16)
      = ((if left = [] then [[]] else left.map (·.digits)).map (numeral 16) ++ [0]) ++
          (if right = [] then [[]] else right.map (·.digits)).map (numeral 16) := by
        rw [pieces, List.map_append, List.map_cons, List.append_assoc]
        rfl
    _ = _ := by
        rw [hleft, hright]
        simp only [List.append_assoc]

/-- **The numbers of the pieces** are those the text denotes exactly if it is readable. -/
theorem numeral_pieces_iff : ∀ t : Ipv6Text,
    (t.pieces.takeD 8 []).map (numeral 16) = t.words ↔ t.Readable
  | full groups => by
    have hlen : (groups.toList.map (·.digits)).length = 8 := by simp
    rw [pieces, List.takeD_eq_take _ hlen.ge, List.take_of_length_le hlen.le, List.map_map]
    exact iff_of_true rfl trivial
  | elided left right h => by
    obtain ⟨k, hk⟩ : ∃ k, 8 - (left.length + right.length) = k := ⟨_, rfl⟩
    have hlen : 8 = (left.map (·.value)).length + (k + (right.map (·.value)).length) := by
      rw [List.length_map, List.length_map]
      omega
    rw [map_takeD, map_numeral_pieces_elided, numeral_nil, takeD_append_replicate, words, Readable,
      hk, List.append_assoc, hlen, takeD_append_left, List.append_right_inj,
      takeD_replicate_append_iff, or_comm, List.forall_mem_map]

end Ipv6Text

namespace Ipv6

/-- **The words that are read** of an address. -/
theorem ofString_withScope (t : Ipv6Text) (scope : Option Str) :
    (ofString (t.withScope scope)).u16.toList.map BitVec.toNat =
      (t.pieces.takeD 8 []).map (numeral 16) := by
  show (scan (t.withScope scope)).u16.map BitVec.toNat = _
  rw [(scan_eq _).1, t.groups_withScope, List.map_map]
  refine List.map_congr_left fun p hp => ?_
  obtain ⟨hl, hhex⟩ : p.length ≤ 4 ∧ ∀ c ∈ p, isXDigit c = true := by
    rcases mem_takeD hp with hp | rfl
    · exact Ipv6Text.of_mem_pieces hp
    · exact ⟨Nat.zero_le 4, nofun⟩
  have hlt : numeral 16 p < 2 ^ 16 := numeral_lt_of_length_le (k := 4) (by decide)
    (fun c hc => (isDigitOf_sixteen c).trans (hhex c hc)) hl
  show (groupWord p).toNat = numeral 16 p
  rw [groupWord_eq (Nat.le_trans hl (by decide)) hhex, BitVec.toNat_ofNat, Nat.mod_eq_of_lt hlt]

/-- **Which texts are read as what they denote.** -/
theorem ofString_text_iff (t : Ipv6Text) (scope : Option Str) :
    (ofString (t.withScope scope)).u16.toList.map BitVec.toNat = t.words ↔ t.Readable := by
  rw [ofString_withScope, t.numeral_pieces_iff]

/-- `fe80::1`. -/
def linkLocalText : Ipv6Text :=
  .elided [⟨"fe80".toList, by decide, by decide, List.all_eq_true.1 rfl⟩]
    [⟨"1".toList, by decide, by decide, List.all_eq_true.1 rfl⟩] (by decide)

/-- A link-local address, as it is printed with its interface. -/
theorem ofString_text_ne :
    linkLocalText.withScope (some "eth0".toList) = "fe80::1%eth0".toList ∧
      linkLocalText.words = [0xfe80, 0, 0, 0, 0, 0, 0, 1] ∧
      (ofString "fe80::1%eth0".toList).u16.toList.map BitVec.toNat =
        [0xfe80, 0, 1, 0, 0, 0, 0, 0] := by
  decide

/-! ## Printing -/

/-- `"%04x"`. -/
def hex4 (w : BitVec 16) : Str := (Nat.toDigits 16 w.toNat).leftpad 4 '0'

/-- `ToString`; the size given to `snprintf` is twice the number of words. -/
def toString (ip : Ipv6) : Str :=
  snprintf (ipv6WordLength * 2) ([':'].intercalate (ip.u16.toList.map hex4))

theorem hex4_length (w : BitVec 16) : (hex4 w).length = 4 :=
  length_leftpad_toDigits (by decide) w.isLt

theorem hex4_digits (w : BitVec 16) : ∀ c ∈ hex4 w, isXDigit c = true :=
  fun _ => isXDigit_of_mem_leftpad

theorem groupWord_hex4 (w : BitVec 16) : groupWord (hex4 w) = w := by
  have hvalue : numeral 16 (hex4 w) = w.toNat := by
    rw [hex4, numeral_leftpad, numeral_toDigits (by decide) (by decide)]
  rw [groupWord_eq (by rw [hex4_length]; decide) (hex4_digits w), hvalue, BitVec.ofNat_toNat,
    BitVec.setWidth_eq]

/-- Three groups and a colon are printed. -/
theorem snprintf_groups (a b c : BitVec 16) (ws : List (BitVec 16)) (hws : ws ≠ []) :
    snprintf (ipv6WordLength * 2) ([':'].intercalate ((a :: b :: c :: ws).map hex4)) =
      [':'].intercalate [hex4 a, hex4 b, hex4 c, []] := by
  have hcut : ∀ gs : List Str, gs ≠ [] →
      [':'].intercalate ([hex4 a, hex4 b, hex4 c] ++ gs) =
        ([':'].intercalate [hex4 a, hex4 b, hex4 c] ++ [':']) ++ [':'].intercalate gs := by
    intro gs hgs
    rw [intercalate_append (List.cons_ne_nil _ _) hgs, List.append_assoc]
    rfl
  have hlen : ([':'].intercalate [hex4 a, hex4 b, hex4 c] ++ [':']).length = 15 := by
    simp [List.intercalate_cons_cons, hex4_length]
  have hprinted : (a :: b :: c :: ws).map hex4 = [hex4 a, hex4 b, hex4 c] ++ ws.map hex4 := rfl
  have hgroups : [hex4 a, hex4 b, hex4 c, []] = [hex4 a, hex4 b, hex4 c] ++ [[]] := rfl
  rw [snprintf, hprinted, hgroups, hcut _ (mt List.map_eq_nil_iff.1 hws),
    hcut _ (List.cons_ne_nil _ _), List.intercalate_singleton, List.append_nil]
  exact List.take_left' hlen

/-- **What is read back** of a printed address: three words, and zeros. -/
theorem ofString_groups (a b c : BitVec 16) :
    (ofString ([':'].intercalate [hex4 a, hex4 b, hex4 c, []])).u16.toList =
      [a, b, c, 0, 0, 0, 0, 0] := by
  have hhex : ∀ g ∈ [hex4 a, hex4 b, hex4 c, []], ∀ d ∈ g, isXDigit d = true := by
    intro g hg
    simp only [List.mem_cons, List.not_mem_nil, or_false] at hg
    rcases hg with rfl | rfl | rfl | rfl
    · exact hex4_digits a
    · exact hex4_digits b
    · exact hex4_digits c
    · exact nofun
  show (scan _).u16 = _
  rw [(scan_eq _).1, groups_intercalate (List.cons_ne_nil _ _) hhex]
  show [groupWord (hex4 a), groupWord (hex4 b), groupWord (hex4 c), _, _, _, _, _] = _
  rw [groupWord_hex4, groupWord_hex4, groupWord_hex4]
  rfl

theorem eq_iff_toList (ip ip' : Ipv6) : ip = ip' ↔ ip.u16.toList = ip'.u16.toList := by
  rw [Vector.toList_inj]
  exact ⟨congrArg _, fun h => congrArg mk h⟩

/-- **Which addresses are read back** from what is printed of them: those whose last five words
are zero. -/
theorem ofString_toString_iff (ip : Ipv6) :
    ofString ip.toString = ip ↔ ∀ w ∈ ip.u16.toList.drop 3, w = 0 := by
  obtain ⟨⟨⟨ws⟩, hws⟩⟩ := ip
  have hws' : ws.length = 8 := hws
  match ws, hws' with
  | [a, b, c, d, e, f, g, h], _ =>
    have htext : toString ⟨⟨⟨[a, b, c, d, e, f, g, h]⟩, hws⟩⟩ = _ :=
      snprintf_groups a b c [d, e, f, g, h] (List.cons_ne_nil _ _)
    rw [htext, eq_iff_toList, ofString_groups]
    show [a, b, c, 0, 0, 0, 0, 0] = [a, b, c, d, e, f, g, h] ↔ ∀ w ∈ [d, e, f, g, h], w = 0
    simp only [List.cons.injEq, true_and, and_true, List.forall_mem_cons, List.not_mem_nil,
      false_imp_iff, implies_true, eq_comm]

/-- The loopback address loses its one. -/
theorem ofString_toString_ne :
    toString ⟨#v[0, 0, 0, 0, 0, 0, 0, 1]⟩ = "0000:0000:0000:".toList ∧
      (ofString (toString ⟨#v[0, 0, 0, 0, 0, 0, 0, 1]⟩)).u16.toList = [0, 0, 0, 0, 0, 0, 0, 0] := by
  decide

end Ipv6
