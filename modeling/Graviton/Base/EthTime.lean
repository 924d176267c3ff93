import Graviton.Lib.Buffer
import Graviton.Lib.Numeral
import Graviton.Lib.Word

/-!
# `EthTime`

The calendar time of `libs/base/ethtime.h`, made of the `struct tm` that `localtime_r` fills, and
its two texts: `ToString`, which heads every statement of the log, and `ToUnformattedString`.

* `readTime_toString`: the six numbers of a printed time are read back.
* `toUnformattedString_lt_iff`: in this century the texts of digits alone sort as the fields of the
  broken-down times do.
-/

open Lib

/-- `struct tm`, the fields that are read. -/
structure Tm where
  year : Int
  mon : Int
  mday : Int
  hour : Int
  min : Int
  sec : Int
  wday : Int
  deriving DecidableEq

/-- `stime_t`, by its components; the zone is never set. -/
structure EthTime where
  year : Byte
  month : Byte
  day : Byte
  wday : Byte
  hour : Byte
  minute : Byte
  second : Byte
  deriving DecidableEq

/-- The fields of a broken-down time, the most significant first. -/
def Tm.fields (t : Tm) : List Int := [t.year, t.mon, t.mday, t.hour, t.min, t.sec]

/-- The fields are in range, and the year is from 2000 to 2099. -/
structure Tm.InCentury (t : Tm) : Prop where
  year : 100 ≤ t.year ∧ t.year < 200
  mon : 0 ≤ t.mon ∧ t.mon < 12
  mday : 1 ≤ t.mday ∧ t.mday ≤ 31
  hour : 0 ≤ t.hour ∧ t.hour < 24
  min : 0 ≤ t.min ∧ t.min < 60
  sec : 0 ≤ t.sec ∧ t.sec ≤ 60

namespace EthTime

/-- `Constant::TimeStringLength`. -/
def timeStringLength : Nat := 25

/-- `WeekDay::LastWeekDay`. -/
def lastWeekDay : Int := 7

/-- `EthTime(struct tm*)` and `FromTm`. -/
def fromTm (t : Tm) : EthTime where
  year := .ofInt 8 (t.year - 100)
  month := .ofInt 8 (t.mon + 1)
  day := .ofInt 8 t.mday
  hour := .ofInt 8 t.hour
  minute := .ofInt 8 t.min
  second := .ofInt 8 t.sec
  wday := if lastWeekDay ≤ t.wday then 0 else .ofInt 8 t.wday

/-- `"%02d"`, of an octet. -/
def dec2 (b : Byte) : Str := (Nat.toDigits 10 b.toNat).leftpad 2 '0'

/-- `"%02d/%02d/%02d %02d:%02d:%02d"`. -/
def stamp (t : EthTime) : Str :=
  dec2 t.year ++ '/' :: (dec2 t.month ++ '/' :: (dec2 t.day ++ ' ' ::
    (dec2 t.hour ++ ':' :: (dec2 t.minute ++ ':' :: dec2 t.second))))

/-- `"%02d%02d%02d%02d%02d%02d"`. -/
def digits (t : EthTime) : Str :=
  dec2 t.year ++ dec2 t.month ++ dec2 t.day ++ dec2 t.hour ++ dec2 t.minute ++ dec2 t.second

def toString (t : EthTime) : Str := snprintf timeStringLength t.stamp

def toUnformattedString (t : EthTime) : Str := snprintf timeStringLength t.digits

/-- The numbers that are printed. -/
def fields (t : EthTime) : List Nat :=
  [t.year.toNat, t.month.toNat, t.day.toNat, t.hour.toNat, t.minute.toNat, t.second.toNat]

/-- The numbers of a text. -/
def readTime (s : Str) : List Nat := (runs isDigit s).map (numeral 10)

/-! ## Printing -/

theorem length_dec2 (b : Byte) : 2 ≤ (dec2 b).length ∧ (dec2 b).length ≤ 3 := by
  have hb : (Nat.toDigits 10 b.toNat).length ≤ 3 :=
    (Nat.length_toDigits_le_iff (by decide) (by decide)).2 (by have := b.isLt; omega)
  rw [dec2, List.length_leftpad]
  omega

theorem isDigit_of_mem_dec2 {b : Byte} {c : Char} (h : c ∈ dec2 b) : isDigit c = true :=
  isDigit_of_mem_leftpad h

theorem runs_dec2 (b : Byte) : runs isDigit (dec2 b) = [dec2 b] := by
  have := runs_run_append (s := []) leftpad_toDigits_ne_nil
    (fun _ hc => isDigit_of_mem_dec2 (b := b) hc) (by simp)
  simpa [dec2] using this

/-- Six octets, of three digits at most. -/
theorem length_digits (t : EthTime) : t.digits.length ≤ 18 := by
  have h1 := length_dec2 t.year
  have h2 := length_dec2 t.month
  have h3 := length_dec2 t.day
  have h4 := length_dec2 t.hour
  have h5 := length_dec2 t.minute
  have h6 := length_dec2 t.second
  simp only [digits, List.length_append]
  omega

theorem length_stamp (t : EthTime) : t.stamp.length = t.digits.length + 5 := by
  simp only [stamp, digits, List.length_append, List.length_cons]
  omega

/-- There is room for every time. -/
theorem toString_eq (t : EthTime) : t.toString = t.stamp := by
  have hlen := t.length_digits
  refine snprintf_of_lt ?_
  rw [length_stamp, timeStringLength]
  omega

theorem toUnformattedString_eq (t : EthTime) : t.toUnformattedString = columns 2 t.fields := by
  have hlen : t.digits.length < timeStringLength := t.length_digits.trans_lt (by decide)
  rw [toUnformattedString, snprintf_of_lt hlen, digits, columns, fields]
  simp only [dec2, List.flatMap_cons, List.flatMap_nil, List.append_assoc, List.append_nil]

/-- **A printed time** is read back. -/
theorem readTime_toString (t : EthTime) : readTime t.toString = t.fields := by
  have hslash : isDigit '/' = false := rfl
  have hspace : isDigit ' ' = false := rfl
  have hcolon : isDigit ':' = false := rfl
  have hvalue : ∀ b : Byte, numeral 10 (dec2 b) = b.toNat := fun b =>
    numeral_leftpad_toDigits 2 b.toNat
  rw [readTime, toString_eq, stamp, runs_append_cons hslash, runs_append_cons hslash,
    runs_append_cons hspace, runs_append_cons hcolon, runs_append_cons hcolon]
  simp only [runs_dec2, List.singleton_append, List.map_cons, List.map_nil, hvalue, fields]

/-- A printed time is made of digits, `'/'`, `' '` and `':'`. -/
theorem not_mem_toString {t : EthTime} {c : Char} (hdigit : isDigit c = false)
    (h : c ∉ ['/', ' ', ':']) : c ∉ t.toString := by
  have hdec2 : ∀ b : Byte, c ∉ dec2 b := fun b hm => by
    rw [isDigit_of_mem_dec2 hm] at hdigit
    cases hdigit
  simp only [List.mem_cons, List.not_mem_nil, or_false, not_or] at h
  obtain ⟨hslash, hspace, hcolon⟩ := h
  rw [toString_eq, stamp]
  simp [hdec2, hslash, hspace, hcolon]

/-! ## The order of the texts of digits -/

theorem toNat_ofInt {n : Int} (h0 : 0 ≤ n) (h : n < 256) :
    ((BitVec.ofInt 8 n).toNat : Int) = n := by
  rw [BitVec.toNat_ofInt]
  omega

/-- The fields that are printed, from those of the broken-down time. -/
theorem fields_fromTm {t : Tm} (h : t.InCentury) :
    (fromTm t).fields.map (fun n : Nat => (n : Int)) =
      [t.year - 100, t.mon + 1, t.mday, t.hour, t.min, t.sec] := by
  obtain ⟨h1, h2, h3, h4, h5, h6⟩ := h
  simp only [fields, fromTm, List.map_cons, List.map_nil]
  rw [toNat_ofInt (by omega) (by omega), toNat_ofInt (by omega) (by omega),
    toNat_ofInt (by omega) (by omega), toNat_ofInt (by omega) (by omega),
    toNat_ofInt (by omega) (by omega), toNat_ofInt (by omega) (by omega)]

theorem fields_lt {t : Tm} (h : t.InCentury) : ∀ n ∈ (fromTm t).fields, n < 10 ^ 2 := by
  intro n hn
  have hm : (n : Int) ∈ (fromTm t).fields.map (fun n : Nat => (n : Int)) :=
    List.mem_map.2 ⟨n, hn, rfl⟩
  obtain ⟨h1, h2, h3, h4, h5, h6⟩ := h
  rw [fields_fromTm ⟨h1, h2, h3, h4, h5, h6⟩] at hm
  simp only [List.mem_cons, List.not_mem_nil, or_false] at hm
  omega

/-- Lists of numbers compare as lists of integers. -/
theorem map_cast_lt_iff : ∀ {ms ns : List Nat},
    (ms.map (fun n : Nat => (n : Int)) < ns.map (fun n : Nat => (n : Int)) ↔ ms < ns)
  | [], [] => by simp
  | [], n :: ns => by simp
  | m :: ms, [] => by simp
  | m :: ms, n :: ns => by
    rw [List.map_cons, List.map_cons, List.cons_lt_cons_iff, List.cons_lt_cons_iff,
      map_cast_lt_iff, Int.ofNat_lt, Int.ofNat_inj]

/-- **The texts of digits alone** sort as the fields of the broken-down times do, the year first. -/
theorem toUnformattedString_lt_iff {a b : Tm} (ha : a.InCentury) (hb : b.InCentury) :
    (fromTm a).toUnformattedString < (fromTm b).toUnformattedString ↔ a.fields < b.fields := by
  have hlen : (fromTm a).fields.length = (fromTm b).fields.length := rfl
  rw [toUnformattedString_eq, toUnformattedString_eq,
    columns_lt_iff (by decide) hlen (fields_lt ha) (fields_lt hb), ← map_cast_lt_iff,
    fields_fromTm ha, fields_fromTm hb, Tm.fields, Tm.fields]
  simp only [List.cons_lt_cons_iff, Int.sub_lt_sub_right_iff, Int.add_lt_add_iff_right,
    sub_left_inj, add_left_inj]

/-- The last second of a year and the first of the next. -/
theorem toUnformattedString_newYear :
    (fromTm ⟨119, 11, 31, 23, 59, 59, 2⟩).toUnformattedString <
      (fromTm ⟨120, 0, 1, 0, 0, 0, 3⟩).toUnformattedString :=
  (toUnformattedString_lt_iff (by constructor <;> decide) (by constructor <;> decide)).2
    (by decide)

end EthTime
