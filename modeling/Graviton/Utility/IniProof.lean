import Graviton.Utility.IniLines

/-!
# Configuration files read back

A configuration is sections of keys and values; `iniText` writes it as the lines `[section]`
and `key=value`.

* `interpretIniLine_section`, `interpretIniLine_keyValue`: what such a line does.
* `interpretIniFile_iniText`: the calls a written configuration makes: the pairs whose key has
  at least two characters.
* `interpretIniFile_eq_pairs_iff`: exactly when that is every pair.
-/

namespace StringUtility

open Lib

/-- Sections, each with its keys and values. -/
abbrev IniConfig := List (Str × List (Str × Str))

def isIniChar (c : Char) : Bool := c.isAlphanum || c = '.' || c = '_' || c = '-'

def sectionLine (name : Str) : Str := '[' :: (name ++ [']'])

def keyValueLine (kv : Str × Str) : Str := kv.1 ++ '=' :: kv.2

def iniLines (cfg : IniConfig) : List Str :=
  cfg.flatMap fun s => sectionLine s.1 :: s.2.map keyValueLine

/-- The text of a configuration, with or without a newline at its end. -/
def iniText (cfg : IniConfig) (finalNewline : Bool) : Str :=
  ['\n'].intercalate (iniLines cfg ++ if finalNewline then [[]] else [])

/-- Every pair with its section, in order. -/
def iniPairs (cfg : IniConfig) : List (Str × Str × Str) :=
  cfg.flatMap fun s => s.2.map fun kv => (s.1, kv)

def IsName (s : Str) : Prop := s ≠ [] ∧ s.all isIniChar = true

/-- A configuration that can be written. -/
structure WellFormed (cfg : IniConfig) : Prop where
  sections : ∀ s ∈ cfg, IsName s.1
  keys : ∀ s ∈ cfg, ∀ kv ∈ s.2, IsName kv.1
  values : ∀ s ∈ cfg, ∀ kv ∈ s.2, kv.2.all isIniChar = true
  fits : ∀ line ∈ iniLines cfg, line.length ≤ lineCapacity

/-! ## Characters -/

theorem plain_of_isIniChar {c : Char} (h : isIniChar c = true) : Plain c := by
  refine ⟨?_, ?_, ?_, ?_⟩
  · by_contra hs
    have hm := of_decide_eq_true (Bool.of_not_eq_false hs)
    simp only [List.mem_cons, List.not_mem_nil, or_false] at hm
    rcases hm with rfl | rfl | rfl | rfl | rfl | rfl <;> exact absurd h (by decide)
  all_goals rintro rfl; exact absurd h (by decide)

theorem not_mem_of_isIniChar {c : Char} {s : Str} (hs : s.all isIniChar = true)
    (hc : isIniChar c = false) : c ∉ s :=
  fun hm => by rw [List.all_eq_true.1 hs c hm] at hc; cases hc

theorem plain_of_mem {c : Char} {s : Str} (hs : s.all isIniChar = true) (hc : c ∈ s) : Plain c :=
  plain_of_isIniChar (List.all_eq_true.1 hs c hc)

/-! ## One line -/

theorem indexOf_of_not_mem {c : Char} {s : Str} (h : c ∉ s) : indexOf c s = -1 := by
  have hf : s.findIdx? (· = c) = none :=
    List.findIdx?_eq_none_iff.2 fun x hx => decide_eq_false fun he => h (he ▸ hx)
  rw [indexOf, hf]

theorem indexOf_append_cons {c : Char} {s : Str} (h : c ∉ s) (t : Str) :
    indexOf c (s ++ c :: t) = s.length := by
  have hf : s.findIdx? (· = c) = none :=
    List.findIdx?_eq_none_iff.2 fun x hx => decide_eq_false fun he => h (he ▸ hx)
  simp [indexOf, List.findIdx?_append, hf, List.findIdx?_cons]

theorem interpretIniSection_sectionLine {name : Str} (h : IsName name) :
    interpretIniSection (sectionLine name) = name := by
  have hb : ']' ∉ '[' :: name := by
    simp [not_mem_of_isIniChar h.2 (c := ']') rfl]
  have h1 : indexOf '[' (sectionLine name) = 0 := rfl
  have h2 : indexOf ']' (sectionLine name) = name.length + 1 := indexOf_append_cons hb []
  rw [interpretIniSection, h1, h2]
  simp [sectionLine]

theorem interpretIniSection_of_not_mem {line : Str} (h : '[' ∉ line) :
    interpretIniSection line = [] := by
  simp [interpretIniSection, indexOf_of_not_mem h]

theorem interpretIniSection_of_not_mem_close {line : Str} (h : ']' ∉ line) :
    interpretIniSection line = [] := by
  rw [interpretIniSection, indexOf_of_not_mem h]
  exact if_neg fun hn => absurd hn.2 (by decide)

/-- What is read of a line whose first `=` comes after `key`. -/
theorem interpretIniKeyValue_append_cons {key : Str} (hk : '=' ∉ key) (rest : Str) :
    interpretIniKeyValue (key ++ '=' :: rest) =
      if 2 ≤ key.length then
        some (key, if indexOf ';' (key ++ '=' :: rest) > 1 then
          rest.take (indexOf ';' (key ++ '=' :: rest)).toNat else rest)
      else none := by
  have h1 : indexOf '=' (key ++ '=' :: rest) = key.length := indexOf_append_cons hk rest
  have h2 : ((key.length : Int) + 1).toNat = key.length + 1 := rfl
  have h3 : (key ++ '=' :: rest).drop (key.length + 1) = rest := by
    simp [List.drop_append, List.drop_eq_nil_of_le]
  rw [interpretIniKeyValue, h1, h2, h3, Int.toNat_natCast, List.take_left]
  by_cases h : 2 ≤ key.length
  · rw [if_pos h, if_pos (by omega)]
  · rw [if_neg h, if_neg (by omega)]

theorem interpretIniKeyValue_of_no_comment {key value : Str} (hk : '=' ∉ key)
    (hs : ';' ∉ key ++ '=' :: value) :
    interpretIniKeyValue (key ++ '=' :: value) =
      if 2 ≤ key.length then some (key, value) else none := by
  rw [interpretIniKeyValue_append_cons hk, indexOf_of_not_mem hs]
  rfl

/-- A pair is read only if its key has a second character. -/
theorem interpretIniKeyValue_keyValueLine {kv : Str × Str} (hk : IsName kv.1)
    (hv : kv.2.all isIniChar = true) :
    interpretIniKeyValue (keyValueLine kv) = if 2 ≤ kv.1.length then some kv else none := by
  refine interpretIniKeyValue_of_no_comment (not_mem_of_isIniChar hk.2 rfl) ?_
  simp [not_mem_of_isIniChar hk.2 (c := ';') rfl, not_mem_of_isIniChar hv (c := ';') rfl]

namespace IniState

theorem interpretIniLine_sectionLine {s : IniState} {name : Str} (h : IsName name)
    (hm : s.multilineStart = false) :
    s.interpretIniLine (sectionLine name) = { s with sectionName := name } := by
  have hplain : ∀ c ∈ sectionLine name, Plain c := by
    intro c hc
    rcases List.mem_cons.1 hc with rfl | hc
    · unfold Plain; decide
    rcases List.mem_append.1 hc with hc | hc
    · exact plain_of_mem h.2 hc
    · rw [List.mem_singleton.1 hc]
      unfold Plain; decide
  have heff : lineEffect false (sectionLine name) = .setSection name := by
    rw [@lineEffect_plain (sectionLine name) (List.cons_ne_nil _ _) hplain,
      interpretIniSection_sectionLine h, if_neg h.1]
  rw [interpretIniLine_eq, hm, heff, ← hm]
  rfl

theorem interpretIniLine_keyValueLine {s : IniState} {kv : Str × Str} (hk : IsName kv.1)
    (hv : kv.2.all isIniChar = true) (hm : s.multilineStart = false) :
    s.interpretIniLine (keyValueLine kv) =
      if 2 ≤ kv.1.length then { s with key := kv.1 }.addCommand kv.2 else s := by
  have hplain : ∀ c ∈ keyValueLine kv, Plain c := by
    intro c hc
    rcases List.mem_append.1 hc with hc | hc
    · exact plain_of_mem hk.2 hc
    rcases List.mem_cons.1 hc with rfl | hc
    · unfold Plain; decide
    · exact plain_of_mem hv hc
  have hb : '[' ∉ keyValueLine kv := by
    simp [keyValueLine, not_mem_of_isIniChar hk.2 (c := '[') rfl,
      not_mem_of_isIniChar hv (c := '[') rfl]
  have hh : kv.2.head? ≠ some '[' := fun he =>
    not_mem_of_isIniChar hv (c := '[') rfl (List.mem_of_head? he)
  have heff : lineEffect false (keyValueLine kv) =
      pairEffect (interpretIniKeyValue (keyValueLine kv)) := by
    rw [@lineEffect_plain (keyValueLine kv) (List.append_ne_nil_of_left_ne_nil hk.1 _) hplain,
      interpretIniSection_of_not_mem hb, if_pos rfl]
  rw [interpretIniLine_eq, hm, heff, ← hm, interpretIniKeyValue_keyValueLine hk hv]
  by_cases h2 : 2 ≤ kv.1.length
  · rw [if_pos h2, if_pos h2, pairEffect, if_neg hh]
    rfl
  · rw [if_neg h2, if_neg h2]
    rfl

/-! ## A whole file -/

/-- What is delivered of a section's pairs: those whose key has a second character. -/
def delivered (s : Str × List (Str × Str)) : List (Str × Str × Str) :=
  (s.2.filter fun kv => 2 ≤ kv.1.length).map fun kv => (s.1, kv)

theorem foldl_keyValueLines : ∀ {kvs : List (Str × Str)} {s : IniState},
    (∀ kv ∈ kvs, IsName kv.1 ∧ kv.2.all isIniChar = true) → s.multilineStart = false →
    ((kvs.map keyValueLine).foldl interpretIniLine s).multilineStart = false ∧
      ((kvs.map keyValueLine).foldl interpretIniLine s).calls =
        s.calls ++ delivered (s.sectionName, kvs)
  | [], s, _, hm => ⟨hm, (List.append_nil _).symm⟩
  | kv :: kvs, s, h, hm => by
    obtain ⟨⟨hk, hv⟩, h⟩ := List.forall_mem_cons.1 h
    rw [List.map_cons, List.foldl_cons, interpretIniLine_keyValueLine hk hv hm]
    by_cases h2 : 2 ≤ kv.1.length
    · obtain ⟨h1, hc⟩ := foldl_keyValueLines (s := { s with key := kv.1 }.addCommand kv.2) h hm
      rw [if_pos h2]
      refine ⟨h1, ?_⟩
      rw [hc]
      simp [delivered, addCommand, h2]
    · obtain ⟨h1, hc⟩ := foldl_keyValueLines h hm
      rw [if_neg h2]
      refine ⟨h1, ?_⟩
      rw [hc]
      simp [delivered, h2]

theorem foldl_iniLines : ∀ {cfg : IniConfig} {s : IniState}, WellFormed cfg →
    s.multilineStart = false →
    ((iniLines cfg).foldl interpretIniLine s).calls = s.calls ++ cfg.flatMap delivered
  | [], s, _, _ => (List.append_nil _).symm
  | (name, kvs) :: cfg, s, h, hm => by
    have hsec := h.sections _ (.head _)
    have hcfg : WellFormed cfg := ⟨fun x hx => h.sections x (.tail _ hx),
      fun x hx => h.keys x (.tail _ hx), fun x hx => h.values x (.tail _ hx), fun l hl =>
        h.fits l (by rw [iniLines, List.flatMap_cons]; exact List.mem_append_right _ hl)⟩
    obtain ⟨h1, hc⟩ := foldl_keyValueLines (s := { s with sectionName := name })
      (fun kv hkv => ⟨h.keys _ (.head _) kv hkv, h.values _ (.head _) kv hkv⟩) hm
    rw [iniLines, List.flatMap_cons, List.cons_append, List.foldl_cons, List.foldl_append,
      interpretIniLine_sectionLine hsec hm]
    rw [← iniLines, foldl_iniLines hcfg h1, hc, List.flatMap_cons, List.append_assoc]

end IniState

theorem length_le_and_not_mem_of_mem_iniLines {cfg : IniConfig} (h : WellFormed cfg)
    {line : Str} (hl : line ∈ iniLines cfg) : line.length ≤ lineCapacity ∧ '\n' ∉ line := by
  refine ⟨h.fits line hl, ?_⟩
  obtain ⟨s, hs, hl⟩ := List.mem_flatMap.1 hl
  rcases List.mem_cons.1 hl with rfl | hl
  · simp [sectionLine, not_mem_of_isIniChar (h.sections s hs).2 (c := '\n') rfl]
  · obtain ⟨kv, hkv, rfl⟩ := List.mem_map.1 hl
    simp [keyValueLine, not_mem_of_isIniChar (h.keys s hs kv hkv).2 (c := '\n') rfl,
      not_mem_of_isIniChar (h.values s hs kv hkv) (c := '\n') rfl]

/-- The lines of a written configuration are read back; past a final newline there is one more,
empty. -/
theorem foldl_getlines_iniText {cfg : IniConfig} (h : WellFormed cfg) (finalNewline : Bool)
    (s : IniState) :
    (getlines lineCapacity lineCapacity [] (iniText cfg finalNewline)).foldl
      IniState.interpretIniLine s = (iniLines cfg).foldl IniState.interpretIniLine s := by
  set last : List Str := if finalNewline then [[]] else [] with hlast
  have hnil : ∀ l ∈ last, l = [] := by
    cases finalNewline <;> simp [hlast]
  have htail : ∀ s : IniState, last.foldl IniState.interpretIniLine s = s := by
    cases finalNewline <;> exact fun _ => rfl
  by_cases he : iniLines cfg ++ last = []
  · -- the empty file is read as one empty line
    rw [iniText, ← hlast, he, (List.append_eq_nil_iff.1 he).1]
    rfl
  · rw [iniText, ← hlast, getlines_intercalate he, List.foldl_append, htail]
    intro l hl
    rcases List.mem_append.1 hl with hl | hl
    · exact length_le_and_not_mem_of_mem_iniLines h hl
    · rw [hnil l hl]
      exact ⟨Nat.zero_le _, List.not_mem_nil⟩

/-- **What a written configuration delivers**: its pairs, in order, except those whose key is
one character. -/
theorem interpretIniFile_iniText {cfg : IniConfig} (h : WellFormed cfg) (finalNewline : Bool) :
    interpretIniFile (some (iniText cfg finalNewline)) = cfg.flatMap IniState.delivered := by
  rw [interpretIniFile, foldl_getlines_iniText h, IniState.foldl_iniLines h rfl]
  rfl

/-- **When a written configuration is read back whole**: no key is a single character. -/
theorem interpretIniFile_eq_pairs_iff {cfg : IniConfig} (h : WellFormed cfg)
    (finalNewline : Bool) :
    interpretIniFile (some (iniText cfg finalNewline)) = iniPairs cfg ↔
      ∀ s ∈ cfg, ∀ kv ∈ s.2, 2 ≤ kv.1.length := by
  rw [interpretIniFile_iniText h, iniPairs]
  constructor
  · intro he s hs
    have hle : ∀ s ∈ cfg, (IniState.delivered s).length ≤ (s.2.map fun kv => (s.1, kv)).length := by
      intro s _
      simp only [IniState.delivered, List.length_map]
      exact List.length_filter_le _ _
    have hl := length_eq_of_flatMap hle (congrArg List.length he) s hs
    simp only [IniState.delivered, List.length_map, List.length_filter_eq_length_iff,
      decide_eq_true_iff] at hl
    exact hl
  · intro hk
    simp only [List.flatMap_def]
    refine congrArg List.flatten (List.map_congr_left fun s hs => ?_)
    rw [IniState.delivered, List.filter_eq_self.2 fun kv hkv => decide_eq_true (hk s hs kv hkv)]

/-- A section with two pairs, the second with an empty value. -/
theorem interpretIniFile_eq_pairs_two :
    interpretIniFile (some "[net]\nip=10.0.0.1\nmask=\n".toList) =
      iniPairs [("net".toList, [("ip".toList, "10.0.0.1".toList), ("mask".toList, [])])] := by
  have h : WellFormed [("net".toList, [("ip".toList, "10.0.0.1".toList), ("mask".toList, [])])] :=
    ⟨by unfold IsName; decide, by unfold IsName; decide, by decide, by decide⟩
  exact (interpretIniFile_eq_pairs_iff h true).2 (by decide)

/-- A key of one character is dropped. -/
theorem interpretIniFile_ne_pairs :
    WellFormed [("net".toList, [("x".toList, "1".toList)])] ∧
      interpretIniFile (some (iniText [("net".toList, [("x".toList, "1".toList)])] true)) ≠
        iniPairs [("net".toList, [("x".toList, "1".toList)])] :=
  ⟨⟨by unfold IsName; decide, by unfold IsName; decide, by decide, by decide⟩, by decide⟩

end StringUtility
