import Graviton.Utility.Ini

/-!
# Configuration files, line by line

Every text is its lines, joined by newlines (`fileText`). What a line does depends on the lines
before it by one flag only, whether a multi-line value is open (`lineEffect`); the section and
the key in force show in the calls (`LineEffect.call`).

* `getlines_fileText`: `getline` reads the lines up to the first that does not fit the buffer,
  and the start of that one (`buffers`).
* `interpretIniLine_eq`: a line has its effect.
* `foldl_calls`, `lineCalls_eq_nil_iff`: the calls a series of lines makes, and when it makes none.
* `lineCalls_congr`, `lineCalls_sections_iff`: two states that agree on what is open make the
  same calls, up to the section.
-/

namespace StringUtility

open Lib

/-- A text with these lines. -/
def fileText (ls : List Str) : Str := ['\n'].intercalate ls

/-! ## Reading lines -/

/-- What the calls of `getline` leave of the lines of a text. -/
def buffers (cap : Nat) : List Str → List Str
  | [] => []
  | l :: ls => if l.length ≤ cap then l :: buffers cap ls else [l.take cap]

theorem buffers_of_fits {cap : Nat} : ∀ {ls : List Str}, (∀ l ∈ ls, l.length ≤ cap) →
    buffers cap ls = ls
  | [], _ => rfl
  | l :: ls, h => by
    obtain ⟨hl, h⟩ := List.forall_mem_cons.1 h
    rw [buffers, if_pos hl, buffers_of_fits h]

theorem buffers_append_of_fits {cap : Nat} (ls' : List Str) : ∀ {ls : List Str},
    (∀ l ∈ ls, l.length ≤ cap) → buffers cap (ls ++ ls') = ls ++ buffers cap ls'
  | [], _ => rfl
  | l :: ls, h => by
    obtain ⟨hl, h⟩ := List.forall_mem_cons.1 h
    rw [List.cons_append, buffers, if_pos hl, buffers_append_of_fits ls' h, List.cons_append]

/-- Nothing is read after a line that does not fit. -/
theorem buffers_append_of_long {cap : Nat} (ls' : List Str) : ∀ {ls : List Str},
    (∃ l ∈ ls, cap < l.length) → buffers cap (ls ++ ls') = buffers cap ls
  | [], h => by simp at h
  | l :: ls, h => by
    rw [List.cons_append, buffers, buffers]
    split
    · rename_i hl
      obtain ⟨x, hx, hlong⟩ := h
      rcases List.mem_cons.1 hx with rfl | hx
      · omega
      · rw [buffers_append_of_long ls' ⟨x, hx, hlong⟩]
    · rfl

theorem getlines_append (cap : Nat) (rest : Str) : ∀ {l : Str} {room : Nat} {line : Str},
    l.length ≤ room → '\n' ∉ l →
    getlines cap room line (l ++ rest) = getlines cap (room - l.length) (line ++ l) rest
  | [], room, line, _, _ => by simp
  | c :: l, 0, line, hl, _ => by simp at hl
  | c :: l, room + 1, line, hl, hn => by
    have hc : c ≠ '\n' := fun h => hn (h ▸ .head _)
    rw [List.cons_append, getlines, if_neg hc]
    show getlines cap room (line ++ [c]) (l ++ rest) = _
    rw [getlines_append cap rest (Nat.le_of_succ_le_succ hl) fun h => hn (.tail _ h),
      List.length_cons, Nat.succ_sub_succ, List.append_assoc, List.singleton_append]

theorem getlines_newline (cap room : Nat) (line rest : Str) :
    getlines cap room line ('\n' :: rest) = line :: getlines cap cap [] rest := by
  rw [getlines.eq_def]
  exact if_pos rfl

/-- A line that does not fit is the last one read. -/
theorem getlines_long (cap : Nat) (rest : Str) : ∀ {l : Str} {room : Nat} {line : Str},
    room < l.length → '\n' ∉ l → getlines cap room line (l ++ rest) = [line ++ l.take room]
  | [], _, _, hl, _ => by simp at hl
  | c :: l, 0, line, _, hn => by
    have hc : c ≠ '\n' := fun h => hn (h ▸ .head _)
    rw [List.cons_append, getlines, if_neg hc, List.take_zero, List.append_nil]
  | c :: l, room + 1, line, hl, hn => by
    have hc : c ≠ '\n' := fun h => hn (h ▸ .head _)
    rw [List.cons_append, getlines, if_neg hc]
    show getlines cap room (line ++ [c]) (l ++ rest) = _
    rw [getlines_long cap rest (Nat.lt_of_succ_lt_succ hl) fun h => hn (.tail _ h),
      List.take_succ_cons, List.append_assoc, List.singleton_append]

/-- **What is read of a text.** -/
theorem getlines_fileText {cap : Nat} : ∀ {ls : List Str}, ls ≠ [] → (∀ l ∈ ls, '\n' ∉ l) →
    getlines cap cap [] (fileText ls) = buffers cap ls
  | [l], _, h => by
    have hn := h l (.head _)
    rw [fileText, List.intercalate_singleton, buffers]
    split
    · rename_i hl
      have hr : getlines cap cap [] (l ++ []) = _ := getlines_append cap [] hl hn
      rw [List.append_nil, getlines, List.nil_append] at hr
      rw [hr, buffers]
    · rename_i hl
      have hr : getlines cap cap [] (l ++ []) = _ := getlines_long cap [] (Nat.lt_of_not_le hl) hn
      rwa [List.append_nil, List.nil_append] at hr
  | l :: l' :: ls, _, h => by
    obtain ⟨hn, h⟩ := List.forall_mem_cons.1 h
    have ih := @getlines_fileText cap _ (List.cons_ne_nil l' ls) h
    rw [fileText] at *
    rw [List.intercalate_cons_cons, List.append_assoc, buffers]
    split
    · rename_i hl
      rw [getlines_append cap _ hl hn, List.singleton_append, getlines_newline, ih, List.nil_append]
    · rename_i hl
      rw [getlines_long cap _ (Nat.lt_of_not_le hl) hn, List.nil_append]

/-- **Lines that fit the buffer** are read one by one. -/
theorem getlines_intercalate {cap : Nat} {ls : List Str} (hne : ls ≠ [])
    (h : ∀ l ∈ ls, l.length ≤ cap ∧ '\n' ∉ l) :
    getlines cap cap [] (['\n'].intercalate ls) = ls :=
  (getlines_fileText hne fun l hl => (h l hl).2).trans (buffers_of_fits fun l hl => (h l hl).1)

/-! ## What a line does -/

/-- The effects a line can have; `append` and `close` are those of a line inside a multi-line
value. -/
inductive LineEffect
  | skip
  | append (text : Str)
  | close
  | setSection (name : Str)
  | openBlock (key : Str)
  | pair (key value : Str)
  deriving DecidableEq, Repr

/-- The effect of a key and a value, if the line has them. -/
def pairEffect : Option (Str × Str) → LineEffect
  | none => .skip
  | some (key, value) => if value.head? = some '[' then .openBlock key else .pair key value

/-- The effect of a line, inside a multi-line value or outside. -/
def lineEffect (multilineStart : Bool) (line : Str) : LineEffect :=
  let trimmedLine := trim line
  if isComment trimmedLine then .skip
  else if multilineStart then if ']' ∈ trimmedLine then .close else .append trimmedLine
  else
    let tempSection := interpretIniSection trimmedLine
    if tempSection = [] then pairEffect (interpretIniKeyValue trimmedLine)
    else .setSection tempSection

/-- Outside a multi-line value, a line without blanks and comments is what it is before `Trim`. -/
theorem lineEffect_plain {line : Str} (hne : line ≠ []) (h : ∀ c ∈ line, Plain c) :
    lineEffect false line =
      if interpretIniSection line = [] then pairEffect (interpretIniKeyValue line)
      else .setSection (interpretIniSection line) := by
  obtain ⟨c, l, rfl⟩ := List.exists_cons_of_ne_nil hne
  have hc : isComment (c :: l) = false := isComment_of_plain (h c (.head _))
  rw [lineEffect, trim_of_plain h, hc]
  rfl

/-- The effects of a line inside a multi-line value. -/
def LineEffect.inBlock : LineEffect → Bool
  | append _ | close => true
  | skip | setSection _ | openBlock _ | pair _ _ => false

theorem inBlock_pairEffect (kv : Option (Str × Str)) : (pairEffect kv).inBlock = false := by
  unfold pairEffect
  split
  · rfl
  · split <;> rfl

theorem inBlock_lineEffect (line : Str) : (lineEffect false line).inBlock = false := by
  unfold lineEffect
  dsimp only
  split
  · rfl
  · rw [if_neg Bool.false_ne_true]
    split
    · exact inBlock_pairEffect _
    · rfl

theorem eq_true_of_inBlock {m : Bool} {line : Str} (h : (lineEffect m line).inBlock = true) :
    m = true := by
  cases m with
  | true => rfl
  | false => rw [inBlock_lineEffect] at h; cases h

namespace LineEffect

def apply (s : IniState) : LineEffect → IniState
  | skip => s
  | append text => { s with multiline := s.multiline ++ text }
  | close => { s.addCommand s.multiline with multilineStart := false, multiline := [] }
  | setSection name => { s with sectionName := name }
  | openBlock key => { s with key, multilineStart := true }
  | pair key value => { s with key }.addCommand value

/-- The call made. -/
def call (s : IniState) : LineEffect → List (Str × Str × Str)
  | close => [(s.sectionName, s.key, s.multiline)]
  | pair key value => [(s.sectionName, key, value)]
  | skip | append _ | setSection _ | openBlock _ => []

/-- Whether a multi-line value is open after the line. -/
def flag (multilineStart : Bool) : LineEffect → Bool
  | close => false
  | openBlock _ => true
  | skip | append _ | setSection _ | pair _ _ => multilineStart

def isCall : LineEffect → Bool
  | close | pair _ _ => true
  | skip | append _ | setSection _ | openBlock _ => false

@[simp] theorem multilineStart_apply (e : LineEffect) (s : IniState) :
    (e.apply s).multilineStart = e.flag s.multilineStart := by
  cases e <;> rfl

theorem calls_apply (e : LineEffect) (s : IniState) :
    (e.apply s).calls = s.calls ++ e.call s := by
  cases e <;> simp [apply, call, IniState.addCommand]

/-- The section in force after the line. -/
def newSection (sectionName : Str) : LineEffect → Str
  | setSection name => name
  | skip | append _ | close | openBlock _ | pair _ _ => sectionName

@[simp] theorem sectionName_apply (e : LineEffect) (s : IniState) :
    (e.apply s).sectionName = e.newSection s.sectionName := by
  cases e <;> rfl

theorem call_eq_nil_iff (e : LineEffect) (s : IniState) : e.call s = [] ↔ e.isCall = false := by
  cases e <;> simp [call, isCall]

end LineEffect

namespace IniState

theorem keyValueStep_eq (s : IniState) (trimmedLine : Str) :
    s.keyValueStep trimmedLine = (pairEffect (interpretIniKeyValue trimmedLine)).apply s := by
  rw [keyValueStep]
  cases interpretIniKeyValue trimmedLine with
  | none => rfl
  | some kv => dsimp only [pairEffect]; split <;> rfl

/-- **A line has its effect.** -/
theorem interpretIniLine_eq (s : IniState) (line : Str) :
    s.interpretIniLine line = (lineEffect s.multilineStart line).apply s := by
  unfold interpretIniLine lineEffect
  dsimp only
  split
  · rfl
  split
  · unfold multilineStep
    split <;> rfl
  split
  · exact keyValueStep_eq s _
  · rfl

/-- The calls a series of lines makes. -/
def lineCalls : IniState → List Str → List (Str × Str × Str)
  | _, [] => []
  | s, l :: ls => (lineEffect s.multilineStart l).call s ++ lineCalls (s.interpretIniLine l) ls

theorem foldl_calls : ∀ (ls : List Str) (s : IniState),
    (ls.foldl interpretIniLine s).calls = s.calls ++ s.lineCalls ls
  | [], s => (List.append_nil _).symm
  | l :: ls, s => by
    rw [List.foldl_cons, foldl_calls ls, lineCalls, interpretIniLine_eq, LineEffect.calls_apply,
      List.append_assoc]

theorem lineCalls_append : ∀ (ls ls' : List Str) (s : IniState),
    s.lineCalls (ls ++ ls') = s.lineCalls ls ++ (ls.foldl interpretIniLine s).lineCalls ls'
  | [], _, _ => rfl
  | l :: ls, ls', s => by
    rw [List.cons_append, lineCalls, lineCalls, lineCalls_append ls ls', List.foldl_cons,
      List.append_assoc]

/-- None of the lines makes a call. -/
def Silent : Bool → List Str → Prop
  | _, [] => True
  | m, l :: ls => (lineEffect m l).isCall = false ∧ Silent ((lineEffect m l).flag m) ls

theorem lineCalls_eq_nil_iff : ∀ (ls : List Str) (s : IniState),
    s.lineCalls ls = [] ↔ Silent s.multilineStart ls
  | [], _ => ⟨fun _ => trivial, fun _ => rfl⟩
  | l :: ls, s => by
    rw [lineCalls, List.append_eq_nil_iff, lineCalls_eq_nil_iff ls, LineEffect.call_eq_nil_iff,
      interpretIniLine_eq, LineEffect.multilineStart_apply, Silent]

/-! ## Two states that agree on what is open -/

/-- The states agree on the multi-line value that is open, if there is one. -/
structure Alike (s t : IniState) : Prop where
  multilineStart : t.multilineStart = s.multilineStart
  multiline : t.multiline = s.multiline
  key : s.multilineStart = true → t.key = s.key

theorem Alike.refl (s : IniState) : Alike s s := ⟨rfl, rfl, fun _ => rfl⟩

theorem Alike.apply {s t : IniState} (h : Alike s t) (e : LineEffect) :
    Alike (e.apply s) (e.apply t) := by
  cases e with
  | skip => exact h
  | append text => exact ⟨h.multilineStart, congrArg (· ++ text) h.multiline, h.key⟩
  | close => exact ⟨rfl, rfl, nofun⟩
  | setSection name => exact ⟨h.multilineStart, h.multiline, h.key⟩
  | openBlock key => exact ⟨rfl, h.multiline, fun _ => rfl⟩
  | pair key value => exact ⟨h.multilineStart, h.multiline, fun _ => rfl⟩

/-- They make the same calls, each with its own section. -/
theorem Alike.call {s t : IniState} (h : Alike s t) {line : Str} {e : LineEffect}
    (he : lineEffect s.multilineStart line = e) :
    e.call t = (e.call s).map fun c => (t.sectionName, c.2) := by
  cases e with
  | close =>
    have hm : s.multilineStart = true := eq_true_of_inBlock (congrArg LineEffect.inBlock he)
    simp only [LineEffect.call, h.key hm, h.multiline, List.map_cons, List.map_nil]
  | skip => rfl
  | append text => rfl
  | setSection name => rfl
  | openBlock key => rfl
  | pair key value => rfl

theorem fst_of_mem_call {s : IniState} {e : LineEffect} {c : Str × Str × Str}
    (h : c ∈ e.call s) : c.1 = s.sectionName := by
  cases e <;> simp only [LineEffect.call, List.mem_singleton, List.not_mem_nil] at h
  case close => rw [h]
  case pair => rw [h]

theorem Alike.call_eq {s t : IniState} (h : Alike s t) (hs : t.sectionName = s.sectionName)
    {line : Str} {e : LineEffect} (he : lineEffect s.multilineStart line = e) :
    e.call t = e.call s := by
  rw [h.call he, hs]
  refine (List.map_congr_left fun c hc => ?_).trans (List.map_id _)
  rw [← fst_of_mem_call hc]
  rfl

theorem lineCalls_congr : ∀ (ls : List Str) {s t : IniState}, Alike s t →
    t.sectionName = s.sectionName → t.lineCalls ls = s.lineCalls ls
  | [], _, _, _, _ => rfl
  | l :: ls, s, t, h, hs => by
    rw [lineCalls, lineCalls, h.multilineStart, h.call_eq hs rfl, interpretIniLine_eq,
      interpretIniLine_eq, h.multilineStart]
    rw [lineCalls_congr ls (h.apply _) (by simp [hs])]

/-- None of the lines makes a call before one that sets the section. -/
def SilentToSection : Bool → List Str → Prop
  | _, [] => True
  | m, l :: ls =>
    (∃ name, lineEffect m l = .setSection name) ∨
      (lineEffect m l).isCall = false ∧ SilentToSection ((lineEffect m l).flag m) ls

/-- **The sections of the calls** of two such states: the same if the sections in force are, or
if there is no call before the section is set. -/
theorem lineCalls_sections_iff : ∀ (ls : List Str) {s t : IniState}, Alike s t →
    ((t.lineCalls ls).map Prod.fst = (s.lineCalls ls).map Prod.fst ↔
      t.sectionName = s.sectionName ∨ SilentToSection s.multilineStart ls)
  | [], _, _, _ => ⟨fun _ => .inr trivial, fun _ => rfl⟩
  | l :: ls, s, t, h => by
    by_cases hs : t.sectionName = s.sectionName
    · exact ⟨fun _ => .inl hs, fun _ => congrArg _ (lineCalls_congr (l :: ls) h hs)⟩
    rw [lineCalls, lineCalls, h.multilineStart, interpretIniLine_eq, interpretIniLine_eq,
      h.multilineStart, SilentToSection, or_iff_right hs]
    generalize he : lineEffect s.multilineStart l = e
    have ih := lineCalls_sections_iff ls (h.apply e)
    rw [LineEffect.multilineStart_apply] at ih
    by_cases hset : ∃ name, e = .setSection name
    · -- the line sets the section of both
      obtain ⟨name, rfl⟩ := hset
      rw [lineCalls_congr ls (h.apply _) rfl]
      exact ⟨fun _ => .inl ⟨name, rfl⟩, fun _ => rfl⟩
    have hkeep : ∀ u : IniState, (e.apply u).sectionName = u.sectionName := by
      intro u
      cases e <;> first | rfl | exact absurd ⟨_, rfl⟩ hset
    rw [hkeep, hkeep, or_iff_right hs] at ih
    rw [or_iff_right hset, h.call he]
    cases hcall : e.isCall with
    | false =>
      rw [(e.call_eq_nil_iff s).2 hcall]
      exact ih.trans ⟨fun hq => ⟨rfl, hq⟩, And.right⟩
    | true =>
      refine ⟨fun heq => ?_, fun hq => absurd hq.1 nofun⟩
      cases hc : e.call s with
      | nil => rw [(e.call_eq_nil_iff s).1 hc] at hcall; cases hcall
      | cons c cs =>
        rw [hc] at heq
        simp only [List.map_cons, List.cons_append] at heq
        exact absurd ((List.cons.inj heq).1.trans (fst_of_mem_call (hc ▸ List.mem_cons_self))) hs

end IniState

end StringUtility
