import Graviton.Utility.IniProof

/-!
# What a line or a block adds to a configuration file

One file with something in the middle of it, against the same file without.

* `interpretIniFile_comment_iff`: when a comment line changes nothing.
* `interpretIniFile_block`: a multi-line value makes one call, and the calls for the lines
  around it stay.
* `callsAfter_sections_iff`: when a key-value line leaves the section of the later lines.
-/

namespace StringUtility

open Lib

/-- The lines of a text that are read. -/
def readLines (ls : List Str) : List Str := buffers lineCapacity ls

/-- The state of the loop after these lines of a text. -/
def stateAfter (ls : List Str) : IniState := (readLines ls).foldl IniState.interpretIniLine .init

/-- The calls for the lines `ls`, in a file that begins with the lines `before`. -/
def callsAfter (before ls : List Str) : List (Str × Str × Str) :=
  (interpretIniFile (some (fileText (before ++ ls)))).drop
    (interpretIniFile (some (fileText before))).length

/-! ## A file as its lines -/

/-- **The calls of a file** are those of the lines that are read. -/
theorem interpretIniFile_fileText {ls : List Str} (h : ∀ l ∈ ls, '\n' ∉ l) :
    interpretIniFile (some (fileText ls)) = IniState.init.lineCalls (readLines ls) := by
  by_cases hne : ls = []
  · -- the empty file is read as one empty line
    subst hne
    rfl
  · rw [interpretIniFile, getlines_fileText hne h, IniState.foldl_calls]
    rfl

theorem readLines_append {before : List Str} (ls : List Str)
    (h : ∀ l ∈ before, l.length ≤ lineCapacity) :
    readLines (before ++ ls) = before ++ readLines ls := buffers_append_of_fits ls h

theorem readLines_of_fits {ls : List Str} (h : ∀ l ∈ ls, l.length ≤ lineCapacity) :
    readLines ls = ls := buffers_of_fits h

theorem readLines_append_of_long {before : List Str} (ls : List Str)
    (h : ∃ l ∈ before, lineCapacity < l.length) :
    readLines (before ++ ls) = readLines before := buffers_append_of_long ls h

theorem lineCalls_readLines_append {before : List Str} (ls : List Str)
    (h : ∀ l ∈ before, l.length ≤ lineCapacity) :
    IniState.init.lineCalls (readLines (before ++ ls)) =
      IniState.init.lineCalls (readLines before) ++
        (stateAfter before).lineCalls (readLines ls) := by
  rw [readLines_append ls h, readLines_of_fits h, IniState.lineCalls_append, stateAfter,
    readLines_of_fits h]

/-- A text either has a line that does not fit, or all of its lines do. -/
theorem long_or_fits (ls : List Str) :
    (∃ l ∈ ls, lineCapacity < l.length) ∨ ∀ l ∈ ls, l.length ≤ lineCapacity := by
  by_cases h : ∃ l ∈ ls, lineCapacity < l.length
  · exact .inl h
  · exact .inr fun l hl => Nat.le_of_not_lt fun hlt => h ⟨l, hl, hlt⟩

theorem callsAfter_of_fits {before ls : List Str} (h : ∀ l ∈ before ++ ls, '\n' ∉ l)
    (hfits : ∀ l ∈ before, l.length ≤ lineCapacity) :
    callsAfter before ls = (stateAfter before).lineCalls (readLines ls) := by
  rw [callsAfter, interpretIniFile_fileText h,
    interpretIniFile_fileText (List.forall_mem_append.1 h).1, lineCalls_readLines_append ls hfits,
    List.drop_left]

theorem callsAfter_of_long {before : List Str} (ls : List Str) (h : ∀ l ∈ before ++ ls, '\n' ∉ l)
    (hlong : ∃ l ∈ before, lineCapacity < l.length) : callsAfter before ls = [] := by
  rw [callsAfter, interpretIniFile_fileText h,
    interpretIniFile_fileText (List.forall_mem_append.1 h).1, readLines_append_of_long ls hlong,
    List.drop_length]

/-- The calls for the first lines of a file, then those for the others. -/
theorem interpretIniFile_append {before ls : List Str} (h : ∀ l ∈ before ++ ls, '\n' ∉ l) :
    interpretIniFile (some (fileText (before ++ ls))) =
      interpretIniFile (some (fileText before)) ++ callsAfter before ls := by
  have hbefore := (List.forall_mem_append.1 h).1
  rcases long_or_fits before with hlong | hfits
  · rw [callsAfter_of_long ls h hlong, List.append_nil, interpretIniFile_fileText h,
      interpretIniFile_fileText hbefore, readLines_append_of_long ls hlong]
  · rw [callsAfter_of_fits h hfits, interpretIniFile_fileText h, interpretIniFile_fileText hbefore,
      lineCalls_readLines_append ls hfits]

/-! ## A comment line -/

theorem lineEffect_comment (m : Bool) (text : Str) : lineEffect m (';' :: text) = .skip := by
  rw [lineEffect, trim_semicolon]
  rfl

/-- **When a comment line changes nothing**: it fits the buffer, or a line before it does not, or
the lines after it make no call. -/
theorem interpretIniFile_comment_iff {before after : List Str} {text : Str}
    (hls : ∀ l ∈ before ++ after, '\n' ∉ l) (ht : '\n' ∉ text) :
    interpretIniFile (some (fileText (before ++ (';' :: text) :: after))) =
        interpretIniFile (some (fileText (before ++ after))) ↔
      (';' :: text).length ≤ lineCapacity ∨ (∃ l ∈ before, lineCapacity < l.length) ∨
        IniState.Silent (stateAfter before).multilineStart (readLines after) := by
  obtain ⟨hbefore, hafter⟩ := List.forall_mem_append.1 hls
  have hcomment : '\n' ∉ ';' :: text := by simp [ht]
  rw [interpretIniFile_fileText (List.forall_mem_append.2
    ⟨hbefore, List.forall_mem_cons.2 ⟨hcomment, hafter⟩⟩), interpretIniFile_fileText hls]
  rcases long_or_fits before with hlong | hfits
  · rw [readLines_append_of_long _ hlong, readLines_append_of_long _ hlong]
    exact iff_of_true rfl (.inr (.inl hlong))
  have hno : ¬ ∃ l ∈ before, lineCapacity < l.length := fun ⟨l, hl, hlt⟩ =>
    absurd (hfits l hl) (Nat.not_le.2 hlt)
  rw [lineCalls_readLines_append _ hfits, lineCalls_readLines_append _ hfits,
    List.append_right_inj, or_iff_right hno]
  -- the buffer starts with `;`, whether or not the line fits
  by_cases hl : (';' :: text).length ≤ lineCapacity
  · rw [readLines, buffers, if_pos hl, IniState.lineCalls, IniState.interpretIniLine_eq,
      lineEffect_comment]
    exact iff_of_true rfl (.inl hl)
  · rw [or_iff_right hl, ← IniState.lineCalls_eq_nil_iff, readLines, buffers, if_neg hl,
      lineCapacity, List.take_succ_cons, IniState.lineCalls, lineEffect_comment]
    exact eq_comm

/-- A short comment between a section and its pair. -/
theorem interpretIniFile_comment_short :
    interpretIniFile (some (fileText (["[net]".toList] ++ (';' :: " note".toList) ::
        ["ab=1".toList]))) =
      interpretIniFile (some (fileText (["[net]".toList] ++ ["ab=1".toList]))) :=
  (interpretIniFile_comment_iff (by decide) (by decide)).2 (.inl (by decide))

/-- A comment of 127 characters hides the pair after it. -/
theorem interpretIniFile_comment_long :
    interpretIniFile (some (fileText (["[net]".toList] ++ (';' :: List.replicate 126 '-') ::
        ["ab=1".toList]))) = [] ∧
      interpretIniFile (some (fileText (["[net]".toList] ++ ["ab=1".toList]))) =
        [("net".toList, "ab".toList, "1".toList)] := by
  decide +kernel

/-! ## A multi-line value -/

/-- A key a multi-line value can have. -/
structure IsBlockKey (key : Str) : Prop where
  length : 2 ≤ key.length
  chars : ∀ c ∈ key, isSpace c = false ∧ c ∉ ['[', ']', '=', ';', '/', '\x00']

/-- The lines of a multi-line value. -/
def blockLines (key : Str) (body : List Str) : List Str :=
  (key ++ "=[".toList) :: (body ++ ["]".toList])

/-- The value of the block: the trimmed lines that are neither empty nor start with `/`. -/
def blockValue (body : List Str) : Str :=
  ((body.map trim).filter fun t => t ≠ [] ∧ t.head? ≠ some '/').flatten

theorem lineEffect_open {key : Str} (h : IsBlockKey key) :
    lineEffect false (key ++ "=[".toList) = .openBlock key := by
  have hno : ∀ c ∈ ['[', ']', '=', ';', '/', '\x00'], c ∉ key := fun c hc hm =>
    (h.chars c hm).2 hc
  have hplain : ∀ c ∈ key ++ "=[".toList, Plain c := by
    intro c hc
    rcases List.mem_append.1 hc with hc | hc
    · obtain ⟨hsp, hn⟩ := h.chars c hc
      simp only [List.mem_cons, List.not_mem_nil, or_false, not_or] at hn
      exact ⟨hsp, hn.2.2.2.2.2, hn.2.2.2.1, hn.2.2.2.2.1⟩
    · have hc : c = '=' ∨ c = '[' := by simpa using hc
      rcases hc with rfl | rfl <;> unfold Plain <;> decide
  have hsection : interpretIniSection (key ++ "=[".toList) = [] :=
    interpretIniSection_of_not_mem_close (by simp [hno])
  have hpair : interpretIniKeyValue (key ++ "=[".toList) = some (key, "[".toList) := by
    have hsemi : ';' ∉ key ++ '=' :: "[".toList := by simp [hno]
    exact (interpretIniKeyValue_of_no_comment (hno '=' (by decide)) hsemi).trans (if_pos h.length)
  rw [lineEffect_plain (by simp) hplain, hsection, if_pos rfl, hpair]
  rfl

theorem lineEffect_body {line : Str} (h : ']' ∉ line) :
    lineEffect true line =
      if trim line ≠ [] ∧ (trim line).head? ≠ some '/' then .append (trim line) else .skip := by
  have hclose : ']' ∉ trim line := fun hm => h (mem_of_mem_trim hm)
  have hc := isComment_trim_iff line
  by_cases hskip : isComment (trim line) = true
  · have hno : ¬ (trim line ≠ [] ∧ (trim line).head? ≠ some '/') := fun hn =>
      (hc.1 hskip).elim hn.1 hn.2
    rw [if_neg hno]
    simp only [lineEffect, if_pos hskip]
  · have hyes : trim line ≠ [] ∧ (trim line).head? ≠ some '/' := not_or.1 (mt hc.2 hskip)
    rw [if_pos hyes]
    simp only [lineEffect, if_neg hskip, if_true, if_neg hclose]

namespace IniState

/-- The lines of the body are collected, and make no call. -/
theorem foldl_body : ∀ {body : List Str} {s : IniState}, s.multilineStart = true →
    (∀ l ∈ body, ']' ∉ l) →
    body.foldl interpretIniLine s = { s with multiline := s.multiline ++ blockValue body } ∧
      s.lineCalls body = []
  | [], s, _, _ => ⟨by simp [blockValue], rfl⟩
  | l :: body, s, hm, h => by
    obtain ⟨hl, h⟩ := List.forall_mem_cons.1 h
    have heff : lineEffect s.multilineStart l = _ := hm ▸ lineEffect_body hl
    have hval : blockValue (l :: body) =
        (if trim l ≠ [] ∧ (trim l).head? ≠ some '/' then trim l else []) ++ blockValue body := by
      simp only [blockValue, List.map_cons, List.filter_cons, decide_eq_true_eq]
      split
      · rw [List.flatten_cons]
      · rfl
    rw [List.foldl_cons, lineCalls, interpretIniLine_eq, heff, hval]
    split
    · obtain ⟨h1, h2⟩ := foldl_body (s := { s with multiline := s.multiline ++ trim l }) hm h
      rw [← List.append_assoc]
      exact ⟨h1, h2⟩
    · exact foldl_body hm h

/-- Nothing is collected outside a multi-line value. -/
def Closed (s : IniState) : Prop := s.multilineStart = false → s.multiline = []

theorem closed_interpretIniLine {s : IniState} (h : Closed s) (line : Str) :
    Closed (s.interpretIniLine line) := by
  rw [interpretIniLine_eq]
  cases he : lineEffect s.multilineStart line with
  | append text =>
    have hm : s.multilineStart = true := eq_true_of_inBlock (congrArg LineEffect.inBlock he)
    exact fun hf => absurd (hm.symm.trans hf) nofun
  | close => exact fun _ => rfl
  | openBlock key => exact nofun
  | skip => exact h
  | setSection name => exact h
  | pair key value => exact h

theorem closed_foldl : ∀ (ls : List Str) {s : IniState}, Closed s →
    Closed (ls.foldl interpretIniLine s)
  | [], _, h => h
  | l :: ls, _, h => closed_foldl ls (closed_interpretIniLine h l)

/-- **A block** makes one call, and leaves the state as it was but for the key. -/
theorem foldl_block {s : IniState} {key : Str} {body : List Str} (hk : IsBlockKey key)
    (hbody : ∀ l ∈ body, ']' ∉ l) (hm : s.multilineStart = false) (hc : Closed s) :
    Alike s ((blockLines key body).foldl interpretIniLine s) ∧
      ((blockLines key body).foldl interpretIniLine s).sectionName = s.sectionName ∧
      s.lineCalls (blockLines key body) = [(s.sectionName, key, blockValue body)] := by
  have hopen : s.interpretIniLine (key ++ "=[".toList) =
      { s with key, multilineStart := true } := by
    rw [interpretIniLine_eq, hm, lineEffect_open hk]
    rfl
  obtain ⟨hfold, hcalls⟩ := foldl_body (s := { s with key, multilineStart := true }) rfl hbody
  have hclose : lineEffect true "]".toList = .close := by decide
  rw [blockLines, List.foldl_cons, hopen, List.foldl_append, hfold, List.foldl_cons,
    interpretIniLine_eq, hclose, lineCalls, hm, lineEffect_open hk, hopen, lineCalls_append, hcalls,
    hfold, lineCalls, hclose, hc hm]
  exact ⟨⟨hm.symm, (hc hm).symm, fun h => absurd (hm.symm.trans h) Bool.false_ne_true⟩, rfl, rfl⟩

end IniState

theorem closed_stateAfter (ls : List Str) : (stateAfter ls).Closed :=
  IniState.closed_foldl (readLines ls) fun _ => rfl

/-- **A multi-line value** makes one call, with the section in force, its key and the trimmed
lines of its body; the calls for the lines before it and after it are those of the file without
it. -/
theorem interpretIniFile_block {before after body : List Str} {key : Str} (hk : IsBlockKey key)
    (hbody : ∀ l ∈ body, ']' ∉ l)
    (hls : ∀ l ∈ before ++ blockLines key body ++ after, l.length ≤ lineCapacity ∧ '\n' ∉ l)
    (hout : (stateAfter before).multilineStart = false) :
    interpretIniFile (some (fileText (before ++ after))) =
        interpretIniFile (some (fileText before)) ++ callsAfter before after ∧
      interpretIniFile (some (fileText (before ++ blockLines key body ++ after))) =
        interpretIniFile (some (fileText before)) ++
          ((stateAfter before).sectionName, key, blockValue body) :: callsAfter before after := by
  obtain ⟨hfirst, hafter⟩ := List.forall_mem_append.1 hls
  obtain ⟨hbefore, hblock⟩ := List.forall_mem_append.1 hfirst
  have hfits : ∀ l ∈ before, l.length ≤ lineCapacity := fun l hl => (hbefore l hl).1
  have hwithout : ∀ l ∈ before ++ after, '\n' ∉ l :=
    List.forall_mem_append.2 ⟨fun l hl => (hbefore l hl).2, fun l hl => (hafter l hl).2⟩
  have hwith : ∀ l ∈ before ++ (blockLines key body ++ after), '\n' ∉ l := by
    rw [← List.append_assoc]
    exact fun l hl => (hls l hl).2
  refine ⟨interpretIniFile_append hwithout, ?_⟩
  obtain ⟨halike, hsection, hcall⟩ :=
    IniState.foldl_block hk hbody hout (closed_stateAfter before)
  rw [List.append_assoc, interpretIniFile_append hwith, callsAfter_of_fits hwith hfits,
    callsAfter_of_fits hwithout hfits, readLines_append after fun l hl => (hblock l hl).1,
    IniState.lineCalls_append, hcall, IniState.lineCalls_congr _ halike hsection]
  rfl

/-- A block whose body has a blank line, a comment and a line that looks like a section. -/
theorem interpretIniFile_block_nodes :
    interpretIniFile (some (fileText (["[net]".toList] ++ ["ab=1".toList]))) =
        interpretIniFile (some (fileText ["[net]".toList])) ++
          callsAfter ["[net]".toList] ["ab=1".toList] ∧
      interpretIniFile (some (fileText (["[net]".toList] ++
          blockLines "nodes".toList ["  n1,".toList, [], "/old".toList, "[n2".toList] ++
            ["ab=1".toList]))) =
        interpretIniFile (some (fileText ["[net]".toList])) ++
          ((stateAfter ["[net]".toList]).sectionName, "nodes".toList,
            blockValue ["  n1,".toList, [], "/old".toList, "[n2".toList]) ::
              callsAfter ["[net]".toList] ["ab=1".toList] :=
  interpretIniFile_block ⟨by decide, by simp [isSpace]⟩ (by decide) (by decide) (by decide)

/-! ## A key-value line -/

/-- The text `InterpretIniSection` takes: as many characters after the first `[` as stand before
the first `]`, less one. -/
def bracketText (t : Str) : Str := (t.drop (t.idxOf '[' + 1)).take (t.idxOf ']' - 1)

theorem indexOf_of_mem {c : Char} {s : Str} (h : c ∈ s) : indexOf c s = s.idxOf c := by
  obtain ⟨p, q, rfl, hp⟩ := List.eq_append_cons_of_mem h
  rw [indexOf_append_cons hp, List.idxOf_append_of_notMem hp, List.idxOf_cons_self, Nat.add_zero]

/-- What a trimmed line makes of the section in force. -/
theorem interpretIniSection_eq (t : Str) :
    interpretIniSection t = if '[' ∈ t ∧ ']' ∈ t then bracketText t else [] := by
  by_cases hopen : '[' ∈ t
  · by_cases hclose : ']' ∈ t
    · rw [if_pos ⟨hopen, hclose⟩, interpretIniSection, indexOf_of_mem hopen, indexOf_of_mem hclose]
      by_cases h1 : 1 ≤ t.idxOf ']'
      · rw [if_pos (by omega), bracketText]
        congr 1
        omega
      · rw [if_neg (by omega), bracketText, show t.idxOf ']' - 1 = 0 by omega, List.take_zero]
    · rw [if_neg fun h => hclose h.2]
      exact interpretIniSection_of_not_mem_close hclose
  · rw [if_neg fun h => hopen h.1]
    exact interpretIniSection_of_not_mem hopen

/-- The first `=` of a text, followed by `[`, is that of a key-value pair whose value starts with
`[`. -/
theorem head_of_split {p rest key value : Str} (h : p ++ '=' :: '[' :: rest = key ++ '=' :: value)
    (hp : '=' ∉ p) (hk : '[' ∉ key) : value.head? = some '[' := by
  rcases List.append_eq_append_iff.1 h with ⟨a, rfl, ha⟩ | ⟨a, rfl, ha⟩
  · cases a with
    | nil => rw [(List.cons.inj ha).2.symm]; rfl
    | cons c a =>
      obtain ⟨rfl, ha'⟩ := List.cons.inj ha
      cases a with
      | nil => exact absurd (List.cons.inj ha').1 (by decide)
      | cons c a =>
        obtain ⟨rfl, -⟩ := List.cons.inj ha'
        exact absurd (List.mem_append_right p (List.mem_cons_of_mem _ List.mem_cons_self)) hk
  · cases a with
    | nil => rw [(List.cons.inj ha).2]; rfl
    | cons c a =>
      obtain ⟨rfl, -⟩ := List.cons.inj ha
      exact absurd (List.mem_append_right key List.mem_cons_self) hp

/-- A key and a value that opens a block are an `=` followed by `[`. -/
theorem split_of_openBlock {t key value : Str} (h : interpretIniKeyValue t = some (key, value))
    (hv : value.head? = some '[') : ∃ p rest, t = p ++ '=' :: '[' :: rest ∧ '=' ∉ p := by
  by_cases heq : '=' ∈ t
  · obtain ⟨p, q, rfl, hp⟩ := List.eq_append_cons_of_mem heq
    rw [interpretIniKeyValue_append_cons hp] at h
    obtain ⟨-, h⟩ := Option.ite_none_right_eq_some.1 h
    obtain ⟨-, hvalue⟩ := Prod.mk.inj (Option.some.inj h)
    -- a comment may cut the value, not what it starts with
    have hpre : value <+: q := by
      rw [← hvalue]
      split
      · exact List.take_prefix _ _
      · exact List.prefix_refl _
    obtain ⟨r, rfl⟩ := hpre
    obtain ⟨rest, rfl⟩ := List.head?_eq_some_iff.1 hv
    exact ⟨p, rest ++ r, rfl, hp⟩
  · rw [interpretIniKeyValue, indexOf_of_not_mem heq] at h
    exact absurd (Option.ite_none_right_eq_some.1 h).1 (by decide)

theorem eq_some_of_pairEffect {kv : Option (Str × Str)} {key : Str}
    (h : pairEffect kv = .openBlock key) :
    ∃ value, kv = some (key, value) ∧ value.head? = some '[' := by
  unfold pairEffect at h
  split at h
  · cases h
  · split at h
    · obtain rfl := LineEffect.openBlock.inj h
      exact ⟨_, rfl, ‹_›⟩
    · cases h

/-- Where a trimmed line has its first `=`, the line has it. -/
theorem split_of_trim {line p rest : Str} (h : trim line = p ++ '=' :: rest) (hp : '=' ∉ p) :
    ∃ q r, line = q ++ '=' :: rest ++ r ∧ '=' ∉ q := by
  obtain ⟨r, hr⟩ := trim_prefix_dropWhile line
  rw [h] at hr
  obtain ⟨r', hr'⟩ : cstr line <+: line := List.takeWhile_prefix _
  have hblank : '=' ∉ (cstr line).takeWhile isBlank := fun hm =>
    absurd (List.mem_takeWhile_imp hm) (by decide)
  refine ⟨(cstr line).takeWhile isBlank ++ p, r ++ r', ?_, ?_⟩
  · calc line = (cstr line).takeWhile isBlank ++ (cstr line).dropWhile isBlank ++ r' := by
          rw [List.takeWhile_append_dropWhile, hr']
      _ = _ := by
          rw [← hr]
          simp only [List.append_assoc, List.cons_append]
  · exact fun hm => (List.mem_append.1 hm).elim hblank hp

/-- A key-value line whose value does not start with `[` opens no block. -/
theorem lineEffect_keyValue {key value : Str} (hk : '[' ∉ key) (hv : value.head? ≠ some '[')
    (k : Str) : lineEffect false (key ++ '=' :: value) ≠ .openBlock k := by
  intro he
  rw [lineEffect] at he
  simp only [Bool.false_eq_true, if_false] at he
  split at he
  · cases he
  split at he
  swap
  · cases he
  obtain ⟨v, hkv, hhead⟩ := eq_some_of_pairEffect he
  obtain ⟨p, rest, ht, hp⟩ := split_of_openBlock hkv hhead
  obtain ⟨q, r, hline, hq⟩ := split_of_trim ht hp
  have hsplit : q ++ '=' :: '[' :: (rest ++ r) = key ++ '=' :: value := by
    rw [hline, List.append_assoc]
    rfl
  exact hv (head_of_split hsplit hq hk)

/-- The trimmed line leaves the section in force: it is a comment, has no `[` or no `]`, or the
text `InterpretIniSection` takes is empty or the section in force. -/
def KeepsSection (sectionName t : Str) : Prop :=
  isComment t = true ∨ '[' ∉ t ∨ ']' ∉ t ∨ bracketText t = [] ∨ bracketText t = sectionName

theorem newSection_pairEffect (sectionName : Str) (kv : Option (Str × Str)) :
    (pairEffect kv).newSection sectionName = sectionName := by
  unfold pairEffect
  split
  · rfl
  · split <;> rfl

theorem newSection_eq_iff (sectionName line : Str) :
    (lineEffect false line).newSection sectionName = sectionName ↔
      KeepsSection sectionName (trim line) := by
  rw [lineEffect, KeepsSection]
  by_cases hc : isComment (trim line) = true
  · simp only [if_pos hc]
    exact iff_of_true rfl (.inl hc)
  simp only [if_neg hc, if_neg Bool.false_ne_true]
  by_cases hb : '[' ∈ trim line ∧ ']' ∈ trim line
  · rw [interpretIniSection_eq, if_pos hb, or_iff_right hc, or_iff_right (not_not.2 hb.1),
      or_iff_right (not_not.2 hb.2)]
    by_cases hn : bracketText (trim line) = []
    · rw [if_pos hn]
      exact iff_of_true (newSection_pairEffect _ _) (.inl hn)
    · rw [if_neg hn, or_iff_right hn]
      rfl
  · rw [interpretIniSection_eq, if_neg hb, if_pos rfl]
    exact iff_of_true (newSection_pairEffect _ _)
      (.inr ((Classical.not_and_iff_not_or_not.1 hb).imp id .inl))

/-- A line outside a block that opens none leaves everything but the key and the section. -/
theorem IniState.alike_interpretIniLine {s : IniState} {line : Str}
    (hm : s.multilineStart = false) (hopen : ∀ k, lineEffect false line ≠ .openBlock k) :
    Alike s (s.interpretIniLine line) := by
  rw [interpretIniLine_eq, hm]
  have hblock := inBlock_lineEffect line
  cases he : lineEffect false line with
  | skip => exact Alike.refl s
  | append text => rw [he] at hblock; cases hblock
  | close => rw [he] at hblock; cases hblock
  | setSection name => exact ⟨rfl, rfl, fun _ => rfl⟩
  | openBlock k => exact absurd he (hopen k)
  | pair key value => exact ⟨rfl, rfl, fun h => absurd (hm.symm.trans h) nofun⟩

/-- **When a key-value line leaves the section of the later lines**: nothing after it is read, or
it leaves the section in force, or the later lines make no call before the section is set. -/
theorem callsAfter_sections_iff {before after : List Str} {key value : Str}
    (hls : ∀ l ∈ before ++ after, '\n' ∉ l) (hline : '\n' ∉ key ++ '=' :: value)
    (hfits : (key ++ '=' :: value).length ≤ lineCapacity) (hk : '[' ∉ key)
    (hv : value.head? ≠ some '[') (hout : (stateAfter before).multilineStart = false) :
    (callsAfter (before ++ [key ++ '=' :: value]) after).map Prod.fst =
        (callsAfter before after).map Prod.fst ↔
      (∃ l ∈ before, lineCapacity < l.length) ∨
        KeepsSection (stateAfter before).sectionName (trim (key ++ '=' :: value)) ∨
        IniState.SilentToSection false (readLines after) := by
  obtain ⟨hbefore, hafter⟩ := List.forall_mem_append.1 hls
  have hwith : ∀ l ∈ (before ++ [key ++ '=' :: value]) ++ after, '\n' ∉ l :=
    List.forall_mem_append.2 ⟨List.forall_mem_append.2
      ⟨hbefore, List.forall_mem_singleton.2 hline⟩, hafter⟩
  rcases long_or_fits before with hlong | hall
  · obtain ⟨l, hl, hlt⟩ := hlong
    rw [callsAfter_of_long after hwith ⟨l, List.mem_append_left _ hl, hlt⟩,
      callsAfter_of_long after hls ⟨l, hl, hlt⟩]
    exact iff_of_true rfl (.inl ⟨l, hl, hlt⟩)
  have hno : ¬ ∃ l ∈ before, lineCapacity < l.length := fun ⟨l, hl, hlt⟩ =>
    absurd (hall l hl) (Nat.not_le.2 hlt)
  have hall' : ∀ l ∈ before ++ [key ++ '=' :: value], l.length ≤ lineCapacity :=
    List.forall_mem_append.2 ⟨hall, List.forall_mem_singleton.2 hfits⟩
  have hstate : stateAfter (before ++ [key ++ '=' :: value]) =
      (stateAfter before).interpretIniLine (key ++ '=' :: value) := by
    rw [stateAfter, readLines_of_fits hall', List.foldl_append, stateAfter,
      readLines_of_fits hall]
    rfl
  have halike := IniState.alike_interpretIniLine hout (lineEffect_keyValue hk hv)
  rw [callsAfter_of_fits hwith hall', callsAfter_of_fits hls hall, hstate, or_iff_right hno,
    IniState.lineCalls_sections_iff _ halike, hout, ← newSection_eq_iff,
    IniState.interpretIniLine_eq, LineEffect.sectionName_apply, hout]

/-- A value without brackets. -/
theorem callsAfter_sections_plain :
    (callsAfter (["[net]".toList] ++ ["ab".toList ++ '=' :: "x".toList]) ["cd=1".toList]).map
        Prod.fst = (callsAfter ["[net]".toList] ["cd=1".toList]).map Prod.fst :=
  (callsAfter_sections_iff (by decide) (by decide) (by decide) (by decide) (by decide)
    (by decide)).2 (.inr (.inl (by unfold KeepsSection; decide)))

/-- The value `x[y]` is taken for a section. -/
theorem callsAfter_sections_ne :
    callsAfter ["[net]".toList] ["cd=1".toList] = [("net".toList, "cd".toList, "1".toList)] ∧
      callsAfter (["[net]".toList] ++ ["ab".toList ++ '=' :: "x[y]".toList]) ["cd=1".toList] =
        [("y]".toList, "cd".toList, "1".toList)] := by
  decide

end StringUtility
