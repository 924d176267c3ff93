import Graviton.Service.LogFile
import Graviton.Utility.IniDocument

/-!
# The configuration thread

`ConfigurationThread` of `libs/protocol/resource.cpp`. `Initialize` reads `nodemap.conf`; the
lines it reads and the values it finds all go to the log, and nowhere else.

* `initializeThread_document`: the statements a configuration file gives rise to.
* `readAdding_addCommand_iff`: which values can be read off the text `AddCommand` logs.
* `readConfiguration_iff`: exactly when the log file tells the configuration.
-/

open Lib StringUtility LogOutput

namespace ConfigurationThread

/-! ## The statements -/

/-- A call of `Info`: the component of the log, and the formatted text. -/
structure Entry where
  component : Str
  text : Str

/-- What the directives of `AddCommand` print. -/
def addCommandText (c : Str × Str × Str) : Str :=
  "Adding [".toList ++ (cstr c.1 ++ ("] ".toList ++ (cstr c.2.1 ++ '=' :: cstr c.2.2)))

/-- `AddConfigValue`, which calls `AddCommand`. -/
def addCommand (c : Str × Str × Str) : Entry :=
  ⟨"Configuration".toList, format "Adding [%s] %s=%s".toList (addCommandText c)⟩

/-- The statement `InterpretIniFile` makes of a line. -/
def trimmedEntry (trimmedLine : Str) : Entry :=
  ⟨"Common".toList, format "TRIMMED---%s---".toList
    ("TRIMMED---".toList ++ (cstr trimmedLine ++ "---".toList))⟩

/-- The statements of one iteration: the calls of `addCommandFunction` come after the line. -/
def lineEntries (s : IniState) (line : Str) : List Entry :=
  if isComment (trim line) then []
  else trimmedEntry (trim line) ::
    ((s.interpretIniLine line).calls.drop s.calls.length).map addCommand

def linesEntries : IniState → List Str → List Entry
  | _, [] => []
  | s, line :: ls => lineEntries s line ++ linesEntries (s.interpretIniLine line) ls

/-- `Initialize`: `content` is that of `nodemap.conf`, if it opens. -/
def initializeThread : Option Str → List Entry
  | none => []
  | some content => linesEntries .init (getlines lineCapacity lineCapacity [] content)

/-- The entries as statements, with the time each of them is printed at. -/
def statements (clock : Nat → EthTime) (entries : List Entry) : List Statement :=
  entries.mapIdx fun i e => ⟨clock i, .info, e.component, e.text⟩

/-! ## Reading them back -/

/-- The value that a text of `AddCommand` names. -/
def readAdding (text : Str) : Option (Str × Str × Str) :=
  let named := text.drop 8
  let sectionName := named.takeWhile (· ≠ ']')
  let pair := named.drop (sectionName.length + 2)
  let key := pair.takeWhile (· ≠ '=')
  let c := (sectionName, key, pair.drop (key.length + 1))
  if addCommandText c = text then some c else none

/-- The value that a record tells; the log prints 8 characters of a component. -/
def readValue (r : Record) : Option (Str × Str × Str) :=
  if r.component = "Configur".toList then readAdding r.text else none

/-- The configuration that a log file tells. -/
def readConfiguration (text : Str) : List (Str × Str × Str) := (readLog text).filterMap readValue

/-! ## The entries of a file -/

theorem lineEntries_eq (s : IniState) (line : Str) : lineEntries s line =
    if isComment (trim line) then []
    else trimmedEntry (trim line) ::
      ((lineEffect s.multilineStart line).call s).map addCommand := by
  rw [lineEntries, IniState.interpretIniLine_eq, LineEffect.calls_apply, List.drop_left]

/-- Every entry is that of a line, or of a call. -/
theorem mem_linesEntries : ∀ {ls : List Str} {s : IniState} {e : Entry},
    e ∈ linesEntries s ls →
      (∃ line ∈ ls, e = trimmedEntry (trim line)) ∨ ∃ c ∈ s.lineCalls ls, e = addCommand c
  | line :: ls, s, e, h => by
    rcases List.mem_append.1 h with h | h
    · rw [lineEntries_eq] at h
      split at h
      · cases h
      rcases List.mem_cons.1 h with rfl | h
      · exact .inl ⟨line, .head _, rfl⟩
      · obtain ⟨c, hc, rfl⟩ := List.mem_map.1 h
        exact .inr ⟨c, List.mem_append_left _ hc, rfl⟩
    · rcases mem_linesEntries h with ⟨l, hl, he⟩ | ⟨c, hc, he⟩
      · exact .inl ⟨l, .tail _ hl, he⟩
      · exact .inr ⟨c, List.mem_append_right _ hc, he⟩

/-- The calls among the entries, in order. -/
theorem filterMap_linesEntries {β : Type*} {f : Entry → Option β}
    (hf : ∀ line, f (trimmedEntry line) = none) : ∀ (ls : List Str) (s : IniState),
    (linesEntries s ls).filterMap f = (s.lineCalls ls).filterMap (f ∘ addCommand)
  | [], _ => rfl
  | line :: ls, s => by
    rw [linesEntries, List.filterMap_append, filterMap_linesEntries hf ls, IniState.lineCalls,
      List.filterMap_append, lineEntries_eq]
    congr 1
    split
    · rename_i hskip
      have heff : lineEffect s.multilineStart line = .skip := by
        rw [lineEffect]
        exact if_pos hskip
      rw [heff]
      rfl
    · rw [List.filterMap_cons_none (hf _), List.filterMap_map]

/-- **The entries of a configuration file** are those of its lines. -/
theorem initializeThread_document (d : IniDocument) :
    initializeThread (some d.text) = linesEntries .init (d.items.flatMap IniItem.lines) := by
  by_cases hne : d.items.flatMap IniItem.lines = []
  · rw [initializeThread, IniDocument.text, hne]
    rfl
  · rw [initializeThread, IniDocument.text, getlines_fileText hne fun l hl => (d.fits l hl).2]
    exact congrArg _ (readLines_of_fits fun l hl => (d.fits l hl).1)

/-! ## The texts -/

/-- A value whose text can be taken apart, on one line. -/
structure Readable (c : Str × Str × Str) : Prop where
  sectionName : ']' ∉ c.1
  key : '=' ∉ c.2.1
  plain : ∀ s ∈ [c.1, c.2.1, c.2.2], '\x00' ∉ s ∧ '\n' ∉ s

theorem addCommandText_eq {c : Str × Str × Str} (h : Readable c) : addCommandText c =
    "Adding [".toList ++ (c.1 ++ ("] ".toList ++ (c.2.1 ++ '=' :: c.2.2))) := by
  have hcstr : ∀ s ∈ [c.1, c.2.1, c.2.2], cstr s = s := fun s hs =>
    cstr_eq_self_iff.2 (h.plain s hs).1
  unfold addCommandText
  rw [hcstr c.1 (by simp), hcstr c.2.1 (by simp), hcstr c.2.2 (by simp)]

theorem addCommandText_of_readAdding {text : Str} {c : Str × Str × Str}
    (h : readAdding text = some c) : addCommandText c = text := by
  unfold readAdding at h
  dsimp only at h
  split at h
  · rename_i htext
    rw [← Option.some.inj h]
    exact htext
  · cases h

theorem readAdding_addCommandText {c : Str × Str × Str} (h : Readable c) :
    readAdding (addCommandText c) = some c := by
  obtain ⟨sectionName, key, value⟩ := c
  have hs : ∀ d ∈ sectionName, decide (d ≠ ']') = true := fun d hd =>
    decide_eq_true fun he => h.sectionName (he ▸ hd)
  have hk : ∀ d ∈ key, decide (d ≠ '=') = true := fun d hd =>
    decide_eq_true fun he => h.key (he ▸ hd)
  have hnamed : (addCommandText (sectionName, key, value)).drop 8 =
      sectionName ++ ("] ".toList ++ (key ++ '=' :: value)) := by
    rw [addCommandText_eq h]
    rfl
  have hsection : (sectionName ++ ("] ".toList ++ (key ++ '=' :: value))).takeWhile (· ≠ ']') =
      sectionName := by
    rw [List.takeWhile_append_of_pos hs]
    exact List.append_nil _
  have hpair : (sectionName ++ ("] ".toList ++ (key ++ '=' :: value))).drop
      (sectionName.length + 2) = key ++ '=' :: value := by
    rw [← List.append_assoc]
    exact List.drop_left' (by simp)
  have hkey : (key ++ '=' :: value).takeWhile (· ≠ '=') = key := by
    rw [List.takeWhile_append_of_pos hk, List.takeWhile_cons_of_neg (by simp), List.append_nil]
  have hvalue : (key ++ '=' :: value).drop (key.length + 1) = value := by
    rw [← List.singleton_append, ← List.append_assoc]
    exact List.drop_left' (by simp)
  rw [readAdding, hnamed, hsection, hpair, hkey, hvalue]
  exact if_pos rfl

/-- **Which values can be read off the text that is logged**: those whose text fits the buffer. -/
theorem readAdding_addCommand_iff {c : Str × Str × Str} (h : Readable c) :
    readAdding (addCommand c).text = some c ↔ (addCommandText c).length < stringBufferSize := by
  have hfmt : "Adding [%s] %s=%s".toList.length ≤ stringBufferSize := by decide
  constructor
  · intro hread
    have hsame := addCommandText_of_readAdding hread
    unfold addCommand at hsame
    exact (format_length_eq_iff hfmt).1 (congrArg List.length hsame.symm)
  · intro hlt
    unfold addCommand
    rw [format_of_lt hlt]
    exact readAdding_addCommandText h

/-- An entry that the log prints whole, on one line. -/
structure Entry.Prints (e : Entry) : Prop where
  fits : e.text.length < stringBufferSize
  nul : '\x00' ∉ e.text
  text : '\n' ∉ e.text
  component : '\n' ∉ (cstr e.component).take 8

theorem prints_addCommand {c : Str × Str × Str} (h : Readable c) : (addCommand c).Prints := by
  have hmem : ∀ d, d ∉ "Adding [] =".toList → (∀ s ∈ [c.1, c.2.1, c.2.2], d ∉ cstr s) →
      d ∉ addCommandText c := by
    intro d hd hs
    have hd' : ∀ e ∈ "Adding [] =".toList, d ≠ e := fun e he heq => hd (heq ▸ he)
    unfold addCommandText
    simp only [List.mem_append, List.mem_cons, not_or]
    refine ⟨fun hm => hd ?_, hs _ (by simp), fun hm => hd ?_, hs _ (by simp), hd' _ (by decide),
      hs _ (by simp)⟩
    · exact (show "Adding [".toList ⊆ "Adding [] =".toList by decide) hm
    · exact (show "] ".toList ⊆ "Adding [] =".toList by decide) hm
  have hnul := hmem '\x00' (by decide) fun _ _ => nul_not_mem_cstr
  have hnl := hmem '\n' (by decide) fun s hs hm =>
    (h.plain s hs).2 ((List.takeWhile_sublist _).mem hm)
  exact ⟨format_length_lt (by decide), not_mem_format (by decide) (by decide) hnul,
    not_mem_format (by decide) (by decide) hnl,
    show '\n' ∉ (cstr "Configuration".toList).take 8 by decide⟩

theorem prints_trimmedEntry {line : Str} (h : '\n' ∉ line) : (trimmedEntry (trim line)).Prints := by
  have hnl : '\n' ∉ cstr (trim line) := fun hm =>
    h (mem_of_mem_trim ((List.takeWhile_sublist _).mem hm))
  refine ⟨format_length_lt (by decide), not_mem_format (by decide) (by decide) ?_,
    not_mem_format (by decide) (by decide) ?_,
    show '\n' ∉ (cstr "Common".toList).take 8 by decide⟩ <;>
    simp only [List.mem_append, not_or]
  · exact ⟨by decide, nul_not_mem_cstr, by decide⟩
  · exact ⟨by decide, hnl, by decide⟩

/-! ## The values of a document -/

/-- A partial map leaves a list as it is when it leaves every element as it is. -/
theorem filterMap_eq_self_iff {α : Type*} {f : α → Option α} :
    ∀ {l : List α}, l.filterMap f = l ↔ ∀ a ∈ l, f a = some a
  | [] => ⟨nofun, fun _ => rfl⟩
  | a :: l => by
    rw [List.forall_mem_cons, ← filterMap_eq_self_iff]
    cases ha : f a with
    | none =>
      have hlen := List.length_filterMap_le f l
      rw [List.filterMap_cons_none ha]
      exact iff_of_false (fun h => by rw [h, List.length_cons] at hlen; omega) nofun
    | some b => rw [List.filterMap_cons_some ha, List.cons.injEq, Option.some.injEq]

theorem readable_of_mem_calls {sectionName : Str} {item : IniItem}
    (hs : ']' ∉ sectionName ∧ '\x00' ∉ sectionName ∧ '\n' ∉ sectionName)
    (hlines : ∀ l ∈ item.lines, '\n' ∉ l) {c : Str × Str × Str}
    (h : c ∈ item.calls sectionName) : Readable c := by
  have hkey : ∀ {key : Str}, IsBlockKey key → '=' ∉ key ∧ '\x00' ∉ key ∧ '\n' ∉ key := fun hk =>
    ⟨fun hm => (hk.chars _ hm).2 (by decide), fun hm => (hk.chars _ hm).2 (by decide),
      fun hm => absurd (hk.chars _ hm).1 (by decide)⟩
  cases item with
  | remark | heading => cases h
  | pair d key value hk hv =>
    obtain rfl := List.mem_singleton.1 h
    have hvalue : '\x00' ∉ value ∧ '\n' ∉ value :=
      ⟨fun hm => (hv _ hm).1.2.1 rfl, fun hm => absurd (hv _ hm).1.1 (by decide)⟩
    exact ⟨hs.1, (hkey hk).1, by simpa using ⟨hs.2, (hkey hk).2, hvalue⟩⟩
  | block key body hk hb =>
    obtain rfl := List.mem_singleton.1 h
    have hmem : ∀ {d}, d ∈ blockValue body → ∃ l ∈ body, d ∈ trim l := by
      intro d hd
      obtain ⟨t, ht, hdt⟩ := List.mem_flatten.1 hd
      obtain ⟨l, hl, rfl⟩ := List.mem_map.1 (List.mem_filter.1 ht).1
      exact ⟨l, hl, hdt⟩
    have hvalue : '\x00' ∉ blockValue body ∧ '\n' ∉ blockValue body := by
      refine ⟨fun hm => ?_, fun hm => ?_⟩ <;> obtain ⟨l, hl, hd⟩ := hmem hm
      · exact nul_not_mem_trim hd
      · exact hlines l (.tail _ (List.mem_append_left _ hl)) (mem_of_mem_trim hd)
    exact ⟨hs.1, (hkey hk).1, by simpa using ⟨hs.2, (hkey hk).2, hvalue⟩⟩

/-- The values of a document can be taken apart, section by section. -/
theorem readable_of_mem_meaning : ∀ {items : List IniItem} {sectionName : Str},
    (']' ∉ sectionName ∧ '\x00' ∉ sectionName ∧ '\n' ∉ sectionName) →
    (∀ l ∈ items.flatMap IniItem.lines, '\n' ∉ l) → ∀ c ∈ meaning sectionName items, Readable c
  | item :: items, sectionName, hs, hlines, c, h => by
    rw [List.flatMap_cons] at hlines
    obtain ⟨hitem, hitems⟩ := List.forall_mem_append.1 hlines
    rcases List.mem_append.1 h with h | h
    · exact readable_of_mem_calls hs hitem h
    · refine readable_of_mem_meaning ?_ hitems c h
      cases item with
      | heading d name hn =>
        exact ⟨fun hm => (hn.chars _ hm).2 rfl, fun hm => (hn.chars _ hm).1.2.1 rfl,
          fun hm => absurd (hn.chars _ hm).1.1 (by decide)⟩
      | _ => exact hs

/-! ## The log file -/

/-- The value that the record of an entry tells. -/
def told (e : Entry) : Option (Str × Str × Str) :=
  readValue ⟨[], .info, ((cstr e.component).take 8).dropWhile (· = ' '), e.text⟩

theorem told_trimmedEntry (t : Str) : told (trimmedEntry t) = none := by
  have hother : ((cstr "Common".toList).take 8).dropWhile (· = ' ') ≠ "Configur".toList := by
    decide
  unfold told readValue
  exact if_neg hother

theorem told_addCommand (c : Str × Str × Str) :
    told (addCommand c) = readAdding (addCommand c).text := by
  have hname : ((cstr "Configuration".toList).take 8).dropWhile (· = ' ') = "Configur".toList := by
    decide
  unfold told readValue
  exact if_pos hname

theorem filedText_entry {e : Entry} (h : e.Prints) (now : EthTime) :
    filedText ⟨now, .info, e.component, e.text⟩ = e.text := by
  rw [filedText, cstr_eq_self_iff.2 h.nul, format_of_lt h.fits]

/-- The times do not matter. -/
theorem filterMap_statements : ∀ (clock : Nat → EthTime) {entries : List Entry},
    (∀ e ∈ entries, e.Prints) →
    ((statements clock entries).map shown).filterMap readValue = entries.filterMap told
  | _, [], _ => rfl
  | clock, e :: entries, h => by
    obtain ⟨he, h⟩ := List.forall_mem_cons.1 h
    have ih := filterMap_statements (clock ∘ (· + 1)) h
    have hread : readValue (shown ⟨clock 0, .info, e.component, e.text⟩) = told e := by
      rw [shown, filedText_entry he, told, readValue, readValue]
    have hstatements : statements clock (e :: entries) = ⟨clock 0, .info, e.component, e.text⟩ ::
        statements (clock ∘ (· + 1)) entries := List.mapIdx_cons
    rw [hstatements, List.map_cons, List.filterMap_cons, List.filterMap_cons, hread, ih]

/-- **What the log file tells** of entries that are printed whole. -/
theorem readConfiguration_entries {notice : Str} (hmark : '#' ∉ notice) (hline : '\n' ∉ notice)
    (clock : Nat → EthTime) {entries : List Entry} (h : ∀ e ∈ entries, e.Prints) :
    ∃ text, (run (construct notice true) ((statements clock entries).map .print)).destroy =
        some text ∧ readConfiguration text = entries.filterMap told := by
  have hone : ∀ s ∈ statements clock entries, OneLine s := by
    intro s hs
    obtain ⟨i, hi, rfl⟩ := List.mem_mapIdx.1 hs
    have he := h _ (List.getElem_mem hi)
    exact ⟨he.component, by rw [filedText_entry he]; exact he.text⟩
  have hfp := run_fp ((statements clock entries).map .print) (construct notice true)
  rw [on_construct (.inl rfl), decide_eq_true rfl, sent_map_print] at hfp
  refine ⟨_, by rw [destroy, hfp]; rfl, ?_⟩
  rw [readConfiguration, ← filterMap_statements clock h]
  exact congrArg _ (readLog_of_oneLine hmark hline hone)

/-- **When the log file tells the configuration**: exactly when the text of every value fits the
buffer it is formatted in. -/
theorem readConfiguration_iff {notice : Str} (hmark : '#' ∉ notice) (hline : '\n' ∉ notice)
    (clock : Nat → EthTime) (d : IniDocument) :
    ∃ text, (run (construct notice true)
        ((statements clock (initializeThread (some d.text))).map .print)).destroy = some text ∧
      (readConfiguration text = meaning [] d.items ↔
        ∀ c ∈ meaning [] d.items, (addCommandText c).length < stringBufferSize) := by
  have hlines : ∀ l ∈ d.items.flatMap IniItem.lines, '\n' ∉ l := fun l hl => (d.fits l hl).2
  have hcalls : IniState.init.lineCalls (d.items.flatMap IniItem.lines) = meaning [] d.items :=
    IniState.lineCalls_items d.items rfl fun _ => rfl
  have hreadable : ∀ c ∈ meaning [] d.items, Readable c :=
    readable_of_mem_meaning ⟨nofun, nofun, nofun⟩ hlines
  have hprints : ∀ e ∈ initializeThread (some d.text), e.Prints := by
    intro e he
    rw [initializeThread_document] at he
    rcases mem_linesEntries he with ⟨line, hl, rfl⟩ | ⟨c, hc, rfl⟩
    · exact prints_trimmedEntry (hlines line hl)
    · exact prints_addCommand (hreadable c (hcalls ▸ hc))
  obtain ⟨text, htext, hread⟩ := readConfiguration_entries hmark hline clock hprints
  refine ⟨text, htext, ?_⟩
  rw [hread, initializeThread_document, filterMap_linesEntries told_trimmedEntry, hcalls,
    filterMap_eq_self_iff]
  refine forall₂_congr fun c hc => ?_
  rw [Function.comp_apply, told_addCommand, readAdding_addCommand_iff (hreadable c hc)]

/-- The log of a run on `nodemap`. -/
theorem readConfiguration_nodemap :
    ∃ text, (run (construct "Common".toList true) ((statements (fun _ => ⟨19, 3, 1, 5, 9, 30, 0⟩)
        (initializeThread (some nodemap.text))).map .print)).destroy = some text ∧
      readConfiguration text = [("net".toList, "ip".toList, "10.0.0.1".toList),
        ("net".toList, "hosts".toList, "n1,n2".toList)] := by
  obtain ⟨text, htext, hiff⟩ := readConfiguration_iff (show '#' ∉ "Common".toList by decide)
    (by decide) (fun _ => ⟨19, 3, 1, 5, 9, 30, 0⟩) nodemap
  have hmeaning : meaning [] nodemap.items = [("net".toList, "ip".toList, "10.0.0.1".toList),
      ("net".toList, "hosts".toList, "n1,n2".toList)] := by decide
  rw [hmeaning] at hiff
  exact ⟨text, htext, hiff.2 (by decide)⟩

end ConfigurationThread
