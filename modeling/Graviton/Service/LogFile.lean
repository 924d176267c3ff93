import Graviton.Base.EthTime
import Graviton.Utility.StringUtility

/-!
# The log file

The output of `LogManager` in `libs/service/logmanager.cpp`: the targets of `logmanager.h`, the
constructor and destructor with the lines they write, `Print`, and the text `StringBuilder` makes.
A statement goes to the file and to the shell as the target mask says at that time. What is modelled
of either is the content of its stream: nothing is flushed before `fclose`.

* `run_outputs`: what the streams of the file and the shell hold after any run.
* `readRecord_body`: a line of the file is read back.
* `readLog_iff`: exactly when the whole file is read back as the statements filed.
-/

open Lib StringUtility

inductive LogLevel
  | debug | verbose | info | warning | error | off
  deriving DecidableEq

inductive LogTarget
  | none | file | shell | console | lastLogTarget
  deriving DecidableEq

/-- The values of the enumeration. -/
def LogTarget.value : LogTarget → BitVec 32
  | .none => 0
  | .file => 2
  | .shell => 4
  | .console => 8
  | .lastLogTarget => 9

namespace StringBuilder

def append (sb fmt text : Str) : Str := sb ++ format fmt text

def appendLine (sb fmt text : Str) : Str := append sb fmt text ++ ['\n']

end StringBuilder

/-- `m_logTarget`, the text written to `m_fp`, if it is open, and to the standard output. -/
structure LogOutput where
  logTarget : BitVec 32
  fp : Option Str
  shell : Str

/-- What `Print` is given, with the time it reads. -/
structure Statement where
  now : EthTime
  level : LogLevel
  component : Str
  logText : Str

inductive LogOutputAct
  | addTarget (target : LogTarget)
  | clearTarget (target : LogTarget)
  | print (e : Statement)

/-- What a line of the log says. -/
structure Record where
  time : List Nat
  level : LogLevel
  component : Str
  text : Str

namespace LogOutput

def logLevelToString : LogLevel → Char
  | .debug => 'D'
  | .verbose => 'V'
  | .info => 'I'
  | .warning => 'W'
  | .error => 'E'
  | .off => 'O'

/-- `"%8.8s"`. -/
def column (s : Str) : Str := ((cstr s).take 8).leftpad 8 ' '

/-- The text `Print` makes of a statement. -/
def record (e : Statement) : Str :=
  let sb := StringBuilder.append [] "%s".toList (cstr e.now.toString)
  let sb := StringBuilder.append sb " # %s %8.8s # ".toList
    (" # ".toList ++ logLevelToString e.level :: ' ' :: (column e.component ++ " # ".toList))
  StringBuilder.appendLine sb "%s".toList (cstr e.logText)

/-- `"%s\n"`, to the standard output. -/
def shellLine (e : Statement) : Str := cstr e.logText ++ ['\n']

def addTarget (o : LogOutput) (target : LogTarget) : LogOutput :=
  { o with logTarget := o.logTarget ||| target.value }

def clearTarget (o : LogOutput) (target : LogTarget) : LogOutput :=
  { o with logTarget := o.logTarget &&& ~~~target.value }

/-- The test of the mask. -/
def on (o : LogOutput) (target : LogTarget) : Bool := o.logTarget &&& target.value ≠ 0

def print (o : LogOutput) (e : Statement) : LogOutput :=
  let text := cstr (record e)
  let o := if o.on .file then { o with fp := o.fp.map (· ++ text) } else o
  if o.on .shell then { o with shell := o.shell ++ shellLine e } else o

/-- The line above and below. -/
def rule : Str := List.replicate 79 '/'

/-- `LogManager::LogManager`: `opened` says whether `fopen` opens the file, `notice` is the second
line that is written to it. -/
def construct (notice : Str) (opened : Bool) : LogOutput where
  logTarget := LogTarget.file.value
  fp := if opened then some (unlines [rule, notice]) else none
  shell := []

/-- `LogManager::~LogManager`: what the file is left with. -/
def destroy (o : LogOutput) : Option Str := o.fp.map (· ++ unlines [rule])

def step (o : LogOutput) : LogOutputAct → LogOutput
  | .addTarget target => o.addTarget target
  | .clearTarget target => o.clearTarget target
  | .print e => o.print e

def run (o : LogOutput) (as : List LogOutputAct) : LogOutput := as.foldl step o

/-- The statements printed while a target is on; `b` says whether it is on at the start. -/
def sent (target : LogTarget) : Bool → List LogOutputAct → List Statement
  | _, [] => []
  | b, .addTarget t :: as => sent target (b || t = target) as
  | b, .clearTarget t :: as => sent target (b && t ≠ target) as
  | b, .print e :: as => if b then e :: sent target b as else sent target b as

theorem sent_map_print (target : LogTarget) : ∀ es : List Statement,
    sent target true (es.map .print) = es
  | [] => rfl
  | e :: es => congrArg (e :: ·) (sent_map_print target es)

/-! ## Targets -/

section
variable {target : LogTarget} (h : target = .file ∨ target = .shell) (o : LogOutput)
include h

/-- The file and the shell have a bit of their own. -/
theorem on_eq : o.on target = o.logTarget.getLsbD (if target = .file then 1 else 2) := by
  have hbit : target.value = BitVec.twoPow 32 (if target = .file then 1 else 2) := by
    rcases h with rfl | rfl <;> decide
  rw [on, hbit, BitVec.and_twoPow]
  cases o.logTarget.getLsbD (if target = .file then 1 else 2) with
  | true =>
    rw [if_pos rfl]
    rcases h with rfl | rfl <;> decide
  | false => rfl

theorem getLsbD_value (t : LogTarget) :
    t.value.getLsbD (if target = .file then 1 else 2) = decide (t = target) := by
  rcases h with rfl | rfl <;> cases t <;> decide

theorem on_construct (notice : Str) (opened : Bool) :
    (construct notice opened).on target = decide (LogTarget.file = target) :=
  (on_eq h _).trans (getLsbD_value h .file)

theorem on_addTarget (t : LogTarget) : (o.addTarget t).on target = (o.on target || t = target) := by
  rw [on_eq h, on_eq h, addTarget, BitVec.getLsbD_or, getLsbD_value h]

theorem on_clearTarget (t : LogTarget) :
    (o.clearTarget t).on target = (o.on target && t ≠ target) := by
  have hlt : (if target = .file then 1 else 2) < 32 := by split <;> decide
  rw [on_eq h, on_eq h, clearTarget, BitVec.getLsbD_and, BitVec.getLsbD_not, getLsbD_value h]
  simp [hlt]

end

/-- **A call of `Print`**: each output has a test of its own. -/
theorem print_eq (o : LogOutput) (e : Statement) : o.print e =
    { logTarget := o.logTarget
      fp := if o.on .file then o.fp.map (· ++ cstr (record e)) else o.fp
      shell := if o.on .shell then o.shell ++ shellLine e else o.shell } := by
  unfold print on
  dsimp only
  split <;> split <;> rfl

theorem on_print (o : LogOutput) (e : Statement) (target : LogTarget) :
    (o.print e).on target = o.on target := by
  rw [print_eq]
  rfl

/-! ## What is printed -/

theorem cstr_toString (t : EthTime) : cstr t.toString = t.toString :=
  cstr_eq_self_iff.2 (EthTime.not_mem_toString rfl (by simp))

theorem length_column (s : Str) : (column s).length = 8 := by
  have := List.length_take_le 8 (cstr s)
  rw [column, List.length_leftpad]
  omega

theorem nul_not_mem_column (s : Str) : '\x00' ∉ column s := by
  intro hm
  rcases List.mem_append.1 hm with hm | hm
  · exact absurd (List.eq_of_mem_replicate hm) (by decide)
  · exact nul_not_mem_cstr (List.mem_of_mem_take hm)

/-- The part of a record before the text. -/
def recordHead (e : Statement) : Str :=
  " # ".toList ++ logLevelToString e.level :: ' ' :: (column e.component ++ " # ".toList)

/-- The text of a record. -/
def filedText (e : Statement) : Str := format "%s".toList (cstr e.logText)

/-- A record without its newline. -/
def body (e : Statement) : Str := e.now.toString ++ recordHead e ++ filedText e

theorem record_eq (e : Statement) : record e = body e ++ ['\n'] := by
  have hhead : (recordHead e).length < stringBufferSize := by
    have := length_column e.component
    simp only [recordHead, List.length_append, List.length_cons, this]
    decide
  have htime : e.now.toString.length < stringBufferSize := by
    have h : e.now.toString.length ≤ 24 := by
      rw [EthTime.toString, snprintf]
      exact List.length_take_le _ _
    have hs : stringBufferSize = 4096 := rfl
    omega
  rw [record, StringBuilder.append, StringBuilder.append, StringBuilder.appendLine,
    StringBuilder.append, cstr_toString, format_of_lt htime, List.nil_append, ← recordHead,
    format_of_lt hhead]
  rfl

theorem nul_not_mem_record (e : Statement) : '\x00' ∉ record e := by
  rw [record_eq, body]
  simp only [List.mem_append, not_or]
  refine ⟨⟨⟨?_, ?_⟩, ?_⟩, by decide⟩
  · exact cstr_eq_self_iff.1 (cstr_toString e.now)
  · have hlevel : '\x00' ≠ logLevelToString e.level := by cases e.level <;> decide
    simp only [recordHead, List.mem_append, List.mem_cons, not_or]
    exact ⟨by decide, hlevel, by decide, nul_not_mem_column _, by decide⟩
  · exact not_mem_format (by decide) (by decide) nul_not_mem_cstr

theorem print_fp (o : LogOutput) (e : Statement) :
    (o.print e).fp = if o.on .file then o.fp.map (· ++ record e) else o.fp := by
  rw [print_eq, cstr_eq_self_iff.2 (nul_not_mem_record e)]

theorem print_shell (o : LogOutput) (e : Statement) :
    (o.print e).shell = if o.on .shell then o.shell ++ shellLine e else o.shell := by
  rw [print_eq]

/-- The file after any run, from any state. -/
theorem run_fp : ∀ (as : List LogOutputAct) (o : LogOutput),
    (run o as).fp = o.fp.map (· ++ (sent .file (o.on .file) as).flatMap record)
  | [], o => by simp [run, sent]
  | .addTarget t :: as, o => by
    have ih := run_fp as (o.addTarget t)
    rw [on_addTarget (.inl rfl)] at ih
    exact ih
  | .clearTarget t :: as, o => by
    have ih := run_fp as (o.clearTarget t)
    rw [on_clearTarget (.inl rfl)] at ih
    exact ih
  | .print e :: as, o => by
    have ih := run_fp as (o.print e)
    rw [on_print, print_fp] at ih
    refine ih.trans ?_
    rw [sent]
    split
    · rw [Option.map_map, List.flatMap_cons]
      simp only [Function.comp_def, List.append_assoc]
    · rfl

/-- The shell after any run, from any state. -/
theorem run_shell : ∀ (as : List LogOutputAct) (o : LogOutput),
    (run o as).shell = o.shell ++ (sent .shell (o.on .shell) as).flatMap shellLine
  | [], o => by simp [run, sent]
  | .addTarget t :: as, o => by
    have ih := run_shell as (o.addTarget t)
    rw [on_addTarget (.inr rfl)] at ih
    exact ih
  | .clearTarget t :: as, o => by
    have ih := run_shell as (o.clearTarget t)
    rw [on_clearTarget (.inr rfl)] at ih
    exact ih
  | .print e :: as, o => by
    have ih := run_shell as (o.print e)
    rw [on_print, print_shell] at ih
    refine ih.trans ?_
    rw [sent]
    split
    · rw [List.flatMap_cons, List.append_assoc]
    · rfl

/-- **The outputs of a run**: the stream of the file has the statements printed while it was a
target, after its two first lines; that of the shell has the texts of those printed while it was
one, and neither depends on the other. -/
theorem run_outputs (notice : Str) (opened : Bool) (as : List LogOutputAct) :
    (run (construct notice opened) as).fp =
      (if opened then some (unlines [rule, notice] ++ (sent .file true as).flatMap record)
        else none) ∧
      (run (construct notice opened) as).shell = (sent .shell false as).flatMap shellLine := by
  rw [run_fp, run_shell, on_construct (.inl rfl), on_construct (.inr rfl)]
  cases opened <;> exact ⟨rfl, List.nil_append _⟩

/-! ## Reading the file -/

/-- The level a letter stands for. -/
def readLevel (c : Char) : Option LogLevel :=
  [.debug, .verbose, .info, .warning, .error, .off].find? fun level => logLevelToString level = c

/-- What a line of the log says, if it is a record. -/
def readRecord (line : Str) : Option Record :=
  match line.dropWhile (· ≠ '#') with
  | _ :: _ :: c :: _ :: rest => (readLevel c).map fun level =>
    { time := EthTime.readTime (line.takeWhile (· ≠ '#'))
      level := level
      component := (rest.take 8).dropWhile (· = ' ')
      text := rest.drop 11 }
  | _ => none

/-- What a record says of its statement: of the component the first eight characters, of the text
what `Format` makes of it. -/
def shown (e : Statement) : Record where
  time := e.now.fields
  level := e.level
  component := ((cstr e.component).take 8).dropWhile (· = ' ')
  text := filedText e

theorem readLevel_logLevelToString (level : LogLevel) :
    readLevel (logLevelToString level) = some level := by
  cases level <;> rfl

theorem dropWhile_column (s : Str) :
    (column s).dropWhile (· = ' ') = ((cstr s).take 8).dropWhile (· = ' ') :=
  List.dropWhile_append_of_pos fun c hc => by simp [List.eq_of_mem_replicate hc]

/-- **A record** is read back, whatever its text. -/
theorem readRecord_body (e : Statement) : readRecord (body e) = some (shown e) := by
  have hmark : ∀ c ∈ e.now.toString ++ [' '], decide (c ≠ '#') = true := by
    intro c hc
    rw [decide_eq_true_eq]
    rintro rfl
    rcases List.mem_append.1 hc with hc | hc
    · exact EthTime.not_mem_toString rfl (by simp) hc
    · exact absurd (List.mem_singleton.1 hc) (by decide)
  have hbody : body e = (e.now.toString ++ [' ']) ++
      '#' :: ' ' :: logLevelToString e.level :: ' ' :: (column e.component ++
        (" # ".toList ++ filedText e)) := by
    simp [body, recordHead]
  have htime : EthTime.readTime (e.now.toString ++ [' ']) = e.now.fields := by
    rw [← EthTime.readTime_toString, EthTime.readTime, EthTime.readTime,
      runs_append_cons (c := ' ') rfl, runs_nil, List.append_nil]
  have hcolumn := length_column e.component
  have htake : (column e.component ++ (" # ".toList ++ filedText e)).take 8 =
      column e.component := by
    rw [← hcolumn, List.take_left]
  have hdrop : (column e.component ++ (" # ".toList ++ filedText e)).drop 11 = filedText e := by
    rw [← List.append_assoc]
    exact List.drop_left' (by rw [List.length_append, hcolumn]; rfl)
  rw [readRecord, hbody, List.dropWhile_append_of_pos hmark, List.takeWhile_append_of_pos hmark,
    List.dropWhile_cons_of_neg (by simp), List.takeWhile_cons_of_neg (by simp), List.append_nil]
  simp only [readLevel_logLevelToString, Option.map_some, htime, htake, hdrop, dropWhile_column]
  rfl

/-- The component and the text are made of characters of the line. -/
theorem subset_of_readRecord {line : Str} {r : Record} (h : readRecord line = some r) :
    r.component ⊆ line ∧ r.text ⊆ line := by
  unfold readRecord at h
  split at h
  · rename_i rest hline
    obtain ⟨level, -, rfl⟩ := Option.map_eq_some_iff.1 h
    have hrest : rest ⊆ line := by
      refine List.Subset.trans ?_ (List.dropWhile_sublist (· ≠ '#')).subset
      rw [hline]
      intro c hc
      exact .tail _ (.tail _ (.tail _ (.tail _ hc)))
    exact ⟨fun c hc => hrest (List.mem_of_mem_take ((List.dropWhile_sublist _).subset hc)),
      fun c hc => hrest (List.mem_of_mem_drop hc)⟩
  · cases h

/-- What the lines of a text say. -/
def readLog (text : Str) : List Record := (lines text).filterMap readRecord

/-- A statement whose record is one line. -/
def OneLine (e : Statement) : Prop := '\n' ∉ (cstr e.component).take 8 ∧ '\n' ∉ filedText e

theorem newline_not_mem_body {e : Statement} (h : OneLine e) : '\n' ∉ body e := by
  obtain ⟨hcomponent, htext⟩ := h
  have htime : '\n' ∉ e.now.toString := EthTime.not_mem_toString rfl (by simp)
  have hlevel : '\n' ≠ logLevelToString e.level := by cases e.level <;> decide
  have hcolumn : '\n' ∉ column e.component := by
    intro hm
    rcases List.mem_append.1 hm with hm | hm
    · exact absurd (List.eq_of_mem_replicate hm) (by decide)
    · exact hcomponent hm
  simp only [body, recordHead, List.mem_append, List.mem_cons, not_or]
  exact ⟨⟨htime, by decide, hlevel, by decide, hcolumn, by decide⟩, htext⟩

/-- A line without the mark says nothing. -/
theorem readRecord_of_not_mem {line : Str} (h : '#' ∉ line) : readRecord line = none := by
  have hdrop : line.dropWhile (· ≠ '#') = [] := by
    rw [List.dropWhile_eq_nil_iff]
    intro c hc
    rw [decide_eq_true_eq]
    rintro rfl
    exact h hc
  rw [readRecord, hdrop]

theorem not_mem_rule {c : Char} (h : c ≠ '/') : c ∉ rule :=
  fun hc => h (List.eq_of_mem_replicate hc)

/-- **The lines of a file** whose statements are one line each. -/
theorem lines_file {notice : Str} (hline : '\n' ∉ notice) {es : List Statement}
    (h : ∀ e ∈ es, OneLine e) :
    lines (unlines [rule, notice] ++ es.flatMap record ++ unlines [rule]) =
      rule :: notice :: (es.map body ++ [rule]) := by
  have hbodies : es.flatMap record = unlines (es.map body) := by
    rw [unlines, List.flatMap_map]
    exact List.flatMap_congr fun e _ => record_eq e
  have hunlines : unlines [rule, notice] ++ unlines (es.map body) ++ unlines [rule] =
      unlines (rule :: notice :: (es.map body ++ [rule])) := by
    simp [unlines, List.flatMap_append]
  have hone : ∀ l ∈ rule :: notice :: (es.map body ++ [rule]), '\n' ∉ l := by
    have hrule : '\n' ∉ rule := not_mem_rule (by decide)
    simp only [List.forall_mem_cons, List.forall_mem_append, List.forall_mem_map]
    exact ⟨hrule, hline, fun e he => newline_not_mem_body (h e he), hrule, List.forall_mem_nil _⟩
  have hlines := lines_unlines_append hone []
  rwa [List.append_nil, lines, List.append_nil, ← hunlines, ← hbodies] at hlines

theorem readLog_of_oneLine {notice : Str} (hmark : '#' ∉ notice) (hline : '\n' ∉ notice)
    {es : List Statement} (h : ∀ e ∈ es, OneLine e) :
    readLog (unlines [rule, notice] ++ es.flatMap record ++ unlines [rule]) = es.map shown := by
  have hrule : readRecord rule = none := readRecord_of_not_mem (not_mem_rule (by decide))
  have hread : readRecord ∘ body = some ∘ shown := funext fun e => readRecord_body e
  rw [readLog, lines_file hline h, List.filterMap_cons_none hrule,
    List.filterMap_cons_none (readRecord_of_not_mem hmark), List.filterMap_append,
    List.filterMap_cons_none hrule, List.filterMap_nil, List.append_nil, List.filterMap_map, hread]
  exact congrFun List.filterMap_eq_map es

/-- **When the log file says what was logged**: exactly when every statement filed is one line. -/
theorem readLog_iff {notice : Str} (hmark : '#' ∉ notice) (hline : '\n' ∉ notice)
    (as : List LogOutputAct) :
    ∃ text, (run (construct notice true) as).destroy = some text ∧
      (readLog text = (sent .file true as).map shown ↔ ∀ e ∈ sent .file true as, OneLine e) := by
  have hfp := run_fp as (construct notice true)
  rw [on_construct (.inl rfl)] at hfp
  refine ⟨_, by rw [destroy, hfp]; rfl, fun h e he => ?_,
    fun h => readLog_of_oneLine hmark hline h⟩
  have hm : shown e ∈ (sent .file true as).map shown := List.mem_map.2 ⟨e, he, rfl⟩
  rw [← h] at hm
  obtain ⟨line, hmem, hread⟩ := List.mem_filterMap.1 hm
  have hnl := newline_not_mem_of_mem_lines hmem
  obtain ⟨hcomponent, htext⟩ := subset_of_readRecord hread
  refine ⟨fun hc => ?_, fun hc => hnl (htext hc)⟩
  rw [← List.takeWhile_append_dropWhile (p := (· = ' ')) (l := (cstr e.component).take 8)] at hc
  rcases List.mem_append.1 hc with hc | hc
  · exact absurd (List.mem_takeWhile_imp hc) (by decide)
  · exact hnl (hcomponent hc)

/-- A statement of one line, and one of two. -/
theorem readLog_sample :
    (∃ text, (run (construct "Common".toList true) [.addTarget .shell,
        .print ⟨⟨19, 3, 1, 5, 9, 30, 0⟩, .info, "Common".toList, "ready".toList⟩]).destroy =
          some text ∧
      readLog text = [⟨[19, 3, 1, 9, 30, 0], .info, "Common".toList, "ready".toList⟩]) ∧
    ∃ text, (run (construct "Common".toList true) [
        .print ⟨⟨19, 3, 1, 5, 9, 30, 0⟩, .info, "Common".toList, "a\nb".toList⟩]).destroy =
          some text ∧
      readLog text ≠ [⟨[19, 3, 1, 9, 30, 0], .info, "Common".toList, "a\nb".toList⟩] := by
  refine ⟨?_, ?_⟩
  · obtain ⟨text, htext, hiff⟩ := readLog_iff (show '#' ∉ "Common".toList by decide) (by decide)
      [.addTarget .shell,
        .print ⟨⟨19, 3, 1, 5, 9, 30, 0⟩, .info, "Common".toList, "ready".toList⟩]
    refine ⟨text, htext, hiff.2 fun e he => ?_⟩
    obtain rfl := List.mem_singleton.1 he
    exact ⟨by decide, by decide⟩
  · obtain ⟨text, htext, hiff⟩ := readLog_iff (show '#' ∉ "Common".toList by decide) (by decide)
      [.print ⟨⟨19, 3, 1, 5, 9, 30, 0⟩, .info, "Common".toList, "a\nb".toList⟩]
    refine ⟨text, htext, fun h => ?_⟩
    exact (hiff.1 h _ (.head _)).2 (by decide)

end LogOutput
