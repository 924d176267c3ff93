import Graviton.Utility.IniFrame
import Graviton.Utility.Trim

/-!
# What a configuration file means

A configuration file as its author sees it (`IniDocument`): remarks, headings, pairs and multi-line
values in any order, with white space before a heading or a pair and a comment behind it. A comment
begins with `;` after just one blank, a key has two characters or more, and names, keys and values
are free of the characters the lines are taken apart by. Its meaning (`meaning`) is a list of
values, each with its key and the heading above it.

* `trim_line`: `Trim` takes the dress of a line off.
* `item_spec`: the lines of one item do what the item means, and no multi-line value stays open.
* `interpretIniFile_document`: reading the text of a document delivers its meaning.
-/

namespace StringUtility

open Lib

/-- What stands around the text of a line: white space before it, and a comment behind one blank. -/
structure Dress where
  indent : Str
  comment : Option Str
  blank : ∀ c ∈ indent, isSpace c = true

def Dress.behind (d : Dress) : Str :=
  match d.comment with
  | none => []
  | some comment => ' ' :: ';' :: comment

def Dress.line (d : Dress) (text : Str) : Str := d.indent ++ (text ++ d.behind)

/-- The name of a section. -/
structure IsHeading (name : Str) : Prop where
  ne_nil : name ≠ []
  chars : ∀ c ∈ name, Plain c ∧ c ≠ ']'

/-- A value on the line of its key. -/
def IsValue (value : Str) : Prop := ∀ c ∈ value, Plain c ∧ c ≠ '['

/-- A line with nothing but a comment, if that. -/
structure IsRemark (line : Str) : Prop where
  nul : '\x00' ∉ line
  head : ∀ c ∈ (line.dropWhile isSpace).head?, c = ';' ∨ c = '/'

inductive IniItem
  | remark (line : Str) (h : IsRemark line)
  | heading (d : Dress) (name : Str) (h : IsHeading name)
  | pair (d : Dress) (key value : Str) (hk : IsBlockKey key) (hv : IsValue value)
  | block (key : Str) (body : List Str) (hk : IsBlockKey key) (hb : ∀ l ∈ body, ']' ∉ l)

namespace IniItem

def lines : IniItem → List Str
  | remark line _ => [line]
  | heading d name _ => [d.line (sectionLine name)]
  | pair d key value _ _ => [d.line (keyValueLine (key, value))]
  | block key body _ _ => blockLines key body

/-- The heading for the items below. -/
def newSection (sectionName : Str) : IniItem → Str
  | heading _ name _ => name
  | remark _ _ | pair _ _ _ _ _ | block _ _ _ _ => sectionName

/-- The value an item gives, under the heading above it. -/
def calls (sectionName : Str) : IniItem → List (Str × Str × Str)
  | remark _ _ | heading _ _ _ => []
  | pair _ key value _ _ => [(sectionName, key, value)]
  | block key body _ _ => [(sectionName, key, blockValue body)]

end IniItem

/-- The values below a heading. -/
def meaning : Str → List IniItem → List (Str × Str × Str)
  | _, [] => []
  | sectionName, item :: items =>
    item.calls sectionName ++ meaning (item.newSection sectionName) items

/-- A file whose lines can be read. -/
structure IniDocument where
  items : List IniItem
  fits : ∀ l ∈ items.flatMap IniItem.lines, l.length ≤ lineCapacity ∧ '\n' ∉ l

def IniDocument.text (d : IniDocument) : Str := fileText (d.items.flatMap IniItem.lines)

/-! ## The dress of a line -/

theorem trimLoop_indent : ∀ {indent : Str}, (∀ c ∈ indent, isSpace c = true) → ∀ s : Str,
    trimLoop (indent ++ s) false 0 [] = trimLoop s false 0 []
  | [], _, _ => rfl
  | c :: indent, h, s => by
    obtain ⟨hc, h⟩ := List.forall_mem_cons.1 h
    rw [List.cons_append, trimLoop, if_pos (by simp [hc]), trimLoop_indent h]

/-- Plain text is copied, and what follows is not at the start any more. -/
theorem trimLoop_plain_append : ∀ {text : Str}, text ≠ [] → (∀ c ∈ text, Plain c) →
    ∀ (s : Str) (first : Bool) (last : Nat) (out : Str),
      trimLoop (text ++ s) first last out = trimLoop s true last (out ++ text)
  | c :: text, _, h, s, first, last, out => by
    obtain ⟨⟨hsp, h0, hsemi, hslash⟩, htext⟩ := List.forall_mem_cons.1 h
    have hnl : c ≠ '\n' := by rintro rfl; exact absurd hsp (by decide)
    have hblank : ¬ ((c = ' ' || c = '\t') = true) := fun hb =>
      absurd (isSpace_of_isTabOrSpace hb) (by simp [hsp])
    rw [List.cons_append, trimLoop, if_neg (by simp [hsp, h0, hnl]),
      if_neg (by simp [hsemi, hslash.symm]), if_neg hblank]
    cases text with
    | nil => rfl
    | cons d text =>
      rw [trimLoop_plain_append (List.cons_ne_nil d text) htext, List.append_assoc,
        List.singleton_append]

theorem nul_not_mem_of_plain {s : Str} (h : ∀ c ∈ s, Plain c) : '\x00' ∉ s :=
  fun hm => (h _ hm).2.1 rfl

/-- **`Trim` takes the dress off.** -/
theorem trim_line (d : Dress) {text : Str} (hne : text ≠ []) (h : ∀ c ∈ text, Plain c) :
    trim (d.line text) = text := by
  have hindent : '\x00' ∉ d.indent := fun hm => absurd (d.blank _ hm) (by decide)
  rw [trim, Dress.line, cstr_append_of_not_mem hindent,
    cstr_append_of_not_mem (nul_not_mem_of_plain h), trimLoop_indent d.blank,
    trimLoop_plain_append hne h, List.nil_append, Dress.behind]
  cases d.comment with
  | none => rfl
  | some comment =>
    -- the comment is cut off at the blank before it
    have hcut : cstr (' ' :: ';' :: comment) = ' ' :: ';' :: cstr comment := by
      simp [cstr]
    rw [hcut, trimLoop, if_neg (by decide), if_neg (by simp), trimLoop, if_neg (by decide),
      if_pos (by simp)]
    exact List.take_left

theorem lineEffect_congr {l l' : Str} (m : Bool) (h : trim l = trim l') :
    lineEffect m l = lineEffect m l' := by
  rw [lineEffect, h, ← lineEffect]

theorem lineEffect_line (d : Dress) (m : Bool) {text : Str} (hne : text ≠ [])
    (h : ∀ c ∈ text, Plain c) : lineEffect m (d.line text) = lineEffect m text :=
  lineEffect_congr m ((trim_line d hne h).trans (trim_of_plain h).symm)

/-! ## The effects of the lines -/

theorem isComment_trim_remark {line : Str} (h : IsRemark line) : isComment (trim line) = true := by
  rw [isComment_trim_iff, trim, cstr_eq_self_iff.2 h.nul, trimLoop_dropWhile h.nul]
  cases hd : line.dropWhile isSpace with
  | nil => exact .inl rfl
  | cons c r =>
    obtain rfl | rfl := h.head c (by rw [hd]; rfl)
    · exact .inl (by rw [trimLoop, if_neg (by simp), if_pos (by simp), List.take_nil])
    · have hpre : trimLoop ('/' :: r) true 0 [] <+: '/' :: r :=
        trimLoop_prefix_append _ (Nat.zero_le 0)
      cases ht : trimLoop ('/' :: r) true 0 [] with
      | nil => exact .inl rfl
      | cons c s =>
        rw [ht] at hpre
        exact .inr (congrArg some (List.cons_prefix_cons.1 hpre).1)

theorem lineEffect_remark {line : Str} (h : IsRemark line) (m : Bool) :
    lineEffect m line = .skip := by
  rw [lineEffect]
  exact if_pos (isComment_trim_remark h)

theorem lineEffect_heading {name : Str} (h : IsHeading name) :
    (∀ c ∈ sectionLine name, Plain c) ∧ lineEffect false (sectionLine name) = .setSection name := by
  have hplain : ∀ c ∈ sectionLine name, Plain c := by
    intro c hc
    rcases List.mem_cons.1 hc with rfl | hc
    · unfold Plain; decide
    rcases List.mem_append.1 hc with hc | hc
    · exact (h.chars c hc).1
    · rw [List.mem_singleton.1 hc]
      unfold Plain; decide
  have hclose : ']' ∉ '[' :: name := by
    rw [List.mem_cons, not_or]
    exact ⟨by decide, fun hm => (h.chars _ hm).2 rfl⟩
  have hsection : interpretIniSection (sectionLine name) = name := by
    have h1 : indexOf '[' (sectionLine name) = 0 := rfl
    have h2 : indexOf ']' (sectionLine name) = name.length + 1 := indexOf_append_cons hclose []
    rw [interpretIniSection, h1, h2]
    simp [sectionLine]
  have hne : sectionLine name ≠ [] := List.cons_ne_nil _ _
  refine ⟨hplain, ?_⟩
  rw [lineEffect_plain hne hplain, hsection, if_neg h.ne_nil]

theorem lineEffect_pair {key value : Str} (hk : IsBlockKey key) (hv : IsValue value) :
    (∀ c ∈ keyValueLine (key, value), Plain c) ∧
      lineEffect false (keyValueLine (key, value)) = .pair key value := by
  have hno : ∀ c ∈ ['[', ']', '=', ';', '/', '\x00'], c ∉ key := fun c hc hm =>
    (hk.chars c hm).2 hc
  have hplain : ∀ c ∈ keyValueLine (key, value), Plain c := by
    intro c hc
    rcases List.mem_append.1 hc with hc | hc
    · obtain ⟨hsp, hn⟩ := hk.chars c hc
      simp only [List.mem_cons, List.not_mem_nil, or_false, not_or] at hn
      exact ⟨hsp, hn.2.2.2.2.2, hn.2.2.2.1, hn.2.2.2.2.1⟩
    rcases List.mem_cons.1 hc with rfl | hc
    · unfold Plain; decide
    · exact (hv c hc).1
  have hopen : '[' ∉ keyValueLine (key, value) := by
    simp only [keyValueLine, List.mem_append, List.mem_cons, not_or]
    exact ⟨hno _ (by decide), by decide, fun hm => (hv _ hm).2 rfl⟩
  have hsemi : ';' ∉ key ++ '=' :: value := fun hm => (hplain _ hm).2.2.1 rfl
  have hhead : value.head? ≠ some '[' := fun he => (hv _ (List.mem_of_head? he)).2 rfl
  have hne : keyValueLine (key, value) ≠ [] := List.append_ne_nil_of_right_ne_nil _ (by simp)
  refine ⟨hplain, ?_⟩
  rw [lineEffect_plain hne hplain, interpretIniSection_of_not_mem hopen, if_pos rfl, keyValueLine,
    interpretIniKeyValue_of_no_comment (hno '=' (by decide)) hsemi, if_pos hk.length, pairEffect,
    if_neg hhead]

namespace IniState

/-- A line outside a multi-line value that opens none. -/
theorem foldl_line {s : IniState} {l : Str} {e : LineEffect} (hm : s.multilineStart = false)
    (he : lineEffect false l = e) (hflag : e.flag false = false) :
    ([l].foldl interpretIniLine s).multilineStart = false ∧
      ([l].foldl interpretIniLine s).sectionName = e.newSection s.sectionName ∧
      s.lineCalls [l] = e.call s := by
  have hline : [l].foldl interpretIniLine s = e.apply s := by
    rw [List.foldl_cons, List.foldl_nil, interpretIniLine_eq, hm, he]
  rw [hline, LineEffect.multilineStart_apply, hm, LineEffect.sectionName_apply, lineCalls, hm, he]
  exact ⟨hflag, rfl, List.append_nil _⟩

/-- **The lines of an item** do what the item means. -/
theorem item_spec (item : IniItem) {s : IniState} (hm : s.multilineStart = false)
    (hc : s.Closed) :
    (item.lines.foldl interpretIniLine s).multilineStart = false ∧
      (item.lines.foldl interpretIniLine s).sectionName = item.newSection s.sectionName ∧
      s.lineCalls item.lines = item.calls s.sectionName := by
  cases item with
  | remark line h => exact foldl_line hm (lineEffect_remark h false) rfl
  | heading d name h =>
    obtain ⟨hplain, he⟩ := lineEffect_heading h
    exact foldl_line hm ((lineEffect_line d false (List.cons_ne_nil _ _) hplain).trans he) rfl
  | pair d key value hk hv =>
    obtain ⟨hplain, he⟩ := lineEffect_pair hk hv
    have hne : keyValueLine (key, value) ≠ [] := List.append_ne_nil_of_right_ne_nil _ (by simp)
    exact foldl_line hm ((lineEffect_line d false hne hplain).trans he) rfl
  | block key body hk hb =>
    obtain ⟨halike, hsection, hcalls⟩ := foldl_block hk hb hm hc
    exact ⟨halike.multilineStart.trans hm, hsection, hcalls⟩

/-- The lines of items deliver what the items mean. -/
theorem lineCalls_items : ∀ (items : List IniItem) {s : IniState}, s.multilineStart = false →
    s.Closed → s.lineCalls (items.flatMap IniItem.lines) = meaning s.sectionName items
  | [], _, _, _ => rfl
  | item :: items, s, hm, hc => by
    obtain ⟨hm', hsection, hcalls⟩ := item_spec item hm hc
    have ih := lineCalls_items items hm' (closed_foldl item.lines hc)
    rw [List.flatMap_cons, lineCalls_append, hcalls, ih, hsection, meaning]

end IniState

/-- **A configuration file delivers its meaning.** -/
theorem interpretIniFile_document (d : IniDocument) :
    interpretIniFile (some d.text) = meaning [] d.items := by
  rw [IniDocument.text, interpretIniFile_fileText fun l hl => (d.fits l hl).2,
    readLines_of_fits fun l hl => (d.fits l hl).1]
  exact IniState.lineCalls_items d.items rfl fun _ => rfl

/-- A remark, a heading, a dressed pair and a block. -/
def nodemap : IniDocument where
  items := [
    .remark "  ; nodes of the cell".toList
      ⟨by decide, fun _ hc => .inl (Option.some.inj hc).symm⟩,
    .heading ⟨[], none, nofun⟩ "net".toList ⟨by decide, by simp [Plain, isSpace]⟩,
    .pair ⟨"  ".toList, some "first".toList, by simp [isSpace]⟩ "ip".toList "10.0.0.1".toList
      ⟨by decide, by simp [isSpace]⟩ (by simp [IsValue, Plain, isSpace]),
    .block "hosts".toList [" n1,".toList, "/old".toList, "n2".toList]
      ⟨by decide, by simp [isSpace]⟩ (by decide)]
  fits := by decide

example : nodemap.text =
    "  ; nodes of the cell\n[net]\n  ip=10.0.0.1 ;first\nhosts=[\n n1,\n/old\nn2\n]".toList ∧
    meaning [] nodemap.items =
      [("net".toList, "ip".toList, "10.0.0.1".toList), ("net".toList, "hosts".toList,
        "n1,n2".toList)] := by
  decide

end StringUtility
