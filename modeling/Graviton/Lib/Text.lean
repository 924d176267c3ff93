import Mathlib.Data.List.Basic
import Mathlib.Data.List.DropRight
import Mathlib.Data.List.Infix
import Mathlib.Data.List.TakeWhile
import Mathlib.Tactic

/-!
# Text

Byte strings as C++ programs see them, one character a byte: searching (`find`), the lines a
text is read as (`lines`) and written as (`unlines`), its words (`words`), its runs of characters
of one kind (`runs`), and the C string in a buffer (`cstr`).

* `find_isSome_iff`: a search succeeds exactly when the pattern occurs.
* `runs_run_append`: a text that starts with a run; `runs_dropWhile`: what stands before the first
  run does not matter.
* `lines_unlines_append`: lines written before a text are read again.
* `infix_of_mem_words`: a word occurs in its text.
* `eq_of_unlines_length`: some of the lines of a list make a shorter text, unless they are all.
-/

namespace Lib

/-- A byte string. -/
abbrev Str := List Char

/-- `isspace` in the C locale. -/
def isSpace (c : Char) : Bool := c ∈ [' ', '\t', '\n', '\x0b', '\x0c', '\r']

/-- The C string at the start of a buffer: the characters before the first NUL. -/
def cstr (s : Str) : Str := s.takeWhile (· ≠ '\x00')

def find (pat : Str) : Str → Option Nat
  | [] => if pat = [] then some 0 else none
  | c :: s => if pat <+: c :: s then some 0 else (find pat s).map (· + 1)

/-- The last place of a character (`find_last_of`). -/
def findLast (c : Char) : Str → Option Nat
  | [] => none
  | d :: s =>
    match findLast c s with
    | some k => some (k + 1)
    | none => if d = c then some 0 else none

/-- The text after the last `c`; all of it, if there is none. -/
def afterLast (c : Char) (s : Str) : Str := s.rtakeWhile (· ≠ c)

/-- The lines a text is read as; text after the last newline is a line if there is any. -/
def lines : Str → List Str
  | [] => []
  | c :: s =>
    if c = '\n' then [] :: lines s
    else match lines s with
      | [] => [[c]]
      | l :: ls => (c :: l) :: ls

def unlines (ls : List Str) : Str := ls.flatMap fun l => l ++ ['\n']

/-- The maximal stretches without white space. -/
def words (s : Str) : List Str := (s.splitOnP isSpace).filter (· ≠ [])

/-- The maximal stretches of characters with the property `p`. -/
def runs (p : Char → Bool) (s : Str) : List Str := (s.splitOnP fun c => !p c).filter (· ≠ [])

/-! ## C strings -/

theorem cstr_length_le (s : Str) : (cstr s).length ≤ s.length :=
  (List.takeWhile_sublist _).length_le

theorem nul_not_mem_cstr {s : Str} : '\x00' ∉ cstr s := by
  intro hm
  simpa using List.mem_takeWhile_imp hm

theorem cstr_eq_self_iff {s : Str} : cstr s = s ↔ '\x00' ∉ s := by
  rw [cstr, List.takeWhile_eq_self_iff]
  simp only [decide_not, Bool.not_eq_true', decide_eq_false_iff_not]
  exact ⟨fun h hm => h _ hm rfl, fun h x hx he => h (he ▸ hx)⟩

theorem cstr_length_eq_iff {s : Str} : (cstr s).length = s.length ↔ '\x00' ∉ s := by
  rw [← cstr_eq_self_iff]
  exact ⟨(List.takeWhile_sublist _).eq_of_length, congrArg _⟩

theorem takeWhile_append_of_not_mem {c : Char} {a : Str} (h : c ∉ a) (b : Str) :
    (a ++ b).takeWhile (· ≠ c) = a ++ b.takeWhile (· ≠ c) := by
  refine List.takeWhile_append_of_pos fun d hd => ?_
  rw [decide_eq_true_eq]
  rintro rfl
  exact h hd

theorem cstr_append_of_not_mem {a : Str} (h : '\x00' ∉ a) (b : Str) :
    cstr (a ++ b) = a ++ cstr b := takeWhile_append_of_not_mem h b

theorem cstr_append_nul (s t : Str) : cstr (s ++ '\x00' :: t) = cstr s := by
  rw [cstr, List.takeWhile_append, ← cstr]
  split
  · rename_i h
    rw [List.takeWhile_cons_of_neg (by decide), List.append_nil,
      cstr_eq_self_iff.2 (cstr_length_eq_iff.1 h)]
  · rfl

/-! ## Searching -/

theorem find_isSome_iff {pat s : Str} : (find pat s).isSome ↔ pat <:+: s := by
  induction s with
  | nil =>
    rw [find, List.infix_nil]
    split <;> simp_all
  | cons c s ih =>
    rw [find, List.infix_cons_iff]
    split
    · rename_i hp
      simp [hp]
    · rename_i hp
      simp [hp, ih]

/-- A pattern that starts with a character the first part does not have is in the second. -/
theorem infix_append_of_not_mem {c : Char} {pat : Str} : ∀ {a : Str}, c ∉ a → ∀ b : Str,
    (c :: pat <:+: a ++ b ↔ c :: pat <:+: b)
  | [], _, _ => Iff.rfl
  | d :: a, h, b => by
    obtain ⟨hd, ha⟩ := not_or.1 (mt List.mem_cons.2 h)
    rw [List.cons_append, List.infix_cons_iff, infix_append_of_not_mem ha, or_iff_right]
    exact fun hp => hd (List.cons_prefix_cons.1 hp).1

/-- A pattern does not go across a character that it does not have. -/
theorem infix_append_cons_iff {c : Char} {pat : Str} (h : c ∉ pat) (hne : pat ≠ []) (a b : Str) :
    pat <:+: a ++ c :: b ↔ pat <:+: a ∨ pat <:+: b := by
  have hpre : ∀ {p : Str}, p <:+: pat → p <+: c :: b → p = [] := by
    intro p hp hpre
    cases p with
    | nil => rfl
    | cons d p =>
      obtain rfl := (List.cons_prefix_cons.1 hpre).1
      exact absurd (hp.subset (.head _)) h
  rw [List.infix_append_iff, List.infix_cons_iff]
  constructor
  · rintro (ha | (hb | hb) | ⟨p, q, rfl, hp, hq⟩)
    · exact .inl ha
    · exact absurd (hpre List.infix_rfl hb) hne
    · exact .inr hb
    · rw [hpre (List.suffix_append p q).isInfix hq, List.append_nil]
      exact .inl hp.isInfix
  · rintro (ha | hb)
    · exact .inl ha
    · exact .inr (.inl (.inr hb))

theorem find_singleton {c : Char} {a : Str} (h : c ∉ a) (b : Str) :
    find [c] (a ++ c :: b) = some a.length := by
  induction a with
  | nil => rw [List.nil_append, find, if_pos (by simp)]; rfl
  | cons d a ih =>
    obtain ⟨hd, ha⟩ := not_or.1 (mt List.mem_cons.2 h)
    rw [List.cons_append, find, if_neg (by simpa using hd), ih ha]
    rfl

theorem findLast_eq_none {c : Char} : ∀ {s : Str}, findLast c s = none → c ∉ s
  | [], _ => List.not_mem_nil
  | d :: s, h => by
    rw [findLast] at h
    split at h
    · cases h
    · rename_i hs
      split at h
      · cases h
      · rename_i hd
        rw [List.mem_cons, not_or]
        exact ⟨Ne.symm hd, findLast_eq_none hs⟩

/-- The last `c` parts the text in two. -/
theorem findLast_eq_some {c : Char} : ∀ {s : Str} {k : Nat}, findLast c s = some k →
    ∃ a b, s = a ++ c :: b ∧ a.length = k ∧ c ∉ b
  | [], _, h => by cases h
  | d :: s, k, h => by
    rw [findLast] at h
    split at h
    · rename_i j hs
      obtain ⟨a, b, rfl, hlen, hb⟩ := findLast_eq_some hs
      cases h
      exact ⟨d :: a, b, rfl, congrArg (· + 1) hlen, hb⟩
    · rename_i hs
      split at h
      · rename_i hd
        cases h
        exact ⟨[], s, congrArg (· :: s) hd, rfl, findLast_eq_none hs⟩
      · cases h

theorem afterLast_append {c : Char} (a : Str) {b : Str} (h : c ∉ b) :
    afterLast c (a ++ c :: b) = b := by
  have hb : ∀ x ∈ b.reverse, decide (x ≠ c) = true := by
    intro x hx
    rw [decide_eq_true_eq]
    rintro rfl
    exact h (List.mem_reverse.1 hx)
  rw [afterLast, List.rtakeWhile, List.reverse_append, List.reverse_cons, List.append_assoc,
    List.takeWhile_append_of_pos hb, List.singleton_append, List.takeWhile_cons_of_neg (by simp),
    List.append_nil, List.reverse_reverse]

theorem afterLast_of_not_mem {c : Char} {s : Str} (h : c ∉ s) : afterLast c s = s := by
  rw [afterLast, List.rtakeWhile_eq_self_iff]
  intro x hx
  rw [decide_eq_true_eq]
  rintro rfl
  exact h hx

/-- What follows the last place. -/
theorem drop_findLast (c : Char) (s : Str) :
    s.drop (match findLast c s with | some k => k + 1 | none => 0) = afterLast c s := by
  cases hk : findLast c s with
  | none => exact (afterLast_of_not_mem (findLast_eq_none hk)).symm
  | some k =>
    obtain ⟨a, b, rfl, rfl, hb⟩ := findLast_eq_some hk
    rw [afterLast_append a hb]
    exact List.drop_length_add_append 1

/-! ## Lines -/

theorem lines_append_newline : ∀ {l : Str}, '\n' ∉ l → ∀ s : Str,
    lines (l ++ '\n' :: s) = l :: lines s
  | [], _, _ => by rw [List.nil_append, lines, if_pos rfl]
  | c :: l, h, s => by
    obtain ⟨hc, hl⟩ := not_or.1 (mt List.mem_cons.2 h)
    rw [List.cons_append, lines, if_neg (Ne.symm hc), lines_append_newline hl]

/-- **Lines written** before a text are the first lines read. -/
theorem lines_unlines_append : ∀ {ls : List Str}, (∀ l ∈ ls, '\n' ∉ l) → ∀ s : Str,
    lines (unlines ls ++ s) = ls ++ lines s
  | [], _, _ => rfl
  | l :: ls, h, s => by
    obtain ⟨hl, hls⟩ := List.forall_mem_cons.1 h
    have ih := lines_unlines_append hls s
    rw [unlines] at ih ⊢
    rw [List.flatMap_cons, List.append_assoc, List.append_assoc, List.singleton_append,
      lines_append_newline hl, ih, List.cons_append]

theorem lines_unlines {ls : List Str} (h : ∀ l ∈ ls, '\n' ∉ l) : lines (unlines ls) = ls := by
  have happend := lines_unlines_append h []
  rwa [List.append_nil, lines, List.append_nil] at happend

theorem not_mem_unlines {c : Char} (hc : c ≠ '\n') {ls : List Str} (h : ∀ l ∈ ls, c ∉ l) :
    c ∉ unlines ls := by
  intro hm
  obtain ⟨l, hl, hm⟩ := List.mem_flatMap.1 hm
  rcases List.mem_append.1 hm with hm | hm
  · exact h l hl hm
  · exact hc (List.mem_singleton.1 hm)

/-- A text without a newline starts the first line, and leaves the others. -/
theorem lines_append : ∀ {l : Str}, '\n' ∉ l → l ≠ [] → ∀ s : Str,
    ∃ r ls, lines (l ++ s) = (l ++ r) :: ls ∧ ls ⊆ lines s
  | [c], h, _, s => by
    have hc : c ≠ '\n' := fun hc => h (List.mem_singleton.2 hc.symm)
    rw [List.singleton_append, lines, if_neg hc]
    cases lines s with
    | nil => exact ⟨[], [], rfl, List.nil_subset _⟩
    | cons l ls => exact ⟨l, ls, rfl, List.subset_cons_self l ls⟩
  | c :: d :: l, h, _, s => by
    obtain ⟨hc, hl⟩ := not_or.1 (mt List.mem_cons.2 h)
    obtain ⟨r, ls, hlines, hls⟩ := lines_append hl (List.cons_ne_nil d l) s
    refine ⟨r, ls, ?_, hls⟩
    rw [List.cons_append, lines, if_neg (Ne.symm hc), hlines]
    rfl

/-- Texts written one after the other, some without their newline: each line read holds one. -/
theorem exists_infix_of_mem_lines {α : Type*} (text : α → Str) {chunk : α → Str} : ∀ {l : List α},
    (∀ x ∈ l, '\n' ∉ text x ∧ text x ≠ [] ∧
      (chunk x = text x ++ ['\n'] ∨ chunk x = text x)) →
    ∀ line ∈ lines (l.flatMap chunk), ∃ x ∈ l, text x <:+: line
  | [], _, _, hm => by cases hm
  | x :: l, h, line, hm => by
    obtain ⟨⟨hnl, hne, hchunk⟩, hl⟩ := List.forall_mem_cons.1 h
    have ih : line ∈ lines (l.flatMap chunk) → ∃ y ∈ x :: l, text y <:+: line := by
      intro hm
      obtain ⟨y, hy, hin⟩ := exists_infix_of_mem_lines text hl line hm
      exact ⟨y, .tail _ hy, hin⟩
    rw [List.flatMap_cons] at hm
    rcases hchunk with hchunk | hchunk
    · rw [hchunk, List.append_assoc, List.singleton_append, lines_append_newline hnl] at hm
      rcases List.mem_cons.1 hm with rfl | hm
      · exact ⟨x, .head _, List.infix_rfl⟩
      · exact ih hm
    · obtain ⟨r, ls, hlines, hls⟩ := lines_append hnl hne (l.flatMap chunk)
      rw [hchunk, hlines] at hm
      rcases List.mem_cons.1 hm with rfl | hm
      · exact ⟨x, .head _, (List.prefix_append _ r).isInfix⟩
      · exact ih (hls hm)

theorem newline_not_mem_of_mem_lines : ∀ {s l : Str}, l ∈ lines s → '\n' ∉ l
  | [], _, h => by cases h
  | c :: s, l, h => by
    rw [lines] at h
    split at h
    · rcases List.mem_cons.1 h with rfl | h
      · exact List.not_mem_nil
      · exact newline_not_mem_of_mem_lines h
    · rename_i hc
      split at h
      · obtain rfl := List.mem_singleton.1 h
        exact fun hm => hc (List.mem_singleton.1 hm).symm
      · rename_i m ms hms
        rcases List.mem_cons.1 h with rfl | h
        · have hm : m ∈ lines s := by rw [hms]; exact .head _
          exact fun h => (List.mem_cons.1 h).elim (fun e => hc e.symm)
            (newline_not_mem_of_mem_lines hm)
        · have hm : l ∈ lines s := by rw [hms]; exact .tail _ h
          exact newline_not_mem_of_mem_lines hm

/-! ## Words -/

/-- The first piece of a text starts it, the others occur in it. -/
theorem splitOnP_pieces (p : Char → Bool) : ∀ s : Str,
    ∃ w ws, s.splitOnP p = w :: ws ∧ w <+: s ∧ ∀ v ∈ ws, v <:+: s
  | [] => ⟨[], [], rfl, List.nil_prefix, nofun⟩
  | c :: s => by
    obtain ⟨w, ws, hs, hw, hws⟩ := splitOnP_pieces p s
    rw [List.splitOnP_cons_eq_if_modifyHead, hs]
    split
    · refine ⟨[], w :: ws, rfl, List.nil_prefix, fun v hv => ?_⟩
      rcases List.mem_cons.1 hv with rfl | hv
      · exact List.infix_cons hw.isInfix
      · exact List.infix_cons (hws v hv)
    · exact ⟨c :: w, ws, rfl, (List.prefix_cons_inj c).2 hw, fun v hv => List.infix_cons (hws v hv)⟩

theorem infix_of_mem_splitOnP {p : Char → Bool} {s w : Str} (h : w ∈ s.splitOnP p) :
    w <:+: s := by
  obtain ⟨v, vs, hs, hv, hvs⟩ := splitOnP_pieces p s
  rw [hs] at h
  rcases List.mem_cons.1 h with rfl | h
  · exact hv.isInfix
  · exact hvs w h

theorem infix_of_mem_words {s w : Str} (h : w ∈ words s) : w <:+: s :=
  infix_of_mem_splitOnP (List.mem_filter.1 h).1

theorem infix_of_mem_runs {p : Char → Bool} {s r : Str} (h : r ∈ runs p s) : r <:+: s :=
  infix_of_mem_splitOnP (List.mem_filter.1 h).1

/-! ## Runs -/

section
variable {p : Char → Bool}

@[simp] theorem runs_nil : runs p [] = [] := rfl

theorem runs_cons_of_not {c : Char} (h : p c = false) (s : Str) : runs p (c :: s) = runs p s := by
  rw [runs, List.splitOnP_cons_eq_if_modifyHead, if_pos (by simp [h]),
    List.filter_cons_of_neg (by simp)]
  rfl

theorem runs_dropWhile : ∀ s : Str, runs p (s.dropWhile fun c => !p c) = runs p s
  | [] => rfl
  | c :: s => by
    cases hc : p c with
    | true => rw [List.dropWhile_cons_of_neg (by simp [hc])]
    | false =>
      rw [List.dropWhile_cons_of_pos (by simp [hc]), runs_cons_of_not hc]
      exact runs_dropWhile s

/-- **A text that starts with a run.** -/
theorem runs_run_append {r s : Str} (hne : r ≠ []) (hr : ∀ c ∈ r, p c = true)
    (hs : ∀ c ∈ s.head?, p c = false) : runs p (r ++ s) = r :: runs p s := by
  have hr' : ∀ c ∈ r, (!p c) = false := fun c hc => by simp [hr c hc]
  cases s with
  | nil =>
    rw [List.append_nil, runs, List.splitOnP_eq_singleton hr', List.filter_cons_of_pos (by simpa),
      runs_nil]
    rfl
  | cons c s =>
    have hc : p c = false := hs c rfl
    rw [runs_cons_of_not hc, runs, List.splitOnP_append_cons_of_forall_mem hr' c (by simp [hc]),
      List.filter_cons_of_pos (by simpa)]
    rfl

theorem head?_dropWhile_not {s : Str} : ∀ c ∈ (s.dropWhile p).head?, p c = false := by
  intro c hc
  have := List.head?_dropWhile_not p s
  rw [hc] at this
  simpa using this

theorem head?_dropWhile {s : Str} : ∀ c ∈ (s.dropWhile fun c => !p c).head?, p c = true := by
  intro c hc
  have hnot : (!p c) = false := head?_dropWhile_not c hc
  simpa using hnot

/-- The first run of a text that starts with one. -/
theorem runs_of_head {c : Char} {s : Str} (h : p c = true) :
    runs p (c :: s) = (c :: s).takeWhile p :: runs p ((c :: s).dropWhile p) := by
  have hne : (c :: s).takeWhile p ≠ [] := by simp [h]
  conv_lhs => rw [← List.takeWhile_append_dropWhile (p := p) (l := c :: s)]
  exact runs_run_append hne (fun _ hm => List.mem_takeWhile_imp hm) head?_dropWhile_not

/-- Runs joined by a separator are the runs of the text. -/
theorem runs_intercalate {c : Char} (hc : p c = false) : ∀ {rs : List Str},
    (∀ r ∈ rs, r ≠ [] ∧ ∀ d ∈ r, p d = true) → runs p ([c].intercalate rs) = rs
  | [], _ => rfl
  | [r], h => by
    obtain ⟨hne, hr⟩ := h r (.head _)
    rw [List.intercalate_singleton]
    simpa using runs_run_append (s := []) hne hr nofun
  | r :: r' :: rs, h => by
    obtain ⟨⟨hne, hr⟩, h⟩ := List.forall_mem_cons.1 h
    rw [List.intercalate_cons_cons, List.append_assoc, List.singleton_append,
      runs_run_append hne hr (by simpa using hc), runs_cons_of_not hc, runs_intercalate hc h]

theorem of_mem_runs {r s : Str} (h : r ∈ runs p s) : r ≠ [] ∧ ∀ c ∈ r, p c = true := by
  induction hn : s.length using Nat.strongRecOn generalizing s with
  | ind n ih =>
    subst hn
    cases s with
    | nil => cases h
    | cons c s =>
      cases hc : p c with
      | false =>
        rw [runs_cons_of_not hc] at h
        exact ih s.length (by simp) h rfl
      | true =>
        rw [runs_of_head hc] at h
        rcases List.mem_cons.1 h with rfl | h
        · exact ⟨by simp [hc], fun _ hm => List.mem_takeWhile_imp hm⟩
        · refine ih _ ?_ h rfl
          rw [List.dropWhile_cons_of_pos hc, List.length_cons]
          exact Nat.lt_succ_of_le (List.dropWhile_sublist _).length_le

theorem runs_eq_nil_iff {s : Str} : runs p s = [] ↔ ∀ c ∈ s, p c = false := by
  induction s with
  | nil => simp
  | cons c s ih =>
    rw [List.forall_mem_cons]
    cases hc : p c with
    | false => rw [runs_cons_of_not hc, ih, and_iff_right rfl]
    | true => rw [runs_of_head hc]; simp

theorem runs_ne_nil_iff {s : Str} : runs p s ≠ [] ↔ ∃ c ∈ s, p c = true := by
  rw [ne_eq, runs_eq_nil_iff]
  push Not
  simp only [Bool.not_eq_false]

theorem runs_append_cons {c : Char} (hc : p c = false) (x y : Str) :
    runs p (x ++ c :: y) = runs p x ++ runs p y := by
  rw [runs, List.splitOnP_append_cons _ _ (by simp [hc]), List.filter_append]
  rfl

/-- A text of two runs or more has something between the first and the others. -/
theorem two_le_length_runs_iff {s : Str} : 2 ≤ (runs p s).length ↔
    ∃ x c y, s = x ++ c :: y ∧ p c = false ∧ (∃ d ∈ x, p d = true) ∧ ∃ d ∈ y, p d = true := by
  constructor
  · intro h
    induction s with
    | nil => simp at h
    | cons a s ih =>
      cases ha : p a with
      | false =>
        rw [runs_cons_of_not ha] at h
        obtain ⟨x, c, y, rfl, hc, ⟨d, hd, hp⟩, hy⟩ := ih h
        exact ⟨a :: x, c, y, rfl, hc, ⟨d, .tail _ hd, hp⟩, hy⟩
      | true =>
        rw [runs_of_head ha, List.length_cons, Nat.succ_le_succ_iff, Nat.one_le_iff_ne_zero, ne_eq,
          List.length_eq_zero_iff] at h
        cases hr : (a :: s).dropWhile p with
        | nil =>
          rw [hr] at h
          exact absurd runs_nil h
        | cons c y =>
          have hc : p c = false := head?_dropWhile_not c (by rw [hr]; rfl)
          rw [hr, runs_cons_of_not hc] at h
          refine ⟨(a :: s).takeWhile p, c, y, ?_, hc, ⟨a, by simp [ha], ha⟩, runs_ne_nil_iff.1 h⟩
          rw [← hr, List.takeWhile_append_dropWhile]
  · rintro ⟨x, c, y, rfl, hc, hx, hy⟩
    have hx := List.length_pos_of_ne_nil (runs_ne_nil_iff.2 hx)
    have hy := List.length_pos_of_ne_nil (runs_ne_nil_iff.2 hy)
    rw [runs_append_cons hc, List.length_append]
    omega

end

/-! ## Joined texts -/

theorem mem_intercalate {c d : Char} : ∀ {ls : List Str}, d ∈ [c].intercalate ls →
    d = c ∨ ∃ l ∈ ls, d ∈ l
  | [], h => by cases h
  | [l], h => .inr ⟨l, .head _, by rwa [List.intercalate_singleton] at h⟩
  | l :: l' :: ls, h => by
    rw [List.intercalate_cons_cons] at h
    rcases List.mem_append.1 h with h | h
    · rcases List.mem_append.1 h with h | h
      · exact .inr ⟨l, .head _, h⟩
      · exact .inl (List.mem_singleton.1 h)
    · exact (mem_intercalate h).imp_right fun ⟨m, hm, hd⟩ => ⟨m, .tail _ hm, hd⟩

theorem intercalate_append {c : Char} : ∀ {ls ls' : List Str}, ls ≠ [] → ls' ≠ [] →
    [c].intercalate (ls ++ ls') = [c].intercalate ls ++ c :: [c].intercalate ls'
  | [l], l' :: ls', _, _ => by simp [List.intercalate_cons_cons]
  | l :: m :: ls, ls', _, h => by
    have ih := intercalate_append (c := c) (List.cons_ne_nil m ls) h
    rw [List.cons_append, List.cons_append, List.intercalate_cons_cons, ← List.cons_append, ih,
      List.intercalate_cons_cons, List.append_assoc, List.append_assoc, List.append_assoc]

theorem length_intercalate_le {c : Char} {k : Nat} : ∀ {ls : List Str}, (∀ l ∈ ls, l.length ≤ k) →
    ([c].intercalate ls).length ≤ (k + 1) * ls.length
  | [], _ => Nat.zero_le _
  | [l], h => by
    have := h l (.head _)
    simp only [List.intercalate_singleton, List.length_singleton]
    omega
  | l :: l' :: ls, h => by
    obtain ⟨hl, h⟩ := List.forall_mem_cons.1 h
    have ih := length_intercalate_le (c := c) h
    rw [List.intercalate_cons_cons, List.length_append, List.length_append, List.length_singleton,
      List.length_cons, Nat.mul_succ]
    omega

/-! ## Lengths of texts -/

theorem length_flatMap_le {α β : Type*} {f g : α → List β} : ∀ {l : List α},
    (∀ x ∈ l, (f x).length ≤ (g x).length) → (l.flatMap f).length ≤ (l.flatMap g).length
  | [], _ => Nat.le_refl _
  | x :: l, h => by
    obtain ⟨hx, hl⟩ := List.forall_mem_cons.1 h
    have := length_flatMap_le hl
    simp only [List.flatMap_cons, List.length_append]
    omega

/-- Pieces no longer than others, and as long in total, are as long each. -/
theorem length_eq_of_flatMap {α β : Type*} {f g : α → List β} : ∀ {l : List α},
    (∀ x ∈ l, (f x).length ≤ (g x).length) → (l.flatMap f).length = (l.flatMap g).length →
    ∀ x ∈ l, (f x).length = (g x).length
  | [], _, _ => nofun
  | x :: l, hle, h => by
    obtain ⟨hx, hl⟩ := List.forall_mem_cons.1 hle
    have hl' := length_flatMap_le hl
    simp only [List.flatMap_cons, List.length_append] at h
    exact List.forall_mem_cons.2 ⟨by omega, length_eq_of_flatMap hl (by omega)⟩

theorem unlines_length_le {ls ls' : List Str} (h : ls.Sublist ls') :
    (unlines ls).length ≤ (unlines ls').length := by
  induction h with
  | slnil => exact Nat.le_refl _
  | cons l _ ih => simp only [unlines, List.flatMap_cons, List.length_append] at *; omega
  | cons_cons l _ ih => simp only [unlines, List.flatMap_cons, List.length_append] at *; omega

theorem eq_of_unlines_length {ls ls' : List Str} (h : ls.Sublist ls')
    (hl : (unlines ls).length = (unlines ls').length) : ls = ls' := by
  induction h with
  | slnil => rfl
  | @cons ls ls' l hs _ =>
    have := unlines_length_le hs
    simp [unlines] at *
    omega
  | cons_cons l _ ih =>
    simp only [unlines, List.flatMap_cons, List.length_append, Nat.add_left_cancel_iff] at *
    rw [ih hl]

end Lib
