import Graviton.Utility.StringUtility
import Mathlib.Data.List.DropRight

/-!
# What `Trim` removes

`Trim` is to leave a line without its comment and without the white space around what is left
(`strip` of `beforeComment`). It skips the white space at the start; at the end it cuts at a
comment only, and there at the last space or tab it has copied.

* `trim_eq`: what `Trim` leaves.
* `trim_eq_strip_iff`: for which lines that is all it is to leave.
-/

namespace StringUtility

open Lib

/-- A line up to its first `;` or `//`. -/
def beforeComment : Str → Str
  | [] => []
  | c :: s => if c = ';' || "//".toList <+: c :: s then [] else c :: beforeComment s

/-- Without the white space at both ends. -/
def strip (s : Str) : Str := (s.dropWhile isSpace).rdropWhile isSpace

/-- What `Trim` takes for the white space before a comment. -/
def isTabOrSpace (c : Char) : Bool := c = ' ' || c = '\t'

/-- The text before the comment ends where `Trim` cuts a line: the line has no comment and does
not end in white space, or the white space before the comment starts with its last space or
tab. -/
def EndsWell (line : Str) : Prop :=
  let text := (beforeComment line).dropWhile isSpace
  text = [] ∨
    if beforeComment line = line then ∀ c ∈ text.getLast?, isSpace c = false
    else ∃ x c w, text = x ++ c :: w ∧ (∀ d ∈ x.getLast?, isSpace d = false) ∧
      isTabOrSpace c = true ∧ ∀ d ∈ w, isSpace d = true ∧ isTabOrSpace d = false

/-- Where `Trim` cuts: the position of the last space or tab. -/
def lastBlank : Nat → Nat → Str → Nat
  | last, _, [] => last
  | last, pos, c :: s => lastBlank (if isTabOrSpace c then pos else last) (pos + 1) s

/-! ## The loop -/

/-- Past the first character, the loop copies the rest, or cuts what it copied at a comment. -/
theorem trimLoop_true : ∀ (s : Str) (last : Nat) (out : Str), trimLoop s true last out =
    if beforeComment s = s then out ++ s
    else (out ++ beforeComment s).take (lastBlank last out.length (beforeComment s))
  | [], last, out => by rw [trimLoop, beforeComment, if_pos rfl, List.append_nil]
  | c :: s, last, out => by
    rw [trimLoop, if_neg (by simp), beforeComment]
    split
    · rw [if_neg (List.cons_ne_nil c s).symm, List.append_nil, lastBlank]
    · have hlen : (out ++ [c]).length = out.length + 1 := by simp
      have htest : (c = ' ' || c = '\t') = isTabOrSpace c := rfl
      rw [trimLoop_true s, hlen, lastBlank, htest, List.append_assoc, List.append_assoc]
      simp only [List.cons.injEq, true_and, List.singleton_append]

/-- White space at the start is skipped. -/
theorem trimLoop_dropWhile : ∀ {s : Str}, '\x00' ∉ s →
    trimLoop s false 0 [] = trimLoop (s.dropWhile isSpace) true 0 []
  | [], _ => rfl
  | c :: s, h => by
    have hc : c ≠ '\x00' := fun h0 => h (h0 ▸ .head _)
    have hs : '\x00' ∉ s := fun hm => h (.tail _ hm)
    cases hsp : isSpace c with
    | true =>
      rw [List.dropWhile_cons_of_pos hsp, trimLoop, if_pos (by simp [hsp]), trimLoop_dropWhile hs]
    | false =>
      have hnl : c ≠ '\n' := by rintro rfl; exact absurd hsp (by decide)
      have hfirst : trimLoop (c :: s) false 0 [] = _ := if_neg (by simp [hsp, hc, hnl])
      have hlater : trimLoop (c :: s) true 0 [] = _ := if_neg (by simp)
      rw [List.dropWhile_cons_of_neg (by simp [hsp]), hfirst, hlater]

theorem beforeComment_dropWhile : ∀ s : Str,
    beforeComment (s.dropWhile isSpace) = (beforeComment s).dropWhile isSpace ∧
      (beforeComment (s.dropWhile isSpace) = s.dropWhile isSpace ↔ beforeComment s = s)
  | [] => ⟨rfl, Iff.rfl⟩
  | c :: s => by
    cases hsp : isSpace c with
    | true =>
      have hsemi : c ≠ ';' := by rintro rfl; exact absurd hsp (by decide)
      have hslash : c ≠ '/' := by rintro rfl; exact absurd hsp (by decide)
      obtain ⟨h1, h2⟩ := beforeComment_dropWhile s
      rw [List.dropWhile_cons_of_pos hsp, beforeComment, if_neg (by simp [hsemi, hslash.symm]),
        List.dropWhile_cons_of_pos hsp, h1, ← h1, h2]
      simp
    | false =>
      rw [List.dropWhile_cons_of_neg (by simp [hsp])]
      refine ⟨?_, Iff.rfl⟩
      rw [beforeComment]
      split
      · rfl
      · rw [List.dropWhile_cons_of_neg (by simp [hsp])]

/-- **What `Trim` leaves**: the text after leading white space, or, before a comment, the text up
to its last space or tab. -/
theorem trim_eq (s : Str) : trim s =
    let text := (beforeComment (cstr s)).dropWhile isSpace
    if beforeComment (cstr s) = cstr s then text else text.take (lastBlank 0 0 text) := by
  obtain ⟨h1, h2⟩ := beforeComment_dropWhile (cstr s)
  rw [trim, trimLoop_dropWhile nul_not_mem_cstr, trimLoop_true, h1]
  dsimp only
  rw [← h1]
  simp only [h2, List.nil_append, List.length_nil]
  split
  · rename_i h
    rw [h1, h]
  · rfl

/-! ## The cut -/

theorem isSpace_of_isTabOrSpace {c : Char} (h : isTabOrSpace c = true) : isSpace c = true := by
  rw [isTabOrSpace, Bool.or_eq_true, decide_eq_true_eq, decide_eq_true_eq] at h
  rcases h with rfl | rfl <;> rfl

theorem lastBlank_of_not : ∀ {s : Str} {last pos : Nat}, (∀ c ∈ s, isTabOrSpace c = false) →
    lastBlank last pos s = last
  | [], _, _, _ => rfl
  | c :: s, last, pos, h => by
    obtain ⟨hc, hs⟩ := List.forall_mem_cons.1 h
    rw [lastBlank, lastBlank_of_not hs, if_neg (by simp [hc])]

theorem lastBlank_append {c : Char} {w : Str} (hc : isTabOrSpace c = true)
    (hw : ∀ d ∈ w, isTabOrSpace d = false) : ∀ (x : Str) (last pos : Nat),
    lastBlank last pos (x ++ c :: w) = pos + x.length
  | [], last, pos => by rw [List.nil_append, lastBlank, if_pos hc, lastBlank_of_not hw]; rfl
  | d :: x, last, pos => by
    rw [List.cons_append, lastBlank, lastBlank_append hc hw x, List.length_cons]
    omega

/-- A text has no space or tab, or a last one. -/
theorem exists_lastBlank (s : Str) : (∀ c ∈ s, isTabOrSpace c = false) ∨
    ∃ x c w, s = x ++ c :: w ∧ isTabOrSpace c = true ∧ ∀ d ∈ w, isTabOrSpace d = false := by
  induction s using List.reverseRecOn with
  | nil => exact .inl nofun
  | append_singleton s d ih =>
    cases hd : isTabOrSpace d with
    | true => exact .inr ⟨s, d, [], rfl, hd, nofun⟩
    | false =>
      rcases ih with h | ⟨x, c, w, rfl, hc, hw⟩
      · exact .inl (List.forall_mem_append.2 ⟨h, List.forall_mem_singleton.2 hd⟩)
      · refine .inr ⟨x, c, w ++ [d], by simp, hc, ?_⟩
        exact List.forall_mem_append.2 ⟨hw, List.forall_mem_singleton.2 hd⟩

theorem rdropWhile_eq_self_iff {p : Char → Bool} {s : Str} :
    s.rdropWhile p = s ↔ ∀ c ∈ s.getLast?, p c = false := by
  rw [List.rdropWhile_eq_self_iff]
  constructor
  · intro h c hc
    obtain ⟨hne, rfl⟩ := List.mem_getLast?_eq_getLast hc
    exact Bool.of_not_eq_true (h hne)
  · intro h hne
    rw [h _ (List.getLast?_eq_some_getLast hne)]
    exact Bool.false_ne_true

theorem rdropWhile_append_of_all {p : Char → Bool} (x : Str) : ∀ {y : Str},
    (∀ c ∈ y, p c = true) → (x ++ y).rdropWhile p = x.rdropWhile p := by
  intro y
  induction y using List.reverseRecOn with
  | nil => intro _; rw [List.append_nil]
  | append_singleton y d ih =>
    intro h
    obtain ⟨hy, hd⟩ := List.forall_mem_append.1 h
    rw [← List.append_assoc, List.rdropWhile_concat_pos _ _ _ (hd d (.head _)), ih hy]

/-- The cut is right where the white space at the end starts with the last space or tab. -/
theorem take_lastBlank_iff {text : Str} (hne : text ≠ [])
    (hfirst : ∀ c ∈ text.head?, isSpace c = false) :
    text.take (lastBlank 0 0 text) = text.rdropWhile isSpace ↔
      ∃ x c w, text = x ++ c :: w ∧ (∀ d ∈ x.getLast?, isSpace d = false) ∧
        isTabOrSpace c = true ∧ ∀ d ∈ w, isSpace d = true ∧ isTabOrSpace d = false := by
  constructor
  · intro h
    have hr : text.rdropWhile isSpace ≠ [] := by
      intro hnil
      obtain ⟨c, s, rfl⟩ := List.exists_cons_of_ne_nil hne
      have hc := List.rdropWhile_eq_nil_iff.1 hnil c (.head _)
      exact Bool.false_ne_true ((hfirst c rfl).symm.trans hc)
    rcases exists_lastBlank text with hno | ⟨x, c, w, htext, hc, hw⟩
    · rw [lastBlank_of_not hno, List.take_zero] at h
      exact absurd h.symm hr
    have htake : text.take (lastBlank 0 0 text) = x := by
      rw [htext, lastBlank_append hc hw, Nat.zero_add, List.take_left]
    rw [htake] at h
    have hspaces : text.rtakeWhile isSpace = c :: w := by
      have hsplit : text.rdropWhile isSpace ++ text.rtakeWhile isSpace = text :=
        List.rdropWhile_append_rtakeWhile
      rw [← h] at hsplit
      exact List.append_cancel_left (hsplit.trans htext)
    have hspace : ∀ d ∈ c :: w, isSpace d = true := by
      rw [← hspaces]
      exact fun _ => List.mem_rtakeWhile_imp
    refine ⟨x, c, w, htext, ?_, hc, fun d hd => ⟨hspace d (.tail _ hd), hw d hd⟩⟩
    rw [← rdropWhile_eq_self_iff, h, List.rdropWhile_idempotent]
  · rintro ⟨x, c, w, rfl, hx, hc, hw⟩
    rw [lastBlank_append hc (fun d hd => (hw d hd).2), Nat.zero_add, List.take_left,
      rdropWhile_append_of_all x (List.forall_mem_cons.2 ⟨isSpace_of_isTabOrSpace hc,
        fun d hd => (hw d hd).1⟩), rdropWhile_eq_self_iff.2 hx]

/-- **For which lines `Trim` leaves what it is to leave.** -/
theorem trim_eq_strip_iff (s : Str) :
    trim s = strip (beforeComment (cstr s)) ↔ EndsWell (cstr s) := by
  rw [trim_eq, strip, EndsWell]
  dsimp only
  by_cases hne : (beforeComment (cstr s)).dropWhile isSpace = []
  · rw [hne]
    refine iff_of_true ?_ (.inl rfl)
    split <;> rfl
  rw [or_iff_right hne]
  split
  · rw [eq_comm, rdropWhile_eq_self_iff]
  · exact take_lastBlank_iff hne head?_dropWhile_not

/-- A comment right after the text, one after two spaces, and white space without a comment. -/
theorem trim_ne_strip :
    (trim "ab=1;c".toList = [] ∧ strip (beforeComment (cstr "ab=1;c".toList)) = "ab=1".toList) ∧
      (trim "ab=1  ;c".toList = "ab=1 ".toList ∧
        strip (beforeComment (cstr "ab=1  ;c".toList)) = "ab=1".toList) ∧
      trim "ab=1 ".toList = "ab=1 ".toList ∧
        strip (beforeComment (cstr "ab=1 ".toList)) = "ab=1".toList := by
  decide

end StringUtility
