import Graviton.Lib.Text

/-!
# `StringUtility`: formatting and trimming

The string helpers of `libs/utility/stringutility.cpp` the other models use.

* `format_length_le`, `format_of_lt`: a formatted text is never longer than what was to be
  printed, and is all of it when it fits the buffer.
* `trim_prefix_dropWhile`, `isComment_trim_iff`: `Trim` drops leading blanks and may cut the end.
* `trim_of_plain`: a line without white space and comments is not changed.
-/

namespace StringUtility

open Lib

/-- `sizeof(TStringBuffer)`. -/
def stringBufferSize : Nat := 4 * 1024

/-- `Format`: `text` is what the format directives print. `vsnprintf` fails on a text past
`INT_MAX` and cuts one that does not fit the buffer. -/
def format (fmt text : Str) : Str :=
  if 2 ^ 31 ≤ text.length then "Error formatting string '".toList ++ fmt ++ "'.".toList
  else text.take (stringBufferSize - 1)

theorem errorText_length (fmt : Str) :
    ("Error formatting string '".toList ++ fmt ++ "'.".toList).length = fmt.length + 27 := by
  simp only [List.length_append, String.length_toList]
  have h1 : "Error formatting string '".length = 25 := rfl
  have h2 : "'.".length = 2 := rfl
  omega

theorem format_length_le {fmt text : Str} (hf : fmt.length ≤ stringBufferSize) :
    (format fmt text).length ≤ text.length := by
  have hs : stringBufferSize = 4096 := rfl
  rw [format]
  split
  · rw [errorText_length]
    omega
  · exact List.length_take_le' _ _

/-- A text is printed whole exactly when it fits the buffer. -/
theorem format_length_eq_iff {fmt text : Str} (hf : fmt.length ≤ stringBufferSize) :
    (format fmt text).length = text.length ↔ text.length < stringBufferSize := by
  have hs : stringBufferSize = 4096 := rfl
  rw [format]
  split
  · rw [errorText_length]
    omega
  · rw [List.length_take]
    omega

theorem format_of_lt {fmt text : Str} (h : text.length < stringBufferSize) :
    format fmt text = text := by
  have hs : stringBufferSize = 4096 := rfl
  rw [format, if_neg (by omega), List.take_of_length_le (by omega)]

/-- A short format leaves a text that fits the buffer. -/
theorem format_length_lt {fmt text : Str} (hf : fmt.length + 27 < stringBufferSize) :
    (format fmt text).length < stringBufferSize := by
  rw [format]
  split
  · rwa [errorText_length]
  · exact (List.length_take_le _ _).trans_lt (by decide)

theorem not_mem_format {c : Char} (hc : c ∉ "Error formatting string '.".toList) {fmt text : Str}
    (hf : c ∉ fmt) (ht : c ∉ text) : c ∉ format fmt text := by
  have h1 : "Error formatting string '".toList ⊆ "Error formatting string '.".toList := by decide
  have h2 : "'.".toList ⊆ "Error formatting string '.".toList := by decide
  rw [format]
  split
  · simp only [List.mem_append, not_or]
    exact ⟨⟨fun h => hc (h1 h), hf⟩, fun h => hc (h2 h)⟩
  · exact fun hm => ht (List.mem_of_mem_take hm)

theorem format_ne_nil {fmt text : Str} (h : text ≠ []) : format fmt text ≠ [] := by
  rw [format]
  split
  · simp
  · simp [stringBufferSize, h]

/-- The loop of `Trim`: the characters from `idx` on, the two flags, and the `newIdx`
characters written so far. It writes behind the place it reads. -/
def trimLoop : Str → Bool → Nat → Str → Str
  | [], _, _, out => out
  | c :: rest, firstNonSpace, lastSpace, out =>
    if !firstNonSpace && (isSpace c || c = '\x00' || c = '\n') then
      trimLoop rest firstNonSpace lastSpace out
    else if c = ';' || "//".toList <+: c :: rest then out.take lastSpace
    else
      trimLoop rest true (if c = ' ' || c = '\t' then out.length else lastSpace) (out ++ [c])

def trim (instr : Str) : Str := trimLoop (cstr instr) false 0 []

def isComment : Str → Bool
  | [] => true
  | c :: _ => c = ';' || c = '/' || c = '\r' || c = '\n' || c = '\x00'

/-- What `Trim` skips at the start. -/
def isBlank (c : Char) : Bool := isSpace c || c = '\x00' || c = '\n'

/-- Past the first character, `Trim` copies what is left, or cuts it at a comment. -/
theorem trimLoop_prefix_append : ∀ (s : Str) {last : Nat} {out : Str}, last ≤ out.length →
    trimLoop s true last out <+: out ++ s
  | [], _, out, _ => by rw [trimLoop, List.append_nil]
  | c :: s, last, out, hl => by
    rw [trimLoop, if_neg (by simp)]
    split
    · exact (List.take_prefix _ _).trans (List.prefix_append _ _)
    · have hnext : (if c = ' ' || c = '\t' then out.length else last) ≤ (out ++ [c]).length := by
        rw [List.length_append]
        split <;> omega
      have ih := trimLoop_prefix_append s hnext
      rwa [List.append_assoc, List.singleton_append] at ih

/-- What `Trim` makes of a text starts with a character that is neither blank nor a `;`. -/
theorem trimLoop_cases : ∀ s : Str, trimLoop s false 0 [] = [] ∨
    ∃ c r, s.dropWhile isBlank = c :: r ∧ isBlank c = false ∧ c ≠ ';' ∧
      trimLoop s false 0 [] <+: c :: r
  | [] => .inl rfl
  | c :: s => by
    by_cases hb : isBlank c = true
    · rw [List.dropWhile_cons_of_pos hb, trimLoop, if_pos (by simpa [isBlank] using hb)]
      exact trimLoop_cases s
    rw [trimLoop, if_neg (by simpa [isBlank] using hb)]
    split
    · exact .inl rfl
    · rename_i hc
      refine .inr ⟨c, s, List.dropWhile_cons_of_neg hb, Bool.of_not_eq_true hb,
        fun h => hc (by simp [h]), ?_⟩
      refine trimLoop_prefix_append s ?_
      split <;> exact Nat.zero_le _

theorem trim_prefix_dropWhile (s : Str) : trim s <+: (cstr s).dropWhile isBlank := by
  rcases trimLoop_cases (cstr s) with h | ⟨c, r, hd, -, -, h⟩
  · rw [trim, h]
    exact List.nil_prefix
  · rw [hd]
    exact h

theorem mem_of_mem_trim {c : Char} {s : Str} (h : c ∈ trim s) : c ∈ s :=
  ((trim_prefix_dropWhile s).sublist.trans
    ((List.dropWhile_sublist _).trans (List.takeWhile_sublist _))).mem h

theorem nul_not_mem_trim {s : Str} : '\x00' ∉ trim s := fun h => nul_not_mem_cstr
  (((trim_prefix_dropWhile s).sublist.trans (List.dropWhile_sublist _)).mem h)

/-- Of what `Trim` leaves, only an empty text or one that starts with `/` is a comment. -/
theorem isComment_trim_iff (s : Str) :
    isComment (trim s) = true ↔ trim s = [] ∨ (trim s).head? = some '/' := by
  cases ht : trim s with
  | nil => simp [isComment]
  | cons c r =>
    rcases trimLoop_cases (cstr s) with h | ⟨c', r', -, hb, hsemi, h⟩
    · rw [trim, h] at ht
      cases ht
    · rw [← trim, ht] at h
      obtain rfl : c = c' := (List.cons_prefix_cons.1 h).1
      have hr : c ≠ '\r' := by rintro rfl; exact absurd hb (by decide)
      have hn : c ≠ '\n' := by rintro rfl; exact absurd hb (by decide)
      have h0 : c ≠ '\x00' := by rintro rfl; exact absurd hb (by decide)
      simp [isComment, hsemi, hr, hn, h0]

theorem trim_semicolon (text : Str) : trim (';' :: text) = [] := by
  rw [trim, cstr, List.takeWhile_cons_of_pos (by decide), trimLoop, if_neg (by decide),
    if_pos (by simp), List.take_nil]

/-- A character that `Trim` copies wherever it stands. -/
def Plain (c : Char) : Prop := isSpace c = false ∧ c ≠ '\x00' ∧ c ≠ ';' ∧ c ≠ '/'

theorem trimLoop_of_plain : ∀ {s : Str} {first : Bool} {last : Nat} {out : Str},
    (∀ c ∈ s, Plain c) → trimLoop s first last out = out ++ s
  | [], _, _, out, _ => (List.append_nil out).symm
  | c :: s, first, last, out, h => by
    obtain ⟨⟨hsp, h0, hsemi, hslash⟩, hs⟩ := List.forall_mem_cons.1 h
    have hnl : c ≠ '\n' := by rintro rfl; exact absurd hsp (by decide)
    rw [trimLoop, if_neg (by simp [hsp, h0, hnl]), if_neg (by simp [hsemi, hslash.symm]),
      trimLoop_of_plain hs, List.append_assoc, List.singleton_append]

theorem trim_of_plain {s : Str} (h : ∀ c ∈ s, Plain c) : trim s = s := by
  rw [trim, cstr_eq_self_iff.2 fun h0 => (h _ h0).2.1 rfl, trimLoop_of_plain h, List.nil_append]

theorem isComment_of_plain {c : Char} {s : Str} (h : Plain c) : isComment (c :: s) = false := by
  obtain ⟨hsp, h0, hsemi, hslash⟩ := h
  have hr : c ≠ '\r' := by rintro rfl; exact absurd hsp (by decide)
  have hn : c ≠ '\n' := by rintro rfl; exact absurd hsp (by decide)
  simp [isComment, hsemi, hslash, hr, hn, h0]

end StringUtility
