import Graviton.Lib.Text

/-!
# Character buffers

A local array of characters that starts with zeros is the list of the writes made into it
(`Writes`), and what it holds afterwards (`fill`). A write past the end is in the list and not in
the buffer.

* `inBounds_writesFrom_iff`: when a text fits; `cstr_fill`: the C string it leaves.
* `snprintf`, `strncpy`: the bounded copies of the C library.
* `strtokR_cases`: the tokens `strtok_r` cuts off a text are its runs.
-/

namespace Lib

/-- Writes of single characters, each at its offset, in order. -/
abbrev Writes := List (Nat × Char)

/-- The writes of a text, from an offset on. -/
def writesFrom : Nat → Str → Writes
  | _, [] => []
  | off, c :: s => (off, c) :: writesFrom (off + 1) s

/-- Every write is at an offset below `n`. -/
def Writes.InBounds (n : Nat) (ws : Writes) : Prop := ∀ w ∈ ws, w.1 < n

instance (n : Nat) (ws : Writes) : Decidable (ws.InBounds n) := by
  unfold Writes.InBounds; infer_instance

def write (b : Str) (ws : Writes) : Str := ws.foldl (fun b w => b.set w.1 w.2) b

/-- A zeroed array of `n` characters after the writes. -/
def fill (n : Nat) (ws : Writes) : Str := write (List.replicate n '\x00') ws

/-- `snprintf` to an array of the given size: the text it leaves there. -/
def snprintf (size : Nat) (text : Str) : Str := text.take (size - 1)

/-- `strncpy(dst, src, n)`: the characters of `src`, and zeros up to `n` characters. -/
def strncpy (src : Str) (n : Nat) : Writes :=
  writesFrom 0 ((src ++ List.replicate n '\x00').take n)

/-- `strtok_r` looks for characters that are not delimiters. -/
def isTokenChar (delim : Str) (c : Char) : Bool := !delim.contains c

/-- What a call of `strtok_r` finds: the token, the write that ends it, and where the next call
starts, with the text left there. -/
structure Token where
  text : Str
  cut : Writes
  pos : Nat
  rest : Str

/-- `strtok_r` at offset `pos` of an array, where the text `s` starts. -/
def strtokR (delim : Str) (pos : Nat) (s : Str) : Option Token :=
  let token := s.dropWhile fun c => !isTokenChar delim c
  let text := token.takeWhile (isTokenChar delim)
  let last := pos + (s.length - token.length) + text.length
  if token = [] then none
  else match token.dropWhile (isTokenChar delim) with
    | [] => some ⟨text, [], last, []⟩
    | _ :: rest => some ⟨text, [(last, '\x00')], last + 1, rest⟩

@[simp] theorem length_writesFrom : ∀ (s : Str) (off : Nat), (writesFrom off s).length = s.length
  | [], _ => rfl
  | _ :: s, off => congrArg (· + 1) (length_writesFrom s (off + 1))

theorem inBounds_writesFrom_iff {n : Nat} : ∀ {s : Str} {off : Nat}, s ≠ [] →
    ((writesFrom off s).InBounds n ↔ off + s.length ≤ n)
  | [c], off, _ => by simp [writesFrom, Writes.InBounds]
  | c :: d :: s, off, _ => by
    rw [writesFrom, Writes.InBounds, List.forall_mem_cons]
    show off < n ∧ (writesFrom (off + 1) (d :: s)).InBounds n ↔ _
    rw [inBounds_writesFrom_iff (List.cons_ne_nil d s)]
    simp only [List.length_cons]
    omega

/-- **A text fits** where its length does. -/
theorem inBounds_writesFrom_zero_iff {n : Nat} {s : Str} :
    (writesFrom 0 s).InBounds n ↔ s.length ≤ n := by
  by_cases hs : s = []
  · subst hs
    exact iff_of_true nofun (Nat.zero_le n)
  · rw [inBounds_writesFrom_iff hs, Nat.zero_add]

theorem write_writesFrom : ∀ (s a b : Str), s.length ≤ b.length →
    write (a ++ b) (writesFrom a.length s) = a ++ s ++ b.drop s.length
  | [], a, b, _ => by simp [writesFrom, write]
  | c :: s, a, [], h => by simp at h
  | c :: s, a, d :: b, h => by
    have ih := write_writesFrom s (a ++ [c]) b (by simpa using h)
    rw [List.length_append, List.length_singleton] at ih
    rw [writesFrom, write, List.foldl_cons, List.set_append_right _ _ (Nat.le_refl _),
      Nat.sub_self, List.set_cons_zero]
    show write (a ++ c :: b) _ = _
    rw [← List.singleton_append, ← List.append_assoc, ih, List.length_cons, List.drop_succ_cons]
    simp

/-- What a text leaves in a zeroed array it fits. -/
theorem fill_writesFrom {n : Nat} {s : Str} (h : s.length ≤ n) :
    fill n (writesFrom 0 s) = s ++ List.replicate (n - s.length) '\x00' := by
  have := write_writesFrom s [] (List.replicate n '\x00') (by simpa using h)
  simpa [fill] using this

/-- **The C string** a text leaves, when there is room for its end. -/
theorem cstr_fill {n : Nat} {s : Str} (hn : s.length < n) (h : '\x00' ∉ s) :
    cstr (fill n (writesFrom 0 s)) = s := by
  obtain ⟨k, hk⟩ : ∃ k, n - s.length = k + 1 := ⟨n - s.length - 1, by omega⟩
  rw [fill_writesFrom (Nat.le_of_lt hn), hk, List.replicate_succ, cstr_append_nul,
    cstr_eq_self_iff.2 h]

/-- A text that fits the array leaves it terminated, unless it fills it. -/
theorem nul_mem_fill_iff {n : Nat} {s : Str} (hn : s.length ≤ n) (h : '\x00' ∉ s) :
    '\x00' ∈ fill n (writesFrom 0 s) ↔ s.length < n := by
  rw [fill_writesFrom hn, List.mem_append, or_iff_right h, List.mem_replicate]
  simp only [and_true]
  omega

theorem snprintf_of_lt {size : Nat} {text : Str} (h : text.length < size) :
    snprintf size text = text := List.take_of_length_le (by omega)

/-- A copy of as many characters as the text has copies no terminator. -/
theorem strncpy_length (src : Str) : strncpy src src.length = writesFrom 0 src := by
  rw [strncpy, List.take_left]

/-! ## Tokens -/

theorem length_write : ∀ (ws : Writes) (b : Str), (write b ws).length = b.length
  | [], _ => rfl
  | w :: ws, b => (length_write ws (b.set w.1 w.2)).trans List.length_set

/-- Writes of terminators leave a terminated text terminated. -/
theorem nul_mem_write : ∀ {ws : Writes} {b : Str}, (∀ w ∈ ws, w.2 = '\x00') → '\x00' ∈ b →
    '\x00' ∈ write b ws
  | [], _, _, hb => hb
  | w :: ws, b, hw, hb => by
    obtain ⟨hw, hws⟩ := List.forall_mem_cons.1 hw
    show '\x00' ∈ write (b.set w.1 w.2) ws
    refine nul_mem_write hws ?_
    obtain ⟨i, hi, hget⟩ := List.getElem_of_mem hb
    have hi' : i < (b.set w.1 w.2).length := by rwa [List.length_set]
    refine List.mem_of_getElem (i := i) (h := hi') ?_
    rw [List.getElem_set, hget]
    split
    · exact hw
    · rfl

/-- **A call of `strtok_r`**: there is no token left, or the first one is cut off, and what it
writes is a terminator in the text. -/
theorem strtokR_cases (delim : Str) (pos : Nat) (s : Str) :
    (strtokR delim pos s = none ∧ runs (isTokenChar delim) s = []) ∨
    ∃ t, strtokR delim pos s = some t ∧
      runs (isTokenChar delim) s = t.text :: runs (isTokenChar delim) t.rest ∧
      t.pos + t.rest.length = pos + s.length ∧ t.rest.length < s.length ∧
      ∀ w ∈ t.cut, w.2 = '\x00' ∧ w.1 < pos + s.length := by
  have hle := (List.dropWhile_sublist (l := s) fun c => !isTokenChar delim c).length_le
  rw [← runs_dropWhile, strtokR]
  cases htoken : s.dropWhile fun c => !isTokenChar delim c with
  | nil => exact .inl ⟨rfl, runs_nil⟩
  | cons c token =>
    right
    have hc : isTokenChar delim c = true := head?_dropWhile c (by rw [htoken]; rfl)
    have hsplit := congrArg List.length
      (List.takeWhile_append_dropWhile (p := isTokenChar delim) (l := c :: token))
    have hpos : 0 < ((c :: token).takeWhile (isTokenChar delim)).length := by simp [hc]
    rw [htoken] at hle
    rw [List.length_append] at hsplit
    rw [runs_of_head hc, if_neg (List.cons_ne_nil c token)]
    cases hrest : (c :: token).dropWhile (isTokenChar delim) with
    | nil =>
      rw [hrest, List.length_nil] at hsplit
      refine ⟨_, rfl, rfl, ?_, ?_, nofun⟩
      · simp only [List.length_nil]
        omega
      · simp only [List.length_nil]
        omega
    | cons d rest =>
      have hd : isTokenChar delim d = false := head?_dropWhile_not d (by rw [hrest]; rfl)
      rw [hrest, List.length_cons] at hsplit
      refine ⟨_, rfl, by rw [runs_cons_of_not hd], ?_, ?_, ?_⟩
      · dsimp only
        omega
      · dsimp only
        omega
      · intro w hw
        obtain rfl := List.mem_singleton.1 hw
        exact ⟨rfl, by dsimp only; omega⟩

end Lib
