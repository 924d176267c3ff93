import Graviton.Lib.Text

/-!
# Reading a stream in pieces

`fgets` of the C library: a piece is a line with its newline, or as much of it as the buffer takes
(`piece`). `reads` is what a loop of calls reads.

* `flatten_reads`, `of_mem_reads`: the pieces make up the stream, and each fits the buffer.
* `reads_line`, `reads_full`: the first piece of a stream that starts with a line that fits, or
  with part of one that does not.
* `reads_unlines`: lines are read one after the other, `full_of_mem_reads`: each piece of a line
  ends it, or fills the buffer.
-/

namespace Lib

/-- What `fgets` reads into a buffer of `size` characters. -/
def piece (size : Nat) (s : Str) : Str :=
  s.take (min ((s.takeWhile (· ≠ '\n')).length + 1) (size - 1))

/-- The pieces of at most `fuel` calls. -/
def readsFrom (size : Nat) : Nat → Str → List Str
  | 0, _ => []
  | fuel + 1, s =>
    if s = [] then []
    else piece size s :: readsFrom size fuel (s.drop (piece size s).length)

/-- The pieces of calls of `fgets` until it reads nothing. -/
def reads (size : Nat) (s : Str) : List Str := readsFrom size s.length s

section
variable {size : Nat}

theorem piece_length (s : Str) : (piece size s).length =
    min (min ((s.takeWhile (· ≠ '\n')).length + 1) (size - 1)) s.length := List.length_take

theorem piece_pos (hsize : 2 ≤ size) {s : Str} (hs : s ≠ []) : 0 < (piece size s).length := by
  have := List.length_pos_of_ne_nil hs
  rw [piece_length]
  omega

theorem piece_append_drop (s : Str) : piece size s ++ s.drop (piece size s).length = s :=
  List.prefix_iff_eq_append.1 (List.take_prefix _ s)

/-- Fuel for every character is enough. -/
theorem readsFrom_eq (hsize : 2 ≤ size) : ∀ {fuel fuel' : Nat} {s : Str}, s.length ≤ fuel →
    s.length ≤ fuel' → readsFrom size fuel s = readsFrom size fuel' s
  | 0, 0, _, _, _ => rfl
  | 0, _ + 1, _, h, _ => by
    obtain rfl := List.length_eq_zero_iff.1 (Nat.le_zero.1 h)
    rfl
  | _ + 1, 0, _, _, h => by
    obtain rfl := List.length_eq_zero_iff.1 (Nat.le_zero.1 h)
    rfl
  | fuel + 1, fuel' + 1, s, h, h' => by
    rw [readsFrom, readsFrom]
    split
    · rfl
    · rename_i hs
      have hpos := piece_pos hsize hs
      have hlen : (s.drop (piece size s).length).length ≤ s.length - 1 := by
        rw [List.length_drop]
        omega
      exact congrArg (piece size s :: ·) (readsFrom_eq hsize (by omega) (by omega))

@[simp] theorem reads_nil : reads size [] = [] := rfl

/-- **A call of `fgets`**, and the rest of the calls. -/
theorem reads_of_ne_nil (hsize : 2 ≤ size) {s : Str} (hs : s ≠ []) :
    reads size s = piece size s :: reads size (s.drop (piece size s).length) := by
  have hpos := piece_pos hsize hs
  have hlen := List.length_pos_of_ne_nil hs
  obtain ⟨n, hn⟩ : ∃ n, s.length = n + 1 := ⟨s.length - 1, by omega⟩
  have hrest : (s.drop (piece size s).length).length ≤ n := by
    rw [List.length_drop]
    omega
  rw [reads, hn, readsFrom, if_neg hs, reads, readsFrom_eq hsize hrest (Nat.le_refl _)]

/-- Induction on what is left to read. -/
theorem reads_induction (hsize : 2 ≤ size) {P : Str → Prop} (hnil : P [])
    (hpiece : ∀ s, s ≠ [] → P (s.drop (piece size s).length) → P s) (s : Str) : P s := by
  induction hn : s.length using Nat.strongRecOn generalizing s with
  | ind n ih =>
    by_cases hs : s = []
    · rw [hs]
      exact hnil
    · have hpos := piece_pos hsize hs
      have hlen := List.length_pos_of_ne_nil hs
      refine hpiece s hs (ih _ ?_ _ rfl)
      rw [List.length_drop]
      omega

/-- **The pieces** make up the stream. -/
theorem flatten_reads (hsize : 2 ≤ size) (s : Str) : (reads size s).flatten = s := by
  induction s using reads_induction hsize with
  | hnil => rfl
  | hpiece s hs ih => rw [reads_of_ne_nil hsize hs, List.flatten_cons, ih, piece_append_drop]

theorem infix_of_mem_reads (hsize : 2 ≤ size) {s p : Str} (h : p ∈ reads size s) : p <:+: s := by
  have hoccurs := List.infix_of_mem_flatten h
  rwa [flatten_reads hsize] at hoccurs

theorem of_mem_reads (hsize : 2 ≤ size) {s p : Str} (h : p ∈ reads size s) :
    p ≠ [] ∧ p.length ≤ size - 1 := by
  induction s using reads_induction hsize with
  | hnil => cases h
  | hpiece s hs ih =>
    rw [reads_of_ne_nil hsize hs] at h
    rcases List.mem_cons.1 h with rfl | h
    · refine ⟨List.ne_nil_of_length_pos (piece_pos hsize hs), ?_⟩
      rw [piece_length]
      omega
    · exact ih h

/-! ## Lines -/

theorem prefix_line_iff {pat : Str} (h : '\n' ∉ pat) (l : Str) :
    pat <+: l ++ ['\n'] ↔ pat <+: l := by
  rw [List.prefix_concat_iff, or_iff_right]
  rintro rfl
  exact h (by simp)

theorem infix_line_iff {pat : Str} (h : '\n' ∉ pat) (hne : pat ≠ []) (l : Str) :
    pat <:+: l ++ ['\n'] ↔ pat <:+: l := by
  rw [List.infix_concat_iff, or_iff_right]
  intro hs
  have hlast := hs.getLast hne
  rw [List.getLast_concat] at hlast
  exact h (hlast ▸ List.getLast_mem hne)

/-- A piece starts like the stream. -/
theorem prefix_piece {pat s : Str} (hp : pat <+: s) (h : '\n' ∉ pat)
    (hlen : pat.length ≤ size - 1) : pat <+: piece size s := by
  obtain ⟨t, rfl⟩ := hp
  refine List.prefix_of_prefix_length_le (List.prefix_append _ _) (List.take_prefix _ _) ?_
  show pat.length ≤ (piece size (pat ++ t)).length
  rw [piece_length, takeWhile_append_of_not_mem h, List.length_append, List.length_append]
  omega

theorem piece_line {l : Str} (h : '\n' ∉ l) (hfit : l.length + 1 < size) (s : Str) :
    piece size (l ++ '\n' :: s) = l ++ ['\n'] := by
  rw [piece, takeWhile_append_of_not_mem h, List.takeWhile_cons_of_neg (by simp),
    List.append_nil, Nat.min_eq_left (by omega), List.append_cons]
  exact List.take_left' (by simp)

theorem piece_of_fits {s : Str} (h : '\n' ∉ s) (hfit : s.length < size) : piece size s = s := by
  have htake := takeWhile_append_of_not_mem h []
  rw [List.append_nil, List.takeWhile_nil, List.append_nil] at htake
  rw [piece, htake]
  exact List.take_of_length_le (by omega)

/-- **A line that fits**, with its newline. -/
theorem reads_line {l : Str} (h : '\n' ∉ l) (hfit : l.length + 1 < size) (s : Str) :
    reads size (l ++ '\n' :: s) = (l ++ ['\n']) :: reads size s := by
  have hrest : (l ++ '\n' :: s).drop (l ++ ['\n']).length = s := by
    rw [List.append_cons l '\n' s, List.drop_left]
  rw [reads_of_ne_nil (by omega) (by simp), piece_line h hfit, hrest]

/-- **A line that does not fit**: as much of it as the buffer takes. -/
theorem reads_full (hsize : 2 ≤ size) {a : Str} (h : '\n' ∉ a) (hfull : a.length = size - 1)
    (s : Str) : reads size (a ++ s) = a :: reads size s := by
  have hpiece : piece size (a ++ s) = a := by
    rw [piece, takeWhile_append_of_not_mem h, List.length_append, Nat.min_eq_right (by omega),
      ← hfull, List.take_left]
  have hne : a ++ s ≠ [] := by
    intro hnil
    rw [(List.append_eq_nil_iff.1 hnil).1] at hfull
    simp at hfull
    omega
  rw [reads_of_ne_nil hsize hne, hpiece, List.drop_left]

/-- Induction on what is left of a line. -/
theorem line_induction (hsize : 2 ≤ size) {P : (l : Str) → '\n' ∉ l → Prop}
    (hfit : ∀ l h, l.length + 1 < size → P l h)
    (hfull : ∀ a b, '\n' ∉ a → a.length = size - 1 → ∀ hb h, P b hb → P (a ++ b) h) (l : Str)
    (h : '\n' ∉ l) : P l h := by
  induction hn : l.length using Nat.strongRecOn generalizing l with
  | ind n ih =>
    by_cases hlen : l.length + 1 < size
    · exact hfit l h hlen
    · have ha : '\n' ∉ l.take (size - 1) := fun hm => h (List.mem_of_mem_take hm)
      have hb : '\n' ∉ l.drop (size - 1) := fun hm => h (List.mem_of_mem_drop hm)
      have hP := hfull (l.take (size - 1)) (l.drop (size - 1)) ha
        (by rw [List.length_take]; omega) hb (by rwa [List.take_append_drop])
        (ih _ (by rw [List.length_drop]; omega) _ hb rfl)
      simpa only [List.take_append_drop] using hP

theorem reads_line_append (hsize : 2 ≤ size) {l : Str} (h : '\n' ∉ l) (s : Str) :
    reads size (l ++ '\n' :: s) = reads size (l ++ ['\n']) ++ reads size s := by
  induction l, h using line_induction hsize with
  | hfit l h hlen =>
    rw [reads_line h hlen, reads_line h hlen, reads_nil]
    rfl
  | hfull a b ha hlen hb h ih =>
    rw [List.append_assoc, List.append_assoc, reads_full hsize ha hlen, reads_full hsize ha hlen,
      ih, List.cons_append]

/-- **Lines** are read one after the other. -/
theorem reads_unlines (hsize : 2 ≤ size) : ∀ {ls : List Str}, (∀ l ∈ ls, '\n' ∉ l) → ∀ s : Str,
    reads size (unlines ls ++ s) = ls.flatMap (fun l => reads size (l ++ ['\n'])) ++ reads size s
  | [], _, _ => rfl
  | l :: ls, h, s => by
    obtain ⟨hl, hls⟩ := List.forall_mem_cons.1 h
    have ih := reads_unlines hsize hls s
    rw [unlines] at ih ⊢
    rw [List.flatMap_cons, List.append_assoc, ← List.append_cons, reads_line_append hsize hl, ih,
      List.flatMap_cons, List.append_assoc]

/-- A piece of a line ends it, or fills the buffer. -/
theorem full_of_mem_reads (hsize : 2 ≤ size) {l p : Str} (h : '\n' ∉ l)
    (hp : p ∈ reads size (l ++ ['\n'])) : p.getLast? = some '\n' ∨ p.length = size - 1 := by
  induction l, h using line_induction hsize with
  | hfit l h hlen =>
    rw [reads_line h hlen, reads_nil, List.mem_singleton] at hp
    rw [hp, List.getLast?_concat]
    exact .inl rfl
  | hfull a b ha hlen hb h ih =>
    rw [List.append_assoc, reads_full hsize ha hlen] at hp
    rcases List.mem_cons.1 hp with rfl | hp
    · exact .inr hlen
    · exact ih hp

end

end Lib
