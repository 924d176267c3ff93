import Graviton.Lib.Buffer
import Graviton.Lib.Numeral
import Graviton.Lib.Padding

/-!
# The scanning loops of the address classes

The string constructors of `Ip`, `Mac` and `Ipv6` collect digits into a local `tmpstr` and
convert it. The loops of `Ip` and `Mac` then skip to the next digit: they read the runs of
digits of the text, the first of them empty if the text does not start with a digit
(`scanRuns`).

* `collect_eq`, `collect_capped_eq`: what the collecting loop writes, and where it stops.
* `scan_eq`: without a bound on the digits, a pass for each run.
* `scan_capped_eq`: with a bound, longer runs are read in pieces (`pieces`).
-/

namespace AddressText

open Lib

/-- The collecting loop: `tmpstr[len] = *instr` for the digits at the pointer, as long as `more`
allows; the writes, and where the pointer stops. -/
def collect (digit : Char → Bool) (more : Nat → Bool) : Nat → Str → Writes × Str
  | _, [] => ([], [])
  | len, c :: instr =>
    if digit c && more len then
      let (tmpstr, instr) := collect digit more (len + 1) instr
      ((len, c) :: tmpstr, instr)
    else ([], c :: instr)

/-- Passes that collect digits and then move to the next digit: the writes of each. -/
def scan (digit : Char → Bool) (more : Nat → Bool) : Nat → Str → List Writes
  | 0, _ => []
  | n + 1, instr =>
    let (tmpstr, instr) := collect digit more 0 instr
    tmpstr :: scan digit more n (instr.dropWhile fun c => !digit c)

/-- The text is at a digit, or at its end. -/
def AtRun (digit : Char → Bool) (s : Str) : Prop := ∀ c ∈ s.head?, digit c = true

instance (digit : Char → Bool) : (s : Str) → Decidable (AtRun digit s)
  | [] => isTrue nofun
  | c :: _ => decidable_of_iff (digit c = true) (by simp [AtRun])

/-- The runs a scanner reads of a text. -/
def scanRuns (digit : Char → Bool) (s : Str) : List Str :=
  if AtRun digit s then runs digit s else [] :: runs digit s

section
variable {digit : Char → Bool} {more : Nat → Bool}

@[simp] theorem scan_length : ∀ (n : Nat) (s : Str), (scan digit more n s).length = n
  | 0, _ => rfl
  | n + 1, _ => congrArg (· + 1) (scan_length n _)

/-- Without a bound, a whole run is collected. -/
theorem collect_eq : ∀ (s : Str) (len : Nat), collect digit (fun _ => true) len s =
    (writesFrom len (s.takeWhile digit), s.dropWhile digit)
  | [], _ => rfl
  | c :: s, len => by
    rw [collect, collect_eq s]
    cases hc : digit c with
    | true => simp [hc, writesFrom]
    | false => simp [hc, writesFrom]

/-- With a bound, the start of the run. -/
theorem collect_capped_eq {cap : Nat} : ∀ (s : Str) {len : Nat}, len ≤ cap →
    collect digit (fun len => len < cap) len s =
      (writesFrom len ((s.takeWhile digit).take (cap - len)),
        (s.takeWhile digit).drop (cap - len) ++ s.dropWhile digit)
  | [], _, _ => by simp [collect, writesFrom]
  | c :: s, len, hlen => by
    rw [collect]
    cases hc : digit c with
    | false => simp [hc, writesFrom]
    | true =>
      rcases Nat.lt_or_eq_of_le hlen with hlt | rfl
      · obtain ⟨k, hk⟩ : ∃ k, cap - len = k + 1 := ⟨cap - len - 1, by omega⟩
        have hk' : cap - (len + 1) = k := by omega
        rw [if_pos (by simpa using hlt), collect_capped_eq s hlt, hk', hk]
        simp [hc, writesFrom]
      · simp [hc, writesFrom, List.takeWhile_append_dropWhile]

theorem atRun_dropWhile (s : Str) : AtRun digit (s.dropWhile fun c => !digit c) :=
  head?_dropWhile

theorem scanRuns_of_atRun {s : Str} (h : AtRun digit s) : scanRuns digit s = runs digit s :=
  if_pos h

theorem atRun_intercalate {c : Char} : ∀ {rs : List Str},
    (∀ r ∈ rs, r ≠ [] ∧ ∀ d ∈ r, digit d = true) → AtRun digit ([c].intercalate rs)
  | [], _ => nofun
  | r :: rs, h => by
    obtain ⟨hne, hr⟩ := h r (.head _)
    obtain ⟨d, r', rfl⟩ := List.exists_cons_of_ne_nil hne
    have hhead : ([c].intercalate ((d :: r') :: rs)).head? = some d := by
      cases rs <;> simp [List.intercalate_cons_cons]
    intro e he
    rw [hhead] at he
    cases he
    exact hr d (.head _)

/-- Runs joined by a separator are read as they are. -/
theorem scanRuns_intercalate {c : Char} (hc : digit c = false) {rs : List Str}
    (h : ∀ r ∈ rs, r ≠ [] ∧ ∀ d ∈ r, digit d = true) :
    scanRuns digit ([c].intercalate rs) = rs := by
  rw [scanRuns_of_atRun (atRun_intercalate h), runs_intercalate hc h]

/-- What is read after the first run. -/
theorem scanRuns_eq (digit : Char → Bool) (s : Str) : scanRuns digit s = runs digit s ∧ s = [] ∨
    scanRuns digit s =
      s.takeWhile digit :: scanRuns digit ((s.dropWhile digit).dropWhile fun c => !digit c) := by
  rw [scanRuns_of_atRun (atRun_dropWhile _), runs_dropWhile]
  cases s with
  | nil => exact .inl ⟨rfl, rfl⟩
  | cons c s =>
    right
    cases hc : digit c with
    | true => rw [scanRuns, if_pos (by simp [AtRun, hc]), runs_of_head hc]
    | false =>
      rw [scanRuns, if_neg (by simp [AtRun, hc]), List.takeWhile_cons_of_neg (by simp [hc]),
        List.dropWhile_cons_of_neg (by simp [hc])]

/-- **Without a bound**, each pass writes a run. -/
theorem scan_eq : ∀ (n : Nat) (s : Str), scan digit (fun _ => true) n s =
    ((scanRuns digit s).takeD n []).map (writesFrom 0)
  | 0, _ => rfl
  | n + 1, s => by
    rw [scan, collect_eq]
    dsimp only
    rw [scan_eq n]
    rcases scanRuns_eq digit s with ⟨-, rfl⟩ | h
    · rfl
    · rw [h]
      rfl

/-! ## Bounded passes -/

/-- What `n` passes read of these runs, at most `cap` digits each. -/
def pieces (cap : Nat) : Nat → List Str → List Str
  | 0, _ => []
  | n + 1, [] => [] :: pieces cap n []
  | n + 1, r :: rs =>
    r.take cap :: pieces cap n (if r.length ≤ cap then rs else r.drop cap :: rs)

theorem pieces_nil (cap : Nat) : ∀ n : Nat, pieces cap n [] = List.replicate n []
  | 0 => rfl
  | n + 1 => congrArg ([] :: ·) (pieces_nil cap n)

/-- **With a bound**, each pass writes a piece of a run. -/
theorem scan_capped_eq {cap : Nat} (hcap : 0 < cap) : ∀ (n : Nat) (s : Str),
    scan digit (fun len => len < cap) n s =
      (pieces cap n (scanRuns digit s)).map (writesFrom 0)
  | 0, _ => rfl
  | n + 1, s => by
    rw [scan, collect_capped_eq s (Nat.zero_le cap), Nat.sub_zero]
    dsimp only
    rw [scan_capped_eq hcap n]
    have hstop : ∀ c ∈ (s.dropWhile digit).head?, digit c = false := head?_dropWhile_not
    rcases scanRuns_eq digit s with ⟨-, rfl⟩ | h
    · simp [pieces, scanRuns, AtRun]
    rw [h, pieces, List.map_cons]
    congr 3
    split
    · rename_i hlen
      rw [List.drop_eq_nil_of_le hlen, List.nil_append]
    · rename_i hlen
      -- the pointer is still inside the run
      have hne : (s.takeWhile digit).drop cap ≠ [] := by simp; omega
      have hdig : ∀ c ∈ (s.takeWhile digit).drop cap, digit c = true := fun c hc =>
        List.mem_takeWhile_imp (List.mem_of_mem_drop hc)
      rw [scanRuns_of_atRun (atRun_dropWhile _), runs_dropWhile, runs_run_append hne hdig hstop,
        scanRuns_of_atRun (atRun_dropWhile _), runs_dropWhile]

theorem digit_of_mem_scanRuns {r s : Str} (h : r ∈ scanRuns digit s) : ∀ c ∈ r, digit c = true := by
  unfold scanRuns at h
  split at h
  · exact (of_mem_runs h).2
  · rcases List.mem_cons.1 h with rfl | h
    · exact nofun
    · exact (of_mem_runs h).2

theorem of_mem_pieces {cap : Nat} : ∀ {n : Nat} {rs : List Str} {r : Str},
    (∀ r ∈ rs, ∀ c ∈ r, digit c = true) → r ∈ pieces cap n rs →
    r.length ≤ cap ∧ ∀ c ∈ r, digit c = true
  | n + 1, [], r, h, hr => by
    rw [pieces_nil] at hr
    rw [List.eq_of_mem_replicate hr]
    exact ⟨Nat.zero_le _, nofun⟩
  | n + 1, r' :: rs, r, h, hr => by
    obtain ⟨hr', hrs⟩ := List.forall_mem_cons.1 h
    rcases List.mem_cons.1 hr with rfl | hr
    · exact ⟨List.length_take_le _ _, fun c hc => hr' c (List.mem_of_mem_take hc)⟩
    · refine of_mem_pieces ?_ hr
      split
      · exact hrs
      · exact List.forall_mem_cons.2 ⟨fun c hc => hr' c (List.mem_of_mem_drop hc), hrs⟩

/-- Short runs are read as they are. -/
theorem pieces_of_short {cap : Nat} : ∀ {n : Nat} {rs : List Str}, (∀ r ∈ rs, r.length ≤ cap) →
    pieces cap n rs = rs.takeD n []
  | 0, _, _ => rfl
  | n + 1, [], _ => by rw [pieces_nil, List.takeD_nil]
  | n + 1, r :: rs, h => by
    obtain ⟨hr, h⟩ := List.forall_mem_cons.1 h
    rw [pieces, if_pos hr, List.take_of_length_le hr, pieces_of_short h]
    rfl

end

/-- **What is read from `tmpstr`**: the number of the digits written there, if they and their end
fit, and the number fits the result. -/
theorem strtoul_tmpstr {b n k : Nat} {r : Str} (hb : 0 < b) (hr : ∀ c ∈ r, isDigitOf b c = true)
    (hl : r.length ≤ k) (hk : k < n) (hfit : b ^ k ≤ 2 ^ 64) :
    strtoul b (cstr (fill n (writesFrom 0 r))) = BitVec.ofNat 64 (numeral b r) := by
  have hnul : '\x00' ∉ r := by
    intro hm
    exact absurd (Bool.and_eq_true_iff.1 (hr _ hm)).1 (by decide)
  have hlt := Nat.lt_of_lt_of_le (numeral_lt_of_length_le hb hr hl) hfit
  rw [cstr_fill (Nat.lt_of_le_of_lt hl hk) hnul, strtoul_of_digits hr hlt]

end AddressText
