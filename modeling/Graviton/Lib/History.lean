import Mathlib.Data.List.Induction
import Mathlib.Logic.Pairwise

/-!
# What a history leaves behind

A state that a list of actions has been folded into. A part of it that actions write over holds
what the last of them wrote (`foldl_latest`); a property that actions bring about, and none takes
away, holds if one of them did (`foldl_gained`).

A word of flags is of the second kind: `HasFlag w m` says that `w` has a bit of the mask `m`, and
adding flags with bits of their own adds no other (`hasFlag_or_mask`).
-/

namespace Lib

variable {σ α β : Type*}

/-- The last value that `f` reads off a history; `before` where it reads none. -/
def latest (f : α → Option β) (before : β) (history : List α) : β :=
  (history.reverse.findSome? f).getD before

theorem latest_concat (f : α → Option β) (before : β) (history : List α) (a : α) :
    latest f before (history ++ [a]) = (f a).getD (latest f before history) := by
  rw [latest, latest, List.reverse_concat, List.findSome?_cons]
  cases f a <;> rfl

/-- **Written over**: what an action writes stays until the next one that writes. -/
theorem foldl_latest {step : σ → α → σ} (get : σ → β) {f : α → Option β}
    (h : ∀ s a, get (step s a) = (f a).getD (get s)) (s : σ) (history : List α) :
    get (history.foldl step s) = latest f (get s) history := by
  induction history using List.reverseRecOn with
  | nil => rfl
  | append_singleton history a ih =>
    rw [List.foldl_append, List.foldl_cons, List.foldl_nil, h, ih, latest_concat]

/-- **Added to**: what an action brings about stays. -/
theorem foldl_gained {step : σ → α → σ} (P : σ → Prop) {g : α → Prop}
    (h : ∀ s a, P (step s a) ↔ P s ∨ g a) (s : σ) (history : List α) :
    P (history.foldl step s) ↔ P s ∨ ∃ a ∈ history, g a := by
  induction history generalizing s with
  | nil => simp
  | cons a history ih =>
    rw [List.foldl_cons, ih, h, or_assoc]
    simp only [List.mem_cons, exists_eq_or_imp]

/-! ## Flags -/

variable {n : Nat}

/-- `w` has a bit of the mask `m`. -/
def HasFlag (w m : BitVec n) : Prop := w &&& m ≠ 0

instance (w m : BitVec n) : Decidable (HasFlag w m) := inferInstanceAs (Decidable (_ ≠ _))

theorem hasFlag_or {v w m : BitVec n} : HasFlag (v ||| w) m ↔ HasFlag v m ∨ HasFlag w m := by
  rw [HasFlag, BitVec.and_or_distrib_right]
  exact (not_congr BitVec.or_eq_zero_iff).trans not_and_or

/-- Of masks with bits of their own, adding one adds that flag. -/
theorem hasFlag_or_mask {ι : Type*} {mask : ι → BitVec n}
    (hown : Pairwise fun i j => mask i &&& mask j = 0) {w : BitVec n} {i j : ι}
    (hi : mask i ≠ 0) : HasFlag (w ||| mask j) (mask i) ↔ HasFlag w (mask i) ∨ i = j := by
  rw [hasFlag_or]
  refine or_congr_right ⟨fun h => ?_, ?_⟩
  · by_contra hij
    exact h (hown (Ne.symm hij))
  · rintro rfl
    rwa [HasFlag, BitVec.and_self]

end Lib
