import Mathlib.Data.List.Basic

/-!
# Runs of a step function

`Run step ok s as s'`: the actions `as` lead from `s` to `s'`, every one of them taken in a
state where `ok` allows it. A property the allowed steps keep holds at the end of every run
(`Run.inv`), so in every state a run passes through. `Reach step Q s`: some run from `s` leads
to a state where `Q` holds.

Where `ok` is exactly what keeps a property, the runs that always have it are the allowed ones
(`Run.always_iff`); if the property cannot come back once it is lost, it is enough to look at
the end of the run (`Run.end_iff`).
-/

namespace Lib

variable {σ α : Type*}

/-- A run whose steps all meet `ok`. -/
inductive Run (step : σ → α → Option σ) (ok : σ → α → Prop) : σ → List α → σ → Prop
  | nil (s : σ) : Run step ok s [] s
  | cons {s s' s'' : σ} {a : α} {as : List α} :
      ok s a → step s a = some s' → Run step ok s' as s'' → Run step ok s (a :: as) s''

abbrev anyStep : σ → α → Prop := fun _ _ => True

/-- The state after a list of actions, when each of them is possible and allowed. -/
def steps (step : σ → α → Option σ) (ok : σ → α → Prop) [∀ s a, Decidable (ok s a)] :
    σ → List α → Option σ
  | s, [] => some s
  | s, a :: as => if ok s a then (step s a).bind fun s' => steps step ok s' as else none

variable {step : σ → α → Option σ} {ok : σ → α → Prop}

/-- **Invariants.** What the allowed steps keep holds at the end of a run. -/
theorem Run.inv {P : σ → Prop} (hstep : ∀ s a s', P s → ok s a → step s a = some s' → P s')
    {s s' : σ} {as : List α} (h : Run step ok s as s') : P s → P s' := by
  induction h with
  | nil => exact id
  | cons hok hs _ ih => exact fun h0 => ih (hstep _ _ _ h0 hok hs)

/-- `P` holds in every state the actions pass through. -/
def Always (step : σ → α → Option σ) (P : σ → Prop) : σ → List α → Prop
  | s, [] => P s
  | s, a :: as => P s ∧ ∀ s', step s a = some s' → Always step P s' as

theorem Always.head {P : σ → Prop} {s : σ} : ∀ {as : List α}, Always step P s as → P s
  | [], h => h
  | _ :: _, h => h.1

theorem Run.append {s t u : σ} {as bs : List α} (h : Run step ok s as t)
    (h' : Run step ok t bs u) : Run step ok s (as ++ bs) u := by
  induction h with
  | nil => exact h'
  | cons hok hs _ ih => exact .cons hok hs (ih h')

/-- **Exact conditions.** -/
theorem Run.always_iff {Inv P : σ → Prop}
    (hinv : ∀ s a s', Inv s → step s a = some s' → Inv s')
    (hstep : ∀ s a s', Inv s → P s → step s a = some s' → (P s' ↔ ok s a))
    {s s' : σ} {as : List α} (h : Run step anyStep s as s') (hi : Inv s) (h0 : P s) :
    Always step P s as ↔ Run step ok s as s' := by
  induction h with
  | nil s => exact ⟨fun _ => .nil s, fun _ => h0⟩
  | @cons s t u a as _ hs _ ih =>
    constructor
    · intro ha
      have ht := ha.2 t hs
      exact .cons ((hstep s a t hi h0 hs).1 ht.head) hs
        ((ih (hinv s a t hi hs) ht.head).1 ht)
    · rintro (_ | ⟨hok, hs', hr⟩)
      obtain rfl : t = _ := Option.some.inj (hs.symm.trans hs')
      have ht := (hstep s a t hi h0 hs).2 hok
      refine ⟨h0, fun t' ht' => ?_⟩
      obtain rfl : t = t' := Option.some.inj (hs.symm.trans ht')
      exact (ih (hinv s a t hi hs) ht).2 hr

/-- Once lost, always lost: the property holds at the end exactly if it held all along. -/
theorem Run.always_iff_end {P : σ → Prop} (hback : ∀ s a s', step s a = some s' → P s' → P s)
    {s s' : σ} {as : List α} (h : Run step anyStep s as s') : Always step P s as ↔ P s' := by
  induction h with
  | nil => exact Iff.rfl
  | @cons s t u a as _ hs _ ih =>
    constructor
    · exact fun ha => ih.1 (ha.2 t hs)
    · intro hu
      have ht := ih.2 hu
      refine ⟨hback s a t hs ht.head, fun t' ht' => ?_⟩
      obtain rfl : t = t' := Option.some.inj (hs.symm.trans ht')
      exact ht

theorem Run.end_iff {Inv P : σ → Prop}
    (hinv : ∀ s a s', Inv s → step s a = some s' → Inv s')
    (hback : ∀ s a s', step s a = some s' → P s' → P s)
    (hstep : ∀ s a s', Inv s → P s → step s a = some s' → (P s' ↔ ok s a))
    {s s' : σ} {as : List α} (h : Run step anyStep s as s') (hi : Inv s) (h0 : P s) :
    P s' ↔ Run step ok s as s' :=
  (h.always_iff_end hback).symm.trans (h.always_iff hinv hstep hi h0)

theorem Run.of_steps [∀ s a, Decidable (ok s a)] {s s' : σ} {as : List α}
    (h : steps step ok s as = some s') : Run step ok s as s' := by
  induction as generalizing s with
  | nil => cases h; exact .nil _
  | cons a as ih =>
    rw [steps] at h
    split at h
    · rename_i hok
      obtain ⟨t, ht, h⟩ := Option.bind_eq_some_iff.1 h
      exact .cons hok ht (ih h)
    · cases h

variable (step) in
inductive Reach (Q : σ → Prop) : σ → Prop
  | here {s : σ} : Q s → Reach Q s
  | next {s s' : σ} {a : α} : step s a = some s' → Reach Q s' → Reach Q s

theorem Reach.bind {Q Q' : σ → Prop} {s : σ} (h : Reach step Q s)
    (k : ∀ s', Q s' → Reach step Q' s') : Reach step Q' s := by
  induction h with
  | here hq => exact k _ hq
  | next hs _ ih => exact .next hs ih

end Lib
