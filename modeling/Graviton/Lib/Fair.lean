import Graviton.Lib.Run
import Mathlib.Tactic

/-!
# Fair executions

Infinite executions of a step function (`Execution`), in which nothing may happen for a while, and
what they come to. A set of actions is treated fairly (`Fair`) if one of them is taken whenever
one of them stays possible.

* `Execution.leadsTo_of_fair`: the rule for one step of a fair set of actions.
* `Execution.leadsTo_of_rank`: the rule for a series of them, by a rank they lower.
* `Execution.always_of_step`: what every step keeps holds from then on.
* `Execution.exists_event_of_rank`: the rule for a step that is certain to come.
* `Execution.view`, `Fair.view`: an execution of a system is one of its parts, as fair.
* `Execution.ofRun`: a run after which nothing happens.
-/

namespace Lib

variable {σ α : Type*} {step : σ → α → Option σ}

/-- States and the actions between them; `none` is a moment in which nothing happens. -/
structure Execution (step : σ → α → Option σ) where
  state : Nat → σ
  event : Nat → Option α
  idle : ∀ n, event n = none → state (n + 1) = state n
  next : ∀ n a, event n = some a → step (state n) a = some (state (n + 1))

namespace Execution

variable (e : Execution step)

/-- Whenever `P` holds, `Q` holds then or later. -/
def LeadsTo (P Q : σ → Prop) : Prop :=
  ∀ n, P (e.state n) → ∃ m, n ≤ m ∧ Q (e.state m)

/-- An action of the set can be taken. -/
def Enabled (step : σ → α → Option σ) (A : α → Prop) (s : σ) : Prop :=
  ∃ a, A a ∧ (step s a).isSome = true

/-- **Weak fairness**: if an action of the set can be taken from some time on, one is taken. -/
def Fair (A : α → Prop) : Prop :=
  ∀ n, (∀ m, n ≤ m → Enabled step A (e.state m)) → ∃ m a, n ≤ m ∧ A a ∧ e.event m = some a

variable {e} {P Q R : σ → Prop} {A : α → Prop}

theorem LeadsTo.trans (h : e.LeadsTo P Q) (h' : e.LeadsTo Q R) : e.LeadsTo P R := by
  intro n hp
  obtain ⟨m, hm, hq⟩ := h n hp
  obtain ⟨k, hk, hr⟩ := h' m hq
  exact ⟨k, hm.trans hk, hr⟩

/-- **What every step keeps** holds from then on. -/
theorem always_of_step (hstep : ∀ s a s', P s → step s a = some s' → P s') {n : Nat}
    (h : P (e.state n)) : ∀ m, n ≤ m → P (e.state m) := by
  intro m hm
  induction m, hm using Nat.le_induction with
  | base => exact h
  | succ m _ ih =>
    cases hev : e.event m with
    | none => rwa [e.idle m hev]
    | some a => exact hstep _ a _ ih (e.next m a hev)

/-- Until `Q` holds, `P` goes on to hold. -/
theorem until_of_step (hstep : ∀ s a s', P s → step s a = some s' → P s' ∨ Q s') {n : Nat}
    (h : P (e.state n)) (hno : ∀ m, n ≤ m → ¬ Q (e.state m)) : ∀ m, n ≤ m → P (e.state m) := by
  intro m hm
  induction m, hm using Nat.le_induction with
  | base => exact h
  | succ m hm ih =>
    cases hev : e.event m with
    | none => rwa [e.idle m hev]
    | some a => exact (hstep _ a _ ih (e.next m a hev)).resolve_right (hno _ (Nat.le_succ_of_le hm))

/-- **One fair step**: where `P` holds an action of the set is possible, no step leaves `P` but
for `Q`, and such an action brings `Q`. -/
theorem leadsTo_of_fair (hfair : e.Fair A) (hen : ∀ s, P s → Enabled step A s)
    (hstep : ∀ s a s', P s → step s a = some s' → P s' ∨ Q s')
    (hact : ∀ s a s', P s → A a → step s a = some s' → Q s') : e.LeadsTo P Q := by
  intro n hp
  by_contra hno
  have hno : ∀ m, n ≤ m → ¬ Q (e.state m) := fun m hm hq => hno ⟨m, hm, hq⟩
  have hP := until_of_step hstep hp hno
  obtain ⟨m, a, hm, ha, hev⟩ := hfair n fun m hm => hen _ (hP m hm)
  exact hno (m + 1) (Nat.le_succ_of_le hm) (hact _ a _ (hP m hm) ha (e.next m a hev))

/-- **A series of fair steps**: no step raises the rank, and an action of the set lowers it, unless
it brings `Q`. -/
theorem leadsTo_of_rank (rank : σ → Nat) (hfair : e.Fair A) (hen : ∀ s, P s → Enabled step A s)
    (hstep : ∀ s a s', P s → step s a = some s' → (P s' ∧ rank s' ≤ rank s) ∨ Q s')
    (hact : ∀ s a s', P s → A a → step s a = some s' → (P s' ∧ rank s' < rank s) ∨ Q s') :
    e.LeadsTo P Q := by
  have hrank : ∀ k, e.LeadsTo (fun s => P s ∧ rank s = k) Q := by
    intro k
    induction k using Nat.strongRecOn with
    | ind k ih =>
      have hlower : e.LeadsTo (fun s => P s ∧ rank s = k)
          (fun s => (P s ∧ rank s < k) ∨ Q s) := by
        refine leadsTo_of_fair hfair (fun s hs => hen s hs.1) ?_ ?_
        · rintro s a s' ⟨hp, rfl⟩ hs
          rcases hstep s a s' hp hs with ⟨hp', hle⟩ | hq
          · rcases Nat.lt_or_eq_of_le hle with hlt | heq
            · exact .inr (.inl ⟨hp', hlt⟩)
            · exact .inl ⟨hp', heq⟩
          · exact .inr (.inr hq)
        · rintro s a s' ⟨hp, rfl⟩ ha hs
          exact hact s a s' hp ha hs
      intro n hn
      obtain ⟨m, hm, ⟨hp, hlt⟩ | hq⟩ := hlower n hn
      · obtain ⟨l, hl, hq⟩ := ih _ hlt m ⟨hp, rfl⟩
        exact ⟨l, hm.trans hl, hq⟩
      · exact ⟨m, hm, hq⟩
  exact fun n hp => hrank _ n ⟨hp, rfl⟩

/-- **A step that is certain to come**: until an action with `T` no step leaves `P` or raises the
rank, and the actions of the set lower it. -/
theorem exists_event_of_rank {T : σ → α → Prop} (rank : σ → Nat) (hfair : e.Fair A)
    (hen : ∀ s, P s → Enabled step A s)
    (hstep : ∀ s a s', P s → ¬ T s a → step s a = some s' → P s' ∧ rank s' ≤ rank s)
    (hact : ∀ s a s', P s → ¬ T s a → A a → step s a = some s' → rank s' < rank s) {n : Nat}
    (h : P (e.state n)) : ∃ m a, n ≤ m ∧ e.event m = some a ∧ T (e.state m) a ∧
      ∀ j, n ≤ j → j ≤ m → P (e.state j) := by
  induction hr : rank (e.state n) using Nat.strongRecOn generalizing n with
  | ind r ih =>
    by_contra hno
    have hbefore : ∀ m, n ≤ m →
        (∀ j, n ≤ j → j ≤ m → P (e.state j)) ∧ rank (e.state m) ≤ r := by
      intro m hm
      induction m, hm using Nat.le_induction with
      | base => exact ⟨fun j hj hj' => Nat.le_antisymm hj hj' ▸ h, Nat.le_of_eq hr⟩
      | succ m hm ihm =>
        obtain ⟨hP, hle⟩ := ihm
        have hnext : P (e.state (m + 1)) ∧ rank (e.state (m + 1)) ≤ r := by
          cases hev : e.event m with
          | none => rw [e.idle m hev]; exact ⟨hP m hm (Nat.le_refl m), hle⟩
          | some a =>
            have hT : ¬ T (e.state m) a := fun hT => hno ⟨m, a, hm, hev, hT, hP⟩
            have hk := hstep _ a _ (hP m hm (Nat.le_refl m)) hT (e.next m a hev)
            exact ⟨hk.1, hk.2.trans hle⟩
        refine ⟨fun j hj hj' => ?_, hnext.2⟩
        rcases Nat.lt_or_eq_of_le hj' with hlt | rfl
        · exact hP j hj (Nat.le_of_lt_succ hlt)
        · exact hnext.1
    obtain ⟨m, a, hm, ha, hev⟩ := hfair n fun m hm =>
      hen _ ((hbefore m hm).1 m hm (Nat.le_refl m))
    obtain ⟨hP, hle⟩ := hbefore m hm
    have hPm := hP m hm (Nat.le_refl m)
    have hT : ¬ T (e.state m) a := fun hT => hno ⟨m, a, hm, hev, hT, hP⟩
    have hlt := hact _ a _ hPm hT ha (e.next m a hev)
    obtain ⟨k, b, hk, hb, hTb, hPk⟩ := ih _ (hlt.trans_le hle)
      (hstep _ a _ hPm hT (e.next m a hev)).1 rfl
    refine hno ⟨k, b, (Nat.le_succ_of_le hm).trans hk, hb, hTb, fun j hj hj' => ?_⟩
    rcases Nat.lt_or_ge m j with hmj | hmj
    · exact hPk j hmj hj'
    · exact hP j hj hmj

/-- The states of an execution are those of runs. -/
theorem exists_run {ok : σ → α → Prop} : ∀ n : Nat,
    (∀ k < n, ∀ a, e.event k = some a → ok (e.state k) a) →
      ∃ as, Run step ok (e.state 0) as (e.state n)
  | 0, _ => ⟨[], .nil _⟩
  | n + 1, h => by
    obtain ⟨as, has⟩ := exists_run n fun k hk => h k (Nat.lt_succ_of_lt hk)
    cases hev : e.event n with
    | none => rw [e.idle n hev]; exact ⟨as, has⟩
    | some a =>
      have hok := h n (Nat.lt_succ_self n) a hev
      exact ⟨as ++ [a], has.append (.cons hok (e.next n a hev) (.nil _))⟩

/-! ## The parts of a system -/

/-- What the steps of a system do to a part of it: one step of its own, or nothing. -/
structure View {τ β : Type*} (step : σ → α → Option σ) (step' : τ → β → Option τ) where
  part : σ → τ
  act : σ → α → Option β
  rest : ∀ s a s', step s a = some s' → act s a = none → part s' = part s
  move : ∀ s a s' b, step s a = some s' → act s a = some b → step' (part s) b = some (part s')

section
variable {τ β : Type*} {step' : τ → β → Option τ} (v : View step step')

/-- What an execution does to a part. -/
def view (e : Execution step) : Execution step' where
  state n := v.part (e.state n)
  event n := (e.event n).bind (v.act (e.state n))
  idle n h := by
    cases hev : e.event n with
    | none => rw [e.idle n hev]
    | some a => exact v.rest _ a _ (e.next n a hev) (by rwa [hev] at h)
  next n b h := by
    obtain ⟨a, hev, ha⟩ := Option.bind_eq_some_iff.1 h
    exact v.move _ a _ b (e.next n a hev) ha

/-- **A part is treated fairly** with the system, if the actions of the system are actions of the
part whenever the part waits for one. -/
theorem Fair.view {B : β → Prop} (hfair : e.Fair A)
    (hen : ∀ n, Enabled step' B (v.part (e.state n)) → Enabled step A (e.state n))
    (hact : ∀ n a, Enabled step' B (v.part (e.state n)) → A a → e.event n = some a →
      ∃ b, v.act (e.state n) a = some b ∧ B b) : (e.view v).Fair B := by
  intro n hB
  obtain ⟨m, a, hm, ha, hev⟩ := hfair n fun m hm => hen m (hB m hm)
  obtain ⟨b, hb, hBb⟩ := hact m a (hB m hm) ha hev
  refine ⟨m, b, hm, hBb, ?_⟩
  show (e.event m).bind _ = _
  rw [hev]
  exact hb

end

/-! ## Executions that come to rest -/

/-- The states a run passes through, and its last one from then on. -/
def statesOf (step : σ → α → Option σ) : σ → List α → Nat → σ
  | s, [], _ => s
  | s, _ :: _, 0 => s
  | s, a :: as, n + 1 => statesOf step ((step s a).getD s) as n

theorem statesOf_zero (s : σ) (as : List α) : statesOf step s as 0 = s := by
  cases as <;> rfl

theorem statesOf_idle : ∀ (as : List α) (s : σ) (n : Nat), as[n]? = none →
    statesOf step s as (n + 1) = statesOf step s as n
  | [], _, _, _ => rfl
  | a :: as, s, 0, h => by simp at h
  | a :: as, s, n + 1, h => statesOf_idle as ((step s a).getD s) n (by simpa using h)

theorem statesOf_next {s s' : σ} {as : List α} (h : Run step anyStep s as s') : ∀ (n : Nat) (a : α),
    as[n]? = some a → step (statesOf step s as n) a = some (statesOf step s as (n + 1)) := by
  induction h with
  | nil s => exact fun n a ha => by simp at ha
  | @cons s t u b as _ hs _ ih =>
    intro n a ha
    cases n with
    | zero =>
      obtain rfl : b = a := by simpa using ha
      rw [statesOf, statesOf, hs, Option.getD_some, statesOf_zero]
    | succ n =>
      rw [statesOf, statesOf, hs, Option.getD_some]
      exact ih n a (by simpa using ha)

theorem statesOf_end {s s' : σ} {as : List α} (h : Run step anyStep s as s') : ∀ (n : Nat),
    as.length ≤ n → statesOf step s as n = s' := by
  induction h with
  | nil s => exact fun n _ => rfl
  | @cons s t u b as _ hs _ ih =>
    intro n hn
    cases n with
    | zero => simp at hn
    | succ n =>
      rw [statesOf, hs, Option.getD_some]
      exact ih n (Nat.le_of_succ_le_succ hn)

/-- A run, after which nothing happens. -/
def ofRun {s s' : σ} {as : List α} (h : Run step anyStep s as s') : Execution step where
  state := statesOf step s as
  event n := as[n]?
  idle := statesOf_idle as s
  next := statesOf_next h

/-- It is fair to the actions that are not possible at its end. -/
theorem fair_ofRun {s s' : σ} {as : List α} (h : Run step anyStep s as s')
    (hend : ¬ Enabled step A s') : (ofRun h).Fair A := by
  intro n hen
  have hlast := hen (n + as.length) (Nat.le_add_right _ _)
  rw [show (ofRun h).state (n + as.length) = s' from statesOf_end h _ (Nat.le_add_left _ _)] at hlast
  exact absurd hlast hend

end Execution

end Lib
