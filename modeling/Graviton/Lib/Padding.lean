import Mathlib.Data.List.TakeDrop
import Mathlib.Tactic

/-!
# Padded lists

`List.takeD n l a` is the first `n` entries of `l`, filled up with `a`.

* `takeD_append_replicate`: entries `a` at the end make no difference.
* `takeD_replicate_append_iff`: when padding in front of a list may be of another length.
-/

namespace Lib

variable {α β : Type*}

theorem map_takeD (f : α → β) (a : α) : ∀ (n : Nat) (l : List α),
    (l.takeD n a).map f = (l.map f).takeD n (f a)
  | 0, _ => rfl
  | n + 1, [] => by simp
  | n + 1, x :: l => congrArg (f x :: ·) (map_takeD f a n l)

theorem mem_takeD {a x : α} : ∀ {n : Nat} {l : List α}, x ∈ l.takeD n a → x ∈ l ∨ x = a
  | n + 1, [], h => by
    rw [List.takeD_nil] at h
    exact .inr (List.eq_of_mem_replicate h)
  | n + 1, y :: l, h => by
    rcases List.mem_cons.1 h with rfl | h
    · exact .inl (.head _)
    · exact (mem_takeD h).imp_left (.tail _)

theorem takeD_append_left (a : α) (n : Nat) : ∀ l l' : List α,
    (l ++ l').takeD (l.length + n) a = l ++ l'.takeD n a
  | [], l' => by rw [List.length_nil, Nat.zero_add]; rfl
  | x :: l, l' => by
    rw [List.length_cons, Nat.succ_add]
    exact congrArg (x :: ·) (takeD_append_left a n l l')

/-- Padding does not see what it would add. -/
theorem takeD_append_replicate (a : α) (m : Nat) : ∀ (n : Nat) (l : List α),
    (l ++ List.replicate m a).takeD n a = l.takeD n a
  | 0, _ => rfl
  | n + 1, [] => by
    cases m with
    | zero => rfl
    | succ m =>
      rw [List.nil_append, List.replicate_succ, List.takeD_nil]
      show a :: (List.replicate m a).takeD n a = _
      have ih := takeD_append_replicate a m n []
      rw [List.nil_append, List.takeD_nil] at ih
      rw [ih]
      rfl
  | n + 1, x :: l => congrArg (x :: ·) (takeD_append_replicate a m n l)

theorem replicate_append_cons (a : α) (k : Nat) (l : List α) :
    List.replicate k a ++ a :: l = List.replicate (k + 1) a ++ l := by
  rw [List.replicate_succ', List.append_assoc, List.singleton_append]

theorem append_replicate_eq_iff {a : α} {k : Nat} : ∀ {l : List α},
    l ++ List.replicate (k + 1) a = List.replicate (k + 1) a ++ l ↔ ∀ x ∈ l, x = a
  | [] => iff_of_true (List.append_nil _).symm nofun
  | x :: l => by
    have hshift : List.replicate (k + 1) a ++ x :: l = a :: (List.replicate k a ++ x :: l) := rfl
    rw [hshift, List.cons_append, List.cons_eq_cons, List.forall_mem_cons]
    refine and_congr_right fun hx => ?_
    rw [hx, replicate_append_cons]
    exact append_replicate_eq_iff

theorem takeD_replicate_append_eq_self_iff {a : α} {k : Nat} : ∀ {l : List α},
    (List.replicate (k + 1) a ++ l).takeD l.length a = l ↔ ∀ x ∈ l, x = a
  | [] => iff_of_true rfl nofun
  | x :: l => by
    have hshift : (List.replicate (k + 1) a ++ x :: l).takeD (x :: l).length a =
        a :: (List.replicate k a ++ x :: l).takeD l.length a := rfl
    rw [hshift, List.cons_eq_cons, List.forall_mem_cons, eq_comm (a := a)]
    refine and_congr_right fun hx => ?_
    rw [hx, replicate_append_cons]
    exact takeD_replicate_append_eq_self_iff

/-- **Padding in another place**: `m` entries before a list, the list cut or filled up to the
length it would have behind `k` of them, are the same only if `m` is `k`, or all are alike. -/
theorem takeD_replicate_append_iff {a : α} {l : List α} : ∀ {m k : Nat},
    ((List.replicate m a ++ l).takeD (k + l.length) a = List.replicate k a ++ l ↔
      k = m ∨ ∀ x ∈ l, x = a)
  | 0, 0 => by
    rw [Nat.zero_add]
    refine iff_of_true ?_ (.inl rfl)
    simpa using takeD_append_left a 0 l []
  | 0, k + 1 => by
    have hfill : l.takeD (k + 1 + l.length) a = l ++ List.replicate (k + 1) a := by
      have h := takeD_append_left a (k + 1) l []
      rwa [List.append_nil, List.takeD_nil, Nat.add_comm] at h
    rw [List.replicate_zero, List.nil_append, hfill, append_replicate_eq_iff,
      or_iff_right (Nat.succ_ne_zero k)]
  | m + 1, 0 => by
    rw [Nat.zero_add, List.replicate_zero, List.nil_append, takeD_replicate_append_eq_self_iff,
      or_iff_right (Nat.succ_ne_zero m).symm]
  | m + 1, k + 1 => by
    rw [Nat.succ_add]
    show a :: _ = a :: _ ↔ _
    rw [List.cons_eq_cons, and_iff_right rfl, Nat.succ_inj]
    exact takeD_replicate_append_iff

end Lib
