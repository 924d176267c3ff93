import Mathlib.Data.List.AList

/-!
# Registries

Objects that enter themselves in a map when they are constructed and take their key out when
they are destroyed. Objects are told apart by their address, the map has one place for each
key: an entry may be overwritten or taken out by another object of the same key.

* `alive_add`, `alive_remove`: the map never holds an address without an object.
* `registered_add_iff`, `registered_remove`: every object is in the map as long as no object is
  added under a key in use.
-/

namespace Lib

/-- The objects alive, by address, and the map they are entered in. -/
structure Registry (κ π ω : Type) where
  live : AList fun _ : π => ω
  map : AList fun _ : κ => π

namespace Registry

variable {κ π ω : Type}

def empty : Registry κ π ω := ⟨∅, ∅⟩

variable [DecidableEq κ] [DecidableEq π]

/-- An object constructed at `p`, entered under `k`. -/
def add (s : Registry κ π ω) (k : κ) (p : π) (o : ω) : Registry κ π ω :=
  ⟨s.live.insert p o, s.map.insert k p⟩

/-- The object at `p` destroyed, and `k` taken out of the map. -/
def remove (s : Registry κ π ω) (k : κ) (p : π) : Registry κ π ω :=
  ⟨s.live.erase p, s.map.erase k⟩

/-- Every entry of the map is an object of that key. -/
def Alive (keyOf : ω → κ) (s : Registry κ π ω) : Prop :=
  ∀ k p, s.map.lookup k = some p → ∃ o, s.live.lookup p = some o ∧ keyOf o = k

/-- Every object is in the map, under its key. -/
def Registered (keyOf : ω → κ) (s : Registry κ π ω) : Prop :=
  ∀ p o, s.live.lookup p = some o → s.map.lookup (keyOf o) = some p

/-- No object has the key. -/
def Unused (keyOf : ω → κ) (s : Registry κ π ω) (k : κ) : Prop :=
  ∀ p o, s.live.lookup p = some o → keyOf o ≠ k

variable {keyOf : ω → κ} {s : Registry κ π ω} {p : π} {o : ω}

theorem alive_empty : (empty : Registry κ π ω).Alive keyOf := fun _ _ h => nomatch h

theorem registered_empty : (empty : Registry κ π ω).Registered keyOf := fun _ _ h => nomatch h

omit [DecidableEq κ] in
theorem unused_empty (k : κ) : (empty : Registry κ π ω).Unused keyOf k := fun _ _ h => nomatch h

theorem Unused.add {k k' : κ} (h : s.Unused keyOf k) (ho : keyOf o ≠ k) :
    (s.add k' p o).Unused keyOf k := by
  intro q o' hq
  by_cases hqp : q = p
  · subst hqp
    rw [Registry.add, AList.lookup_insert] at hq
    obtain rfl : o = o' := Option.some.inj hq
    exact ho
  · rw [Registry.add, AList.lookup_insert_ne hqp] at hq
    exact h q o' hq

/-- Of registered objects no two have the same key. -/
theorem Registered.key_inj (h : s.Registered keyOf) {p q : π} {o o' : ω}
    (hp : s.live.lookup p = some o) (hq : s.live.lookup q = some o') (hk : keyOf o = keyOf o') :
    p = q := by
  have hp' := h p o hp
  rw [hk, h q o' hq] at hp'
  exact (Option.some.inj hp').symm

theorem alive_add (h : s.Alive keyOf) (hp : s.live.lookup p = none) :
    (s.add (keyOf o) p o).Alive keyOf := by
  intro k q hq
  by_cases hk : k = keyOf o
  · subst hk
    rw [add, AList.lookup_insert] at hq
    obtain rfl : p = q := Option.some.inj hq
    exact ⟨o, AList.lookup_insert _, rfl⟩
  · rw [add, AList.lookup_insert_ne hk] at hq
    obtain ⟨o', ho', hk'⟩ := h k q hq
    have hqp : q ≠ p := by
      rintro rfl
      rw [hp] at ho'
      cases ho'
    exact ⟨o', by rw [add, AList.lookup_insert_ne hqp]; exact ho', hk'⟩

theorem alive_remove (h : s.Alive keyOf) (hp : s.live.lookup p = some o) :
    (s.remove (keyOf o) p).Alive keyOf := by
  intro k q hq
  by_cases hk : k = keyOf o
  · rw [hk, remove, AList.lookup_erase] at hq
    cases hq
  · rw [remove, AList.lookup_erase_ne hk] at hq
    obtain ⟨o', ho', hk'⟩ := h k q hq
    have hqp : q ≠ p := by
      rintro rfl
      rw [hp] at ho'
      cases ho'
      exact hk hk'.symm
    exact ⟨o', by rw [remove, AList.lookup_erase_ne hqp]; exact ho', hk'⟩

/-- **A new object**: it and the others are registered exactly if its key was not in use. -/
theorem registered_add_iff (h : s.Registered keyOf) (hp : s.live.lookup p = none) :
    (s.add (keyOf o) p o).Registered keyOf ↔ s.Unused keyOf (keyOf o) := by
  have hne : ∀ q o', s.live.lookup q = some o' → q ≠ p := by
    rintro q o' hq rfl
    rw [hp] at hq
    cases hq
  constructor
  · intro hr q o' hq hk
    have hlive : (s.add (keyOf o) p o).live.lookup q = some o' := by
      rw [add, AList.lookup_insert_ne (hne q o' hq)]
      exact hq
    have hreg := hr q o' hlive
    rw [hk, add, AList.lookup_insert] at hreg
    exact hne q o' hq (Option.some.inj hreg).symm
  · intro hu q o' hq
    by_cases hqp : q = p
    · subst hqp
      rw [add, AList.lookup_insert] at hq
      obtain rfl : o = o' := Option.some.inj hq
      exact AList.lookup_insert _
    · rw [add, AList.lookup_insert_ne hqp] at hq
      rw [add, AList.lookup_insert_ne (hu q o' hq)]
      exact h q o' hq

/-- An object destroyed leaves the others registered. -/
theorem registered_remove (h : s.Registered keyOf) (hp : s.live.lookup p = some o) :
    (s.remove (keyOf o) p).Registered keyOf := by
  intro q o' hq
  by_cases hqp : q = p
  · rw [hqp, remove, AList.lookup_erase] at hq
    cases hq
  · rw [remove, AList.lookup_erase_ne hqp] at hq
    have hk : keyOf o' ≠ keyOf o := fun hk => hqp (h.key_inj hq hp hk)
    rw [remove, AList.lookup_erase_ne hk]
    exact h q o' hq

end Registry

end Lib
