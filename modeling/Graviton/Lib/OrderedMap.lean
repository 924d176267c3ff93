import Mathlib.Data.List.Pairwise
import Mathlib.Order.Basic
import Mathlib.Tactic

/-!
# Ordered maps

An ordered map is its entries in iteration order, sorted by key, with one entry for a key; `set`
puts an entry in its place, over the one that is there.

* `entries_set_of_above`: a key above all others comes last.
* `value_eq_of_mem`: the entries of a key are one.
-/

namespace Lib

/-- Entries sorted by key, each key once. -/
structure OrderedMap (κ α : Type*) [LinearOrder κ] where
  entries : List (κ × α)
  sorted : entries.Pairwise fun a b => a.1 < b.1

namespace OrderedMap

variable {κ α : Type*} [LinearOrder κ]

def empty : OrderedMap κ α := ⟨[], List.Pairwise.nil⟩

def setEntry (k : κ) (v : α) : List (κ × α) → List (κ × α)
  | [] => [(k, v)]
  | e :: es =>
    if e.1 < k then e :: setEntry k v es
    else if e.1 = k then (k, v) :: es
    else (k, v) :: e :: es

theorem of_mem_setEntry {k : κ} {v : α} {x : κ × α} : ∀ {es : List (κ × α)},
    x ∈ setEntry k v es → x = (k, v) ∨ x ∈ es
  | [], h => .inl (List.mem_singleton.1 h)
  | e :: es, h => by
    rw [setEntry] at h
    split at h
    · rcases List.mem_cons.1 h with rfl | h
      · exact .inr (.head _)
      · exact (of_mem_setEntry h).imp_right (List.mem_cons_of_mem e)
    · split at h
      · exact (List.mem_cons.1 h).imp_right (List.mem_cons_of_mem e)
      · exact List.mem_cons.1 h

theorem sorted_setEntry {k : κ} {v : α} : ∀ {es : List (κ × α)},
    (es.Pairwise fun a b => a.1 < b.1) → (setEntry k v es).Pairwise fun a b => a.1 < b.1
  | [], _ => List.pairwise_singleton _ _
  | e :: es, h => by
    obtain ⟨he, hs⟩ := List.pairwise_cons.1 h
    rw [setEntry]
    split
    · rename_i hk
      refine List.pairwise_cons.2 ⟨fun x hx => ?_, sorted_setEntry hs⟩
      rcases of_mem_setEntry hx with rfl | hx
      · exact hk
      · exact he x hx
    · rename_i hk
      split
      · rename_i heq
        refine List.pairwise_cons.2 ⟨fun x hx => ?_, hs⟩
        rw [← heq]
        exact he x hx
      · rename_i hne
        have hlt : k < e.1 := lt_of_le_of_ne (not_lt.1 hk) (Ne.symm hne)
        refine List.pairwise_cons.2 ⟨fun x hx => ?_, h⟩
        rcases List.mem_cons.1 hx with rfl | hx
        · exact hlt
        · exact hlt.trans (he x hx)

/-- `m[k] = v`. -/
def set (m : OrderedMap κ α) (k : κ) (v : α) : OrderedMap κ α :=
  ⟨setEntry k v m.entries, sorted_setEntry m.sorted⟩

def erase (m : OrderedMap κ α) (k : κ) : OrderedMap κ α :=
  ⟨m.entries.filter fun e => e.1 ≠ k, m.sorted.filter _⟩

/-- **A key above all others** comes last. -/
theorem entries_set_of_above {m : OrderedMap κ α} {k : κ} (h : ∀ e ∈ m.entries, e.1 < k) (v : α) :
    (m.set k v).entries = m.entries ++ [(k, v)] := by
  show setEntry k v m.entries = _
  generalize m.entries = es at h
  induction es with
  | nil => rfl
  | cons e es ih =>
    obtain ⟨he, hes⟩ := List.forall_mem_cons.1 h
    rw [setEntry, if_pos he, ih hes, List.cons_append]

theorem mem_erase {m : OrderedMap κ α} {k : κ} {e : κ × α} :
    e ∈ (m.erase k).entries ↔ e ∈ m.entries ∧ e.1 ≠ k := by
  show e ∈ m.entries.filter _ ↔ _
  rw [List.mem_filter, decide_eq_true_eq]

/-- **One value for a key.** -/
theorem value_eq_of_mem {m : OrderedMap κ α} {k : κ} {v w : α} (hv : (k, v) ∈ m.entries)
    (hw : (k, w) ∈ m.entries) : v = w := by
  by_contra hne
  obtain ⟨as, bs, hsplit⟩ := List.append_of_mem hv
  have hs := m.sorted
  rw [hsplit] at hs hw
  obtain ⟨-, hs, hbefore⟩ := List.pairwise_append.1 hs
  rcases List.mem_append.1 hw with hw | hw
  · exact lt_irrefl k (hbefore _ hw _ (.head _))
  · rcases List.mem_cons.1 hw with hw | hw
    · exact hne (Prod.mk.inj hw).2.symm
    · exact lt_irrefl k ((List.pairwise_cons.1 hs).1 _ hw)

end OrderedMap

end Lib
