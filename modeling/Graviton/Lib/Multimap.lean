import Mathlib.Data.List.Basic
import Mathlib.Order.Basic
import Mathlib.Tactic

/-!
# Ordered multimaps

An ordered multimap is its entries in iteration order, sorted by key; `insert` puts an entry
after the entries of an equal key, so equal keys stay in insertion order.

* `range_eq_filter`: the entries from the lower to the upper bound of a key are the entries
  of that key.
* `filter_insert`, `range_ofList`: they are in insertion order.
* `findSome?_ofList`: the first entry of a kind has the least key, and was the first of that key.
-/

namespace Lib

/-- Entries sorted by key. -/
structure Multimap (κ α : Type*) [LinearOrder κ] where
  entries : List (κ × α)
  sorted : entries.Pairwise fun a b => a.1 ≤ b.1

namespace Multimap

variable {κ α : Type*} [LinearOrder κ]

def empty : Multimap κ α := ⟨[], List.Pairwise.nil⟩

def size (m : Multimap κ α) : Nat := m.entries.length

def insertEntry (k : κ) (v : α) : List (κ × α) → List (κ × α)
  | [] => [(k, v)]
  | e :: es => if e.1 ≤ k then e :: insertEntry k v es else (k, v) :: e :: es

theorem mem_insertEntry {k : κ} {v : α} {x : κ × α} : ∀ {es : List (κ × α)},
    x ∈ insertEntry k v es ↔ x = (k, v) ∨ x ∈ es
  | [] => by simp [insertEntry]
  | e :: es => by
    have ih : x ∈ insertEntry k v es ↔ x = (k, v) ∨ x ∈ es := mem_insertEntry
    rw [insertEntry]
    split
    · simp only [List.mem_cons, ih]
      tauto
    · simp only [List.mem_cons]

theorem sorted_insertEntry {k : κ} {v : α} : ∀ {es : List (κ × α)},
    (es.Pairwise fun a b => a.1 ≤ b.1) → (insertEntry k v es).Pairwise fun a b => a.1 ≤ b.1
  | [], _ => List.pairwise_singleton _ _
  | e :: es, h => by
    obtain ⟨he, hs⟩ := List.pairwise_cons.1 h
    rw [insertEntry]
    split
    · rename_i hk
      refine List.pairwise_cons.2 ⟨fun x hx => ?_, sorted_insertEntry hs⟩
      rcases mem_insertEntry.1 hx with rfl | hx
      · exact hk
      · exact he x hx
    · rename_i hk
      have hk := le_of_lt (not_le.1 hk)
      refine List.pairwise_cons.2 ⟨fun x hx => ?_, h⟩
      rcases List.mem_cons.1 hx with rfl | hx
      · exact hk
      · exact hk.trans (he x hx)

/-- Insert an entry after the entries of its key. -/
def insert (m : Multimap κ α) (k : κ) (v : α) : Multimap κ α :=
  ⟨insertEntry k v m.entries, sorted_insertEntry m.sorted⟩

/-- The entries from the lower bound of `k` up to its upper bound. -/
def range (m : Multimap κ α) (k : κ) : List (κ × α) :=
  (m.entries.dropWhile fun e => e.1 < k).takeWhile fun e => e.1 ≤ k

@[simp] theorem size_empty : (empty : Multimap κ α).size = 0 := rfl

@[simp] theorem size_insert (m : Multimap κ α) (k : κ) (v : α) :
    (m.insert k v).size = m.size + 1 := by
  have h : ∀ es : List (κ × α), (insertEntry k v es).length = es.length + 1 := by
    intro es
    induction es with
    | nil => rfl
    | cons e es ih => rw [insertEntry]; split <;> simp [ih]
  exact h m.entries

/-! ## The entries of one key -/

/-- In a sorted list the entries up to an upper bound of `k`, none below `k`, are the entries
of `k`. -/
theorem takeWhile_eq_filter (k : κ) : ∀ {es : List (κ × α)},
    (es.Pairwise fun a b => a.1 ≤ b.1) → (∀ e ∈ es, k ≤ e.1) →
    es.takeWhile (fun e => e.1 ≤ k) = es.filter fun e => e.1 = k
  | [], _, _ => rfl
  | e :: es, hs, hk => by
    obtain ⟨he, hs⟩ := List.pairwise_cons.1 hs
    have hek := hk e (.head _)
    by_cases h : e.1 = k
    · rw [List.takeWhile_cons_of_pos (by simp [h]), List.filter_cons_of_pos (by simp [h]),
        takeWhile_eq_filter k hs fun x hx => hk x (.tail _ hx)]
    · have hlt : k < e.1 := lt_of_le_of_ne hek (Ne.symm h)
      rw [List.takeWhile_cons_of_neg (by simpa using hlt),
        List.filter_cons_of_neg (by simpa using h)]
      refine (List.filter_eq_nil_iff.2 fun x hx => ?_).symm
      simpa using ne_of_gt (hlt.trans_le (he x hx))

theorem range_eq_filter (m : Multimap κ α) (k : κ) :
    m.range k = m.entries.filter fun e => e.1 = k := by
  have h : ∀ es : List (κ × α), (es.Pairwise fun a b => a.1 ≤ b.1) →
      (es.dropWhile fun e => e.1 < k).takeWhile (fun e => e.1 ≤ k) =
        es.filter fun e => e.1 = k := by
    intro es hs
    induction es with
    | nil => rfl
    | cons e es ih =>
      obtain ⟨he, hs'⟩ := List.pairwise_cons.1 hs
      by_cases hlt : e.1 < k
      · rw [List.dropWhile_cons_of_pos (by simpa using hlt), ih hs',
          List.filter_cons_of_neg (by simpa using ne_of_lt hlt)]
      · have hk := not_lt.1 hlt
        rw [List.dropWhile_cons_of_neg (by simpa using hk)]
        refine takeWhile_eq_filter k hs fun x hx => ?_
        rcases List.mem_cons.1 hx with rfl | hx
        · exact hk
        · exact hk.trans (he x hx)
  exact h m.entries m.sorted

theorem filter_insert (m : Multimap κ α) (k k' : κ) (v : α) :
    ((m.insert k v).entries.filter fun e => e.1 = k') =
      m.entries.filter (fun e => e.1 = k') ++ if k = k' then [(k, v)] else [] := by
  have h : ∀ es : List (κ × α), (es.Pairwise fun a b => a.1 ≤ b.1) →
      ((insertEntry k v es).filter fun e => e.1 = k') =
        es.filter (fun e => e.1 = k') ++ if k = k' then [(k, v)] else [] := by
    intro es hs
    induction es with
    | nil => by_cases hk : k = k' <;> simp [insertEntry, hk]
    | cons e es ih =>
      obtain ⟨he, hs'⟩ := List.pairwise_cons.1 hs
      rw [insertEntry]
      split
      · rw [List.filter_cons, List.filter_cons, ih hs']
        split <;> rfl
      · rename_i hle
        have hlt := not_le.1 hle
        by_cases hk : k = k'
        · subst hk
          have hn : (e :: es).filter (fun x => x.1 = k) = [] := by
            refine List.filter_eq_nil_iff.2 fun x hx => ?_
            rcases List.mem_cons.1 hx with rfl | hx
            · simpa using ne_of_gt hlt
            · simpa using ne_of_gt (hlt.trans_le (he x hx))
          rw [List.filter_cons_of_pos (by simp), hn]
          simp
        · rw [List.filter_cons_of_neg (by simpa using hk), if_neg hk, List.append_nil]
  exact h m.entries m.sorted

def ofList (l : List (κ × α)) : Multimap κ α := l.foldl (fun m e => m.insert e.1 e.2) empty

theorem filter_foldl_insert (k : κ) : ∀ (l : List (κ × α)) (m : Multimap κ α),
    ((l.foldl (fun m e => m.insert e.1 e.2) m).entries.filter fun e => e.1 = k) =
      m.entries.filter (fun e => e.1 = k) ++ l.filter fun e => e.1 = k
  | [], m => by simp
  | (k', v) :: l, m => by
    rw [List.foldl_cons, filter_foldl_insert k l, filter_insert, List.append_assoc]
    by_cases h : k' = k <;> simp [h]

/-- **The range of a key** after a list of insertions: its entries, in insertion order. -/
theorem range_ofList (l : List (κ × α)) (k : κ) :
    (ofList l).range k = l.filter fun e => e.1 = k := by
  rw [range_eq_filter, ofList, filter_foldl_insert]
  rfl

@[simp] theorem size_ofList (l : List (κ × α)) : (ofList l).size = l.length := by
  have h : ∀ (l : List (κ × α)) (m : Multimap κ α),
      (l.foldl (fun m e => m.insert e.1 e.2) m).size = m.size + l.length := by
    intro l
    induction l with
    | nil => simp
    | cons e l ih => intro m; simp [ih, Nat.add_assoc, Nat.add_comm 1]
  simpa [ofList] using h l empty

theorem perm_insertEntry (k : κ) (v : α) : ∀ es : List (κ × α),
    (insertEntry k v es).Perm ((k, v) :: es)
  | [] => .refl _
  | e :: es => by
    rw [insertEntry]
    split
    · exact ((perm_insertEntry k v es).cons e).trans (.swap _ _ _)
    · exact .refl _

theorem perm_foldl_insert : ∀ (l : List (κ × α)) (m : Multimap κ α),
    (l.foldl (fun m e => m.insert e.1 e.2) m).entries.Perm (m.entries ++ l)
  | [], m => by simp
  | (k, v) :: l, m => by
    refine (perm_foldl_insert l (m.insert k v)).trans ?_
    refine ((perm_insertEntry k v m.entries).append_right l).trans ?_
    exact List.perm_middle.symm

/-- A multimap holds what was inserted. -/
theorem perm_ofList (l : List (κ × α)) : (ofList l).entries.Perm l :=
  perm_foldl_insert l empty

theorem ofList_append_singleton (l : List (κ × α)) (e : κ × α) :
    ofList (l ++ [e]) = (ofList l).insert e.1 e.2 := by
  simp [ofList, List.foldl_append]

/-! ## The first entry of a kind -/

/-- An entry is found before the others of its kind if its key is less. -/
theorem find?_insertEntry (p : κ × α → Bool) (k : κ) (v : α) : ∀ {es : List (κ × α)},
    (es.Pairwise fun a b => a.1 ≤ b.1) →
    (insertEntry k v es).find? p =
      if p (k, v) ∧ ∀ e, es.find? p = some e → k < e.1 then some (k, v) else es.find? p
  | [], _ => by
    by_cases hp : p (k, v) <;> simp [insertEntry, hp]
  | e :: es, hs => by
    obtain ⟨he, hs'⟩ := List.pairwise_cons.1 hs
    rw [insertEntry]
    by_cases hk : e.1 ≤ k
    · rw [if_pos hk]
      by_cases hp : p e = true
      · rw [List.find?_cons_of_pos hp, List.find?_cons_of_pos hp, if_neg]
        exact fun h => absurd (h.2 e rfl) (not_lt.2 hk)
      · rw [List.find?_cons_of_neg hp, List.find?_cons_of_neg hp, find?_insertEntry p k v hs']
    · rw [if_neg hk]
      by_cases hp : p (k, v) = true
      · rw [List.find?_cons_of_pos hp, if_pos]
        refine ⟨hp, fun x hx => (not_le.1 hk).trans_le ?_⟩
        rcases List.mem_cons.1 (List.mem_of_find?_eq_some hx) with rfl | hx
        · exact le_rfl
        · exact he x hx
      · rw [List.find?_cons_of_neg hp, if_neg fun h => hp h.1]

/-- **The first entry of a kind**: of all that were inserted, one of the least key, and the first of
that key. -/
theorem find?_ofList (p : κ × α → Bool) (l : List (κ × α)) :
    ((ofList l).entries.find? p = none ∧ ∀ x ∈ l, ¬p x) ∨
      ∃ l1 e l2, (ofList l).entries.find? p = some e ∧ l = l1 ++ e :: l2 ∧ p e ∧
        (∀ x ∈ l1, p x → e.1 < x.1) ∧ ∀ x ∈ l2, p x → e.1 ≤ x.1 := by
  induction l using List.reverseRecOn with
  | nil => exact .inl ⟨rfl, nofun⟩
  | append_singleton l x ih =>
    have hfind : (ofList (l ++ [x])).entries.find? p =
        if p x ∧ ∀ e, (ofList l).entries.find? p = some e → x.1 < e.1 then some x
        else (ofList l).entries.find? p := by
      rw [ofList_append_singleton]
      exact find?_insertEntry p x.1 x.2 (ofList l).sorted
    rcases ih with ⟨hnone, hl⟩ | ⟨l1, e, l2, hsome, rfl, hp, h1, h2⟩
    · by_cases hx : p x = true
      · refine .inr ⟨l, x, [], ?_, rfl, hx, fun y hy hpy => absurd hpy (hl y hy), nofun⟩
        rw [hfind, if_pos ⟨hx, fun e he => by rw [hnone] at he; cases he⟩]
      · refine .inl ⟨by rw [hfind, if_neg fun h => hx h.1, hnone], fun y hy => ?_⟩
        rcases List.mem_append.1 hy with hy | hy
        · exact hl y hy
        · rwa [List.mem_singleton.1 hy]
    · by_cases hx : p x = true ∧ x.1 < e.1
      · -- the new entry comes before all others
        refine .inr ⟨l1 ++ e :: l2, x, [], ?_, rfl, hx.1, fun y hy hpy => ?_, nofun⟩
        · rw [hfind, if_pos]
          refine ⟨hx.1, fun e' he' => ?_⟩
          obtain rfl : e = e' := Option.some.inj (hsome.symm.trans he')
          exact hx.2
        · rcases List.mem_append.1 hy with hy | hy
          · exact hx.2.trans (h1 y hy hpy)
          · rcases List.mem_cons.1 hy with rfl | hy
            · exact hx.2
            · exact hx.2.trans_le (h2 y hy hpy)
      · refine .inr ⟨l1, e, l2 ++ [x], ?_, by simp, hp, h1, fun y hy hpy => ?_⟩
        · rw [hfind, if_neg, hsome]
          exact fun h => hx ⟨h.1, h.2 e hsome⟩
        · rcases List.mem_append.1 hy with hy | hy
          · exact h2 y hy hpy
          · obtain rfl := List.mem_singleton.1 hy
            exact not_lt.1 fun hlt => hx ⟨hpy, hlt⟩

theorem findSome?_eq_find? {β : Type*} (f : α → Option β) : ∀ l : List α,
    l.findSome? f = (l.find? fun x => (f x).isSome).bind f
  | [] => rfl
  | x :: l => by
    cases hx : f x with
    | none =>
      rw [List.findSome?_cons_of_isNone (by rw [hx]; rfl),
        List.find?_cons_of_neg (by rw [hx]; exact Bool.false_ne_true), findSome?_eq_find? f l]
    | some y =>
      rw [List.findSome?_cons_of_isSome (by rw [hx]; rfl),
        List.find?_cons_of_pos (by rw [hx]; rfl), Option.bind_some]

/-- The same for the first entry that a function has a value for. -/
theorem findSome?_ofList {β : Type*} (f : κ × α → Option β) (l : List (κ × α)) :
    ((ofList l).entries.findSome? f = none ∧ ∀ x ∈ l, f x = none) ∨
      ∃ l1 e l2 y, (ofList l).entries.findSome? f = some y ∧ l = l1 ++ e :: l2 ∧ f e = some y ∧
        (∀ x ∈ l1, f x ≠ none → e.1 < x.1) ∧ ∀ x ∈ l2, f x ≠ none → e.1 ≤ x.1 := by
  rw [findSome?_eq_find?]
  rcases find?_ofList (fun x => (f x).isSome) l with
    ⟨hnone, hl⟩ | ⟨l1, e, l2, hsome, hl, he, h1, h2⟩
  · refine .inl ⟨by rw [hnone]; rfl, fun x hx => ?_⟩
    exact Option.not_isSome_iff_eq_none.1 (hl x hx)
  · obtain ⟨y, hy⟩ := Option.isSome_iff_exists.1 he
    refine .inr ⟨l1, e, l2, y, by rw [hsome]; exact hy, hl, hy, ?_, ?_⟩
    · exact fun x hx hf => h1 x hx (Option.isSome_iff_ne_none.2 hf)
    · exact fun x hx hf => h2 x hx (Option.isSome_iff_ne_none.2 hf)

end Multimap

end Lib
