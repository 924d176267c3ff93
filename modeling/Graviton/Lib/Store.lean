import Graviton.Lib.Word

/-!
# Straight-line stores to memory

A piece of code that only writes is the list of its stores (`Store`); `exec` runs it on a
memory. What the memory holds afterwards is read off the list:

* `read_exec_of_mem`: of pairwise disjoint stores, each is still there at the end.
* `exec_of_not_covers`: a byte no store covers keeps its value.
* `exec_congr`: a byte some store covers does not depend on the memory before.
-/

namespace Lib

/-- A flat memory: the byte at each offset. -/
abbrev Mem := Nat → Byte

/-- A write of consecutive bytes at an offset. -/
structure Store where
  off : Nat
  bytes : List Byte
  deriving DecidableEq, Repr

namespace Store

def stop (s : Store) : Nat := s.off + s.bytes.length

/-- The store writes the byte at `a`. -/
def Covers (s : Store) (a : Nat) : Prop := s.off ≤ a ∧ a < s.stop

instance (s : Store) (a : Nat) : Decidable (s.Covers a) := by
  unfold Covers; infer_instance

/-- No byte is written by both stores. -/
def Disjoint (s t : Store) : Prop := s.stop ≤ t.off ∨ t.stop ≤ s.off

instance (s t : Store) : Decidable (s.Disjoint t) := by
  unfold Disjoint; infer_instance

def Within (cap : Nat) (s : Store) : Prop := ∀ a, s.Covers a → a < cap

def apply (m : Mem) (s : Store) : Mem := fun a =>
  if s.Covers a then s.bytes.getD (a - s.off) 0 else m a

theorem apply_covers {m : Mem} {s : Store} {a : Nat} (h : s.Covers a) :
    s.apply m a = s.bytes.getD (a - s.off) 0 := by
  simp [apply, h]

theorem apply_not_covers {m : Mem} {s : Store} {a : Nat} (h : ¬ s.Covers a) :
    s.apply m a = m a := by
  simp [apply, h]

theorem Disjoint.not_covers {s t : Store} {a : Nat} (h : s.Disjoint t) (hs : s.Covers a) :
    ¬ t.Covers a := by
  rcases h with h | h <;> simp only [Covers, stop] at * <;> omega

/-- A store that ends below `cap` stays below it; a store of at least one byte does so only
then. -/
theorem within_iff {cap : Nat} {s : Store} (h : s.bytes ≠ []) : s.Within cap ↔ s.stop ≤ cap := by
  have hl := List.length_pos_of_ne_nil h
  constructor
  · intro hw
    have := hw (s.stop - 1) ⟨by simp only [stop]; omega, by simp only [stop]; omega⟩
    simp only [stop] at *
    omega
  · intro hs a ha
    exact Nat.lt_of_lt_of_le ha.2 hs

def span (s : Store) : Nat × Nat := (s.off, s.bytes.length)

theorem pairwise_disjoint_iff {ss : List Store} :
    ss.Pairwise Store.Disjoint ↔
      (ss.map span).Pairwise fun a b => a.1 + a.2 ≤ b.1 ∨ b.1 + b.2 ≤ a.1 := by
  rw [List.pairwise_map]
  rfl

theorem Within.of_stop_le {cap : Nat} {s : Store} (h : s.stop ≤ cap) : s.Within cap :=
  fun _ ha => Nat.lt_of_lt_of_le ha.2 h

end Store

/-- The memory after the stores, in order. -/
def exec (m : Mem) (ss : List Store) : Mem := ss.foldl (fun m s => s.apply m) m

def readBytes (m : Mem) (off n : Nat) : List Byte := (List.range n).map fun i => m (off + i)

@[simp] theorem read_length (m : Mem) (off n : Nat) : (readBytes m off n).length = n := by
  simp [readBytes]

@[simp] theorem exec_nil (m : Mem) : exec m [] = m := rfl

@[simp] theorem exec_cons (m : Mem) (s : Store) (ss : List Store) :
    exec m (s :: ss) = exec (s.apply m) ss := rfl

theorem exec_append (m : Mem) (ss ts : List Store) :
    exec m (ss ++ ts) = exec (exec m ss) ts := by
  simp [exec, List.foldl_append]

theorem read_congr {m m' : Mem} {off n : Nat} (h : ∀ a, off ≤ a → a < off + n → m a = m' a) :
    readBytes m off n = readBytes m' off n := by
  refine List.map_congr_left fun i hi => h _ (Nat.le_add_right _ _) ?_
  have := List.mem_range.1 hi
  omega

theorem read_eq_iff {m m' : Mem} {off n : Nat} :
    readBytes m off n = readBytes m' off n ↔ ∀ a, off ≤ a → a < off + n → m a = m' a := by
  refine ⟨fun h a ha hb => ?_, read_congr⟩
  have h1 := List.map_inj_left.1 h (a - off) (List.mem_range.2 (by omega))
  rwa [Nat.add_sub_cancel' ha] at h1

theorem read_take (m : Mem) (off : Nat) {k n : Nat} (h : k ≤ n) :
    (readBytes m off n).take k = readBytes m off k := by
  simp [readBytes, ← List.map_take, List.take_range, Nat.min_eq_left h]

theorem read_drop (m : Mem) (off k n : Nat) :
    (readBytes m off n).drop k = readBytes m (off + k) (n - k) := by
  apply List.ext_getElem (by simp)
  intro i h1 h2
  simp [readBytes, Nat.add_assoc]

theorem exec_of_not_covers {a : Nat} : ∀ {ss : List Store} {m : Mem},
    (∀ s ∈ ss, ¬ s.Covers a) → exec m ss a = m a
  | [], _, _ => rfl
  | s :: ss, m, h => by
    rw [exec_cons, exec_of_not_covers fun t ht => h t (.tail _ ht),
      Store.apply_not_covers (h s (.head _))]

theorem exec_congr {a : Nat} : ∀ {ss : List Store} {m m' : Mem},
    (m a = m' a ∨ ∃ s ∈ ss, s.Covers a) → exec m ss a = exec m' ss a
  | [], _, _, h => by simpa using h
  | s :: ss, m, m', h => by
    rw [exec_cons, exec_cons]
    by_cases hs : s.Covers a
    · exact exec_congr (.inl (by rw [Store.apply_covers hs, Store.apply_covers hs]))
    · refine exec_congr (h.imp (fun h => ?_) fun ⟨t, ht, hc⟩ => ⟨t, ?_, hc⟩)
      · rw [Store.apply_not_covers hs, Store.apply_not_covers hs, h]
      · rcases List.mem_cons.1 ht with rfl | ht
        · exact absurd hc hs
        · exact ht

/-- Of pairwise disjoint stores, each is still there at the end. -/
theorem exec_of_mem {s : Store} {a : Nat} (hc : s.Covers a) : ∀ {ss : List Store} {m : Mem},
    ss.Pairwise Store.Disjoint → s ∈ ss → exec m ss a = s.bytes.getD (a - s.off) 0
  | t :: ss, m, hp, hs => by
    obtain ⟨ht, hp⟩ := List.pairwise_cons.1 hp
    rw [exec_cons]
    rcases List.mem_cons.1 hs with rfl | hs
    · rw [exec_of_not_covers fun u hu => (ht u hu).not_covers hc, Store.apply_covers hc]
    · exact exec_of_mem hc hp hs

/-- **Reading a store back** after pairwise disjoint stores. -/
theorem read_exec_of_mem {ss : List Store} {s : Store} (m : Mem)
    (hp : ss.Pairwise Store.Disjoint) (hs : s ∈ ss) :
    readBytes (exec m ss) s.off s.bytes.length = s.bytes := by
  apply List.ext_getElem (by simp)
  intro i h1 h2
  have hc : s.Covers (s.off + i) := ⟨Nat.le_add_right _ _, by simp only [Store.stop]; omega⟩
  simp only [readBytes, List.getElem_map, List.getElem_range, exec_of_mem hc hp hs,
    Nat.add_sub_cancel_left, List.getD_eq_getElem?_getD, List.getElem?_eq_getElem h2,
    Option.getD_some]

theorem exec_cons_of_not_covers {s : Store} {a : Nat} (h : ¬ s.Covers a) (ss : List Store)
    (m : Mem) : exec m (s :: ss) a = exec m ss a :=
  exec_congr (.inl (Store.apply_not_covers h))

theorem read_exec_of_not_covers {ss : List Store} {off n : Nat} (m : Mem)
    (h : ∀ a, off ≤ a → a < off + n → ∀ s ∈ ss, ¬ s.Covers a) :
    readBytes (exec m ss) off n = readBytes m off n :=
  read_congr fun a h1 h2 => exec_of_not_covers (h a h1 h2)

/-- The word in network order at an offset. -/
def wordAt (w : Nat) (m : Mem) (off n : Nat) : BitVec w := BitVec.ofNat w (ofBe (readBytes m off n))

theorem wordAt_of_read {w n off : Nat} {m : Mem} {v : BitVec w} (hw : w ≤ 8 * n)
    (h : readBytes m off n = beBytes n v) : wordAt w m off n = v := by
  rw [wordAt, h, ofBe_beBytes v hw, BitVec.ofNat_toNat, BitVec.setWidth_eq]

end Lib
