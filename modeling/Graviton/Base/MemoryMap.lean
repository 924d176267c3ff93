import Graviton.Base.Memory
import Graviton.Lib.Registry
import Graviton.Lib.Run

/-!
# `Memory`: the map of tracked objects

`s_index` and `s_map` of `libs/base/memory.cpp`, over any series of constructions and
destructions of `Memory` objects. The index is a `u32_t` that wraps.

* `pointers_live`: the map never points to a destroyed object.
* `map_exact_iff`: exactly when the map holds the live objects, each under its own index, all along
  a run.
* `always_exact_of_lt`: it does in every run of fewer than `2 ^ 32` constructions.
-/

open Lib

/-- The statics of `Memory`, with the live objects by address. -/
structure MemoryMap where
  sIndex : BitVec 32
  -- the live objects and `s_map`
  objects : Registry (BitVec 32) Nat Memory

/-- A `Memory` object constructed at an address, or destroyed. `object` is what `new[]` returns,
nothing if it throws. -/
inductive MemoryAct
  | construct (this : Nat) (length : BitVec 32) (isAligned : Bool) (object : Option (BitVec 64))
  | destroy (this : Nat)
  deriving DecidableEq, Repr

namespace MemoryMap

def init : MemoryMap := ⟨0, Registry.empty⟩

/-- `Memory::Memory` and `Memory::~Memory`. -/
def step (s : MemoryMap) : MemoryAct → Option MemoryMap
  | .construct this length isAligned object =>
    match s.objects.live.lookup this, object with
    | some _, _ => none
    -- the exception leaves the constructor with the index used up
    | none, none => some { s with sIndex := s.sIndex + 1 }
    | none, some object =>
      let memory := Memory.new (s.sIndex + 1) length isAligned object
      some ⟨s.sIndex + 1, s.objects.add memory.getIndex this memory⟩
  | .destroy this =>
    (s.objects.live.lookup this).map fun memory =>
      { s with objects := s.objects.remove memory.getIndex this }

/-- The map is exact. -/
structure Exact (s : MemoryMap) : Prop where
  entries : ∀ index this, s.objects.map.lookup index = some this ↔
    ∃ memory, s.objects.live.lookup this = some memory ∧ memory.getIndex = index
  distinct : ∀ this that memory memory', s.objects.live.lookup this = some memory →
    s.objects.live.lookup that = some memory' → memory.getIndex = memory'.getIndex → this = that

/-- A `Memory` is constructed only when no live one has the index the counter comes to. -/
def FreshIndex (s : MemoryMap) (a : MemoryAct) : Prop :=
  ∀ this length isAligned object, a = .construct this length isAligned (some object) →
    s.objects.Unused Memory.getIndex (s.sIndex + 1)

/-- What a step can do. -/
theorem step_cases {s s' : MemoryMap} {a : MemoryAct} (h : s.step a = some s') :
    (∃ this length isAligned object, a = .construct this length isAligned (some object) ∧
      s.objects.live.lookup this = none ∧
      s' = ⟨s.sIndex + 1, s.objects.add (s.sIndex + 1) this
        (Memory.new (s.sIndex + 1) length isAligned object)⟩) ∨
    (∃ this length isAligned, a = .construct this length isAligned none ∧
      s' = { s with sIndex := s.sIndex + 1 }) ∨
    ∃ this memory, a = .destroy this ∧ s.objects.live.lookup this = some memory ∧
      s' = { s with objects := s.objects.remove memory.getIndex this } := by
  cases a with
  | construct this length isAligned object =>
    cases hl : s.objects.live.lookup this with
    | some memory => simp [step, hl] at h
    | none =>
      cases object with
      | none =>
        simp only [step, hl, Option.some.injEq] at h
        exact .inr (.inl ⟨this, length, isAligned, rfl, h.symm⟩)
      | some object =>
        simp only [step, hl, Option.some.injEq] at h
        exact .inl ⟨this, length, isAligned, object, rfl, hl, h.symm⟩
  | destroy this =>
    obtain ⟨memory, hl, rfl⟩ := Option.map_eq_some_iff.1 h
    exact .inr (.inr ⟨this, memory, rfl, hl, rfl⟩)

theorem alive_step {s s' : MemoryMap} {a : MemoryAct}
    (hi : s.objects.Alive Memory.getIndex) (h : s.step a = some s') :
    s'.objects.Alive Memory.getIndex := by
  rcases step_cases h with ⟨this, length, isAligned, object, -, hl, rfl⟩ | ⟨_, _, _, -, rfl⟩ |
    ⟨this, memory, -, hl, rfl⟩
  · exact Registry.alive_add hi hl
  · exact hi
  · exact Registry.alive_remove hi hl

/-- **No dangling pointer**, in any run. -/
theorem pointers_live {s : MemoryMap} {as : List MemoryAct} (h : Run step anyStep init as s) :
    s.objects.Alive Memory.getIndex :=
  h.inv (P := fun s => s.objects.Alive Memory.getIndex) (fun _ _ _ hi _ hs => alive_step hi hs)
    Registry.alive_empty

/-- The map is exact when every object is registered. -/
theorem exact_iff_registered {s : MemoryMap} (hi : s.objects.Alive Memory.getIndex) :
    s.Exact ↔ s.objects.Registered Memory.getIndex := by
  constructor
  · exact fun he this memory hl => (he.entries _ _).2 ⟨memory, hl, rfl⟩
  · intro hr
    refine ⟨fun index this => ⟨hi index this, ?_⟩, fun this that _ _ hl hl' => hr.key_inj hl hl'⟩
    rintro ⟨memory, hl, rfl⟩
    exact hr this memory hl

/-- One step keeps the map exact, unless it constructs an object under an index in use. -/
theorem exact_step {s s' : MemoryMap} {a : MemoryAct} (hi : s.objects.Alive Memory.getIndex)
    (he : s.Exact) (h : s.step a = some s') : s'.Exact ↔ s.FreshIndex a := by
  have hr := (exact_iff_registered hi).1 he
  rw [exact_iff_registered (alive_step hi h)]
  rcases step_cases h with ⟨this, length, isAligned, object, rfl, hl, rfl⟩ |
    ⟨_, _, _, rfl, rfl⟩ | ⟨this, memory, rfl, hl, rfl⟩
  · refine (Registry.registered_add_iff
      (o := Memory.new (s.sIndex + 1) length isAligned object) hr hl).trans ?_
    constructor
    · rintro hu _ _ _ _ ⟨⟩
      exact hu
    · exact fun hf => hf this length isAligned object rfl
  · exact ⟨fun _ _ _ _ _ ha => (nomatch ha), fun _ => hr⟩
  · exact ⟨fun _ _ _ _ _ ha => (nomatch ha), fun _ => Registry.registered_remove hr hl⟩

theorem exact_init : init.Exact :=
  (exact_iff_registered Registry.alive_empty).2 Registry.registered_empty

/-- **When the tracking map is exact all along a run**: no object is constructed while a live one
has the index the counter comes to. -/
theorem map_exact_iff {s : MemoryMap} {as : List MemoryAct} (h : Run step anyStep init as s) :
    Always step Exact init as ↔ Run step FreshIndex init as s :=
  h.always_iff (fun _ _ _ hi hs => alive_step hi hs) (fun _ _ _ hi he hs => exact_step hi he hs)
    Registry.alive_empty exact_init

/-- Two objects at a time. -/
theorem exact_two : Always step Exact init
    [.construct 0 16 false (some 0x1000), .construct 1 100 true (some 0x2000), .destroy 0] := by
  have h0 : FreshIndex init (.construct 0 16 false (some 0x1000)) :=
    fun _ _ _ _ _ => Registry.unused_empty _
  have h1 : FreshIndex ⟨1, Registry.empty.add 1 0 (Memory.new 1 16 false 0x1000)⟩
      (.construct 1 100 true (some 0x2000)) :=
    fun _ _ _ _ _ => (Registry.unused_empty _).add (by decide)
  exact (map_exact_iff (.of_steps rfl)).2
    (.cons h0 rfl (.cons h1 rfl (.cons (fun _ _ _ _ h => nomatch h) rfl (.nil _))))

/-! ## Short runs -/

/-- The constructions among the actions. -/
def constructions : List MemoryAct → Nat
  | [] => 0
  | .construct .. :: as => constructions as + 1
  | .destroy _ :: as => constructions as

/-- No live index is past the counter. -/
def Below (s : MemoryMap) : Prop :=
  ∀ this memory, s.objects.live.lookup this = some memory →
    memory.getIndex.toNat ≤ s.sIndex.toNat

theorem sIndex_succ {s : MemoryMap} (hlt : s.sIndex.toNat + 1 < 2 ^ 32) :
    (s.sIndex + 1).toNat = s.sIndex.toNat + 1 := by
  rw [BitVec.toNat_add, show (1 : BitVec 32).toNat = 1 from rfl, Nat.mod_eq_of_lt hlt]

/-- While the counter does not wrap, it comes to an index no object has. -/
theorem Below.unused {s : MemoryMap} (hb : s.Below) (hlt : s.sIndex.toNat + 1 < 2 ^ 32) :
    s.objects.Unused Memory.getIndex (s.sIndex + 1) := by
  intro this memory hl hk
  have hle := hb this memory hl
  rw [hk, sIndex_succ hlt] at hle
  omega

theorem Below.add {s : MemoryMap} (hb : s.Below) (hlt : s.sIndex.toNat + 1 < 2 ^ 32)
    (this : Nat) (length : BitVec 32) (isAligned : Bool) (object : BitVec 64) :
    Below ⟨s.sIndex + 1, s.objects.add (s.sIndex + 1) this
      (Memory.new (s.sIndex + 1) length isAligned object)⟩ := by
  intro that memory hl
  by_cases ht : that = this
  · subst ht
    rw [Registry.add, AList.lookup_insert] at hl
    obtain rfl := Option.some.inj hl
    exact Nat.le_refl _
  · rw [Registry.add, AList.lookup_insert_ne ht] at hl
    rw [sIndex_succ hlt]
    exact Nat.le_succ_of_le (hb that memory hl)

theorem Below.remove {s : MemoryMap} (hb : s.Below) (index : BitVec 32) (this : Nat) :
    Below { s with objects := s.objects.remove index this } := by
  intro that memory hl
  by_cases ht : that = this
  · rw [ht, Registry.remove, AList.lookup_erase] at hl
    cases hl
  · rw [Registry.remove, AList.lookup_erase_ne ht] at hl
    exact hb that memory hl

theorem freshIndex_of_lt {s s' : MemoryMap} {as : List MemoryAct} (h : Run step anyStep s as s')
    (hb : s.Below) (hlt : s.sIndex.toNat + constructions as < 2 ^ 32) :
    Run step FreshIndex s as s' := by
  induction h with
  | nil s => exact .nil s
  | @cons s t u a as _ hs _ ih =>
    rcases step_cases hs with ⟨this, length, isAligned, object, rfl, -, rfl⟩ |
      ⟨this, length, isAligned, rfl, rfl⟩ | ⟨this, memory, rfl, -, rfl⟩
    · rw [constructions] at hlt
      have hnext : s.sIndex.toNat + 1 < 2 ^ 32 := by omega
      refine .cons (fun _ _ _ _ _ => hb.unused hnext) hs
        (ih (hb.add hnext this length isAligned object) ?_)
      rw [sIndex_succ hnext]
      omega
    · rw [constructions] at hlt
      have hnext : s.sIndex.toNat + 1 < 2 ^ 32 := by omega
      refine .cons (fun _ _ _ _ ha => nomatch ha) hs (ih (fun that memory hl => ?_) ?_)
      · rw [sIndex_succ hnext]
        exact Nat.le_succ_of_le (hb that memory hl)
      · rw [sIndex_succ hnext]
        omega
    · exact .cons (fun _ _ _ _ ha => nomatch ha) hs (ih (hb.remove _ _) hlt)

/-- **Short runs**: with fewer than `2 ^ 32` constructions the map is always exact. -/
theorem always_exact_of_lt {s : MemoryMap} {as : List MemoryAct} (h : Run step anyStep init as s)
    (hlt : constructions as < 2 ^ 32) : Always step Exact init as :=
  (map_exact_iff h).2 (freshIndex_of_lt h (fun _ _ hl => nomatch hl) (by simpa [init] using hlt))

/-! ## The counter comes round -/

/-- An object of 16 bytes constructed at an address. -/
def construct16 (this : Nat) : MemoryAct := .construct this 16 false (some 0x1000)

/-- Objects constructed at the address 1 and destroyed again, `n` times. -/
def cycles (n : Nat) : List MemoryAct := (List.replicate n [construct16 1, .destroy 1]).flatten

/-- `n` such objects move the counter on by `n` and leave the live objects as they were. -/
theorem run_cycles (n : Nat) : ∀ {s : MemoryMap}, s.objects.live.lookup 1 = none →
    ∃ t, Run step anyStep s (cycles n) t ∧ t.sIndex = s.sIndex + BitVec.ofNat 32 n ∧
      ∀ this, t.objects.live.lookup this = s.objects.live.lookup this := by
  induction n with
  | zero => exact fun {s} _ => ⟨s, .nil s, by simp, fun _ => rfl⟩
  | succ n ih =>
    intro s h1
    set memory := Memory.new (s.sIndex + 1) 16 false 0x1000 with hm
    set s1 : MemoryMap := ⟨s.sIndex + 1, s.objects.add (s.sIndex + 1) 1 memory⟩ with hs1
    set s2 : MemoryMap := { s1 with objects := s1.objects.remove memory.getIndex 1 } with hs2
    have hc : s.step (construct16 1) = some s1 := by
      simp only [construct16, step, h1]
      rfl
    have hl1 : s1.objects.live.lookup 1 = some memory := AList.lookup_insert _
    have hd : s1.step (.destroy 1) = some s2 := by
      simp only [step, hl1]
      rfl
    have hlive : ∀ this, s2.objects.live.lookup this = s.objects.live.lookup this := by
      intro this
      by_cases ht : this = 1
      · rw [ht, h1, hs2, Registry.remove, AList.lookup_erase]
      · rw [hs2, Registry.remove, AList.lookup_erase_ne ht, hs1, Registry.add,
          AList.lookup_insert_ne ht]
    obtain ⟨t, hr, hidx, hsame⟩ := ih (s := s2) (by rw [hlive, h1])
    refine ⟨t, ?_, ?_, fun this => (hsame this).trans (hlive this)⟩
    · rw [cycles, List.replicate_succ, List.flatten_cons]
      exact .cons trivial hc (.cons trivial hd hr)
    · rw [hidx, hs2, hs1, BitVec.ofNat_add, BitVec.add_assoc, BitVec.add_comm 1]
      rfl

/-- Two objects with `n` others between them. -/
def wrapRun (n : Nat) : List MemoryAct := construct16 0 :: (cycles n ++ [construct16 2])

theorem run_wrapRun (n : Nat) : ∃ s first last, Run step anyStep init (wrapRun n) s ∧
    s.objects.live.lookup 0 = some first ∧ first.getIndex = 1 ∧
    s.objects.live.lookup 2 = some last ∧ last.getIndex = 1 + BitVec.ofNat 32 n + 1 := by
  set first := Memory.new 1 16 false 0x1000 with hfirst
  set s : MemoryMap := ⟨1, Registry.empty.add 1 0 first⟩ with hs
  have h0 : init.step (construct16 0) = some s := rfl
  obtain ⟨t, hr, hidx, hlive⟩ := run_cycles n (s := s) rfl
  set last := Memory.new (t.sIndex + 1) 16 false 0x1000 with hlast
  have h2 : t.step (construct16 2) = some ⟨t.sIndex + 1, t.objects.add (t.sIndex + 1) 2 last⟩ := by
    simp only [construct16, step, hlive, show s.objects.live.lookup 2 = none from rfl]
    rfl
  refine ⟨_, first, last, .cons trivial h0 (hr.append (.cons trivial h2 (.nil _))), ?_, rfl,
    AList.lookup_insert _, ?_⟩
  · rw [Registry.add, AList.lookup_insert_ne (by decide), hlive]
    rfl
  · rw [← show s.sIndex = 1 from rfl, ← hidx]
    rfl

/-- With `2 ^ 32 - 1` others between them, the two objects have the same index. -/
theorem not_exact_wrapRun : ∃ s, Run step anyStep init (wrapRun (2 ^ 32 - 1)) s ∧ ¬ s.Exact := by
  obtain ⟨s, first, last, hr, h0, hfirst, h2, hlast⟩ := run_wrapRun (2 ^ 32 - 1)
  refine ⟨s, hr, fun he => ?_⟩
  have hsame : first.getIndex = last.getIndex := by
    rw [hfirst, hlast]
    decide
  exact absurd (he.distinct 0 2 first last h0 h2 hsame) (by decide)

end MemoryMap
