import Graviton.Lib.Stream

/-!
# `Execute`: the output of a command

`OsInterface::Execute` of `libs/utility/osinterface.cpp`. What `popen` gives is a parameter: the
pieces `fgets` reads from the pipe, and the result of `pclose`.

* `execute_iff`: when the output is the stream without its last newline; `execute_reads` is for
  the pieces `fgets` makes of a stream.
-/

namespace OsInterface

open Lib

/-- `MAX_READ`. -/
def maxRead : Nat := 512

/-- `s.erase(s.length() - 1, 1)`, if `s.back()` is one of `ends`; an empty string has no last
character. -/
def eraseBack (ends : List Char) (s : Str) : Option Str :=
  s.getLast?.map fun c => if c ∈ ends then s.dropLast else s

/-- A process `popen` started. -/
structure Process where
  pieces : List Str
  pclose : Int

/-- `Execute`: the result and `output`; `none` where the last character of an empty string is
looked at. -/
def execute (popen : Option Process) : Option (Int × Str) :=
  match popen with
  | none => some (-1, [])
  | some process =>
    let output := process.pieces.foldl (fun output path => output ++ cstr path) []
    (eraseBack ['\n'] output).map fun output =>
      (if process.pclose = -1 then -1 else 0, output)

/-- A stream without its last newline, if it ends with one. -/
structure Chomped (stream output : Str) : Prop where
  newline : ∀ s, stream = s ++ ['\n'] → output = s
  other : (∀ s, stream ≠ s ++ ['\n']) → output = stream

/-- Any way to cut a stream into pieces for the buffer. -/
structure Cuts (stream : Str) (pieces : List Str) : Prop where
  flatten : pieces.flatten = stream
  fits : ∀ path ∈ pieces, path ≠ [] ∧ path.length ≤ maxRead - 1

theorem cuts_reads (stream : Str) : Cuts stream (reads maxRead stream) :=
  ⟨flatten_reads (by decide) stream, fun _ hm => of_mem_reads (by decide) hm⟩

theorem eraseBack_eq_none_iff {ends : List Char} {s : Str} :
    eraseBack ends s = none ↔ s = [] := by
  rw [eraseBack, Option.map_eq_none_iff, List.getLast?_eq_none_iff]

theorem eraseBack_append (ends : List Char) (s : Str) (c : Char) :
    eraseBack ends (s ++ [c]) = some (if c ∈ ends then s else s ++ [c]) := by
  rw [eraseBack, List.getLast?_concat, Option.map_some, List.dropLast_concat]

/-- What is erased is a last newline. -/
theorem eraseBack_chomped {stream output : Str} (h : eraseBack ['\n'] stream = some output) :
    Chomped stream output := by
  have hne : stream ≠ [] := fun hnil => by rw [eraseBack_eq_none_iff.2 hnil] at h; cases h
  obtain ⟨s, c, rfl⟩ := (List.eq_nil_or_concat' stream).resolve_left hne
  rw [eraseBack_append] at h
  cases h
  constructor
  · intro t ht
    obtain ⟨rfl, hc⟩ := List.append_inj' ht rfl
    cases hc
    rw [if_pos (.head _)]
  · intro hother
    rw [if_neg]
    intro hc
    rw [List.mem_singleton.1 hc] at hother
    exact hother s rfl

/-- The buffer holds each piece up to its end. -/
theorem foldl_cstr : ∀ {pieces : List Str}, (∀ path ∈ pieces, '\x00' ∉ path) → ∀ output : Str,
    pieces.foldl (fun output path => output ++ cstr path) output = output ++ pieces.flatten
  | [], _, output => (List.append_nil output).symm
  | path :: pieces, h, output => by
    obtain ⟨hpath, hpieces⟩ := List.forall_mem_cons.1 h
    rw [List.foldl_cons, foldl_cstr hpieces, cstr_eq_self_iff.2 hpath, List.flatten_cons,
      List.append_assoc]

theorem execute_eq {stream : Str} {process : Process} (hcuts : process.pieces.flatten = stream)
    (hnul : '\x00' ∉ stream) : execute (some process) =
      (eraseBack ['\n'] stream).map (if process.pclose = -1 then -1 else 0, ·) := by
  have hpieces : ∀ path ∈ process.pieces, '\x00' ∉ path := fun path hp hm =>
    hnul (hcuts ▸ List.mem_flatten.2 ⟨path, hp, hm⟩)
  rw [execute, foldl_cstr hpieces, List.nil_append, hcuts]

/-- **When `Execute` returns the output of the command**: if there is any. -/
theorem execute_iff {stream : Str} {process : Process} (hcuts : Cuts stream process.pieces)
    (hnul : '\x00' ∉ stream) :
    (∃ ret output, execute (some process) = some (ret, output) ∧ Chomped stream output) ↔
      stream ≠ [] := by
  rw [execute_eq hcuts.flatten hnul]
  constructor
  · rintro ⟨ret, output, h, -⟩ hnil
    rw [eraseBack_eq_none_iff.2 hnil] at h
    cases h
  · intro hne
    cases h : eraseBack ['\n'] stream with
    | none => exact absurd (eraseBack_eq_none_iff.1 h) hne
    | some output => exact ⟨_, output, rfl, eraseBack_chomped h⟩

/-- A command that prints nothing. -/
theorem execute_silent : execute (some ⟨reads maxRead [], 0⟩) = none := rfl

/-- The output of `which`, in two pieces. -/
theorem execute_iff_which :
    ∃ ret output, execute (some ⟨["/usr/bin/".toList, "virsh\n".toList], 0⟩) =
      some (ret, output) ∧ Chomped "/usr/bin/virsh\n".toList output :=
  (execute_iff ⟨rfl, by decide⟩ (by decide)).2 (by decide)

end OsInterface
