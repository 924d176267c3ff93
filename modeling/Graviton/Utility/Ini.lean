import Graviton.Utility.StringUtility

/-!
# `InterpretIniFile`: reading a configuration file

`StringUtility::InterpretIniFile` of `libs/utility/stringutility.cpp` and the functions it
calls. The file is read through a buffer of 128 characters (`getlines`), each line changes the
local variables of the loop (`interpretIniLine`), and the calls of `addCommandFunction` are
collected in order. A line is at most 126 characters, so a position in it is an `int` as it is.
-/

namespace StringUtility

open Lib

/-- Successive `getline(line, room + 1)` on a stream, until it is no longer good: the buffers
they leave. `room` is what is free in the buffer, `line` what the current call has stored. A
full buffer is tested after the end of the stream and the delimiter. -/
def getlines (cap : Nat) : Nat → Str → Str → List Str
  | _, line, [] => [line]
  | room, line, c :: rest =>
    if c = '\n' then line :: getlines cap cap [] rest
    else match room with
      | 0 => [line]
      | room + 1 => getlines cap room (line ++ [c]) rest

/-- What `line[128]` holds of a line, read with the size 127. -/
def lineCapacity : Nat := 126

/-- `find_first_of` of a character, as an `int`. -/
def indexOf (c : Char) (s : Str) : Int :=
  match s.findIdx? (· = c) with
  | some i => i
  | none => -1

def interpretIniSection (inputString : Str) : Str :=
  let sectionStart := indexOf '[' inputString
  let sectionEnd := indexOf ']' inputString
  if sectionStart ≥ 0 ∧ sectionEnd ≥ 1 then
    (inputString.drop (sectionStart + 1).toNat).take (sectionEnd - 1).toNat
  else []

/-- `InterpretIniKeyValue`: the key and the value, when it returns `true`. -/
def interpretIniKeyValue (inputString : Str) : Option (Str × Str) :=
  let separatorIndex := indexOf '=' inputString
  let endIndex := indexOf ';' inputString
  if separatorIndex > 1 then
    let key := inputString.take separatorIndex.toNat
    let rest := inputString.drop (separatorIndex + 1).toNat
    some (key, if endIndex > 1 then rest.take endIndex.toNat else rest)
  else none

/-- The variables of `InterpretIniFile`, and the calls made so far. -/
structure IniState where
  sectionName : Str
  multilineStart : Bool
  multiline : Str
  key : Str
  calls : List (Str × Str × Str)
  deriving DecidableEq, Repr

def IniState.init : IniState := ⟨[], false, [], [], []⟩

namespace IniState

/-- A call of `addCommandFunction` with the section and key in force. -/
def addCommand (s : IniState) (value : Str) : IniState :=
  { s with calls := s.calls ++ [(s.sectionName, s.key, value)] }

/-- A line inside a multi-line value. -/
def multilineStep (s : IniState) (trimmedLine : Str) : IniState :=
  if ']' ∈ trimmedLine then
    { s.addCommand s.multiline with multilineStart := false, multiline := [] }
  else { s with multiline := s.multiline ++ trimmedLine }

/-- A line that is no section. -/
def keyValueStep (s : IniState) (trimmedLine : Str) : IniState :=
  match interpretIniKeyValue trimmedLine with
  | none => s
  | some (key, value) =>
    let s := { s with key }
    if value.head? = some '[' then { s with multilineStart := true } else s.addCommand value

/-- One iteration of the loop, on the buffer `getline` left. -/
def interpretIniLine (s : IniState) (line : Str) : IniState :=
  let trimmedLine := trim line
  if isComment trimmedLine then s
  else if s.multilineStart then s.multilineStep trimmedLine
  else
    let tempSection := interpretIniSection trimmedLine
    if tempSection = [] then s.keyValueStep trimmedLine
    else { s with sectionName := tempSection }

end IniState

/-- `InterpretIniFile`: the calls of `addCommandFunction`, for a file with the given content or
one that does not open. -/
def interpretIniFile : Option Str → List (Str × Str × Str)
  | none => []
  | some content =>
    ((getlines lineCapacity lineCapacity [] content).foldl IniState.interpretIniLine .init).calls

end StringUtility
