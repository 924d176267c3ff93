import Graviton.Lib.Numeral
import Graviton.Utility.Execute

/-!
# `SetSystemDetails`: the model

`OsInterface::SetSystemDetails` of `libs/utility/osinterface.cpp`, as far as it reads text: the
processor, the kind of system and its release. Both files are read through one buffer, `str`, which
keeps behind a short line what a longer one left there. A read outside of it, through the NULL
pointer `strstr` returns, or of the last character of an empty string is undefined (`none`).

* `cstr_fgets`, `prefix_fgets`: what the buffer holds is the piece just read.
* `setSystemDetails_cpu_iff`, `setSystemDetails_release_iff`: what holds after the call, by the part
  that decides it; the other parts only have to be defined.
-/

inductive OsType
  | unknown
  | centos
  | debian
  | fedora
  | rhel
  | windows
  | android
  | ios
  deriving DecidableEq, Repr

inductive ProcessorType
  | unknown
  | intel64
  | intel32
  | amd32
  | amd64
  | ibmPower8
  deriving DecidableEq, Repr

/-- The members of `OsInterface` that are read from text. -/
structure OsInterface where
  osType : OsType
  processorType : ProcessorType
  osName : Lib.Str
  osVersion : Int
  cpuModel : Lib.Str
  isVirtualizationSupported : Bool
  deriving DecidableEq

namespace OsInterface

open Lib

/-- `sizeof str`. -/
def strSize : Nat := 1024

/-- `fgets(str, sizeof str, fp)`: the piece and its end over what was there. -/
def fgets (str path : Str) : Str := path ++ '\x00' :: str.drop (path.length + 1)

def strstr (str needle : Str) : Option Nat := find needle (cstr str)

/-- The C string from an offset on, if that is inside the buffer. -/
def strFrom (str : Str) (offset : Nat) : Option Str :=
  if offset < str.length then some (cstr (str.drop offset)) else none

/-! ## The processor -/

/-- The variables of the loop over `CPU_INFO_FILE`. -/
structure CpuScan where
  str : Str
  isIntel : Bool
  isAmd : Bool
  isIbm : Bool
  osi : OsInterface

/-- The branch for a model name. -/
def modelName (st : CpuScan) : Option CpuScan := do
  let colon ← strstr st.str ":".toList
  let cpuModel ← strFrom st.str (colon + 2)
  let cpuModel ← eraseBack ['\n'] cpuModel
  let st := { st with osi := { st.osi with cpuModel := cpuModel } }
  return if (strstr st.str "Intel".toList).isSome then { st with isIntel := true }
    else if (strstr st.str "AMD".toList).isSome then { st with isAmd := true }
    else if (strstr st.str "IBM".toList).isSome then { st with isIbm := true }
    else st

/-- The branch for the flags. -/
def flags (st : CpuScan) : OsInterface :=
  { st.osi with
    processorType :=
      if (strstr st.str " lm ".toList).isSome then
        if st.isIntel then .intel64
        else if st.isAmd then .amd64
        else if st.isIbm then .ibmPower8
        else st.osi.processorType
      else st.osi.processorType
    isVirtualizationSupported := (strstr st.str "nx".toList).isSome &&
      ((strstr st.str "svm".toList).isSome || (strstr st.str "vmx".toList).isSome) }

/-- The loop over `CPU_INFO_FILE`, on the pieces `fgets` reads; `memcmp` looks at the buffer, not
only at the piece. -/
def cpuLoop : List Str → CpuScan → Option OsInterface
  | [], st => some st.osi
  | path :: paths, st =>
    let st := { st with str := fgets st.str path }
    if "model name".toList <+: st.str then (modelName st).bind (cpuLoop paths)
    else if "flags".toList <+: st.str then some (flags st)
    else cpuLoop paths st

/-- The part about the processor. -/
def readCpuInfo (cpuInfo : Option Str) (osi : OsInterface) : Option OsInterface :=
  match cpuInfo with
  | none => some osi
  | some text => cpuLoop (reads strSize text)
      ⟨List.replicate strSize '\x00', false, false, false, osi⟩

/-! ## The system -/

/-- The part about `hostnamectl`. -/
def readHostname (hostnamectl : Option Process) (osi : OsInterface) : Option OsInterface := do
  let (_, output) ← execute hostnamectl
  return if (strstr output "CentOS".toList).isSome then { osi with osType := .centos }
    else if (strstr output "Red Hat".toList).isSome then { osi with osType := .rhel }
    else osi

/-- `(int)strtoul(s, NULL, 10)`. -/
def strToInt (s : Str) : Int := ((strtoul 10 s).setWidth 32).toInt

/-- The branches for a line of `OS_RELEASE_FILE`. -/
def releaseLine (str : Str) (osi : OsInterface) : Option OsInterface :=
  if (strstr str "VERSION_ID".toList).isSome then
    (strFrom str ("VERSION_ID=".length + 1)).map fun s => { osi with osVersion := strToInt s }
  else if (strstr str "PRETTY_NAME".toList).isSome then do
    let osName ← strFrom str ("PRETTY_NAME=".length + 1)
    let osName ← eraseBack ['\n', '"'] osName
    return { osi with osName := osName }
  else some osi

/-- The loop over `OS_RELEASE_FILE`. -/
def releaseLoop : List Str → Str → OsInterface → Option OsInterface
  | [], _, osi => some osi
  | path :: paths, str, osi =>
    (releaseLine (fgets str path) osi).bind (releaseLoop paths (fgets str path))

/-- The part about the release. -/
def readOsRelease (osRelease : Option Str) (osi : OsInterface) : Option OsInterface :=
  match osRelease with
  | none => some osi
  | some text => releaseLoop (reads strSize text) (List.replicate strSize '\x00') osi

/-- The files, if they can be opened, and the process of `hostnamectl`. -/
structure System where
  cpuInfo : Option Str
  hostnamectl : Option Process
  osRelease : Option Str

/-- `SetSystemDetails`. -/
def setSystemDetails (system : System) (osi : OsInterface) : Option OsInterface := do
  let osi ← readCpuInfo system.cpuInfo osi
  let osi ← readHostname system.hostnamectl osi
  readOsRelease system.osRelease osi

/-- The members before a call: the object of `GetInstance` is static, and starts as zeros. -/
def initial : OsInterface where
  osType := .unknown
  processorType := .unknown
  osName := []
  osVersion := 0
  cpuModel := []
  isVirtualizationSupported := false

/-! ## The buffer -/

theorem length_fgets {str path : Str} (h : path.length < str.length) :
    (fgets str path).length = str.length := by
  rw [fgets, List.length_append, List.length_cons, List.length_drop]
  omega

theorem cstr_fgets {path : Str} (h : '\x00' ∉ path) (str : Str) : cstr (fgets str path) = path := by
  rw [fgets, cstr_append_nul, cstr_eq_self_iff.2 h]

theorem strstr_fgets {path : Str} (h : '\x00' ∉ path) (str needle : Str) :
    (strstr (fgets str path) needle).isSome ↔ needle <:+: path := by
  rw [strstr, cstr_fgets h, find_isSome_iff]

/-- A comparison of the buffer's start does not get past the end of the piece. -/
theorem prefix_fgets {path needle : Str} (h : '\x00' ∉ needle) (str : Str) :
    needle <+: fgets str path ↔ needle <+: path := by
  rw [fgets]
  refine ⟨fun hp => ?_, fun hp => hp.trans (List.prefix_append _ _)⟩
  by_cases hlen : needle.length ≤ path.length
  · exact List.prefix_of_prefix_length_le hp (List.prefix_append _ _) hlen
  · rw [List.append_cons] at hp
    have hend : path ++ ['\x00'] <+: needle := by
      refine List.prefix_of_prefix_length_le (List.prefix_append _ _) hp ?_
      rw [List.length_append, List.length_singleton]
      omega
    exact absurd (hend.subset (by simp)) h

theorem strFrom_fgets {str path : Str} (hnul : '\x00' ∉ path) (h : path.length < str.length)
    {offset : Nat} (ho : offset ≤ path.length) :
    strFrom (fgets str path) offset = some (path.drop offset) := by
  have hdrop : (fgets str path).drop offset =
      path.drop offset ++ '\x00' :: str.drop (path.length + 1) := by
    rw [fgets, List.drop_append_of_le_length ho]
  have hnul' : '\x00' ∉ path.drop offset := fun hm => hnul (List.mem_of_mem_drop hm)
  rw [strFrom, if_pos (by rw [length_fgets h]; omega), hdrop, cstr_append_nul,
    cstr_eq_self_iff.2 hnul']

/-! ## What a part leaves alone -/

/-- The members of the processor. -/
def SameCpu (osi osi' : OsInterface) : Prop :=
  osi'.processorType = osi.processorType ∧ osi'.cpuModel = osi.cpuModel ∧
    osi'.isVirtualizationSupported = osi.isVirtualizationSupported

theorem SameCpu.refl (osi : OsInterface) : SameCpu osi osi := ⟨rfl, rfl, rfl⟩

theorem SameCpu.trans {osi osi' osi'' : OsInterface} (h : SameCpu osi osi')
    (h' : SameCpu osi' osi'') : SameCpu osi osi'' :=
  ⟨h'.1.trans h.1, h'.2.1.trans h.2.1, h'.2.2.trans h.2.2⟩

theorem releaseLine_sameCpu {str : Str} {osi osi' : OsInterface}
    (h : releaseLine str osi = some osi') : SameCpu osi osi' := by
  rw [releaseLine] at h
  split at h
  · obtain ⟨s, -, rfl⟩ := Option.map_eq_some_iff.1 h
    exact ⟨rfl, rfl, rfl⟩
  · split at h
    · obtain ⟨s, -, h⟩ := Option.bind_eq_some_iff.1 h
      obtain ⟨osName, -, h⟩ := Option.bind_eq_some_iff.1 h
      cases h
      exact ⟨rfl, rfl, rfl⟩
    · cases h
      exact SameCpu.refl _

theorem releaseLoop_sameCpu : ∀ {paths : List Str} {str : Str} {osi osi' : OsInterface},
    releaseLoop paths str osi = some osi' → SameCpu osi osi'
  | [], _, _, _, h => by
    cases h
    exact SameCpu.refl _
  | path :: paths, str, osi, osi', h => by
    rw [releaseLoop] at h
    obtain ⟨osi1, h1, h⟩ := Option.bind_eq_some_iff.1 h
    exact (releaseLine_sameCpu h1).trans (releaseLoop_sameCpu h)

/-- Whether a line is read does not depend on what was read before. -/
theorem isSome_releaseLine (str : Str) (osi osi' : OsInterface) :
    (releaseLine str osi).isSome = (releaseLine str osi').isSome := by
  rw [releaseLine, releaseLine]
  split
  · rw [Option.isSome_map, Option.isSome_map]
  · split
    · cases strFrom str ("PRETTY_NAME=".length + 1) with
      | none => rfl
      | some s =>
        show ((eraseBack _ s).bind _).isSome = ((eraseBack _ s).bind _).isSome
        cases eraseBack ['\n', '"'] s <;> rfl
    · rfl

theorem isSome_releaseLoop : ∀ (paths : List Str) (str : Str) (osi osi' : OsInterface),
    (releaseLoop paths str osi).isSome = (releaseLoop paths str osi').isSome
  | [], _, _, _ => rfl
  | path :: paths, str, osi, osi' => by
    have h := isSome_releaseLine (fgets str path) osi osi'
    rw [releaseLoop, releaseLoop]
    cases h1 : releaseLine (fgets str path) osi with
    | none =>
      rw [h1, Option.isSome_none, eq_comm, Option.isSome_eq_false_iff,
        Option.isNone_iff_eq_none] at h
      rw [h]
    | some osi1 =>
      rw [h1] at h
      obtain ⟨osi1', h1'⟩ := Option.isSome_iff_exists.1 h.symm
      rw [h1']
      exact isSome_releaseLoop paths _ osi1 osi1'

theorem readOsRelease_sameCpu {osRelease : Option Str} {osi osi' : OsInterface}
    (h : readOsRelease osRelease osi = some osi') : SameCpu osi osi' := by
  cases osRelease with
  | none =>
    cases h
    exact SameCpu.refl _
  | some text => exact releaseLoop_sameCpu h

theorem isSome_readOsRelease (osRelease : Option Str) (osi osi' : OsInterface) :
    (readOsRelease osRelease osi).isSome = (readOsRelease osRelease osi').isSome := by
  cases osRelease with
  | none => rfl
  | some text => exact isSome_releaseLoop _ _ osi osi'

/-- The members of the release. -/
def SameRelease (osi osi' : OsInterface) : Prop :=
  osi'.osName = osi.osName ∧ osi'.osVersion = osi.osVersion

/-- `hostnamectl` decides the kind of system alone. -/
theorem of_readHostname {hostnamectl : Option Process} {osi osi' : OsInterface}
    (h : readHostname hostnamectl osi = some osi') :
    (execute hostnamectl).isSome ∧ SameCpu osi osi' ∧ SameRelease osi osi' := by
  obtain ⟨r, hr, h⟩ := Option.bind_eq_some_iff.1 h
  cases h
  rw [hr]
  refine ⟨rfl, ?_⟩
  split
  · exact ⟨⟨rfl, rfl, rfl⟩, rfl, rfl⟩
  · split
    · exact ⟨⟨rfl, rfl, rfl⟩, rfl, rfl⟩
    · exact ⟨SameCpu.refl _, rfl, rfl⟩

theorem exists_readHostname {hostnamectl : Option Process} (h : (execute hostnamectl).isSome)
    (osi : OsInterface) : ∃ osi', readHostname hostnamectl osi = some osi' := by
  obtain ⟨r, hr⟩ := Option.isSome_iff_exists.1 h
  rw [readHostname, hr]
  exact ⟨_, rfl⟩

theorem modelName_sameRelease {st st' : CpuScan} (h : modelName st = some st') :
    SameRelease st.osi st'.osi := by
  obtain ⟨colon, -, h⟩ := Option.bind_eq_some_iff.1 h
  obtain ⟨cpuModel, -, h⟩ := Option.bind_eq_some_iff.1 h
  obtain ⟨cpuModel', -, h⟩ := Option.bind_eq_some_iff.1 h
  cases h
  split
  · exact ⟨rfl, rfl⟩
  · split
    · exact ⟨rfl, rfl⟩
    · split <;> exact ⟨rfl, rfl⟩

theorem cpuLoop_sameRelease : ∀ {paths : List Str} {st : CpuScan} {osi : OsInterface},
    cpuLoop paths st = some osi → SameRelease st.osi osi
  | [], _, _, h => by
    cases h
    exact ⟨rfl, rfl⟩
  | path :: paths, st, osi, h => by
    rw [cpuLoop] at h
    dsimp only at h
    split at h
    · obtain ⟨st', hst', h⟩ := Option.bind_eq_some_iff.1 h
      obtain ⟨hname, hversion⟩ := modelName_sameRelease hst'
      obtain ⟨hname', hversion'⟩ := cpuLoop_sameRelease h
      exact ⟨hname'.trans hname, hversion'.trans hversion⟩
    · split at h
      · cases h
        exact ⟨rfl, rfl⟩
      · have hrest := cpuLoop_sameRelease h
        exact hrest

theorem readCpuInfo_sameRelease {cpuInfo : Option Str} {osi osi' : OsInterface}
    (h : readCpuInfo cpuInfo osi = some osi') : SameRelease osi osi' := by
  cases cpuInfo with
  | none =>
    cases h
    exact ⟨rfl, rfl⟩
  | some text => exact cpuLoop_sameRelease h

/-! ## All parts -/

theorem setSystemDetails_eq_some_iff {system : System} {osi osi' : OsInterface} :
    setSystemDetails system osi = some osi' ↔
      ∃ osi1 osi2, readCpuInfo system.cpuInfo osi = some osi1 ∧
        readHostname system.hostnamectl osi1 = some osi2 ∧
        readOsRelease system.osRelease osi2 = some osi' := by
  rw [setSystemDetails, Option.bind_eq_bind, Option.bind_eq_some_iff]
  refine exists_congr fun osi1 => ?_
  rw [Option.bind_eq_some_iff, exists_and_left]

/-- **What holds of the processor** after all parts holds after the first, and the others are
defined. -/
theorem setSystemDetails_cpu_iff {P : OsInterface → Prop}
    (hP : ∀ osi osi', SameCpu osi osi' → (P osi' ↔ P osi)) (system : System) (osi : OsInterface) :
    (∃ osi', setSystemDetails system osi = some osi' ∧ P osi') ↔
      (∃ osi', readCpuInfo system.cpuInfo osi = some osi' ∧ P osi') ∧
        (execute system.hostnamectl).isSome ∧ (readOsRelease system.osRelease osi).isSome := by
  simp only [setSystemDetails_eq_some_iff]
  constructor
  · rintro ⟨osi3, ⟨osi1, osi2, h1, h2, h3⟩, hp⟩
    obtain ⟨hhost, hsame, -⟩ := of_readHostname h2
    refine ⟨⟨osi1, h1, (hP _ _ (hsame.trans (readOsRelease_sameCpu h3))).1 hp⟩, hhost, ?_⟩
    rw [isSome_readOsRelease _ osi osi2, h3]
    rfl
  · rintro ⟨⟨osi1, h1, hp⟩, hhost, hrelease⟩
    obtain ⟨osi2, h2⟩ := exists_readHostname hhost osi1
    obtain ⟨-, hsame, -⟩ := of_readHostname h2
    rw [isSome_readOsRelease _ osi osi2] at hrelease
    obtain ⟨osi3, h3⟩ := Option.isSome_iff_exists.1 hrelease
    exact ⟨osi3, ⟨osi1, osi2, h1, h2, h3⟩, (hP _ _ (hsame.trans (readOsRelease_sameCpu h3))).2 hp⟩

/-- **What holds of the release**: what the last part comes to from the members before the call,
when the others are defined. -/
theorem setSystemDetails_release_iff {P : OsInterface → Prop} {R : Prop} {system : System}
    {osi : OsInterface}
    (hR : ∀ osi2, SameRelease osi osi2 →
      ((∃ osi', readOsRelease system.osRelease osi2 = some osi' ∧ P osi') ↔ R)) :
    (∃ osi', setSystemDetails system osi = some osi' ∧ P osi') ↔
      (readCpuInfo system.cpuInfo osi).isSome ∧ (execute system.hostnamectl).isSome ∧ R := by
  -- the two parts before keep its members
  have hkeeps : ∀ {osi1 osi2}, readCpuInfo system.cpuInfo osi = some osi1 →
      readHostname system.hostnamectl osi1 = some osi2 → SameRelease osi osi2 := by
    intro osi1 osi2 h1 h2
    obtain ⟨-, -, hname, hversion⟩ := of_readHostname h2
    obtain ⟨hname', hversion'⟩ := readCpuInfo_sameRelease h1
    exact ⟨hname.trans hname', hversion.trans hversion'⟩
  simp only [setSystemDetails_eq_some_iff]
  constructor
  · rintro ⟨osi3, ⟨osi1, osi2, h1, h2, h3⟩, hp⟩
    exact ⟨by rw [h1]; rfl, (of_readHostname h2).1, (hR osi2 (hkeeps h1 h2)).1 ⟨osi3, h3, hp⟩⟩
  · rintro ⟨hcpu, hhost, hr⟩
    obtain ⟨osi1, h1⟩ := Option.isSome_iff_exists.1 hcpu
    obtain ⟨osi2, h2⟩ := exists_readHostname hhost osi1
    obtain ⟨osi3, h3, hp⟩ := (hR osi2 (hkeeps h1 h2)).2 hr
    exact ⟨osi3, ⟨osi1, osi2, h1, h2, h3⟩, hp⟩

end OsInterface
