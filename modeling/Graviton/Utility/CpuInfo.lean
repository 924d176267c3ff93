import Graviton.Utility.SystemDetails

/-!
# `SetSystemDetails`: the processor

What is found in `/proc/cpuinfo`. The loop looks at pieces of at most 1023 characters, and stops at
the first one that starts like a flags line.

* `cpuLoop_seen`, `cpuLoop_flags`: what the loop makes of the pieces before it, and of it.
* `setSystemDetails_detected_iff`: when that is what the flags line says; `recognizable_iff` is
  the condition for a text with short lines, `recognizable_fits_iff` where the flags line is short
  too.
-/

namespace OsInterface

open Lib

inductive Vendor
  | intel
  | amd
  | ibm
  deriving DecidableEq

def Vendor.name : Vendor → Str
  | intel => "Intel".toList
  | amd => "AMD".toList
  | ibm => "IBM".toList

def Vendor.type : Vendor → ProcessorType
  | intel => .intel64
  | amd => .amd64
  | ibm => .ibmPower8

/-- The vendor in a model name, in the order of the tests. -/
def vendorOf (line : Str) : Option Vendor :=
  if Vendor.intel.name <:+: line then some .intel
  else if Vendor.amd.name <:+: line then some .amd
  else if Vendor.ibm.name <:+: line then some .ibm
  else none

/-- Some piece is a model name of the vendor. -/
def names (vendor : Vendor) (paths : List Str) : Bool :=
  paths.any fun path => "model name".toList <+: path ∧ vendorOf path = some vendor

/-- The vendor of the model names, in the order of the tests. -/
def vendorSeen (paths : List Str) : Option Vendor :=
  if names .intel paths then some .intel
  else if names .amd paths then some .amd
  else if names .ibm paths then some .ibm
  else none

/-- A model name whose colon is there, with something after the character behind it. -/
def Legible (path : Str) : Prop := ∃ a b, path = a ++ ':' :: b ∧ ':' ∉ a ∧ 2 ≤ b.length

/-- A piece before the end of the file: it ends a line, or fills the buffer. -/
structure IsPiece (path : Str) : Prop where
  nul : '\x00' ∉ path
  length : path.length < strSize
  last : path.getLast? = some '\n' ∨ path.length = strSize - 1

/-- What the loop knows after some pieces. -/
structure Seen (prior : ProcessorType) (paths : List Str) (st : CpuScan) : Prop where
  length : st.str.length = strSize
  isIntel : st.isIntel = names .intel paths
  isAmd : st.isAmd = names .amd paths
  isIbm : st.isIbm = names .ibm paths
  processorType : st.osi.processorType = prior

/-- A pass of the loop that does not end it. -/
def cpuStep (st : CpuScan) (path : Str) : Option CpuScan :=
  let st := { st with str := fgets st.str path }
  if "model name".toList <+: st.str then modelName st else some st

theorem cpuLoop_cons {path : Str} (h : ¬"flags".toList <+: path) (paths : List Str)
    (st : CpuScan) : cpuLoop (path :: paths) st = (cpuStep st path).bind (cpuLoop paths) := by
  rw [cpuLoop, cpuStep]
  dsimp only
  split
  · rfl
  · rw [if_neg (by rwa [prefix_fgets (by decide)])]
    rfl

/-- The name after a legible colon. -/
theorem modelName_of_legible {st : CpuScan} {str path : Str} (hstr : st.str = fgets str path)
    (hp : IsPiece path) (hlen : str.length = strSize) (h : Legible path) :
    ∃ st', modelName st = some st' ∧ st'.str = st.str ∧
      st'.osi.processorType = st.osi.processorType ∧
      st'.isIntel = (st.isIntel || decide (vendorOf path = some .intel)) ∧
      st'.isAmd = (st.isAmd || decide (vendorOf path = some .amd)) ∧
      st'.isIbm = (st.isIbm || decide (vendorOf path = some .ibm)) := by
  obtain ⟨a, b, hsplit, ha, hb⟩ := h
  have hcolon : strstr st.str ":".toList = some a.length := by
    rw [strstr, hstr, cstr_fgets hp.nul, hsplit]
    exact find_singleton ha b
  have hplen : path.length = a.length + 1 + b.length := by
    rw [hsplit, List.length_append, List.length_cons]
    omega
  have hname : strFrom st.str (a.length + 2) = some (path.drop (a.length + 2)) := by
    rw [hstr]
    exact strFrom_fgets hp.nul (hp.length.trans_eq hlen.symm) (by omega)
  have hne : path.drop (a.length + 2) ≠ [] := by
    rw [List.ne_nil_iff_length_pos, List.length_drop]
    omega
  obtain ⟨cpuModel, hmodel⟩ : ∃ m, eraseBack ['\n'] (path.drop (a.length + 2)) = some m :=
    Option.ne_none_iff_exists'.1 fun hnone => hne (eraseBack_eq_none_iff.1 hnone)
  have hfind : ∀ needle, (strstr st.str needle).isSome = decide (needle <:+: path) := by
    intro needle
    rw [Bool.eq_iff_iff, hstr, strstr_fgets hp.nul, decide_eq_true_eq]
  simp only [modelName, hcolon, hname, hmodel, hfind, Option.bind_eq_bind, Option.bind_some,
    Option.pure_def, decide_eq_true_eq]
  refine ⟨_, rfl, ?_⟩
  by_cases hintel : "Intel".toList <:+: path
  · have hvendor : vendorOf path = some .intel := if_pos hintel
    rw [if_pos hintel, hvendor]
    exact ⟨rfl, rfl, (Bool.or_true _).symm, (Bool.or_false _).symm, (Bool.or_false _).symm⟩
  · by_cases hamd : "AMD".toList <:+: path
    · have hvendor : vendorOf path = some .amd := (if_neg hintel).trans (if_pos hamd)
      rw [if_neg hintel, if_pos hamd, hvendor]
      exact ⟨rfl, rfl, (Bool.or_false _).symm, (Bool.or_true _).symm, (Bool.or_false _).symm⟩
    · by_cases hibm : "IBM".toList <:+: path
      · have hvendor : vendorOf path = some .ibm :=
          (if_neg hintel).trans ((if_neg hamd).trans (if_pos hibm))
        rw [if_neg hintel, if_neg hamd, if_pos hibm, hvendor]
        exact ⟨rfl, rfl, (Bool.or_false _).symm, (Bool.or_false _).symm, (Bool.or_true _).symm⟩
      · have hvendor : vendorOf path = none :=
          (if_neg hintel).trans ((if_neg hamd).trans (if_neg hibm))
        rw [if_neg hintel, if_neg hamd, if_neg hibm, hvendor]
        exact ⟨rfl, rfl, (Bool.or_false _).symm, (Bool.or_false _).symm, (Bool.or_false _).symm⟩

/-- Otherwise `strstr` finds no colon, or the name after it is empty or outside the buffer. -/
theorem modelName_of_not_legible {st : CpuScan} {str path : Str} (hstr : st.str = fgets str path)
    (hp : IsPiece path) (hlen : str.length = strSize) (h : ¬Legible path) :
    modelName st = none := by
  have hfits : path.length < str.length := hp.length.trans_eq hlen.symm
  by_cases hcolon : ':' ∈ path
  · obtain ⟨a, b, hsplit, ha⟩ := List.eq_append_cons_of_mem hcolon
    have hplen : path.length = a.length + 1 + b.length := by
      rw [hsplit, List.length_append, List.length_cons]
      omega
    have hb : b.length < 2 := Nat.lt_of_not_le fun hb => h ⟨a, b, hsplit, ha, hb⟩
    have hfind : strstr st.str ":".toList = some a.length := by
      rw [strstr, hstr, cstr_fgets hp.nul, hsplit]
      exact find_singleton ha b
    have hname : strFrom st.str (a.length + 2) = none ∨
        strFrom st.str (a.length + 2) = some [] := by
      rw [hstr]
      by_cases hend : b = []
      · -- a piece that ends with the colon fills the buffer
        subst hend
        have hfull : path.length = strSize - 1 := by
          refine hp.last.resolve_left fun hlast => ?_
          rw [hsplit, List.getLast?_concat] at hlast
          exact absurd hlast (by decide)
        left
        rw [strFrom, if_neg]
        rw [length_fgets hfits, hlen]
        simp only [List.length_nil] at hplen
        omega
      · have hpos := List.length_pos_of_ne_nil hend
        right
        rw [strFrom_fgets hp.nul hfits (by omega), List.drop_of_length_le (by omega)]
    rw [modelName, hfind]
    rcases hname with hname | hname
    · simp only [hname, Option.bind_eq_bind, Option.bind_some, Option.bind_none]
    · have herase : eraseBack ['\n'] [] = none := rfl
      simp only [hname, herase, Option.bind_eq_bind, Option.bind_some, Option.bind_none]
  · have hfind : strstr st.str ":".toList = none := by
      rw [← Option.not_isSome_iff_eq_none, hstr, strstr_fgets hp.nul]
      intro hoccurs
      exact hcolon (hoccurs.subset (.head _))
    rw [modelName, hfind]
    rfl

theorem names_append_singleton (vendor : Vendor) (paths : List Str) (path : Str) :
    names vendor (paths ++ [path]) = (names vendor paths ||
      decide ("model name".toList <+: path ∧ vendorOf path = some vendor)) := by
  rw [names, List.any_append, List.any_cons, List.any_nil, Bool.or_false]
  rfl

/-- **A pass before the flags**: a model name is noted, if it can be read. -/
theorem cpuStep_seen {prior : ProcessorType} {paths : List Str} {st : CpuScan} {path : Str}
    (hp : IsPiece path) (h : Seen prior paths st) :
    (("model name".toList <+: path → Legible path) →
        ∃ st', cpuStep st path = some st' ∧ Seen prior (paths ++ [path]) st') ∧
      (¬("model name".toList <+: path → Legible path) → cpuStep st path = none) := by
  have hlen : (fgets st.str path).length = strSize := by
    rw [length_fgets (hp.length.trans_eq h.length.symm), h.length]
  have hstr : ({ st with str := fgets st.str path } : CpuScan).str = fgets st.str path := rfl
  rw [cpuStep]
  dsimp only
  by_cases hmodel : "model name".toList <+: path
  · rw [if_pos ((prefix_fgets (by decide) _).2 hmodel), forall_prop_of_true hmodel]
    refine ⟨fun hlegible => ?_, modelName_of_not_legible hstr hp h.length⟩
    obtain ⟨st', hst', hstr, htype, hintel, hamd, hibm⟩ :=
      modelName_of_legible hstr hp h.length hlegible
    refine ⟨st', hst', hstr ▸ hlen, ?_, ?_, ?_, htype.trans h.processorType⟩
    · rw [hintel, names_append_singleton, ← h.isIntel]
      simp only [hmodel, true_and]
    · rw [hamd, names_append_singleton, ← h.isAmd]
      simp only [hmodel, true_and]
    · rw [hibm, names_append_singleton, ← h.isIbm]
      simp only [hmodel, true_and]
  · have hnames : ∀ vendor, names vendor (paths ++ [path]) = names vendor paths := by
      intro vendor
      rw [names_append_singleton, decide_eq_false fun hm => hmodel hm.1, Bool.or_false]
    rw [if_neg (mt (prefix_fgets (by decide) _).1 hmodel)]
    refine ⟨fun _ => ⟨_, rfl, hlen, ?_, ?_, ?_, h.processorType⟩,
      fun hc => absurd (fun hm => absurd hm hmodel) hc⟩
    · rw [hnames]
      exact h.isIntel
    · rw [hnames]
      exact h.isAmd
    · rw [hnames]
      exact h.isIbm

/-- The passes before the flags: by induction on the pieces. -/
theorem cpuLoop_seen {prior : ProcessorType} (rest : List Str) : ∀ {ps paths : List Str}
    {st : CpuScan}, (∀ path ∈ ps, IsPiece path ∧ ¬"flags".toList <+: path) →
    Seen prior paths st →
    ((∀ path ∈ ps, "model name".toList <+: path → Legible path) →
        ∃ st', cpuLoop (ps ++ rest) st = cpuLoop rest st' ∧ Seen prior (paths ++ ps) st') ∧
      ((¬∀ path ∈ ps, "model name".toList <+: path → Legible path) →
        cpuLoop (ps ++ rest) st = none)
  | [], paths, st, _, h => by
    refine ⟨fun _ => ⟨st, rfl, ?_⟩, fun hc => absurd (List.forall_mem_nil _) hc⟩
    rwa [List.append_nil]
  | path :: ps, paths, st, hps, h => by
    obtain ⟨⟨hp, hflags⟩, hps⟩ := List.forall_mem_cons.1 hps
    obtain ⟨hsome, hnone⟩ := cpuStep_seen hp h
    rw [List.forall_mem_cons, List.cons_append, cpuLoop_cons hflags]
    by_cases hlegible : "model name".toList <+: path → Legible path
    · obtain ⟨st1, hst1, h1⟩ := hsome hlegible
      have ih := cpuLoop_seen rest hps h1
      rw [hst1, and_iff_right hlegible, Option.bind_some]
      rwa [List.append_assoc, List.singleton_append] at ih
    · rw [hnone hlegible]
      exact ⟨fun hc => absurd hc.1 hlegible, fun _ => rfl⟩

/-- The type found: by the vendor seen before, if the piece has the flag between two others. -/
def typeSeen (prior : ProcessorType) (paths : List Str) (path : Str) : ProcessorType :=
  if " lm ".toList <:+: path then ((vendorSeen paths).map Vendor.type).getD prior else prior

theorem Vendor.type_inj {vendor vendor' : Vendor} (h : vendor.type = vendor'.type) :
    vendor = vendor' := by
  cases vendor <;> cases vendor' <;> first | rfl | exact absurd h (by decide)

theorem typeSeen_eq_iff {prior : ProcessorType} {paths : List Str} {path : Str} {vendor : Vendor} :
    typeSeen prior paths path = vendor.type ↔
      " lm ".toList <:+: path ∧ vendorSeen paths = some vendor ∨
        prior = vendor.type ∧ (" lm ".toList <:+: path → vendorSeen paths = none) := by
  unfold typeSeen
  split
  · rename_i hlm
    rw [and_iff_right hlm, forall_prop_of_true hlm]
    cases vendorSeen paths with
    | none => exact ⟨fun h => .inr ⟨h, rfl⟩, fun h => (h.resolve_left nofun).1⟩
    | some vendor' =>
      refine ⟨fun h => .inl (congrArg some (Vendor.type_inj h)), fun h => ?_⟩
      rw [Option.some.inj (h.resolve_right fun hc => nomatch hc.2)]
      rfl
  · rename_i hlm
    exact ⟨fun h => .inr ⟨h, fun hc => absurd hc hlm⟩, fun h =>
      (h.resolve_left fun hc => hlm hc.1).1⟩

/-- The first piece that starts like a flags line ends the loop. -/
theorem cpuLoop_flags {prior : ProcessorType} {paths : List Str} {st : CpuScan} {path : Str}
    (hnul : '\x00' ∉ path) (hflags : "flags".toList <+: path) (h : Seen prior paths st)
    (rest : List Str) : ∃ osi', cpuLoop (path :: rest) st = some osi' ∧
      osi'.processorType = typeSeen prior paths path ∧
      (osi'.isVirtualizationSupported = true ↔ "nx".toList <:+: path ∧
        ("svm".toList <:+: path ∨ "vmx".toList <:+: path)) := by
  have hmodel : ¬"model name".toList <+: path := fun hm =>
    absurd (List.prefix_of_prefix_length_le hflags hm (by decide)) (by decide)
  rw [cpuLoop]
  dsimp only
  rw [if_neg (mt (prefix_fgets (by decide) _).1 hmodel),
    if_pos ((prefix_fgets (by decide) _).2 hflags)]
  refine ⟨_, rfl, ?_, ?_⟩
  · refine if_congr (strstr_fgets hnul _ _) ?_ h.processorType
    show (if st.isIntel then _ else if st.isAmd then _ else if st.isIbm then _ else _) = _
    rw [h.isIntel, h.isAmd, h.isIbm, h.processorType, vendorSeen]
    split
    · rfl
    · split
      · rfl
      · split <;> rfl
  · rw [flags]
    dsimp only
    rw [Bool.and_eq_true, Bool.or_eq_true, strstr_fgets hnul, strstr_fgets hnul,
      strstr_fgets hnul]

/-! ## The text -/

/-- A flags line: a blank before each flag. -/
def flagsLine (blank : Str) (flags : List Str) : Str :=
  "flags".toList ++ blank ++ ':' :: flags.flatMap fun flag => ' ' :: flag

def isFlags (path : Str) : Bool := "flags".toList <+: path

theorem isFlags_iff {path : Str} : isFlags path = true ↔ "flags".toList <+: path :=
  decide_eq_true_iff

/-- A text with a flags line: the lines before it, a vendor they name, and what follows. -/
structure CpuText where
  before : List Str
  vendor : Vendor
  blank : Str
  flags : List Str
  rest : Str

namespace CpuText

variable (c : CpuText)

def text : Str := unlines c.before ++ (flagsLine c.blank c.flags ++ c.rest)

/-- The pieces before the first one that starts like a flags line. -/
def seen : List Str := (reads strSize c.text).takeWhile fun path => !isFlags path

/-- The first piece that starts like a flags line. -/
def flagsPath : Str := ((reads strSize c.text).dropWhile fun path => !isFlags path).headD []

end CpuText

/-- The text of `/proc/cpuinfo`: its first flags line comes after a model name of a vendor. -/
structure CpuInfo extends CpuText where
  nul : '\x00' ∉ toCpuText.text
  newline : ∀ l ∈ before, '\n' ∉ l
  first : ∀ l ∈ before, ¬"flags".toList <+: l
  model : ∃ l ∈ before, "model name".toList <+: l ∧ vendor.name <:+: l
  known : vendor = .intel ∨ vendor = .amd
  blanks : ∀ d ∈ blank, d = ' ' ∨ d = '\t'
  word : ∀ flag ∈ flags, flag ≠ [] ∧ ∀ d ∈ flag, isSpace d = false
  ended : rest = [] ∨ rest.head? = some '\n'

/-- What the processor is found to be is what its flags say. -/
structure Detected (c : CpuInfo) (osi : OsInterface) : Prop where
  virt : osi.isVirtualizationSupported = true ↔
    "nx".toList ∈ c.flags ∧ ("svm".toList ∈ c.flags ∨ "vmx".toList ∈ c.flags)
  type : osi.processorType = c.vendor.type ↔ "lm".toList ∈ c.flags

/-- The pieces say what the flags do: the first piece that starts like a flags line has the names
of the same flags in it, after model names that can be read and are of the vendor. -/
structure Recognizable (c : CpuInfo) (prior : ProcessorType) : Prop where
  legible : ∀ path ∈ c.seen, "model name".toList <+: path → Legible path
  virt : ("nx".toList <:+: c.flagsPath ∧
      ("svm".toList <:+: c.flagsPath ∨ "vmx".toList <:+: c.flagsPath)) ↔
    "nx".toList ∈ c.flags ∧ ("svm".toList ∈ c.flags ∨ "vmx".toList ∈ c.flags)
  type : " lm ".toList <:+: c.flagsPath ∧ vendorSeen c.seen = some c.vendor ∨
      prior = c.vendor.type ∧ (" lm ".toList <:+: c.flagsPath → vendorSeen c.seen = none) ↔
    "lm".toList ∈ c.flags

/-- A word between two blanks is one that another follows. -/
theorem spaced_iff {w tail : Str} (hw : ' ' ∉ w) (htail : ' ' ∉ tail) : ∀ {flags : List Str},
    (∀ flag ∈ flags, ' ' ∉ flag) →
    (' ' :: (w ++ [' ']) <:+: flags.flatMap (' ' :: ·) ++ tail ↔ w ∈ flags.dropLast)
  | [], _ => by
    refine iff_of_false (fun h => htail ?_) List.not_mem_nil
    exact h.subset (.head _)
  | [flag], h => by
    refine iff_of_false (fun hoccurs => ?_) List.not_mem_nil
    rw [List.flatMap_singleton, List.cons_append, List.infix_cons_iff, List.cons_prefix_cons]
      at hoccurs
    have hm : ' ' ∈ flag ++ tail :=
      hoccurs.elim (fun hp => hp.2.subset (by simp)) fun hp => hp.subset (by simp)
    exact (List.mem_append.1 hm).elim (h flag (.head _)) htail
  | flag :: flag' :: flags, h => by
    obtain ⟨hflag, hflags⟩ := List.forall_mem_cons.1 h
    have hfirst : w ++ [' '] <+: flag ++ ((flag' :: flags).flatMap (' ' :: ·) ++ tail) ↔
        w = flag := by
      constructor
      · rintro ⟨t, ht⟩
        have htake := congrArg (List.takeWhile (· ≠ ' ')) ht
        rw [List.append_assoc, takeWhile_append_of_not_mem hw,
          takeWhile_append_of_not_mem hflag] at htake
        simpa using htake
      · rintro rfl
        exact ⟨flag' ++ (flags.flatMap (' ' :: ·) ++ tail), by simp⟩
    rw [List.flatMap_cons, List.cons_append, List.cons_append, List.append_assoc,
      List.infix_cons_iff, List.cons_prefix_cons, and_iff_right rfl, hfirst,
      infix_append_of_not_mem hflag, spaced_iff hw htail hflags, List.dropLast_cons_cons,
      List.mem_cons]

/-- A word is in a text of flags if it is in one of them. -/
theorem infix_flatMap_iff {w : Str} (hw : ' ' ∉ w) (hne : w ≠ []) : ∀ (flags : List Str) (a : Str),
    w <:+: a ++ flags.flatMap (' ' :: ·) ↔ w <:+: a ∨ ∃ flag ∈ flags, w <:+: flag
  | [], a => by simp
  | flag :: flags, a => by
    rw [List.flatMap_cons, List.cons_append, infix_append_cons_iff hw hne,
      infix_flatMap_iff hw hne flags flag, List.exists_mem_cons_iff]

theorem lm_after_blank {blank : Str} (h : ∀ d ∈ blank, d = ' ' ∨ d = '\t') (s : Str) :
    " lm ".toList <:+: blank ++ ':' :: s ↔ " lm ".toList <:+: s := by
  induction blank with
  | nil => exact infix_append_of_not_mem (a := [':']) (by decide) s
  | cons d blank ih =>
    have hblank := (List.forall_mem_cons.1 h).2
    rw [List.cons_append, List.infix_cons_iff, ih hblank, or_iff_right]
    intro hp
    have hp : "lm ".toList <+: blank ++ ':' :: s := (List.cons_prefix_cons.1 hp).2
    cases blank with
    | nil => exact absurd (List.cons_prefix_cons.1 hp).1 (by decide)
    | cons d' blank =>
      have hl : 'l' = d' := (List.cons_prefix_cons.1 hp).1
      rcases hblank d' (.head _) with hd | hd <;> exact absurd (hl.trans hd) (by decide)

namespace CpuInfo

variable (c : CpuInfo)

/-- The part of the flags line that is looked at, when it starts like one itself. -/
def path : Str := piece strSize (flagsLine c.blank c.flags ++ c.rest)

/-- The pieces of the lines before, and those of the flags line, which starts one. -/
theorem reads_text : ∃ paths,
    reads strSize c.text =
        c.before.flatMap (fun l => reads strSize (l ++ ['\n'])) ++ c.path :: paths ∧
      "flags".toList <+: c.path := by
  have hflags : "flags".toList <+: flagsLine c.blank c.flags ++ c.rest :=
    ((List.prefix_append _ c.blank).trans (List.prefix_append _ _)).trans (List.prefix_append _ _)
  have hne : flagsLine c.blank c.flags ++ c.rest ≠ [] := fun hnil => by
    rw [hnil] at hflags
    exact absurd (List.prefix_nil.1 hflags) (by decide)
  obtain ⟨paths, hreads⟩ : ∃ paths, reads strSize (flagsLine c.blank c.flags ++ c.rest) =
      c.path :: paths := ⟨_, reads_of_ne_nil (by decide) hne⟩
  refine ⟨paths, ?_, prefix_piece hflags (by decide) (by decide)⟩
  rw [CpuText.text, reads_unlines (by decide) c.newline, hreads]

/-- **The pieces**, up to the first one that starts like a flags line. -/
theorem reads_eq : ∃ paths, reads strSize c.text = c.seen ++ c.flagsPath :: paths ∧
    (∀ path ∈ c.seen, IsPiece path ∧ ¬"flags".toList <+: path) ∧
    '\x00' ∉ c.flagsPath ∧ "flags".toList <+: c.flagsPath := by
  obtain ⟨paths, hreads, hflags⟩ := c.reads_text
  have hnul : ∀ p ∈ reads strSize c.text, '\x00' ∉ p := fun p hp hm =>
    c.nul ((infix_of_mem_reads (by decide) hp).subset hm)
  -- the pieces before it are pieces of the lines before
  have hseen : ∀ p ∈ c.seen, ∃ l ∈ c.before, p ∈ reads strSize (l ++ ['\n']) := by
    intro p hp
    have hstop : (c.path :: paths).takeWhile (fun path => !isFlags path) = [] := by
      rw [List.takeWhile_cons, isFlags_iff.2 hflags]
      rfl
    rw [CpuText.seen, hreads, List.takeWhile_append] at hp
    split at hp
    · rw [hstop, List.append_nil] at hp
      exact List.mem_flatMap.1 hp
    · exact List.mem_flatMap.1 ((List.takeWhile_sublist _).subset hp)
  have hmem : ∀ p ∈ c.seen, p ∈ reads strSize c.text :=
    fun p hp => (List.takeWhile_sublist _).subset hp
  cases hdrop : (reads strSize c.text).dropWhile fun path => !isFlags path with
  | nil =>
    rw [List.dropWhile_eq_nil_iff] at hdrop
    have hp := hdrop c.path (by rw [hreads]; simp)
    rw [isFlags_iff.2 hflags] at hp
    exact absurd hp Bool.false_ne_true
  | cons p ps =>
    have hpath : c.flagsPath = p := by
      rw [CpuText.flagsPath, hdrop]
      rfl
    have hsplit : reads strSize c.text = c.seen ++ p :: ps := by
      rw [← hdrop]
      exact List.takeWhile_append_dropWhile.symm
    have hhead := List.head?_dropWhile_not (fun path => !isFlags path) (reads strSize c.text)
    rw [hdrop] at hhead
    rw [hpath]
    refine ⟨ps, hsplit, fun q hq => ⟨⟨hnul q (hmem q hq), ?_, ?_⟩, ?_⟩, ?_, ?_⟩
    · have hlen := (of_mem_reads (by decide) (hmem q hq)).2
      exact Nat.lt_of_le_of_lt hlen (by decide)
    · obtain ⟨l, hl, hq⟩ := hseen q hq
      exact full_of_mem_reads (by decide) (c.newline l hl) hq
    · have hnot := List.mem_takeWhile_imp hq
      rwa [Bool.not_eq_true', ← Bool.not_eq_true, isFlags_iff] at hnot
    · exact hnul p (by rw [hsplit]; simp)
    · have hhead : (!isFlags p) = false := hhead
      rwa [Bool.not_eq_false', isFlags_iff] at hhead

/-- Where each line before fits the buffer, the pieces are the lines. -/
theorem seen_of_fits (hfits : ∀ l ∈ c.before, l.length + 1 < strSize) :
    c.seen = c.before.map (· ++ ['\n']) ∧ c.flagsPath = c.path := by
  obtain ⟨paths, hreads, hflags⟩ := c.reads_text
  have hlines : c.before.flatMap (fun l => reads strSize (l ++ ['\n'])) =
      c.before.map (· ++ ['\n']) := by
    rw [← List.flatMap_pure_eq_map]
    refine List.flatMap_congr fun l hl => ?_
    rw [reads_line (c.newline l hl) (hfits l hl), reads_nil]
    rfl
  rw [hlines] at hreads
  have hlast : isFlags c.path = true := isFlags_iff.2 hflags
  have hfirst : ∀ p ∈ c.before.map (· ++ ['\n']), (!isFlags p) = true := by
    intro p hp
    obtain ⟨l, hl, rfl⟩ := List.mem_map.1 hp
    rw [Bool.not_eq_true', ← Bool.not_eq_true, isFlags_iff]
    intro hp
    exact c.first l hl ((prefix_line_iff (by decide) l).1 hp)
  constructor
  · rw [CpuText.seen, hreads, List.takeWhile_append_of_pos hfirst, List.takeWhile_cons, hlast]
    exact List.append_nil _
  · rw [CpuText.flagsPath, hreads, List.dropWhile_append_of_pos hfirst, List.dropWhile_cons, hlast]
    rfl

theorem name_infix_line (vendor : Vendor) (l : Str) :
    vendor.name <:+: l ++ ['\n'] ↔ vendor.name <:+: l := by
  cases vendor <;> exact infix_line_iff (by decide) (by decide) l

theorem vendorOf_line (l : Str) : vendorOf (l ++ ['\n']) = vendorOf l :=
  if_congr (name_infix_line .intel l) rfl
    (if_congr (name_infix_line .amd l) rfl (if_congr (name_infix_line .ibm l) rfl rfl))

theorem infix_of_vendorOf {vendor : Vendor} {l : Str} (h : vendorOf l = some vendor) :
    vendor.name <:+: l := by
  rw [vendorOf] at h
  split at h
  · cases h
    assumption
  · split at h
    · cases h
      assumption
    · split at h
      · cases h
        assumption
      · cases h

theorem isSome_vendorOf {vendor : Vendor} {l : Str} (h : vendor.name <:+: l) :
    (vendorOf l).isSome := by
  rw [vendorOf]
  split
  · rfl
  · split
    · rfl
    · split
      · rfl
      · cases vendor <;> contradiction

/-- With the names of one vendor only, that one is seen. -/
theorem vendorSeen_lines
    (honly : ∀ l ∈ c.before, "model name".toList <+: l → ∀ vendor : Vendor, vendor.name <:+: l →
      vendor = c.vendor) : vendorSeen (c.before.map (· ++ ['\n'])) = some c.vendor := by
  have hnames : ∀ vendor, names vendor (c.before.map (· ++ ['\n'])) =
      decide (vendor = c.vendor) := by
    intro vendor
    rw [Bool.eq_iff_iff, names, List.any_map, List.any_eq_true, decide_eq_true_iff]
    constructor
    · rintro ⟨l, hl, hp⟩
      obtain ⟨hmodel, hvendor⟩ := of_decide_eq_true hp
      rw [prefix_line_iff (by decide)] at hmodel
      rw [vendorOf_line] at hvendor
      exact honly l hl hmodel vendor (infix_of_vendorOf hvendor)
    · rintro rfl
      obtain ⟨l, hl, hmodel, hname⟩ := c.model
      obtain ⟨vendor, hvendor⟩ := Option.isSome_iff_exists.1 (isSome_vendorOf hname)
      rw [honly l hl hmodel vendor (infix_of_vendorOf hvendor)] at hvendor
      refine ⟨l, hl, decide_eq_true ⟨?_, ?_⟩⟩
      · exact (prefix_line_iff (by decide) l).2 hmodel
      · exact (vendorOf_line l).trans hvendor
  rw [vendorSeen, hnames, hnames, hnames]
  rcases c.known with hknown | hknown <;> rw [hknown] <;> rfl

theorem newline_not_mem_flagsLine : '\n' ∉ flagsLine c.blank c.flags := by
  intro hm
  rcases List.mem_append.1 hm with hm | hm
  · rcases List.mem_append.1 hm with hm | hm
    · exact absurd hm (by decide)
    · rcases c.blanks _ hm with h | h <;> exact absurd h (by decide)
  · rcases List.mem_cons.1 hm with hm | hm
    · exact absurd hm (by decide)
    · obtain ⟨flag, hflag, hm⟩ := List.mem_flatMap.1 hm
      rcases List.mem_cons.1 hm with hm | hm
      · exact absurd hm (by decide)
      · exact absurd ((c.word flag hflag).2 _ hm) (by decide)

/-- **A flags line that fits** is looked at as a whole, with its newline or without. -/
theorem path_of_fits (hfits : (flagsLine c.blank c.flags).length + 1 < strSize) :
    ∃ tail, (tail = [] ∨ tail = ['\n']) ∧ c.path = flagsLine c.blank c.flags ++ tail := by
  have hnewline := c.newline_not_mem_flagsLine
  rw [path]
  cases hrest : c.rest with
  | nil =>
    refine ⟨[], .inl rfl, ?_⟩
    rw [List.append_nil, piece_of_fits hnewline (by omega)]
  | cons d rest =>
    have hd : d = '\n' := by
      have hended := c.ended.resolve_left (by rw [hrest]; exact List.cons_ne_nil _ _)
      rw [hrest] at hended
      exact Option.some.inj hended
    rw [hd]
    exact ⟨['\n'], .inr rfl, piece_line hnewline hfits rest⟩

/-- There `lm` is found unless it stands at the end. -/
theorem lm_iff (hfits : (flagsLine c.blank c.flags).length + 1 < strSize) :
    " lm ".toList <:+: c.path ↔ "lm".toList ∈ c.flags.dropLast := by
  have hspace : ∀ flag ∈ c.flags, ' ' ∉ flag := fun flag hm hs =>
    absurd ((c.word flag hm).2 ' ' hs) (by decide)
  obtain ⟨tail, htail, hpath⟩ := c.path_of_fits hfits
  have htail : ' ' ∉ tail := by rcases htail with rfl | rfl <;> decide
  have hline : c.path = "flags".toList ++
      (c.blank ++ ':' :: (c.flags.flatMap (' ' :: ·) ++ tail)) := by
    rw [hpath]
    exact (List.append_assoc _ _ _).trans (List.append_assoc _ _ _)
  calc " lm ".toList <:+: c.path
      ↔ " lm ".toList <:+: "flags".toList ++
          (c.blank ++ ':' :: (c.flags.flatMap (' ' :: ·) ++ tail)) := by rw [hline]
    _ ↔ " lm ".toList <:+: c.blank ++ ':' :: (c.flags.flatMap (' ' :: ·) ++ tail) :=
      infix_append_of_not_mem (by decide) _
    _ ↔ " lm ".toList <:+: c.flags.flatMap (' ' :: ·) ++ tail := lm_after_blank c.blanks _
    _ ↔ "lm".toList ∈ c.flags.dropLast := spaced_iff (w := "lm".toList) (by decide) htail hspace

/-- A name is found in it if some flag contains it. -/
theorem name_iff (hfits : (flagsLine c.blank c.flags).length + 1 < strSize) {w : Str}
    (hw : ∀ d ∈ [' ', '\t', ':', '\n'], d ∉ w) (hflags : ¬w <:+: "flags".toList) :
    w <:+: c.path ↔ ∃ flag ∈ c.flags, w <:+: flag := by
  have hne : w ≠ [] := by
    rintro rfl
    exact hflags (List.nil_infix)
  have hstart : ∀ {blank : Str}, (∀ d ∈ blank, d = ' ' ∨ d = '\t') →
      ¬w <:+: "flags".toList ++ blank := by
    intro blank
    induction blank using List.reverseRecOn with
    | nil => exact fun _ => hflags
    | append_singleton blank d ih =>
      intro hblank
      have hd : d ∉ w := by rcases hblank d (by simp) with rfl | rfl <;> exact hw _ (by simp)
      rw [← List.append_assoc, infix_append_cons_iff hd hne, List.infix_nil, or_iff_left hne]
      exact ih fun d hm => hblank d (List.mem_append_left _ hm)
  have hline : w <:+: flagsLine c.blank c.flags ↔ ∃ flag ∈ c.flags, w <:+: flag := by
    rw [flagsLine, infix_append_cons_iff (hw _ (by simp)) hne, or_iff_right (hstart c.blanks)]
    have hall := infix_flatMap_iff (hw ' ' (by simp)) hne c.flags []
    rwa [List.nil_append, List.infix_nil, or_iff_right hne] at hall
  obtain ⟨tail, rfl | rfl, hpath⟩ := c.path_of_fits hfits
  · rw [hpath, List.append_nil, hline]
  · rw [hpath, infix_line_iff (hw _ (by simp)) hne, hline]

section
variable (hfits : ∀ l ∈ c.before, l.length + 1 < strSize)
  (hlegible : ∀ l ∈ c.before, "model name".toList <+: l → Legible (l ++ ['\n']))
  (honly : ∀ l ∈ c.before, "model name".toList <+: l → ∀ vendor : Vendor, vendor.name <:+: l →
    vendor = c.vendor)
include hfits hlegible honly

/-- **The usual text**: with short lines before, what matters is the part of the flags line that
is looked at. -/
theorem recognizable_iff (prior : ProcessorType) :
    Recognizable c prior ↔
      (("nx".toList <:+: c.path ∧ ("svm".toList <:+: c.path ∨ "vmx".toList <:+: c.path)) ↔
        "nx".toList ∈ c.flags ∧ ("svm".toList ∈ c.flags ∨ "vmx".toList ∈ c.flags)) ∧
      (" lm ".toList <:+: c.path ∨ prior = c.vendor.type ↔ "lm".toList ∈ c.flags) := by
  obtain ⟨hseen, hpath⟩ := c.seen_of_fits hfits
  have hvendor : vendorSeen c.seen = some c.vendor := by rw [hseen, c.vendorSeen_lines honly]
  have htype : " lm ".toList <:+: c.flagsPath ∧ vendorSeen c.seen = some c.vendor ∨
      prior = c.vendor.type ∧ (" lm ".toList <:+: c.flagsPath → vendorSeen c.seen = none) ↔
      " lm ".toList <:+: c.path ∨ prior = c.vendor.type := by
    rw [← typeSeen_eq_iff]
    unfold typeSeen
    rw [hvendor, hpath]
    split
    · rename_i hlm
      exact iff_of_true rfl (.inl hlm)
    · rename_i hlm
      exact (or_iff_right hlm).symm
  have hmodel : ∀ p ∈ c.seen, "model name".toList <+: p → Legible p := by
    intro p hp hprefix
    rw [hseen] at hp
    obtain ⟨l, hl, rfl⟩ := List.mem_map.1 hp
    exact hlegible l hl ((prefix_line_iff (by decide) l).1 hprefix)
  constructor
  · intro h
    exact ⟨hpath ▸ h.virt, htype.symm.trans h.type⟩
  · rintro ⟨hvirt, hlm⟩
    exact ⟨hmodel, hpath ▸ hvirt, htype.trans hlm⟩

/-- **The usual text with a flags line that fits**: the names may not be parts of other flags only,
and `lm` may not be the last one. -/
theorem recognizable_fits_iff (hline : (flagsLine c.blank c.flags).length + 1 < strSize)
    (prior : ProcessorType) :
    Recognizable c prior ↔
      (((∃ flag ∈ c.flags, "nx".toList <:+: flag) ∧
          ((∃ flag ∈ c.flags, "svm".toList <:+: flag) ∨ ∃ flag ∈ c.flags, "vmx".toList <:+: flag)) ↔
        "nx".toList ∈ c.flags ∧ ("svm".toList ∈ c.flags ∨ "vmx".toList ∈ c.flags)) ∧
      ("lm".toList ∈ c.flags.dropLast ∨ prior = c.vendor.type ↔ "lm".toList ∈ c.flags) := by
  rw [c.recognizable_iff hfits hlegible honly, c.lm_iff hline,
    c.name_iff hline (w := "nx".toList) (by simp) (by decide),
    c.name_iff hline (w := "svm".toList) (by simp) (by decide),
    c.name_iff hline (w := "vmx".toList) (by simp) (by decide)]

end

end CpuInfo

/-- **When the processor is detected.** -/
theorem setSystemDetails_detected_iff (c : CpuInfo) {system : System}
    (hfile : system.cpuInfo = some c.text) (osi : OsInterface) :
    (∃ osi', setSystemDetails system osi = some osi' ∧ Detected c osi') ↔
      Recognizable c osi.processorType ∧
        (execute system.hostnamectl).isSome ∧ (readOsRelease system.osRelease osi).isSome := by
  have hsame : ∀ osi osi', SameCpu osi osi' → (Detected c osi' ↔ Detected c osi) := by
    rintro osi osi' ⟨htype, -, hvirt⟩
    exact ⟨fun ⟨h1, h2⟩ => ⟨hvirt ▸ h1, htype ▸ h2⟩, fun ⟨h1, h2⟩ => ⟨hvirt ▸ h1, htype ▸ h2⟩⟩
  rw [setSystemDetails_cpu_iff hsame, hfile]
  refine and_congr_left' ?_
  obtain ⟨paths, hreads, hseen, hnul, hflags⟩ := c.reads_eq
  have hinit : Seen osi.processorType []
      ⟨List.replicate strSize '\x00', false, false, false, osi⟩ :=
    ⟨List.length_replicate, rfl, rfl, rfl, rfl⟩
  obtain ⟨hsome, hnone⟩ := cpuLoop_seen (c.flagsPath :: paths) hseen hinit
  rw [readCpuInfo, hreads]
  by_cases hlegible : ∀ path ∈ c.seen, "model name".toList <+: path → Legible path
  · obtain ⟨st, hst, hseen'⟩ := hsome hlegible
    obtain ⟨osi', hosi', htype, hvirt⟩ := cpuLoop_flags hnul hflags hseen' paths
    rw [List.nil_append] at htype
    rw [hst, hosi']
    constructor
    · rintro ⟨_, h, hdetected⟩
      cases h
      refine ⟨hlegible, hvirt.symm.trans hdetected.virt, ?_⟩
      rw [← typeSeen_eq_iff, ← htype]
      exact hdetected.type
    · intro h
      refine ⟨osi', rfl, hvirt.trans h.virt, ?_⟩
      rw [htype, typeSeen_eq_iff]
      exact h.type
  · rw [hnone hlegible]
    exact iff_of_false (fun ⟨_, h, _⟩ => by cases h) fun h => hlegible h.legible

/-- The flag `lm` as the last one on its line: it has no blank behind it. -/
theorem setSystemDetails_lm_last :
    let c : CpuText := ⟨["model name\t: Intel(R) Xeon(R)".toList], .intel, "\t\t".toList,
      ["fpu".toList, "vmx".toList, "nx".toList, "lm".toList], "\n".toList⟩
    (setSystemDetails ⟨some c.text, none, none⟩ initial).map (·.processorType) = some .unknown ∧
      "lm".toList ∈ c.flags := by
  decide +kernel

def xeon : CpuInfo where
  before := ["model name\t: Intel(R) Xeon(R)".toList]
  vendor := .intel
  blank := "\t\t".toList
  flags := ["fpu".toList, "vmx".toList, "lm".toList, "nx".toList]
  rest := "\n".toList
  nul := by decide
  newline := by decide
  first := by decide
  model := by decide
  known := .inl rfl
  blanks := List.forall_mem_cons.2 ⟨.inr rfl, List.forall_mem_singleton.2 (.inr rfl)⟩
  word := by
    have hwords : ∀ flag ∈ ["fpu".toList, "vmx".toList, "lm".toList, "nx".toList],
        flag ≠ [] ∧ flag.all (fun d => !isSpace d) = true := by decide
    intro flag hm
    obtain ⟨hne, hall⟩ := hwords flag hm
    exact ⟨hne, fun d hd => by simpa using List.all_eq_true.1 hall d hd⟩
  ended := .inr rfl

/-- With another flag behind it, it is found. -/
theorem setSystemDetails_detected_xeon :
    ∃ osi', setSystemDetails ⟨some xeon.text, none, none⟩ initial = some osi' ∧
      Detected xeon osi' := by
  have hlegible : ∀ l ∈ xeon.before, "model name".toList <+: l → Legible (l ++ ['\n']) :=
    List.forall_mem_singleton.2 fun _ =>
      ⟨"model name\t".toList, " Intel(R) Xeon(R)\n".toList, by decide, by decide, by decide⟩
  refine (setSystemDetails_detected_iff xeon rfl initial).2 ⟨?_, rfl, rfl⟩
  have honly : ∀ l ∈ xeon.before, "model name".toList <+: l → ∀ vendor : Vendor,
      vendor.name <:+: l → vendor = .intel := by
    refine List.forall_mem_singleton.2 fun _ vendor hname => ?_
    cases vendor with
    | intel => rfl
    | amd | ibm => exact absurd hname (by decide)
  exact (xeon.recognizable_fits_iff (by decide) hlegible honly (by decide) _).2 (by decide)

end OsInterface
