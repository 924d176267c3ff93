import Graviton.Utility.StringUtility

/-!
# `UpdateEtcHosts`: rewriting the hosts file

`OsInterface::UpdateEtcHosts` of `libs/utility/osinterface.cpp`: it reads the hosts file, drops
the lines that contain a given address or host name, and writes the rest back with the new
mappings after it. The outcome of every file operation is a parameter (`HostsIo`).

* `updateEtcHosts_eq`: the file a call writes when every operation succeeds.
* `updateEtcHosts_merged_iff`: exactly when that is the old file without the entries of the
  given addresses and hosts, followed by the mappings.
* `updateEtcHosts_idempotent`: a second call with the same lists changes nothing.
* `updateEtcHosts_allOrNothing_iff`: exactly when a call leaves either the whole new content or
  the old one, as its result says.
-/

namespace OsInterface

open Lib StringUtility

/-- The outcomes of the file operations of one call. -/
structure HostsIo where
  openRead : Bool
  openWrite : Bool
  -- the `i`-th write: whole, or failing after that many characters
  write : Nat → Option Nat

/-- What a series of writes leaves in a file just truncated: after a failed write the stream
drops the later ones. -/
def writeChunks (write : Nat → Option Nat) : Nat → List Str → Str
  | _, [] => []
  | i, chunk :: chunks =>
    match write i with
    | none => chunk ++ writeChunks write (i + 1) chunks
    | some k => chunk.take k

/-- The two loops that look for an address or a host in a line. -/
def useLine (ipList hostList : List Str) (line : Str) : Bool :=
  !(ipList.any fun ip => (find ip line).isSome) &&
    !(hostList.any fun host => (find host line).isSome)

/-- The text of one mapping, as `Format` prints it. -/
def ipLine (ip host fqdn : Str) : Str :=
  format "%s %s %s\n".toList (cstr ip ++ ' ' :: (cstr host ++ ' ' :: (cstr fqdn ++ ['\n'])))

/-- The loop over the mappings: the iterators of the other two lists move along unchecked, so a
shorter one is read past its end. -/
def ipLines : List Str → List Str → List Str → Option (List Str)
  | [], _, _ => some []
  | ip :: ipList, host :: hostList, fqdn :: fqdnList =>
    (ipLines ipList hostList fqdnList).map (ipLine ip host fqdn :: ·)
  | _ :: _, _, _ => none

/-- `UpdateEtcHosts` on a hosts file with the given content: the result and the content
afterwards. -/
def updateEtcHosts (io : HostsIo) (content : Str) (ipList hostList fqdnList : List Str) :
    Option (Bool × Str) :=
  if io.openRead then
    let fileContent := (lines content).filter (useLine ipList hostList)
    if io.openWrite then
      (ipLines ipList hostList fqdnList).map fun ipLines =>
        (true, writeChunks io.write 0 (fileContent.flatMap (fun newLine => [newLine, ['\n']]) ++
          ipLines))
    else some (false, content)
  else some (false, content)

/-! ## What the file should hold -/

def mapping (ip host fqdn : Str) : Str := ip ++ ' ' :: (host ++ ' ' :: fqdn)

def mappings (ipList hostList fqdnList : List Str) : List Str :=
  (ipList.zip (hostList.zip fqdnList)).map fun m => mapping m.1 m.2.1 m.2.2

/-- The old lines with no word among the addresses and hosts, then the mapping lines. -/
def merged (content : Str) (ipList hostList fqdnList : List Str) : Str :=
  unlines ((lines content).filter (fun line => ∀ w ∈ words line, w ∉ ipList ++ hostList) ++
    mappings ipList hostList fqdnList)

/-- A mapping line, with its newline, fits the buffer it is formatted in. -/
def Printable (line : Str) : Prop := '\x00' ∉ line ∧ line.length + 1 < stringBufferSize

/-! ## One mapping -/

theorem ipLine_length_le (ip host fqdn : Str) :
    (ipLine ip host fqdn).length ≤ (mapping ip host fqdn ++ ['\n']).length := by
  refine (format_length_le (by decide)).trans ?_
  have := cstr_length_le ip
  have := cstr_length_le host
  have := cstr_length_le fqdn
  simp only [mapping, List.length_append, List.length_cons, List.length_nil]
  omega

theorem ipLine_of_printable {ip host fqdn : Str} (h : Printable (mapping ip host fqdn)) :
    ipLine ip host fqdn = mapping ip host fqdn ++ ['\n'] := by
  obtain ⟨h0, hl⟩ := h
  simp only [mapping, List.mem_append, List.mem_cons, not_or] at h0
  obtain ⟨hip, -, hhost, -, hfqdn⟩ := h0
  rw [ipLine, cstr_eq_self_iff.2 hip, cstr_eq_self_iff.2 hhost, cstr_eq_self_iff.2 hfqdn,
    format_of_lt]
  · simp [mapping]
  · simp only [mapping, List.length_append, List.length_cons, List.length_nil] at hl ⊢
    omega

/-- A mapping printed at full length has no NUL to cut it and fits the buffer. -/
theorem printable_of_ipLine_length {ip host fqdn : Str}
    (h : (ipLine ip host fqdn).length = (mapping ip host fqdn ++ ['\n']).length) :
    Printable (mapping ip host fqdn) := by
  have hs : stringBufferSize = 4096 := rfl
  set text := cstr ip ++ ' ' :: (cstr host ++ ' ' :: (cstr fqdn ++ ['\n'])) with htext
  have hle : (ipLine ip host fqdn).length ≤ text.length := format_length_le (by decide)
  have hip := cstr_length_le ip
  have hhost := cstr_length_le host
  have hfqdn := cstr_length_le fqdn
  simp only [mapping, htext, List.length_append, List.length_cons, List.length_nil] at h hle
  have hfull : (ipLine ip host fqdn).length = text.length := by
    simp only [htext, List.length_append, List.length_cons, List.length_nil]
    omega
  have hfits := (format_length_eq_iff (by decide)).1 hfull
  constructor
  · have h1 := cstr_length_eq_iff.1 (show (cstr ip).length = ip.length by omega)
    have h2 := cstr_length_eq_iff.1 (show (cstr host).length = host.length by omega)
    have h3 := cstr_length_eq_iff.1 (show (cstr fqdn).length = fqdn.length by omega)
    simp [mapping, h1, h2, h3]
  · simp only [mapping, List.length_append, List.length_cons, List.length_nil] at hfits ⊢
    omega

/-! ## One call -/

theorem ipLines_eq : ∀ {ipList hostList fqdnList : List Str},
    hostList.length = ipList.length → fqdnList.length = ipList.length →
    ipLines ipList hostList fqdnList =
      some ((ipList.zip (hostList.zip fqdnList)).map fun m => ipLine m.1 m.2.1 m.2.2)
  | [], _, _, _, _ => rfl
  | ip :: ipList, host :: hostList, fqdn :: fqdnList, hh, hf => by
    rw [ipLines, ipLines_eq (Nat.succ.inj hh) (Nat.succ.inj hf)]
    rfl

theorem writeChunks_none {write : Nat → Option Nat} (hw : ∀ i, write i = none) :
    ∀ (i : Nat) (chunks : List Str), writeChunks write i chunks = chunks.flatten
  | _, [] => rfl
  | i, chunk :: chunks => by
    rw [writeChunks, hw, writeChunks_none hw (i + 1) chunks, List.flatten_cons]

theorem useLine_iff {ipList hostList : List Str} {line : Str} :
    useLine ipList hostList line = true ↔ ∀ e ∈ ipList ++ hostList, ¬ e <:+: line := by
  simp only [useLine, ← find_isSome_iff, List.mem_append, Bool.and_eq_true, Bool.not_eq_true',
    List.any_eq_false]
  exact ⟨fun h e he => he.elim (h.1 e) (h.2 e), fun h => ⟨fun e he => h e (.inl he),
    fun e he => h e (.inr he)⟩⟩

/-- A call that returns `true` has opened the file for reading and for writing. -/
theorem open_of_updateEtcHosts {io : HostsIo} {content file : Str}
    {ipList hostList fqdnList : List Str}
    (h : updateEtcHosts io content ipList hostList fqdnList = some (true, file)) :
    io.openRead = true ∧ io.openWrite = true := by
  unfold updateEtcHosts at h
  split at h
  · split at h
    · exact ⟨‹_›, ‹_›⟩
    · simp at h
  · simp at h

/-- The texts a call hands to `write`, one after the other. -/
def hostsChunks (content : Str) (ipList hostList fqdnList : List Str) : List Str :=
  ((lines content).filter (useLine ipList hostList)).flatMap (fun newLine => [newLine, ['\n']]) ++
    (ipList.zip (hostList.zip fqdnList)).map fun m => ipLine m.1 m.2.1 m.2.2

/-- The complete new content: the kept lines and the mappings as they are printed. -/
def newContent (content : Str) (ipList hostList fqdnList : List Str) : Str :=
  unlines ((lines content).filter (useLine ipList hostList)) ++
    (ipList.zip (hostList.zip fqdnList)).flatMap fun m => ipLine m.1 m.2.1 m.2.2

theorem hostsChunks_flatten (content : Str) (ipList hostList fqdnList : List Str) :
    (hostsChunks content ipList hostList fqdnList).flatten =
      newContent content ipList hostList fqdnList := by
  rw [hostsChunks, newContent, List.flatten_append, ← List.flatMap_def, unlines]
  congr 1
  induction (lines content).filter (useLine ipList hostList) with
  | nil => rfl
  | cons l ls ih => simp [ih]

/-- A call that opens the file both times. -/
theorem updateEtcHosts_open {io : HostsIo} (content : Str) {ipList hostList fqdnList : List Str}
    (hh : hostList.length = ipList.length) (hf : fqdnList.length = ipList.length)
    (hr : io.openRead = true) (ho : io.openWrite = true) :
    updateEtcHosts io content ipList hostList fqdnList =
      some (true, writeChunks io.write 0 (hostsChunks content ipList hostList fqdnList)) := by
  simp only [updateEtcHosts, hr, ho, if_true, ipLines_eq hh hf, Option.map_some, hostsChunks]

/-- **A successful call**: the lines that contain no address and no host, then the mappings as
they are printed. -/
theorem updateEtcHosts_eq {io : HostsIo} (content : Str) {ipList hostList fqdnList : List Str}
    (hh : hostList.length = ipList.length) (hf : fqdnList.length = ipList.length)
    (hr : io.openRead = true) (ho : io.openWrite = true) (hw : ∀ i, io.write i = none) :
    updateEtcHosts io content ipList hostList fqdnList =
      some (true, newContent content ipList hostList fqdnList) := by
  rw [updateEtcHosts_open content hh hf hr ho, writeChunks_none hw, hostsChunks_flatten]

theorem merged_eq (content : Str) (ipList hostList fqdnList : List Str) :
    merged content ipList hostList fqdnList =
      unlines ((lines content).filter fun line => ∀ w ∈ words line, w ∉ ipList ++ hostList) ++
        (ipList.zip (hostList.zip fqdnList)).flatMap fun m =>
          mapping m.1 m.2.1 m.2.2 ++ ['\n'] := by
  simp [merged, mappings, unlines, List.flatMap_append, List.flatMap_map]

/-- Every line the search keeps has no word among the addresses and hosts: a word occurs in its
line. -/
theorem kept_sublist (content : Str) (ipList hostList : List Str) :
    ((lines content).filter (useLine ipList hostList)).Sublist
      ((lines content).filter fun line => ∀ w ∈ words line, w ∉ ipList ++ hostList) := by
  refine List.monotone_filter_right _ fun line h => decide_eq_true fun w hw hm => ?_
  exact useLine_iff.1 h w hm (infix_of_mem_words hw)

/-- The search keeps the lines without such a word exactly when every line with an occurrence
has such a word. -/
theorem kept_eq_iff (content : Str) (ipList hostList : List Str) :
    (lines content).filter (useLine ipList hostList) =
        (lines content).filter (fun line => ∀ w ∈ words line, w ∉ ipList ++ hostList) ↔
      ∀ line ∈ lines content, ∀ e ∈ ipList ++ hostList, e <:+: line →
        ∃ w ∈ words line, w ∈ ipList ++ hostList := by
  constructor
  · intro h line hl e he hi
    by_contra hn
    push Not at hn
    have hm : line ∈ (lines content).filter fun l => ∀ w ∈ words l, w ∉ ipList ++ hostList :=
      List.mem_filter.2 ⟨hl, decide_eq_true hn⟩
    rw [← h] at hm
    exact useLine_iff.1 (List.mem_filter.1 hm).2 e he hi
  · intro h
    refine List.filter_congr fun line hl => Bool.eq_iff_iff.2 ?_
    rw [useLine_iff, decide_eq_true_iff]
    constructor
    · exact fun hn w hw hm => hn w hm (infix_of_mem_words hw)
    · intro hn e he hi
      obtain ⟨w, hw, hm⟩ := h line hl e he hi
      exact hn w hw hm

/-- **When a call drops no unrelated entry**: every old line in which an address or a host
occurs has one as a word, and every mapping line is printable. -/
theorem updateEtcHosts_merged_iff (io : HostsIo) (content : Str)
    (ipList hostList fqdnList : List Str) {file : Str} (hh : hostList.length = ipList.length)
    (hf : fqdnList.length = ipList.length) (hw : ∀ i, io.write i = none)
    (hu : updateEtcHosts io content ipList hostList fqdnList = some (true, file)) :
    file = merged content ipList hostList fqdnList ↔
      (∀ line ∈ lines content, ∀ e ∈ ipList ++ hostList, e <:+: line →
        ∃ w ∈ words line, w ∈ ipList ++ hostList) ∧
      ∀ line ∈ mappings ipList hostList fqdnList, Printable line := by
  obtain ⟨hr, ho⟩ := open_of_updateEtcHosts hu
  rw [updateEtcHosts_eq content hh hf hr ho hw, Option.some.injEq, Prod.mk.injEq] at hu
  rw [← hu.2, newContent, merged_eq, ← kept_eq_iff, mappings, List.forall_mem_map]
  have hle : ∀ m ∈ ipList.zip (hostList.zip fqdnList),
      (ipLine m.1 m.2.1 m.2.2).length ≤ (mapping m.1 m.2.1 m.2.2 ++ ['\n']).length :=
    fun m _ => ipLine_length_le _ _ _
  constructor
  · -- neither part is longer than what it should be, so both are as long
    intro h
    have hlen := congrArg List.length h
    have hkept := unlines_length_le (kept_sublist content ipList hostList)
    have hmaps := length_flatMap_le hle
    rw [List.length_append, List.length_append] at hlen
    refine ⟨eq_of_unlines_length (kept_sublist content ipList hostList) (by omega),
      fun m hm => printable_of_ipLine_length ?_⟩
    exact length_eq_of_flatMap hle (by omega) m hm
  · rintro ⟨hkept, hmaps⟩
    rw [hkept]
    congr 1
    simp only [List.flatMap_def]
    exact congrArg List.flatten (List.map_congr_left fun m hm => ipLine_of_printable (hmaps m hm))

def HostsIo.ok : HostsIo := ⟨true, true, fun _ => none⟩

/-- An old entry for the host itself is replaced, the one of another host is kept. -/
theorem updateEtcHosts_merged_replaced :
    "10.0.0.2 db\n10.0.0.1 n1 n1.lan\n".toList =
      merged "10.0.0.1 n1\n10.0.0.2 db".toList ["10.0.0.1".toList] ["n1".toList]
        ["n1.lan".toList] :=
  (updateEtcHosts_merged_iff .ok "10.0.0.1 n1\n10.0.0.2 db".toList ["10.0.0.1".toList]
    ["n1".toList] ["n1.lan".toList] rfl rfl (fun _ => rfl) (by decide)).2
      ⟨by decide, by unfold Printable; decide⟩

/-- The entry of another host is dropped because its address starts with the new one. -/
theorem updateEtcHosts_drops_unrelated :
    updateEtcHosts .ok "10.0.0.10 db\n".toList ["10.0.0.1".toList] ["n1".toList]
        ["n1.lan".toList] = some (true, "10.0.0.1 n1 n1.lan\n".toList) ∧
      "10.0.0.1 n1 n1.lan\n".toList ≠
        merged "10.0.0.10 db\n".toList ["10.0.0.1".toList] ["n1".toList] ["n1.lan".toList] := by
  decide

/-! ## A second call -/

/-- A second call leaves the file as the first one left it. -/
def Idempotent (content : Str) (ipList hostList fqdnList : List Str) : Prop :=
  ∃ file, updateEtcHosts .ok content ipList hostList fqdnList = some (true, file) ∧
    updateEtcHosts .ok file ipList hostList fqdnList = some (true, file)

/-- The text of a mapping, as it is printed before the newline. -/
def ipText (ip host fqdn : Str) : Str := cstr ip ++ ' ' :: (cstr host ++ ' ' :: cstr fqdn)

/-- A text that fits is printed whole; of one that fills the buffer the newline is cut. -/
theorem ipLine_cases {ip host fqdn : Str} (h : (ipText ip host fqdn).length < stringBufferSize) :
    ipLine ip host fqdn = ipText ip host fqdn ++ ['\n'] ∨
      ipLine ip host fqdn = ipText ip host fqdn := by
  have hs : stringBufferSize = 4096 := rfl
  have htext : cstr ip ++ ' ' :: (cstr host ++ ' ' :: (cstr fqdn ++ ['\n'])) =
      ipText ip host fqdn ++ ['\n'] := by simp [ipText]
  have hlen : (ipText ip host fqdn ++ ['\n']).length = (ipText ip host fqdn).length + 1 := by simp
  rw [ipLine, htext]
  by_cases hfits : (ipText ip host fqdn).length + 1 < stringBufferSize
  · exact .inl (format_of_lt (by rw [hlen]; exact hfits))
  · refine .inr ?_
    rw [format, if_neg (by omega), List.take_append_of_le_length (by omega),
      List.take_of_length_le (by omega)]

/-- The kept lines are kept again; so the file does not change, if every line of the mappings is
dropped. -/
theorem newContent_again {content : Str} {ipList hostList fqdnList : List Str}
    (h : ∀ line ∈ lines ((ipList.zip (hostList.zip fqdnList)).flatMap fun m =>
      ipLine m.1 m.2.1 m.2.2), ¬ useLine ipList hostList line = true) :
    newContent (newContent content ipList hostList fqdnList) ipList hostList fqdnList =
      newContent content ipList hostList fqdnList := by
  have hkept : ∀ l ∈ (lines content).filter (useLine ipList hostList), '\n' ∉ l :=
    fun l hl => newline_not_mem_of_mem_lines (List.mem_filter.1 hl).1
  have hagain : (lines (newContent content ipList hostList fqdnList)).filter
      (useLine ipList hostList) = (lines content).filter (useLine ipList hostList) := by
    rw [newContent, lines_unlines_append hkept, List.filter_append, List.filter_filter,
      List.filter_eq_nil_iff.2 h, List.append_nil]
    simp only [Bool.and_self]
  rw [newContent, hagain, ← newContent]

/-- **A second call changes nothing**, if of each mapping the address or the host has no NUL: then
the printed line holds it, and is found again. -/
theorem updateEtcHosts_idempotent (content : Str) {ipList hostList fqdnList : List Str}
    (hh : hostList.length = ipList.length) (hf : fqdnList.length = ipList.length)
    (hnl : ∀ e ∈ ipList ++ hostList ++ fqdnList, '\n' ∉ e)
    (hfits : ∀ m ∈ ipList.zip (hostList.zip fqdnList),
      (ipText m.1 m.2.1 m.2.2).length < stringBufferSize)
    (hnul : ∀ m ∈ ipList.zip (hostList.zip fqdnList), '\x00' ∉ m.1 ∨ '\x00' ∉ m.2.1) :
    Idempotent content ipList hostList fqdnList := by
  have hok : ∀ c, updateEtcHosts .ok c ipList hostList fqdnList =
      some (true, newContent c ipList hostList fqdnList) :=
    fun c => updateEtcHosts_eq c hh hf rfl rfl fun _ => rfl
  refine ⟨_, hok content, (hok _).trans (congrArg (fun c => some (true, c)) ?_)⟩
  refine newContent_again fun line hline huse => ?_
  have hmem : ∀ m ∈ ipList.zip (hostList.zip fqdnList),
      m.1 ∈ ipList ∧ m.2.1 ∈ hostList ∧ m.2.2 ∈ fqdnList := fun m hm =>
    ⟨(List.of_mem_zip hm).1, List.of_mem_zip (List.of_mem_zip hm).2⟩
  have htext : ∀ m ∈ ipList.zip (hostList.zip fqdnList), '\n' ∉ ipText m.1 m.2.1 m.2.2 := by
    intro m hm
    obtain ⟨hip, hhost, hfqdn⟩ := hmem m hm
    have hcstr : ∀ {e : Str}, '\n' ∉ e → '\n' ∉ cstr e := fun h hc =>
      h ((List.takeWhile_sublist _).mem hc)
    have h1 := hcstr (hnl m.1 (by simp [hip]))
    have h2 := hcstr (hnl m.2.1 (by simp [hhost]))
    have h3 := hcstr (hnl m.2.2 (by simp [hfqdn]))
    simp [ipText, h1, h2, h3]
  -- a line of the mappings holds the text of one of them
  obtain ⟨m, hm, hin⟩ := exists_infix_of_mem_lines (fun m => ipText m.1 m.2.1 m.2.2)
    (fun m hm => ⟨htext m hm, by simp [ipText], ipLine_cases (hfits m hm)⟩) line hline
  obtain ⟨hip, hhost, -⟩ := hmem m hm
  have hdrop := useLine_iff.1 huse
  rcases hnul m hm with h0 | h0
  · refine hdrop m.1 (List.mem_append_left _ hip) (List.IsInfix.trans ?_ hin)
    rw [ipText, cstr_eq_self_iff.2 h0]
    exact (List.prefix_append _ _).isInfix
  · refine hdrop m.2.1 (List.mem_append_right _ hhost) (List.IsInfix.trans ?_ hin)
    rw [ipText, cstr_eq_self_iff.2 h0]
    exact ⟨cstr m.1 ++ [' '], ' ' :: cstr m.2.2, by simp⟩

/-- A host that is looked for in a file that has its name in another one. -/
theorem updateEtcHosts_idempotent_host :
    Idempotent "10.0.0.2 n10\n127.0.0.1 localhost".toList ["10.0.0.1".toList] ["n1".toList]
      ["n1.lan".toList] :=
  updateEtcHosts_idempotent _ rfl rfl (by decide) (by decide) (by decide)

/-- Both names of a host end with a NUL: the line that is printed without them is not found, and
the second call adds another. -/
theorem updateEtcHosts_not_idempotent :
    (∀ e ∈ ["10.0.0.1\x00".toList, "n1\x00".toList, "n1.lan".toList], '\n' ∉ e) ∧
      updateEtcHosts .ok [] ["10.0.0.1\x00".toList] ["n1\x00".toList] ["n1.lan".toList] =
        some (true, "10.0.0.1 n1 n1.lan\n".toList) ∧
      updateEtcHosts .ok "10.0.0.1 n1 n1.lan\n".toList ["10.0.0.1\x00".toList]
          ["n1\x00".toList] ["n1.lan".toList] =
        some (true, "10.0.0.1 n1 n1.lan\n10.0.0.1 n1 n1.lan\n".toList) ∧
      ¬ Idempotent [] ["10.0.0.1\x00".toList] ["n1\x00".toList] ["n1.lan".toList] := by
  have hfirst : updateEtcHosts .ok [] ["10.0.0.1\x00".toList] ["n1\x00".toList]
      ["n1.lan".toList] = some (true, "10.0.0.1 n1 n1.lan\n".toList) := by decide
  have hsecond : updateEtcHosts .ok "10.0.0.1 n1 n1.lan\n".toList ["10.0.0.1\x00".toList]
      ["n1\x00".toList] ["n1.lan".toList] =
        some (true, "10.0.0.1 n1 n1.lan\n10.0.0.1 n1 n1.lan\n".toList) := by decide
  refine ⟨by decide, hfirst, hsecond, ?_⟩
  rintro ⟨file, h1, h2⟩
  obtain ⟨-, rfl⟩ := Prod.mk.inj (Option.some.inj (h1.symm.trans hfirst))
  exact absurd (h2.symm.trans hsecond) (by decide)

/-! ## A failing write -/

/-- A call that returns `true` has written the complete new content, one that returns `false`
has left the old one. -/
def AllOrNothing (io : HostsIo) (content : Str) (ipList hostList fqdnList : List Str) : Prop :=
  ∀ success file, updateEtcHosts io content ipList hostList fqdnList = some (success, file) →
    file = if success then newContent content ipList hostList fqdnList else content

/-- No write fails before its text is out, and only the last one fails at all. -/
def WrittenOut (write : Nat → Option Nat) (chunks : List Str) : Prop :=
  ∀ i chunk k, chunks[i]? = some chunk → write i = some k →
    i + 1 = chunks.length ∧ chunk.length ≤ k

theorem ipLine_ne_nil (ip host fqdn : Str) : ipLine ip host fqdn ≠ [] :=
  format_ne_nil (List.append_ne_nil_of_right_ne_nil _ (List.cons_ne_nil _ _))

/-- The last text written ends with a newline or is a printed mapping: it is not empty. -/
theorem getLast_hostsChunks {content chunk : Str} {ipList hostList fqdnList : List Str}
    (h : chunk ∈ (hostsChunks content ipList hostList fqdnList).getLast?) : chunk ≠ [] := by
  rw [hostsChunks, List.getLast?_append] at h
  cases hm : ((ipList.zip (hostList.zip fqdnList)).map fun m =>
      ipLine m.1 m.2.1 m.2.2).getLast? with
  | some line =>
    obtain ⟨m, -, rfl⟩ := List.mem_map.1 (List.mem_of_getLast? hm)
    rw [hm] at h
    obtain rfl : ipLine m.1 m.2.1 m.2.2 = chunk := by simpa using h
    exact ipLine_ne_nil _ _ _
  | none =>
    rw [hm, Option.none_or] at h
    rcases ((lines content).filter (useLine ipList hostList)).eq_nil_or_concat with
      hk | ⟨ls, l, hk⟩
    · simp [hk] at h
    · rw [hk, List.concat_eq_append, List.flatMap_append, List.getLast?_append] at h
      obtain rfl : ['\n'] = chunk := by simpa using h
      exact List.cons_ne_nil _ _

theorem writtenOut_cons {write : Nat → Option Nat} {chunk : Str} {chunks : List Str} :
    WrittenOut write (chunk :: chunks) ↔
      (∀ k, write 0 = some k → chunks = [] ∧ chunk.length ≤ k) ∧
        WrittenOut (fun i => write (i + 1)) chunks := by
  constructor
  · intro h
    refine ⟨fun k hk => ?_, fun i c k hi hk => ?_⟩
    · obtain ⟨hl, hle⟩ := h 0 chunk k rfl hk
      exact ⟨by simpa using hl, hle⟩
    · obtain ⟨hl, hle⟩ := h (i + 1) c k hi hk
      exact ⟨by simpa using hl, hle⟩
  · rintro ⟨h0, h⟩ (_ | i) c k hi hk
    · obtain rfl : chunk = c := by simpa using hi
      obtain ⟨rfl, hle⟩ := h0 k hk
      exact ⟨rfl, hle⟩
    · obtain ⟨hl, hle⟩ := h i c k hi hk
      exact ⟨by simp [hl], hle⟩

/-- A failing write leaves less than all of the texts, unless it was the last one and its text
was out. -/
theorem take_eq_flatten_iff {chunk : Str} {chunks : List Str} {k : Nat}
    (hlast : ∀ c ∈ chunks.getLast?, c ≠ []) :
    chunk.take k = chunk ++ chunks.flatten ↔ chunks = [] ∧ chunk.length ≤ k := by
  constructor
  · intro h
    have hl := congrArg List.length h
    rw [List.length_take, List.length_append] at hl
    rcases chunks.eq_nil_or_concat with rfl | ⟨init, c, rfl⟩
    · exact ⟨rfl, by simpa using h⟩
    · have hc := List.length_pos_of_ne_nil (hlast c (by simp))
      rw [List.concat_eq_append, List.flatten_append, List.flatten_singleton,
        List.length_append] at hl
      omega
  · rintro ⟨rfl, hle⟩
    rw [List.take_of_length_le hle, List.flatten_nil, List.append_nil]

/-- All of a series of texts is in the file exactly if it was written out. -/
theorem writeChunks_eq_flatten_iff {write : Nat → Option Nat} : ∀ {i : Nat} {chunks : List Str},
    (∀ chunk ∈ chunks.getLast?, chunk ≠ []) →
    (writeChunks write i chunks = chunks.flatten ↔ WrittenOut (fun j => write (j + i)) chunks)
  | _, [], _ => ⟨fun _ _ _ _ h => by simp at h, fun _ => rfl⟩
  | i, chunk :: chunks, hlast => by
    have hlast' : ∀ c ∈ chunks.getLast?, c ≠ [] := by
      intro c hc
      refine hlast c ?_
      cases chunks with
      | nil => cases hc
      | cons _ _ => exact hc
    have ih := @writeChunks_eq_flatten_iff write (i + 1) _ hlast'
    have hshift : (fun j => write (j + (i + 1))) = fun j => write (j + 1 + i) :=
      funext fun j => congrArg write (by omega)
    rw [hshift] at ih
    rw [writeChunks, List.flatten_cons, writtenOut_cons, Nat.zero_add, ← ih]
    cases hw : write i with
    | none => simp
    | some k =>
      simp only [take_eq_flatten_iff hlast', Option.some.injEq, forall_eq']
      constructor
      · rintro ⟨rfl, hle⟩
        exact ⟨⟨rfl, hle⟩, rfl⟩
      · exact And.left

/-- A call that cannot open the file leaves it as it is. -/
theorem updateEtcHosts_not_open {io : HostsIo} (content : Str)
    (ipList hostList fqdnList : List Str) (h : ¬ (io.openRead = true ∧ io.openWrite = true)) :
    updateEtcHosts io content ipList hostList fqdnList = some (false, content) := by
  unfold updateEtcHosts
  split
  · split
    · exact absurd ⟨‹_›, ‹_›⟩ h
    · rfl
  · rfl

/-- **When a call is all or nothing**: one of the two opens fails, or no write fails before all
of the new content is out. -/
theorem updateEtcHosts_allOrNothing_iff (io : HostsIo) (content : Str)
    (ipList hostList fqdnList : List Str) (hh : hostList.length = ipList.length)
    (hf : fqdnList.length = ipList.length) :
    AllOrNothing io content ipList hostList fqdnList ↔
      (io.openRead = true ∧ io.openWrite = true →
        WrittenOut io.write (hostsChunks content ipList hostList fqdnList)) := by
  by_cases ho : io.openRead = true ∧ io.openWrite = true
  · have hiff := @writeChunks_eq_flatten_iff io.write 0
      (hostsChunks content ipList hostList fqdnList) fun _ => getLast_hostsChunks
    rw [hostsChunks_flatten] at hiff
    simp only [AllOrNothing, updateEtcHosts_open content hh hf ho.1 ho.2, Option.some.injEq,
      Prod.mk.injEq]
    constructor
    · exact fun h _ => hiff.1 (h true _ ⟨rfl, rfl⟩)
    · rintro h success file ⟨rfl, rfl⟩
      exact hiff.2 (h ho)
  · refine ⟨fun _ h => absurd h ho, fun _ success file h => ?_⟩
    rw [updateEtcHosts_not_open content ipList hostList fqdnList ho, Option.some.injEq,
      Prod.mk.injEq] at h
    obtain ⟨rfl, rfl⟩ := h
    rfl

/-- A call whose operations all succeed. -/
theorem updateEtcHosts_allOrNothing_ok :
    AllOrNothing .ok "10.0.0.2 db\n".toList ["10.0.0.1".toList] ["n1".toList]
      ["n1.lan".toList] :=
  (updateEtcHosts_allOrNothing_iff .ok "10.0.0.2 db\n".toList ["10.0.0.1".toList]
    ["n1".toList] ["n1.lan".toList] rfl rfl).2 fun _ _ _ _ _ h => nomatch h

/-- The disk is full after three characters: the call still returns `true`. -/
theorem updateEtcHosts_not_allOrNothing :
    ¬ AllOrNothing ⟨true, true, fun _ => some 3⟩ "10.0.0.2 db\n".toList ["10.0.0.1".toList]
      ["n1".toList] ["n1.lan".toList] := by
  intro h
  exact absurd (h true "10.".toList (by decide)) (by decide)

end OsInterface
