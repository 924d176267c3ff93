import Graviton.Utility.EtcHosts
import Graviton.Utility.Execute
import Graviton.Utility.FileUtility
import Graviton.Utility.SplitIpv4

/-!
# `AddNodes`

How graviton0 adds nodes (`apps/graviton0/main.cpp`): for each address it makes up a host name,
copies the key of the user to that host, and at last writes the hosts file and the one of ansible.
The commands are what `popen` makes of them (`Shell`); they do not touch the two files. A command
is a text here: what the shell does with it is not modelled.

* `addNodesLoop_spec`: the lists, the text and the commands after the loop.
* `addNodes_written`: the two files as texts, and the commands.
* `addNodes_consistent`: the two files by their lines, the names and the commands agree.
-/

namespace Graviton0

open Lib StringUtility OsInterface FileUtility

/-! ## The program -/

/-- A command given to `popen`, and whether a shell was started for it. -/
structure Command where
  text : Str
  started : Bool
  deriving DecidableEq

/-- What becomes of a command, by those before it: the process that `popen` starts and, where that
prints nothing, the character that `back` finds of the empty output, if it returns. -/
structure Shell where
  popen : List Command → Str → Option Process
  back : List Command → Str → Option Char

/-- `Osi.Execute`, by the commands run so far. -/
def runCommand (shell : Shell) (commands : List Command) (command : Str) :
    Option (List Command × Str) :=
  let process := shell.popen commands (cstr command)
  let after := commands ++ [⟨cstr command, process.isSome⟩]
  match execute process with
  | some (_, output) => some (after, output)
  | none =>
    -- `output` is empty: a newline found by `back` is erased at `npos`, which throws
    (shell.back commands (cstr command)).bind fun c => if c = '\n' then none else some (after, [])

def checkHostName (shell : Shell) (commands : List Command) : Option (List Command × Str) :=
  runCommand shell commands "hostname".toList

def sshCopyId : Str := "ssh-copy-id ".toList

def prepareSshCommunication (shell : Shell) (commands : List Command) (user host : Str) :
    Option (List Command × Str) :=
  runCommand shell commands
    (format "ssh-copy-id %s@%s".toList (sshCopyId ++ cstr user ++ '@' :: cstr host))

/-- `StringBuilder::AppendLine`, to the text so far. -/
def appendLine (text fmt line : Str) : Str := text ++ format fmt line ++ ['\n']

def servers : Str := "[servers]".toList
def ansibleSshHost : Str := " ansible_ssh_host=".toList
def root : Str := "root".toList

/-- The variables of the loop of `AddNodes`, and the commands run so far. -/
structure Nodes where
  hostList : List Str
  fqdnList : List Str
  sb : Str
  commands : List Command

/-- The loop of `AddNodes`, from `idx` on. -/
def addNodesLoop (shell : Shell) (pfx domain : Str) :
    List Str → Nat → Nodes → Option Nodes
  | [], _, nodes => some nodes
  | ip :: ipList, idx, nodes =>
    let host := format "%s%d".toList (cstr pfx ++ Nat.toDigits 10 idx)
    let fqdn := format "%s%d.%s".toList (cstr pfx ++ Nat.toDigits 10 idx ++ '.' :: cstr domain)
    (prepareSshCommunication shell nodes.commands root fqdn).bind fun (commands, _) =>
      addNodesLoop shell pfx domain ipList (idx + 1)
        { hostList := nodes.hostList ++ [host]
          fqdnList := nodes.fqdnList ++ [fqdn]
          sb := appendLine nodes.sb "%s ansible_ssh_host=%s".toList
            (cstr host ++ ansibleSshHost ++ cstr ip)
          commands := commands }

/-- What a call of `AddNodes` leaves: the commands it ran, what `UpdateEtcHosts` returned, if it
was called, and the two files. -/
structure Added where
  commands : List Command
  updated : Option Bool
  etcHosts : Str
  ansibleHosts : Option Str

/-- How the operations on the two files come out. -/
structure FilesIo where
  hosts : HostsIo
  ansible : WriteIo

/-- Every operation succeeds. -/
def FilesIo.ok : FilesIo := ⟨.ok, ⟨true, none⟩⟩

/-- `AddNodes`; `none` where it does not return. -/
def addNodes (fuel : Nat) (shell : Shell) (io : FilesIo) (pfx domain ipAddresses etcHosts : Str)
    (ansibleHosts : Option Str) : Option Added :=
  (checkHostName shell []).bind fun (commands, _) =>
    match splitIpv4 fuel ipAddresses [] with
    | .returned count ipList =>
      if count > 0 then
        let nodes : Nodes := ⟨[], [], appendLine [] servers servers, commands⟩
        (addNodesLoop shell pfx domain ipList 1 nodes).bind fun nodes =>
          (updateEtcHosts io.hosts etcHosts ipList nodes.hostList nodes.fqdnList).map
            fun (updated, etcHosts) =>
              ⟨nodes.commands, some updated, etcHosts,
                writeToFile io.ansible (cstr nodes.sb) false ansibleHosts⟩
      else some ⟨commands, none, etcHosts, ansibleHosts⟩
    | _ => none

/-! ## What the two files should hold -/

/-- `prefix<i>`. -/
def nodeHost (pfx : Str) (i : Nat) : Str := cstr pfx ++ Nat.toDigits 10 i

/-- `prefix<i>.domain`. -/
def nodeFqdn (pfx domain : Str) (i : Nat) : Str := nodeHost pfx i ++ '.' :: cstr domain

def hostsLine (pfx domain : Str) (node : Str × Nat) : Str :=
  mapping node.1 (nodeHost pfx node.2) (nodeFqdn pfx domain node.2)

def ansibleLine (pfx : Str) (node : Str × Nat) : Str :=
  nodeHost pfx node.2 ++ ansibleSshHost ++ node.1

/-- `ssh-copy-id root@prefix<i>.domain`. -/
def sshCommand (pfx domain : Str) (i : Nat) : Str :=
  sshCopyId ++ root ++ '@' :: nodeFqdn pfx domain i

/-- The addresses, numbered from 1. -/
def numbered (ipList : List Str) : List (Str × Nat) := ipList.zipIdx 1

/-- The texts of a node fit the buffer they are formatted in. -/
structure Fits (pfx domain : Str) (node : Str × Nat) : Prop where
  hosts : (hostsLine pfx domain node ++ ['\n']).length < stringBufferSize
  ansible : (ansibleLine pfx node).length < stringBufferSize
  ssh : (sshCommand pfx domain node.2).length < stringBufferSize

/-- The lines of the old hosts file that are kept. -/
def kept (pfx : Str) (ipList : List Str) (etcHosts : Str) : List Str :=
  (lines etcHosts).filter (useLine ipList ((numbered ipList).map fun node => nodeHost pfx node.2))

/-- The two files, the names and the commands agree: the hosts file ends with the lines of the
nodes, and the one of ansible has nothing but theirs. -/
structure Consistent (pfx domain : Str) (ipList : List Str) (etcHosts : Str) (after : Added) :
    Prop where
  hosts : lines after.etcHosts =
    kept pfx ipList etcHosts ++ (numbered ipList).map (hostsLine pfx domain)
  ansible : after.ansibleHosts.map lines =
    some (servers :: (numbered ipList).map (ansibleLine pfx))
  distinct : ((numbered ipList).map fun node => nodeHost pfx node.2).Nodup
  ssh : after.commands.map Command.text =
    "hostname".toList :: (numbered ipList).map fun node => sshCommand pfx domain node.2
  once : ((numbered ipList).map fun node => sshCommand pfx domain node.2).Nodup

/-- The program does not get past a command: it prints nothing, and `back` of the empty output
finds a newline or does not return. -/
def Shell.Stops (shell : Shell) (commands : List Command) (command : Str) : Prop :=
  execute (shell.popen commands command) = none ∧
    ∀ c ∈ shell.back commands command, c = '\n'

/-! ## One node -/

theorem not_mem_nodeHost {c : Char} (hdigit : isDigit c = false) {pfx : Str} (h : c ∉ cstr pfx)
    (i : Nat) : c ∉ nodeHost pfx i := by
  rw [nodeHost, List.mem_append, not_or]
  refine ⟨h, fun hm => ?_⟩
  rw [isDigit_of_mem_toDigits hm] at hdigit
  cases hdigit

theorem not_mem_nodeFqdn {c : Char} (hdigit : isDigit c = false) (hdot : c ≠ '.')
    {pfx domain : Str} (hpfx : c ∉ cstr pfx) (hdomain : c ∉ cstr domain) (i : Nat) :
    c ∉ nodeFqdn pfx domain i := by
  simp [nodeFqdn, not_mem_nodeHost hdigit hpfx, hdot, hdomain]

theorem nul_not_mem_nodeHost (pfx : Str) (i : Nat) : '\x00' ∉ nodeHost pfx i :=
  not_mem_nodeHost rfl nul_not_mem_cstr i

theorem nul_not_mem_nodeFqdn (pfx domain : Str) (i : Nat) : '\x00' ∉ nodeFqdn pfx domain i :=
  not_mem_nodeFqdn rfl (by decide) nul_not_mem_cstr nul_not_mem_cstr i

theorem newline_not_mem_hostsLine {pfx domain : Str} (hpfx : '\n' ∉ cstr pfx)
    (hdomain : '\n' ∉ cstr domain) {node : Str × Nat} (hip : '\n' ∉ node.1) :
    '\n' ∉ hostsLine pfx domain node := by
  simp [hostsLine, mapping, hip, not_mem_nodeHost rfl hpfx,
    not_mem_nodeFqdn rfl (by decide) hpfx hdomain]

/-- The number can be read off the name. -/
theorem nodeHost_inj {pfx : Str} {i j : Nat} (h : nodeHost pfx i = nodeHost pfx j) : i = j := by
  have hdigits := List.append_cancel_left h
  rw [← numeral_toDigits (b := 10) (by decide) (by decide) i, hdigits,
    numeral_toDigits (by decide) (by decide)]

theorem sshCommand_inj {pfx domain : Str} {i j : Nat}
    (h : sshCommand pfx domain i = sshCommand pfx domain j) : i = j := by
  have hfqdn := (List.cons.inj (List.append_cancel_left h)).2
  exact nodeHost_inj (List.append_cancel_right hfqdn)

/-! ## One command -/

/-- A command that is run is one more. -/
theorem runCommand_commands {shell : Shell} {commands : List Command} {command : Str}
    {r : List Command × Str} (h : runCommand shell commands command = some r) :
    r.1.map Command.text = commands.map Command.text ++ [cstr command] := by
  rw [runCommand] at h
  split at h
  · obtain rfl := Option.some.inj h
    exact List.map_append
  · obtain ⟨c, -, h⟩ := Option.bind_eq_some_iff.1 h
    obtain ⟨-, h⟩ := Option.ite_none_left_eq_some.1 h
    obtain rfl := Option.some.inj h
    exact List.map_append

theorem stops_of_runCommand {shell : Shell} {commands : List Command} {command : Str}
    (h : runCommand shell commands command = none) : shell.Stops commands (cstr command) := by
  rw [runCommand] at h
  split at h
  · cases h
  · rename_i hnone
    refine ⟨hnone, fun c hc => ?_⟩
    rw [Option.bind_eq_none_iff] at h
    by_contra hne
    have := h c hc
    rw [if_neg hne] at this
    cases this

/-! ## One node, as it is printed -/

section
variable {pfx domain : Str} {node : Str × Nat} (h : Fits pfx domain node)
include h

theorem format_nodeFqdn (fmt : Str) :
    format fmt (cstr pfx ++ Nat.toDigits 10 node.2 ++ '.' :: cstr domain) =
      nodeFqdn pfx domain node.2 := by
  have hhosts := h.hosts
  refine format_of_lt (show (nodeFqdn pfx domain node.2).length < _ from ?_)
  simp only [hostsLine, mapping, List.length_append, List.length_cons] at hhosts
  omega

theorem format_nodeHost (fmt : Str) :
    format fmt (cstr pfx ++ Nat.toDigits 10 node.2) = nodeHost pfx node.2 := by
  have hhosts := h.hosts
  refine format_of_lt (show (nodeHost pfx node.2).length < _ from ?_)
  simp only [hostsLine, mapping, List.length_append, List.length_cons] at hhosts
  omega

theorem appendLine_ansibleLine (hip : '\x00' ∉ node.1) (sb fmt : Str) :
    appendLine sb fmt (cstr (nodeHost pfx node.2) ++ ansibleSshHost ++ cstr node.1) =
      sb ++ (ansibleLine pfx node ++ ['\n']) := by
  rw [cstr_eq_self_iff.2 (nul_not_mem_nodeHost pfx node.2), cstr_eq_self_iff.2 hip, appendLine,
    ← ansibleLine, format_of_lt h.ansible, List.append_assoc]

theorem ipLine_hostsLine (hip : '\x00' ∉ node.1) :
    ipLine node.1 (nodeHost pfx node.2) (nodeFqdn pfx domain node.2) =
      hostsLine pfx domain node ++ ['\n'] := by
  refine ipLine_of_printable ⟨?_, ?_⟩
  · simp [mapping, hip, nul_not_mem_nodeHost, nul_not_mem_nodeFqdn]
  · have hhosts := h.hosts
    rwa [List.length_append, List.length_singleton, hostsLine] at hhosts

/-- The command of a node is given to `popen` as it is printed. -/
theorem prepareSshCommunication_commands {shell : Shell} {commands : List Command}
    {r : List Command × Str}
    (hr : prepareSshCommunication shell commands root (nodeFqdn pfx domain node.2) = some r) :
    r.1.map Command.text = commands.map Command.text ++ [sshCommand pfx domain node.2] := by
  have htext : sshCopyId ++ cstr root ++ '@' :: cstr (nodeFqdn pfx domain node.2) =
      sshCommand pfx domain node.2 := by
    rw [cstr_eq_self_iff.2 (nul_not_mem_nodeFqdn pfx domain node.2)]
    rfl
  have hnul : '\x00' ∉ sshCommand pfx domain node.2 := by
    have hmark : '\x00' ∉ sshCopyId ++ root := by decide
    simp only [sshCommand, List.mem_append, List.mem_cons, not_or] at hmark ⊢
    exact ⟨hmark, by decide, nul_not_mem_nodeFqdn pfx domain node.2⟩
  rw [prepareSshCommunication, htext, format_of_lt h.ssh] at hr
  rw [runCommand_commands hr, cstr_eq_self_iff.2 hnul]

end

/-! ## All nodes -/

/-- **The loop**: each of the lists, the text and the commands grow by one entry for each address,
in step. -/
theorem addNodesLoop_spec {shell : Shell} {pfx domain : Str} :
    ∀ {ipList : List Str} {idx : Nat} {nodes after : Nodes},
    (∀ ip ∈ ipList, '\x00' ∉ ip) → (∀ node ∈ ipList.zipIdx idx, Fits pfx domain node) →
    addNodesLoop shell pfx domain ipList idx nodes = some after →
    after.hostList = nodes.hostList ++ (ipList.zipIdx idx).map (fun node => nodeHost pfx node.2) ∧
    after.fqdnList =
      nodes.fqdnList ++ (ipList.zipIdx idx).map (fun node => nodeFqdn pfx domain node.2) ∧
    after.sb = nodes.sb ++ unlines ((ipList.zipIdx idx).map (ansibleLine pfx)) ∧
    after.commands.map Command.text = nodes.commands.map Command.text ++
      (ipList.zipIdx idx).map (fun node => sshCommand pfx domain node.2)
  | [], _, _, _, _, _, h => by
    cases h
    simp [unlines]
  | ip :: ipList, idx, nodes, after, hips, hfits, h => by
    obtain ⟨hip, hips⟩ := List.forall_mem_cons.1 hips
    rw [List.zipIdx_cons] at hfits ⊢
    obtain ⟨hnode, hfits⟩ := List.forall_mem_cons.1 hfits
    have hhost := format_nodeHost hnode "%s%d".toList
    have hfqdn := format_nodeFqdn hnode "%s%d.%s".toList
    dsimp only at hhost hfqdn
    rw [addNodesLoop, hhost, hfqdn, Option.bind_eq_some_iff] at h
    obtain ⟨r, hr, h⟩ := h
    have hcommands := prepareSshCommunication_commands hnode hr
    have hsb := appendLine_ansibleLine hnode hip nodes.sb "%s ansible_ssh_host=%s".toList
    obtain ⟨h1, h2, h3, h4⟩ := addNodesLoop_spec hips hfits h
    dsimp only at h1 h2 h3 h4 hsb
    rw [hsb] at h3
    rw [hcommands] at h4
    refine ⟨?_, ?_, ?_, ?_⟩
    · rw [h1, List.append_assoc]
      rfl
    · rw [h2, List.append_assoc]
      rfl
    · rw [h3, List.append_assoc]
      rfl
    · rw [h4, List.append_assoc]
      rfl

/-- The loop ends but for a command that the program does not get past. -/
theorem stops_of_addNodesLoop {shell : Shell} {pfx domain : Str} :
    ∀ {ipList : List Str} {idx : Nat} {nodes : Nodes},
    addNodesLoop shell pfx domain ipList idx nodes = none →
    ∃ commands command, shell.Stops commands command
  | [], _, _, h => by cases h
  | ip :: ipList, idx, nodes, h => by
    rw [addNodesLoop, Option.bind_eq_none_iff] at h
    cases hr : prepareSshCommunication shell nodes.commands root (format "%s%d.%s".toList
        (cstr pfx ++ Nat.toDigits 10 idx ++ '.' :: cstr domain)) with
    | none => exact ⟨_, _, stops_of_runCommand hr⟩
    | some r => exact stops_of_addNodesLoop (h r hr)

theorem numbered_nodup (ipList : List Str) {f : Nat → Str} (hf : ∀ {i j}, f i = f j → i = j) :
    ((numbered ipList).map fun node => f node.2).Nodup := by
  have hsnd : (numbered ipList).map Prod.snd = List.range' 1 ipList.length :=
    List.zipIdx_map_snd ..
  have hmap : ((numbered ipList).map fun node => f node.2) =
      ((numbered ipList).map Prod.snd).map f := by rw [List.map_map]; rfl
  rw [hmap, hsnd]
  exact (List.nodup_range' ..).map fun _ _ => hf

theorem length_numbered (ipList : List Str) : (numbered ipList).length = ipList.length :=
  List.length_zipIdx

theorem mem_of_mem_numbered {ipList : List Str} {node : Str × Nat} (h : node ∈ numbered ipList) :
    node.1 ∈ ipList := by
  rw [← List.zipIdx_map_fst 1 ipList]
  exact List.mem_map_of_mem h

theorem not_mem_ansibleLine {c : Char} (hc : c ∉ ansibleSshHost) {pfx : Str} {node : Str × Nat}
    (hhost : c ∉ nodeHost pfx node.2) (hip : c ∉ node.1) : c ∉ ansibleLine pfx node := by
  simp [ansibleLine, hhost, hc, hip]

/-- The mappings of the numbered addresses, as they are printed. -/
theorem newContent_numbered {pfx domain : Str} {ipList : List Str} (etcHosts : Str)
    (hips : ∀ ip ∈ ipList, '\x00' ∉ ip) (hfits : ∀ node ∈ numbered ipList, Fits pfx domain node) :
    newContent etcHosts ipList ((numbered ipList).map fun node => nodeHost pfx node.2)
        ((numbered ipList).map fun node => nodeFqdn pfx domain node.2) =
      unlines (kept pfx ipList etcHosts ++ (numbered ipList).map (hostsLine pfx domain)) := by
  have hfst : (numbered ipList).map Prod.fst = ipList := List.zipIdx_map_fst ..
  have hzip : ipList.zip (((numbered ipList).map fun node => nodeHost pfx node.2).zip
      ((numbered ipList).map fun node => nodeFqdn pfx domain node.2)) =
      (numbered ipList).map fun node =>
        (node.1, nodeHost pfx node.2, nodeFqdn pfx domain node.2) := by
    calc _ = ((numbered ipList).map Prod.fst).zip ((numbered ipList).map fun node =>
          (nodeHost pfx node.2, nodeFqdn pfx domain node.2)) := by rw [hfst, List.zip_map']
      _ = _ := List.zip_map' ..
  rw [newContent, hzip, List.flatMap_map, kept, unlines, unlines, List.flatMap_append,
    List.flatMap_map]
  congr 1
  simp only [List.flatMap_def]
  refine congrArg List.flatten (List.map_congr_left fun node hnode => ?_)
  exact ipLine_hostsLine (hfits node hnode) (hips _ (mem_of_mem_numbered hnode))

/-! ## One call -/

/-- The two files as texts, and the commands. -/
structure Written (pfx domain : Str) (ipList : List Str) (etcHosts : Str) (after : Added) :
    Prop where
  updated : after.updated = some true
  etcHosts : after.etcHosts =
    unlines (kept pfx ipList etcHosts ++ (numbered ipList).map (hostsLine pfx domain))
  ansibleHosts : after.ansibleHosts =
    some (unlines (servers :: (numbered ipList).map (ansibleLine pfx)))
  commands : after.commands.map Command.text =
    "hostname".toList :: (numbered ipList).map fun node => sshCommand pfx domain node.2

theorem nul_not_mem_of_returned {fuel n : Nat} {ipAddresses : Str} {output ipList : List Str}
    (hsplit : splitIpv4 fuel ipAddresses output = .returned n ipList) :
    ∀ ip ∈ ipList, '\x00' ∉ ip := fun ip hip =>
  ((splitIpv4_returned hsplit).2 ip hip).not_mem (by decide) rfl nul_not_mem_cstr

section
variable {fuel n : Nat} {shell : Shell} {pfx domain ipAddresses etcHosts : Str}
  {ansibleHosts : Option Str} {ipList : List Str}
  (hsplit : splitIpv4 fuel ipAddresses [] = .returned n ipList) (hn : 1 ≤ n)
  (hfits : ∀ node ∈ numbered ipList, Fits pfx domain node)
include hsplit hn hfits

/-- **What is written**, where every file operation succeeds. -/
theorem addNodes_written {after : Added}
    (hadd : addNodes fuel shell .ok pfx domain ipAddresses etcHosts ansibleHosts = some after) :
    Written pfx domain ipList etcHosts after := by
  have hips := nul_not_mem_of_returned hsplit
  rw [addNodes, Option.bind_eq_some_iff] at hadd
  obtain ⟨r, hname, hadd⟩ := hadd
  rw [hsplit] at hadd
  dsimp only at hadd
  rw [if_pos (show n > 0 from hn), Option.bind_eq_some_iff] at hadd
  obtain ⟨nodes, hloop, hadd⟩ := hadd
  obtain ⟨hhost, hfqdn, hsb, hcommands⟩ := addNodesLoop_spec hips hfits hloop
  rw [← numbered, List.nil_append] at hhost hfqdn
  rw [← numbered] at hsb hcommands
  have hcount := length_numbered ipList
  rw [hhost, hfqdn, updateEtcHosts_eq etcHosts (by rw [List.length_map, hcount])
    (by rw [List.length_map, hcount]) rfl rfl fun _ => rfl] at hadd
  obtain rfl := Option.some.inj hadd
  have htext : nodes.sb = unlines (servers :: (numbered ipList).map (ansibleLine pfx)) := by
    have hservers : appendLine [] servers servers = servers ++ ['\n'] := by decide
    rw [hsb]
    exact congrArg (· ++ _) hservers
  have hnul : '\x00' ∉ nodes.sb := by
    rw [htext]
    refine not_mem_unlines (by decide) (List.forall_mem_cons.2 ⟨by decide, ?_⟩)
    rw [List.forall_mem_map]
    exact fun node hnode => not_mem_ansibleLine (by decide) (nul_not_mem_nodeHost pfx _)
      (hips _ (mem_of_mem_numbered hnode))
  refine ⟨rfl, newContent_numbered etcHosts hips hfits, ?_, ?_⟩
  · show writeToFile ⟨true, none⟩ (cstr nodes.sb) false ansibleHosts = _
    rw [cstr_eq_self_iff.2 hnul, htext]
    rfl
  · show nodes.commands.map Command.text = _
    rw [hcommands, runCommand_commands hname]
    rfl

/-- A call returns but for a command that the program does not get past. -/
theorem stops_of_addNodes
    (hadd : addNodes fuel shell .ok pfx domain ipAddresses etcHosts ansibleHosts = none) :
    ∃ commands command, shell.Stops commands command := by
  have hips := nul_not_mem_of_returned hsplit
  rw [addNodes, Option.bind_eq_none_iff] at hadd
  cases hname : checkHostName shell [] with
  | none => exact ⟨_, _, stops_of_runCommand hname⟩
  | some r =>
    have hadd := hadd r hname
    rw [hsplit] at hadd
    dsimp only at hadd
    rw [if_pos (show n > 0 from hn), Option.bind_eq_none_iff] at hadd
    cases hloop : addNodesLoop shell pfx domain ipList 1
        ⟨[], [], appendLine [] servers servers, r.1⟩ with
    | none => exact stops_of_addNodesLoop hloop
    | some nodes =>
      have hadd := hadd nodes hloop
      obtain ⟨hhost, hfqdn, -⟩ := addNodesLoop_spec hips hfits hloop
      rw [hhost, hfqdn, updateEtcHosts_eq etcHosts (by simp) (by simp) rfl rfl fun _ => rfl] at hadd
      cases hadd

/-- **The two files agree**, for any number of addresses and whatever the commands print: a call
returns, if it gets past its commands, and once both files are written they have the lines of the
nodes. -/
theorem addNodes_consistent (hpfx : '\n' ∉ cstr pfx) (hdomain : '\n' ∉ cstr domain)
    (haddresses : '\n' ∉ cstr ipAddresses) :
    (numbered ipList).length = n ∧
      (∀ after,
        addNodes fuel shell .ok pfx domain ipAddresses etcHosts ansibleHosts = some after →
          after.updated = some true ∧ Consistent pfx domain ipList etcHosts after) ∧
      (addNodes fuel shell .ok pfx domain ipAddresses etcHosts ansibleHosts = none →
        ∃ commands command, shell.Stops commands command) := by
  obtain ⟨hlen, hips⟩ := splitIpv4_returned hsplit
  refine ⟨(length_numbered ipList).trans hlen.symm, fun after hadd => ?_,
    stops_of_addNodes hsplit hn hfits⟩
  obtain ⟨hupdated, hhosts, hansible, hcommands⟩ := addNodes_written hsplit hn hfits hadd
  have hip : ∀ node ∈ numbered ipList, '\n' ∉ node.1 := fun node hnode =>
    (hips _ (mem_of_mem_numbered hnode)).not_mem (by decide) rfl haddresses
  refine ⟨hupdated, ?_, ?_, numbered_nodup ipList nodeHost_inj, hcommands,
    numbered_nodup ipList sshCommand_inj⟩
  · rw [hhosts, lines_unlines]
    refine List.forall_mem_append.2 ⟨fun l hl => ?_, List.forall_mem_map.2 fun node hnode => ?_⟩
    · exact newline_not_mem_of_mem_lines (List.mem_filter.1 hl).1
    · exact newline_not_mem_hostsLine hpfx hdomain (hip node hnode)
  · rw [hansible, Option.map_some, lines_unlines]
    refine List.forall_mem_cons.2 ⟨by decide, List.forall_mem_map.2 fun node hnode => ?_⟩
    exact not_mem_ansibleLine (by decide) (not_mem_nodeHost rfl hpfx _) (hip node hnode)

end

/-- Two nodes; `ssh-copy-id` prints nothing, and `back` finds the zero before the empty text. -/
theorem addNodes_consistent_two :
    let shell : Shell := ⟨fun commands _ =>
      some ⟨if commands = [] then ["ok\n".toList] else [], 0⟩, fun _ _ => some '\x00'⟩
    let ipList := ["10.0.0.1".toList, "10.0.0.2".toList]
    ∃ after, addNodes 0 shell .ok "n".toList "lan".toList "10.0.0.1,10.0.0.2".toList
        "127.0.0.1 localhost\n".toList none = some after ∧
      (numbered ipList).length = 2 ∧ after.updated = some true ∧
      Consistent "n".toList "lan".toList ipList "127.0.0.1 localhost\n".toList after := by
  intro shell ipList
  have hsplit : splitIpv4 0 "10.0.0.1,10.0.0.2".toList [] = .returned 2 ipList :=
    (splitIpv4_eq 0 (by decide) []).trans (by decide)
  have hfits : ∀ node ∈ numbered ipList, Fits "n".toList "lan".toList node := by
    show ∀ node ∈ [("10.0.0.1".toList, 1), ("10.0.0.2".toList, 2)], Fits _ _ node
    rw [List.forall_mem_cons, List.forall_mem_singleton]
    exact ⟨⟨by decide, by decide, by decide⟩, ⟨by decide, by decide, by decide⟩⟩
  have hsome : (addNodes 0 shell .ok "n".toList "lan".toList "10.0.0.1,10.0.0.2".toList
      "127.0.0.1 localhost\n".toList none).isSome := by
    unfold addNodes
    rw [hsplit]
    rfl
  obtain ⟨after, hadd⟩ := Option.isSome_iff_exists.1 hsome
  refine ⟨after, hadd, ?_⟩
  obtain ⟨hlen, hconsistent, -⟩ :=
    addNodes_consistent hsplit (by decide) hfits (by decide) (by decide) (by decide)
  exact ⟨hlen, hconsistent after hadd⟩

/-- The lines of the nodes are lines. -/
theorem Consistent.newline_not_mem {pfx domain : Str} {ipList : List Str} {etcHosts : Str}
    {after : Added} (h : Consistent pfx domain ipList etcHosts after) :
    ∀ node ∈ numbered ipList, '\n' ∉ hostsLine pfx domain node := fun _ hnode =>
  newline_not_mem_of_mem_lines (s := after.etcHosts)
    (h.hosts ▸ List.mem_append_right _ (List.mem_map_of_mem hnode))

/-- A newline in the prefix, the domain or an address breaks a line of the hosts file; and where
`popen` fails, no command is run. -/
theorem addNodes_not_consistent :
    let talks : Shell := ⟨fun _ _ => some ⟨["ok\n".toList], 0⟩, fun _ _ => none⟩
    let fails : Shell := ⟨fun _ _ => none, fun _ _ => none⟩
    (∀ a ∈ [("a\nb", "lan", "10.0.0.1"), ("n", "l\nan", "10.0.0.1"), ("n", "lan", "10.0.0.1\n")],
      ∃ after, addNodes 0 talks .ok a.1.toList a.2.1.toList a.2.2.toList [] none = some after ∧
        after.updated = some true ∧
        ¬ Consistent a.1.toList a.2.1.toList [a.2.2.toList] [] after) ∧
    ∃ after, addNodes 0 fails .ok "n".toList "lan".toList "10.0.0.1".toList [] none = some after ∧
      after.updated = some true ∧ ∀ command ∈ after.commands, command.started = false := by
  intro talks fails
  have hsplit : splitIpv4 0 "10.0.0.1".toList [] = .returned 1 ["10.0.0.1".toList] :=
    (splitIpv4_eq 0 (by decide) []).trans (by decide)
  have hsplit' : splitIpv4 0 "10.0.0.1\n".toList [] = .returned 1 ["10.0.0.1\n".toList] :=
    (splitIpv4_eq 0 (by decide) []).trans (by decide)
  rw [List.forall_mem_cons, List.forall_mem_cons, List.forall_mem_singleton]
  unfold addNodes
  rw [hsplit, hsplit']
  refine ⟨⟨⟨_, rfl, rfl, fun h => ?_⟩, ⟨_, rfl, rfl, fun h => ?_⟩, _, rfl, rfl, fun h => ?_⟩,
    _, rfl, rfl, by decide⟩
  · exact h.newline_not_mem ("10.0.0.1".toList, 1) (by decide) (by decide)
  · exact h.newline_not_mem ("10.0.0.1".toList, 1) (by decide) (by decide)
  · exact h.newline_not_mem ("10.0.0.1\n".toList, 1) (by decide) (by decide)

end Graviton0
