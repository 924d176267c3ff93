import Graviton.App.AddNodes

/-!
# The names of the nodes

What the two files that `AddNodes` writes say of a name, word by word. A line of the hosts file
has an address and then its names; one of the inventory of ansible has a host and then its address.

* `isField_of_splitIpv4`: the addresses have no white space, if the text has none.
* `naming_hostsLines`: of the new lines, those that have a name are the one of its node.
* `addNodes_names`: in the whole file too, whatever the old one said of the name; and the
  inventory gives each host the same address, once.
-/

namespace Graviton0

open Lib StringUtility OsInterface FileUtility

/-! ## Reading the two files -/

/-- The line has the name, among the words after its first. -/
def carriesName (name line : Str) : Bool := (words line).tail.any (· = name)

/-- The lines of the hosts file that have a name. -/
def naming (name content : Str) : List Str := (lines content).filter (carriesName name)

/-- The lines of the inventory that start with a host. -/
def entriesOf (host content : Str) : List Str :=
  (lines content).filter fun line => (words line).head? = some host

/-! ## Words -/

/-- A text that is one word. -/
structure IsField (s : Str) : Prop where
  ne_nil : s ≠ []
  chars : ∀ c ∈ s, isSpace c = false

theorem words_eq_runs (s : Str) : words s = runs (fun c => !isSpace c) s := by
  simp [words, runs]

theorem words_field {s : Str} (h : IsField s) : words s = [s] := by
  have hrun := runs_run_append (p := fun c => !isSpace c) (s := []) h.ne_nil
    (fun c hc => by simp [h.chars c hc]) (by simp)
  rwa [List.append_nil, runs_nil, ← words_eq_runs] at hrun

theorem words_field_append {s : Str} (h : IsField s) (t : Str) :
    words (s ++ ' ' :: t) = s :: words t := by
  rw [words_eq_runs, runs_append_cons (by rfl), ← words_eq_runs, ← words_eq_runs, words_field h]
  rfl

theorem not_isSpace_of_isDigit {c : Char} (h : isDigit c = true) : isSpace c = false :=
  not_isSpace_of_isXDigit (by rw [isXDigit, h]; rfl)

theorem IsField.newline_not_mem {s : Str} (h : IsField s) : '\n' ∉ s := fun hm =>
  absurd (h.chars _ hm) (by decide)

/-- **The addresses** that are returned are words, if the text has no white space. -/
theorem isField_of_splitIpv4 {fuel n : Nat} {s : Str} {output ips : List Str}
    (hs : ∀ c ∈ cstr s, isSpace c = false) (h : splitIpv4 fuel s output = .returned n ips) :
    ∀ ip ∈ ips, IsField ip := by
  intro ip hip
  obtain ⟨hne, hchars⟩ := (splitIpv4_returned h).2 ip hip
  refine ⟨hne, fun c hc => ?_⟩
  rcases hchars c hc with rfl | hd | hm
  · rfl
  · exact not_isSpace_of_isDigit hd
  · exact hs c hm

/-! ## The names -/

/-- A name of the node. -/
def IsName (pfx domain : Str) (node : Str × Nat) (name : Str) : Prop :=
  name = nodeHost pfx node.2 ∨ name = nodeFqdn pfx domain node.2

section
variable {pfx domain : Str} (hpfx : ∀ c ∈ cstr pfx, isSpace c = false)
include hpfx

theorem isField_nodeHost (i : Nat) : IsField (nodeHost pfx i) := by
  refine ⟨List.append_ne_nil_of_right_ne_nil _ Nat.toDigits_ne_nil, fun c hc => ?_⟩
  rcases List.mem_append.1 hc with hc | hc
  · exact hpfx c hc
  · exact not_isSpace_of_isDigit (isDigit_of_mem_toDigits hc)

theorem isField_nodeFqdn (hdomain : ∀ c ∈ cstr domain, isSpace c = false) (i : Nat) :
    IsField (nodeFqdn pfx domain i) := by
  have hhost := isField_nodeHost hpfx i
  refine ⟨List.append_ne_nil_of_left_ne_nil hhost.ne_nil _, fun c hc => ?_⟩
  rcases List.mem_append.1 hc with hc | hc
  · exact hhost.chars c hc
  rcases List.mem_cons.1 hc with rfl | hc
  · rfl
  · exact hdomain c hc

/-- The line of a node has its names, and no other. -/
theorem carriesName_hostsLine (hdomain : ∀ c ∈ cstr domain, isSpace c = false) {node : Str × Nat}
    (hip : IsField node.1) (name : Str) :
    carriesName name (hostsLine pfx domain node) = true ↔ IsName pfx domain node name := by
  have hwords : words (hostsLine pfx domain node) =
      [node.1, nodeHost pfx node.2, nodeFqdn pfx domain node.2] := by
    rw [hostsLine, mapping, words_field_append hip,
      words_field_append (isField_nodeHost hpfx _), words_field (isField_nodeFqdn hpfx hdomain _)]
  rw [carriesName, hwords]
  simp only [List.tail_cons, List.any_cons, List.any_nil, Bool.or_false, Bool.or_eq_true,
    decide_eq_true_eq, IsName]
  exact or_congr eq_comm eq_comm

theorem head?_words_ansibleLine (node : Str × Nat) :
    (words (ansibleLine pfx node)).head? = some (nodeHost pfx node.2) := by
  have hblank : ansibleSshHost = ' ' :: "ansible_ssh_host=".toList := by decide
  rw [ansibleLine, hblank, List.append_assoc, List.cons_append,
    words_field_append (isField_nodeHost hpfx _), List.head?_cons]

end

theorem nodeFqdn_inj {pfx domain : Str} {i j : Nat}
    (h : nodeFqdn pfx domain i = nodeFqdn pfx domain j) : i = j :=
  nodeHost_inj (List.append_cancel_right h)

/-- No host has the name another has with its domain. -/
theorem nodeHost_ne_nodeFqdn (pfx domain : Str) (i j : Nat) :
    nodeHost pfx i ≠ nodeFqdn pfx domain j := by
  intro h
  rw [nodeFqdn, nodeHost, nodeHost, List.append_assoc] at h
  have hdot : '.' ∈ Nat.toDigits 10 i := by
    rw [List.append_cancel_left h]
    simp
  exact absurd (isDigit_of_mem_toDigits hdot) (by decide)

theorem eq_of_mem_numbered {ipList : List Str} {node node' : Str × Nat}
    (hn : node ∈ numbered ipList) (hn' : node' ∈ numbered ipList) (h : node.2 = node'.2) :
    node = node' := by
  have hnodup : ((numbered ipList).map Prod.snd).Nodup := by
    rw [numbered, List.zipIdx_map_snd]
    exact List.nodup_range'
  exact List.inj_on_of_nodup_map hnodup hn hn' h

/-- A name belongs to one node. -/
theorem IsName.unique {pfx domain name : Str} {ipList : List Str} {node node' : Str × Nat}
    (hn : node ∈ numbered ipList) (hn' : node' ∈ numbered ipList)
    (h : IsName pfx domain node name) (h' : IsName pfx domain node' name) : node = node' := by
  refine eq_of_mem_numbered hn hn' ?_
  rcases h with h | h <;> rcases h' with h' | h' <;> rw [h] at h'
  · exact nodeHost_inj h'
  · exact absurd h' (nodeHost_ne_nodeFqdn pfx domain _ _)
  · exact absurd h'.symm (nodeHost_ne_nodeFqdn pfx domain _ _)
  · exact nodeFqdn_inj h'

/-- Every name of a node has the name of its host in front. -/
theorem IsName.host_prefix {pfx domain name : Str} {node : Str × Nat}
    (h : IsName pfx domain node name) : nodeHost pfx node.2 <+: name := by
  rcases h with rfl | rfl
  · exact List.prefix_rfl
  · exact List.prefix_append ..

/-! ## The lines that have a name -/

/-- Of numbered lines, a test that is true of one node is true of one line. -/
theorem filter_map_numbered {ipList : List Str} {f : Str × Nat → Str} {p : Str → Bool}
    {node : Str × Nat} (hn : node ∈ numbered ipList)
    (hp : ∀ node' ∈ numbered ipList, p (f node') = true ↔ node' = node) :
    ((numbered ipList).map f).filter p = [f node] := by
  have hnodup : (numbered ipList).Nodup :=
    .of_map Prod.snd (by rw [numbered, List.zipIdx_map_snd]; exact List.nodup_range')
  have hone : (numbered ipList).filter (p ∘ f) = [node] := by
    rw [List.filter_congr (q := (· = node)) fun node' hm => ?_, List.filter_eq,
      List.count_eq_one_of_mem hnodup hn]
    · rfl
    · rw [Bool.eq_iff_iff, decide_eq_true_eq]
      exact hp node' hm
  rw [List.filter_map, hone]
  rfl

/-- **Of the new lines**, those that have a name are the one of its node. -/
theorem naming_hostsLines {pfx domain : Str} (hpfx : ∀ c ∈ cstr pfx, isSpace c = false)
    (hdomain : ∀ c ∈ cstr domain, isSpace c = false) {ipList : List Str}
    (hips : ∀ ip ∈ ipList, IsField ip) {node : Str × Nat} (hn : node ∈ numbered ipList)
    {name : Str} (hname : IsName pfx domain node name) :
    ((numbered ipList).map (hostsLine pfx domain)).filter (carriesName name) =
      [hostsLine pfx domain node] := by
  refine filter_map_numbered hn fun node' hn' => ?_
  rw [carriesName_hostsLine hpfx hdomain (hips _ (mem_of_mem_numbered hn'))]
  refine ⟨fun hname' => (hname.unique hn hn' hname').symm, ?_⟩
  rintro rfl
  exact hname

/-- The lines that are kept have no name of a node: they have not even that of its host in them. -/
theorem not_carriesName_of_mem_kept {pfx domain name line etcHosts : Str} {ipList : List Str}
    {node : Str × Nat} (hn : node ∈ numbered ipList) (hname : IsName pfx domain node name)
    (hline : line ∈ kept pfx ipList etcHosts) : ¬ carriesName name line = true := by
  intro hhas
  obtain ⟨word, hword, heq⟩ := List.any_eq_true.1 hhas
  obtain rfl := of_decide_eq_true heq
  have hinfix : nodeHost pfx node.2 <:+: line :=
    hname.host_prefix.isInfix.trans (infix_of_mem_words (List.mem_of_mem_tail hword))
  refine useLine_iff.1 (List.mem_filter.1 hline).2 _ (List.mem_append_right _ ?_) hinfix
  exact List.mem_map.2 ⟨node, hn, rfl⟩

/-- **Each name of a node is on one line** of the hosts file that `AddNodes` writes, behind the
address of that node; any other name is on the lines that were kept with it; and the inventory has
one line for each host, with the same address. -/
theorem addNodes_names {fuel n : Nat} {shell : Shell} {pfx domain ipAddresses etcHosts : Str}
    {ansibleHosts : Option Str} {ipList : List Str} {after : Added}
    (hpfx : ∀ c ∈ cstr pfx, isSpace c = false) (hdomain : ∀ c ∈ cstr domain, isSpace c = false)
    (haddresses : ∀ c ∈ cstr ipAddresses, isSpace c = false)
    (hsplit : splitIpv4 fuel ipAddresses [] = .returned n ipList) (hn : 1 ≤ n)
    (hfits : ∀ node ∈ numbered ipList, Fits pfx domain node)
    (hadd : addNodes fuel shell .ok pfx domain ipAddresses etcHosts ansibleHosts = some after) :
    (∀ name,
      (∀ node ∈ numbered ipList, IsName pfx domain node name →
        naming name after.etcHosts = [hostsLine pfx domain node]) ∧
      ((∀ node ∈ numbered ipList, ¬ IsName pfx domain node name) →
        naming name after.etcHosts = (kept pfx ipList etcHosts).filter (carriesName name))) ∧
    ∃ inventory, after.ansibleHosts = some inventory ∧ ∀ node ∈ numbered ipList,
      entriesOf (nodeHost pfx node.2) inventory = [ansibleLine pfx node] := by
  obtain ⟨-, hhosts, hansible, -⟩ := addNodes_written hsplit hn hfits hadd
  have hips := isField_of_splitIpv4 haddresses hsplit
  have hfield : ∀ node ∈ numbered ipList, IsField node.1 := fun node hm =>
    hips _ (mem_of_mem_numbered hm)
  have hline : ∀ {s}, (∀ c ∈ cstr s, isSpace c = false) → '\n' ∉ cstr s := fun h hm =>
    absurd (h _ hm) (by decide)
  have hnl : ∀ l ∈ kept pfx ipList etcHosts ++ (numbered ipList).map (hostsLine pfx domain),
      '\n' ∉ l := by
    refine List.forall_mem_append.2 ⟨fun l hl => ?_, List.forall_mem_map.2 fun node hm => ?_⟩
    · exact newline_not_mem_of_mem_lines (List.mem_filter.1 hl).1
    · exact newline_not_mem_hostsLine (hline hpfx) (hline hdomain) (hfield node hm).newline_not_mem
  refine ⟨fun name => ?_, _, hansible, fun node hm => ?_⟩
  · rw [naming, hhosts, lines_unlines hnl, List.filter_append]
    refine ⟨fun node hm hname => ?_, fun hno => ?_⟩
    · rw [List.filter_eq_nil_iff.2 fun l hl => not_carriesName_of_mem_kept hm hname hl,
        naming_hostsLines hpfx hdomain hips hm hname, List.nil_append]
    · rw [(List.filter_eq_nil_iff (l := (numbered ipList).map _)).2, List.append_nil]
      rw [List.forall_mem_map]
      exact fun node hm hhas =>
        hno node hm ((carriesName_hostsLine hpfx hdomain (hfield node hm) name).1 hhas)
  · have hnl' : ∀ l ∈ servers :: (numbered ipList).map (ansibleLine pfx), '\n' ∉ l := by
      refine List.forall_mem_cons.2 ⟨by decide, List.forall_mem_map.2 fun node hm => ?_⟩
      exact not_mem_ansibleLine (by decide) (not_mem_nodeHost rfl (hline hpfx) _)
        (hfield node hm).newline_not_mem
    -- the heading is no host: it does not end with a digit
    have hheading : ¬ (words servers).head? = some (nodeHost pfx node.2) := by
      intro heq
      have hwords : (words servers).head? = some servers := by decide
      have hhost := Option.some.inj (hwords.symm.trans heq)
      have hlast : (nodeHost pfx node.2).getLast? = some ']' := by
        rw [← hhost]
        decide
      rw [nodeHost, List.getLast?_append_of_ne_nil _ Nat.toDigits_ne_nil] at hlast
      exact absurd (isDigit_of_mem_toDigits (List.mem_of_getLast? hlast)) (by decide)
    rw [entriesOf, lines_unlines hnl', List.filter_cons_of_neg (by simpa using hheading)]
    refine filter_map_numbered hm fun node' hm' => ?_
    rw [decide_eq_true_eq, head?_words_ansibleLine hpfx node', Option.some.injEq]
    exact ⟨fun h => eq_of_mem_numbered hm' hm (nodeHost_inj h), fun h => by rw [h]⟩

/-- Two nodes; one of the names was that of another machine before. -/
theorem addNodes_names_two :
    let shell : Shell := ⟨fun _ _ => some ⟨["ok\n".toList], 0⟩, fun _ _ => none⟩
    ∃ after, addNodes 0 shell .ok "n".toList "lan".toList "10.0.0.1,10.0.0.2".toList
        "10.9.9.9 n2\n".toList none = some after ∧
      naming "n2".toList "10.9.9.9 n2\n".toList = ["10.9.9.9 n2".toList] ∧
      naming "n2".toList after.etcHosts = ["10.0.0.2 n2 n2.lan".toList] := by
  intro shell
  have hsplit : splitIpv4 0 "10.0.0.1,10.0.0.2".toList [] =
      .returned 2 ["10.0.0.1".toList, "10.0.0.2".toList] :=
    (splitIpv4_eq 0 (by decide) []).trans (by decide)
  have hsome : (addNodes 0 shell .ok "n".toList "lan".toList "10.0.0.1,10.0.0.2".toList
      "10.9.9.9 n2\n".toList none).isSome := by
    unfold addNodes
    rw [hsplit]
    rfl
  have hfits : ∀ node ∈ [("10.0.0.1".toList, 1), ("10.0.0.2".toList, 2)],
      Fits "n".toList "lan".toList node := by
    rw [List.forall_mem_cons, List.forall_mem_singleton]
    exact ⟨⟨by decide, by decide, by decide⟩, ⟨by decide, by decide, by decide⟩⟩
  obtain ⟨after, hadd⟩ := Option.isSome_iff_exists.1 hsome
  obtain ⟨hnames, -⟩ := addNodes_names (by simp [cstr, isSpace]) (by simp [cstr, isSpace])
    (by simp [cstr, isSpace]) hsplit (by decide) hfits hadd
  exact ⟨after, hadd, by decide, (hnames _).1 ("10.0.0.2".toList, 2) (.tail _ (.head _))
    (.inl (by decide))⟩

end Graviton0
