import NetworkLayers.Config.Reader
import NetworkLayers.Lemmas.Parser

/-!
# The parser on every file

The parser returns on every sequence of lines, unless one of them makes it leave the line, a buffer or an array; and it looks out for none
of these. First the three functions are one machine that takes a line at a time, then one line.
-/

namespace NetworkLayers

open Transition

namespace ParserSafetyAux

open ParserAux

variable {r : Reader} {line : Line}

/-! ## The functions and the machine -/

theorem exec_done (links : Links) (hosts : Hosts) (file : List Line) :
    exec Reader.step ⟨.done, links, hosts⟩ file = some ⟨.done, links, hosts⟩ := by
  induction file with
  | nil => rfl
  | cons line file ih => exact ih

/-- From where `readnodes` is, the machine does what it does and goes on where it returns to. -/
theorem exec_nodes (links : Links) (hosts : Hosts) (num : Nat) (file : List Line) :
    (exec Reader.step ⟨.nodes num, links, hosts⟩ file).map Reader.tables =
      (readnodes file hosts num).bind fun x => (exec Reader.step ⟨.links, links, x.1⟩ x.2).map Reader.tables := by
  induction file generalizing hosts num with
  | nil => rfl
  | cons line file ih =>
    rw [exec, readnodes, Reader.step]
    dsimp only
    by_cases hheader : linkHeader <+: line.text
    · rw [if_pos hheader, if_pos hheader]
      rfl
    · rw [if_neg hheader, if_neg hheader]
      by_cases hblank : line.text = newLine
      · rw [if_pos hblank, if_pos hblank, Option.bind_some]
        exact ih hosts num
      · rw [if_neg hblank, if_neg hblank]
        cases Grid.place maxHosts num with
        | none => rfl
        | some i =>
          simp only [Option.bind_eq_bind, Option.bind_some]
          cases processhostline line (hosts i) with
          | none => rfl
          | some host => exact ih _ _

/-- From where `readlinks` is. -/
theorem exec_links (links : Links) (hosts : Hosts) (file : List Line) :
    (exec Reader.step ⟨.links, links, hosts⟩ file).map Reader.tables =
      (readlinks file links).bind fun y => (exec Reader.step ⟨.all, y.1, hosts⟩ y.2).map Reader.tables := by
  induction file generalizing links with
  | nil => rfl
  | cons line file ih =>
    rw [exec, readlinks, Reader.step]
    dsimp only
    by_cases hheader : endText <+: line.text
    · rw [if_pos hheader, if_pos hheader]
      rfl
    · rw [if_neg hheader, if_neg hheader]
      by_cases hblank : line.text = newLine
      · rw [if_pos hblank, if_pos hblank, Option.bind_some]
        exact ih links
      · rw [if_neg hblank, if_neg hblank]
        cases processlinkline line links with
        | none => rfl
        | some links => exact ih links

/-- `readall` is the machine. -/
theorem readall_eq_exec (file : List Line) (links : Links) (hosts : Hosts) :
    readall file links hosts = (exec Reader.step (Reader.start links hosts) file).map Reader.tables := by
  induction hlen : file.length using Nat.strong_induction_on generalizing file links hosts with
  | _ n ih =>
    subst hlen
    cases file with
    | nil =>
      rw [readall_nil]
      rfl
    | cons line file =>
      rw [readall_cons, exec, Reader.start, Reader.step]
      dsimp only
      by_cases hend : line.text = endText
      · rw [if_pos hend, if_pos hend, Option.bind_some, exec_done]
        rfl
      · rw [if_neg hend, if_neg hend]
        by_cases hblank : line.text = newLine
        · rw [if_pos hblank, if_pos hblank, Option.bind_some]
          exact ih _ (Nat.lt_succ_self _) file links hosts rfl
        · rw [if_neg hblank, if_neg hblank, Option.bind_some]
          -- the rest of the file after the links, of which there is less
          have hlinks : ∀ rest hosts, rest.length ≤ file.length →
              ((readlinks rest links).bind fun y => readall y.2 y.1 hosts) =
                (exec Reader.step ⟨.links, links, hosts⟩ rest).map Reader.tables := by
            intro rest hosts hrest
            rw [exec_links]
            cases hread : readlinks rest links with
            | none => rfl
            | some y => exact ih _ (Nat.lt_succ_of_le ((length_readlinks hread).trans hrest)) y.2 y.1 hosts rfl
          by_cases hnodes : nodeHeader <+: line.text
          · rw [if_pos hnodes, if_pos hnodes, exec_nodes]
            cases hread : readnodes file hosts 0 with
            | none => rfl
            | some x => exact hlinks x.2 x.1 (length_readnodes hread)
          · rw [if_neg hnodes, if_neg hnodes, Option.bind_some]
            exact hlinks file hosts (Nat.le_refl _)

/-! ## One line -/

theorem exists_processhostline {ret : Host} : (∃ host, processhostline line ret = some host) ↔ SafeHostText line.text := by
  obtain ⟨text, stack⟩ := line
  simp only [processhostline_eq_some_iff]
  constructor
  · rintro ⟨_, d, ip, port, htext, hip, hport, -⟩
    exact ⟨d, ip, port, htext, hip, hport⟩
  · rintro ⟨d, ip, port, htext, hip, hport⟩
    exact ⟨_, d, ip, port, htext, hip, hport, rfl⟩

theorem exists_place_iff {c : Byte} : (∃ i : HostIndex, -1 + chartoint c = i.val) ↔ IsHostNumber c := by
  unfold chartoint IsHostNumber
  constructor
  · rintro ⟨i, hi⟩
    have hlt : i.val < 6 := i.isLt
    omega
  · rintro ⟨h1, h2⟩
    have hlt : c.toNat - 49 < maxHosts := (by omega : c.toNat - 49 < 6)
    refine ⟨⟨c.toNat - 49, hlt⟩, ?_⟩
    show -1 + ((c.toNat : Int) - 48) = ((c.toNat - 49 : Nat) : Int)
    omega

theorem exists_processlinkline (links : Links) : (∃ links', processlinkline line links = some links') ↔ SafeLinkText line.text := by
  obtain ⟨text, stack⟩ := line
  simp only [processlinkline_eq_some_iff, Grid.writeBoth_eq_some_iff]
  constructor
  · rintro ⟨_, a, b, mtu, htext, hlen, x, y, hx, hy, -⟩
    exact ⟨a, b, mtu, htext, hlen, exists_place_iff.1 ⟨x, hx⟩, exists_place_iff.1 ⟨y, hy⟩⟩
  · rintro ⟨a, b, mtu, htext, hlen, ha, hb⟩
    obtain ⟨x, hx⟩ := exists_place_iff.2 ha
    obtain ⟨y, hy⟩ := exists_place_iff.2 hb
    exact ⟨_, a, b, mtu, htext, hlen, x, y, hx, hy, rfl⟩

theorem exists_place_count {num : Nat} : (∃ i, Grid.place maxHosts (num : Int) = some i) ↔ num < maxHosts := by
  simp only [Grid.place_eq_some_iff]
  constructor
  · rintro ⟨i, hi⟩
    rw [Int.ofNat.inj hi]
    exact i.isLt
  · intro h
    exact ⟨⟨num, h⟩, rfl⟩

/-- In a section, the line that ends it and a blank one are read without harm, and any other as the function of the section reads it. -/
theorem exists_section_iff {header blank safe : Prop} [Decidable header] [Decidable blank] {ended same : Reader} {read : Option Reader}
    (h : (∃ r', read = some r') ↔ safe) :
    (∃ r', (if header then some ended else if blank then some same else read) = some r') ↔ (¬header → ¬blank → safe) := by
  split
  · rename_i hheader
    exact iff_of_true ⟨_, rfl⟩ fun hnot => absurd hheader hnot
  · rename_i hheader
    split
    · rename_i hblank
      exact iff_of_true ⟨_, rfl⟩ fun _ hnot => absurd hblank hnot
    · rename_i hblank
      rw [forall_prop_of_true hheader, forall_prop_of_true hblank]
      exact h

/-- A line is read without harm exactly when it is safe. -/
theorem exists_step_iff : (∃ r', r.step line = some r') ↔ r.LineSafe line := by
  obtain ⟨part, links, hosts⟩ := r
  unfold Reader.step Reader.LineSafe
  cases part with
  | all =>
    dsimp only
    refine iff_of_true ?_ trivial
    split
    · exact ⟨_, rfl⟩
    · split <;> exact ⟨_, rfl⟩
  | nodes num =>
    refine exists_section_iff ?_
    rw [← exists_place_count]
    simp only [Option.bind_eq_some_iff, Option.map_eq_some_iff]
    constructor
    · rintro ⟨_, i, hi, host, hhost, -⟩
      exact ⟨⟨i, hi⟩, exists_processhostline.1 ⟨host, hhost⟩⟩
    · rintro ⟨⟨i, hi⟩, hsafe⟩
      obtain ⟨host, hhost⟩ := exists_processhostline.2 hsafe
      exact ⟨_, i, hi, host, hhost, rfl⟩
  | links =>
    refine exists_section_iff ?_
    rw [← exists_processlinkline links]
    simp only [Option.map_eq_some_iff]
    constructor
    · rintro ⟨_, links', hlinks', -⟩
      exact ⟨links', hlinks'⟩
    · rintro ⟨links', hlinks'⟩
      exact ⟨_, links', hlinks', rfl⟩
  | done => exact iff_of_true ⟨_, rfl⟩ trivial

end ParserSafetyAux

open ParserSafetyAux in
/-- For every sequence of lines, whatever is in the buffers: the parser returns without running beyond a line, a buffer or an array exactly
when every line is safe where it is read. -/
theorem readall_safe_iff (file : List Line) (links : Links) (hosts : Hosts) :
    (∃ tables, readall file links hosts = some tables) ↔ Along Reader.step Reader.LineSafe (Reader.start links hosts) file := by
  have hexec : (∃ tables, readall file links hosts = some tables) ↔
      ∃ r, exec Reader.step (Reader.start links hosts) file = some r := by
    rw [readall_eq_exec]
    simp only [Option.map_eq_some_iff]
    constructor
    · rintro ⟨_, r, hr, -⟩
      exact ⟨r, hr⟩
    · rintro ⟨r, hr⟩
      exact ⟨_, r, hr, rfl⟩
  rw [hexec]
  exact exists_exec_iff trivial (fun _ _ _ _ _ _ => trivial) (fun _ _ _ _ => exists_step_iff) (along_of_forall fun _ _ => trivial)

namespace ParserSafetyAux

/-- A file whose section of hosts has these lines, with nothing in the buffers. -/
def hostsFile (texts : List (List Byte)) : List Line := ⟨nodeHeader ++ newLine, []⟩ :: texts.map fun text => ⟨text, []⟩

/-- A file whose section of links has these lines. -/
def linksFile (texts : List (List Byte)) : List Line := ⟨linkHeader ++ newLine, []⟩ :: texts.map fun text => ⟨text, []⟩

/-- The line `1: 0, 0;`. -/
def shortHost : List Byte := chars ['1', ':', ' ', '0', ',', ' ', '0', ';', '\n']

end ParserSafetyAux

open ParserSafetyAux in
/-- A line of one blank, where the digit of a host is looked for beyond its end; a seventh host; a link from host 0; and an MTU of six
digits. -/
theorem unsafe_lines :
    readall (hostsFile [chars [' ', '\n']]) initlinks staticHosts = none ∧
      readall (hostsFile (List.replicate 7 shortHost)) initlinks staticHosts = none ∧
      readall (linksFile [chars ['0', '-', '>', '1', ',', '5', '0', ';', '\n']]) initlinks staticHosts = none ∧
      readall (linksFile [chars ['1', '-', '>', '2', ',', '1', '0', '0', '0', '0', '0', ';', '\n']]) initlinks staticHosts = none ∧
      ¬∀ (file : List Line) (links : Links) (hosts : Hosts), ∃ tables, readall file links hosts = some tables := by
  have hblank : readall (hostsFile [chars [' ', '\n']]) initlinks staticHosts = none := by
    rw [readall_eq_exec]
    rfl
  refine ⟨hblank, ?_, ?_, ?_, fun h => ?_⟩
  · rw [readall_eq_exec]
    rfl
  · rw [readall_eq_exec]
    rfl
  · rw [readall_eq_exec]
    rfl
  · obtain ⟨tables, htables⟩ := h (hostsFile [chars [' ', '\n']]) initlinks staticHosts
    exact absurd (htables.symm.trans hblank) (by simp)

end NetworkLayers
