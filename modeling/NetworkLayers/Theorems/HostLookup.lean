import NetworkLayers.Lemmas.Parser
import Mathlib.Data.List.Nodup

/-!
# Finding a host by its number

`readnodes` stores the hosts in the order of the file, and `findhost` looks where the number says. The two agree on the hosts of a file
exactly when the file lists them by their numbers, from the first one on.
-/

namespace NetworkLayers

open Scan

namespace HostLookupAux

open ParserAux

variable {t : TopologyFile}

/-- `readall` on a well-formed file with as many hosts as there is room for at most. -/
theorem readall_lines (t : TopologyFile) (links : Links) (hosts : Hosts) (hroom : (listedHosts t.hosts).length ≤ maxHosts) :
    ∃ links' hosts', readall t.lines links hosts = some (links', hosts') ∧
      ∀ i : HostIndex, hosts' i = ((listedHosts t.hosts)[i.val]?.map readHost).getD (hosts i) := by
  obtain ⟨hosts', hread, -, hentries⟩ :=
    readnodes_lines t.hosts (⟨linkHeader ++ newLine, []⟩ :: (linkLines t.links ++ [⟨endText, []⟩])) hosts 0 (by omega)
  refine ⟨t.links.foldl readLink links, hosts', ?_, fun i => hentries i (Nat.zero_le _)⟩
  have hheader : ¬nodeHeader ++ newLine = endText ∧ ¬nodeHeader ++ newLine = newLine ∧ nodeHeader <+: nodeHeader ++ newLine ∧
      linkHeader <+: linkHeader ++ newLine ∧ endText <+: endText := by
    decide
  rw [TopologyFile.lines, readall_cons, if_neg hheader.1, if_neg hheader.2.1, if_pos hheader.2.2.1, hread, readnodes,
    if_pos hheader.2.2.2.1, Option.bind_some, readlinks_lines, readlinks, if_pos hheader.2.2.2.2, Option.bind_some, readall_nil]

/-- The entry of a host is what its line says exactly when its port is read right. -/
theorem readHost_eq_iff (x : HostLine × List Byte) : readHost x = x.1.host ↔ x.1.Clean x.2 := by
  rw [← port_eq_iff]
  simp [readHost, HostLine.host]

theorem num_readHost (x : HostLine × List Byte) : (readHost x).num = hostNum x.1.num := rfl

theorem num_host (l : HostLine) : l.host.num = hostNum l.num := rfl

/-- Distinct hosts are no more than there is room for. -/
theorem length_listed_le (hdistinct : ((listedHosts t.hosts).map (·.1.num)).Nodup) : (listedHosts t.hosts).length ≤ maxHosts := by
  have hcard := hdistinct.length_le_card
  rwa [List.length_map, Fintype.card_fin] at hcard

/-- Numbers that are listed from the first one on stand each in its place. -/
theorem map_num_eq_range_iff {l : List (HostLine × List Byte)} :
    l.map (·.1.num.val) = List.range l.length ↔ ∀ i (h : i < l.length), l[i].1.num.val = i := by
  rw [List.ext_getElem_iff]
  simp

/-- Where the entry at a host's place has the host's number, it is that of the line, and the line is the one of that place. -/
theorem place_of_num {l : List (HostLine × List Byte)} (hdistinct : (l.map (·.1.num)).Nodup) {i : Nat} (hi : i < l.length)
    (hnum : ((l[l[i].1.num.val]?.map readHost).getD (staticHosts l[i].1.num)).num = hostNum l[i].1.num) : l[i].1.num.val = i := by
  cases hget : l[l[i].1.num.val]? with
  | none =>
    rw [hget] at hnum
    exact absurd hnum (Nat.ne_of_lt (hostNum_pos _))
  | some y =>
    obtain ⟨hlt, hy⟩ := List.getElem?_eq_some_iff.1 hget
    rw [hget, Option.map_some, Option.getD_some, num_readHost, ← hy] at hnum
    have hsame := hostNum_injective hnum
    have hmap : l[i].1.num.val < (l.map (·.1.num)).length := by rwa [List.length_map]
    refine (List.getElem?_inj hmap hdistinct).1 ?_
    rw [List.getElem?_map, List.getElem?_map, List.getElem?_eq_getElem hlt, List.getElem?_eq_getElem hi, Option.map_some,
      Option.map_some, hsame]

end HostLookupAux

open ParserAux HostLookupAux in
/-- For every well-formed file whose hosts have distinct numbers: `findhost` finds every listed host with its number, address and port
exactly when the file lists the hosts in the order of their numbers, from 1 on and without a gap, and what is behind the ports in the
buffer makes no difference. -/
theorem hosts_found_iff (t : TopologyFile) (hdistinct : ((listedHosts t.hosts).map (·.1.num)).Nodup) :
    (∃ links hosts, readall t.lines initlinks staticHosts = some (links, hosts) ∧
        ∀ x ∈ listedHosts t.hosts, findhost hosts (hostNum x.1.num) = some x.1.host) ↔
      (listedHosts t.hosts).map (·.1.num.val) = List.range (listedHosts t.hosts).length ∧
        ∀ x ∈ listedHosts t.hosts, x.1.Clean x.2 := by
  obtain ⟨links', hosts', hread, hentries⟩ := readall_lines t initlinks staticHosts (length_listed_le hdistinct)
  generalize listedHosts t.hosts = l at *
  have hfound : (∃ links hosts, readall t.lines initlinks staticHosts = some (links, hosts) ∧
      ∀ x ∈ l, findhost hosts (hostNum x.1.num) = some x.1.host) ↔ ∀ x ∈ l, hosts' x.1.num = x.1.host := by
    rw [hread]
    simp only [findhost_hostNum, Option.some.injEq, Prod.mk.injEq]
    constructor
    · rintro ⟨_, _, ⟨rfl, rfl⟩, h⟩
      exact h
    · intro h
      exact ⟨_, _, ⟨rfl, rfl⟩, h⟩
  rw [hfound, map_num_eq_range_iff]
  constructor
  · intro h
    have hplace : ∀ i (hi : i < l.length), l[i].1.num.val = i := by
      intro i hi
      have hentry := h l[i] (List.getElem_mem hi)
      rw [hentries] at hentry
      exact place_of_num hdistinct hi (by rw [hentry, num_host])
    refine ⟨hplace, fun x hx => ?_⟩
    obtain ⟨i, hi, rfl⟩ := List.getElem_of_mem hx
    have hentry := h l[i] (List.getElem_mem hi)
    rw [hentries, hplace i hi, List.getElem?_eq_getElem hi] at hentry
    exact (readHost_eq_iff _).1 hentry
  · rintro ⟨hplace, hclean⟩ x hx
    obtain ⟨i, hi, rfl⟩ := List.getElem_of_mem hx
    rw [hentries, hplace i hi, List.getElem?_eq_getElem hi]
    exact (readHost_eq_iff _).2 (hclean _ hx)

namespace HostLookupAux

/-- The line `n: IP = 127.0.0.1, Porta = 5002;`. -/
def hostLine (n : HostIndex) : HostLine :=
  .written n (chars ['1', '2', '7', '.', '0', '.', '0', '.', '1']) (chars ['5', '0', '0', '2']) 16777343
    ⟨⟨49, _, rfl, by decide⟩, by decide⟩ (by decide) (by decide) (by decide) (by decide) (by decide)

/-- A file that lists these hosts, with zeros in the buffer for the ports. -/
def fileOf (l : List HostIndex) : TopologyFile := { hosts := l.map fun n => (some (hostLine n), [0, 0, 0, 0, 0, 0]), links := [] }

end HostLookupAux

open HostLookupAux in
/-- Hosts 1 and 2, in this order. -/
theorem ordered_hosts_found :
    ∃ links hosts, readall (fileOf [0, 1]).lines initlinks staticHosts = some (links, hosts) ∧
      ∀ x ∈ listedHosts (fileOf [0, 1]).hosts, findhost hosts (hostNum x.1.num) = some x.1.host :=
  (hosts_found_iff (fileOf [0, 1]) (by decide)).2 ⟨by decide, by decide⟩

open HostLookupAux in
/-- Hosts 2 and 1, in this order: each is found by the other's number. -/
theorem swapped_hosts_not_found :
    (∃ links hosts, readall (fileOf [1, 0]).lines initlinks staticHosts = some (links, hosts) ∧
      (findhost hosts 1).map (·.num) = some 2 ∧ (findhost hosts 2).map (·.num) = some 1) ∧
    ¬∀ t : TopologyFile, ((listedHosts t.hosts).map (·.1.num)).Nodup →
      ∃ links hosts, readall t.lines initlinks staticHosts = some (links, hosts) ∧
        ∀ x ∈ listedHosts t.hosts, findhost hosts (hostNum x.1.num) = some x.1.host := by
  obtain ⟨links, hosts, hread, hentries⟩ := readall_lines (fileOf [1, 0]) initlinks staticHosts (by decide)
  have hfirst : (findhost hosts 1).map (·.num) = some 2 := by
    rw [show 1 = hostNum 0 from rfl, findhost_hostNum, hentries 0]
    rfl
  have hsecond : (findhost hosts 2).map (·.num) = some 1 := by
    rw [show 2 = hostNum 1 from rfl, findhost_hostNum, hentries 1]
    rfl
  refine ⟨⟨links, hosts, hread, hfirst, hsecond⟩, fun h => ?_⟩
  obtain ⟨links', hosts', hread', hfound⟩ := h (fileOf [1, 0]) (by decide)
  obtain ⟨-, rfl⟩ := Prod.mk.inj (Option.some.inj (hread.symm.trans hread'))
  have hentry : findhost hosts 1 = some (hostLine 0).host :=
    hfound (hostLine 0, [0, 0, 0, 0, 0, 0]) (List.mem_cons_of_mem _ List.mem_cons_self)
  rw [hentry] at hfirst
  exact absurd hfirst (by decide)

end NetworkLayers
