import NetworkLayers.Lemmas.Parser

/-!
# The numbers of a line

The digits of an MTU and of a port are copied to a buffer that is not terminated, and `strtol` reads on into what was there before. The
address of a host is terminated.
-/

namespace NetworkLayers

open Scan

namespace ParsedNumbersAux

open ParserAux

theorem setBoth_injective {links : Links} {i j : HostIndex} {a b : Int} (h : Grid.setBoth links i j a = Grid.setBoth links i j b) :
    a = b := by
  have hplace := congrFun (congrFun h i) j
  rwa [Grid.setBoth_self.1, Grid.setBoth_self.1] at hplace

end ParsedNumbersAux

/-- The links that the lines of a file say there are. -/
def linkMatrix (links : Links) (l : List LinkLine) : Links :=
  l.foldl (fun links l => Grid.setBoth links l.first l.second (decimal l.mtu)) links

namespace ParsedNumbersAux

open ParserAux

/-- Where what is behind the MTUs makes no difference, a section says what its lines do. -/
theorem foldl_readLink {file : List (Option LinkLine × List Byte)} (hclean : ∀ x ∈ file, ∀ l ∈ x.1, l.Clean x.2) (links : Links) :
    file.foldl readLink links = linkMatrix links (file.filterMap Prod.fst) := by
  induction file generalizing links with
  | nil => rfl
  | cons x file ih =>
    obtain ⟨hfirst, hrest⟩ := List.forall_mem_cons.1 hclean
    obtain ⟨line, stack⟩ := x
    cases line with
    | none => exact ih hrest links
    | some l =>
      rw [List.foldl_cons, readLink, (mtu_eq_iff l stack).2 (hfirst l rfl), ih hrest]
      rfl

end ParsedNumbersAux

open ParserAux ParsedNumbersAux in
/-- For every well-formed line and every content of the buffer: the link has the MTU written, and the host the port written, exactly when
what is behind the digits in the buffer makes no difference and the port has 16 bits; and where it makes none in any line, the links of a
file are those its lines say. -/
theorem parsed_numbers_iff (link : LinkLine) (host : HostLine) (stack : List Byte) (links : Links) (ret : Host) :
    (processlinkline ⟨link.text, stack⟩ links = some (Grid.setBoth links link.first link.second (decimal link.mtu)) ↔
        link.Clean stack) ∧
      ((∃ r ∈ processhostline ⟨host.text, stack⟩ ret, r.port = decimal host.port) ↔ host.Clean stack) ∧
      ∀ file : List (Option LinkLine × List Byte), (∀ x ∈ file, ∀ l ∈ x.1, l.Clean x.2) →
        readlinks (linkLines file) links = some (linkMatrix links (file.filterMap Prod.fst), []) := by
  refine ⟨?_, ?_, fun file hclean => ?_⟩
  · rw [processlinkline_line, Option.some.injEq, ← mtu_eq_iff]
    exact ⟨setBoth_injective, fun h => by rw [h]⟩
  · rw [processhostline_line, ← port_eq_iff]
    simp
  · have hread := readlinks_lines file [] links
    rw [List.append_nil, foldl_readLink hclean] at hread
    exact hread

namespace ParsedNumbersAux

/-- The line `   1 -> 2, MTU = 50;`. -/
def linkFifty : LinkLine where
  text := chars [' ', ' ', ' ', '1', ' ', '-', '>', ' ', '2', ',', ' ', 'M', 'T', 'U', ' ', '=', ' ', '5', '0', ';', '\n']
  first := 0
  second := 1
  mtu := chars ['5', '0']
  isLink := ⟨chars [' ', ' ', ' '], chars [' ', '-', '>', ' '], chars [',', ' ', 'M', 'T', 'U', ' ', '=', ' '], 59, newLine, by decide,
    by decide, by decide, by decide, by decide, by decide, ⟨⟨53, [48], by decide, by decide⟩, by decide⟩, by decide⟩
  digits := by decide
  length := by decide
  notEnd := by decide

/-- The line `1: IP = 127.0.0.2, Porta = 70000;`. -/
def hostSeventyThousand : HostLine :=
  .written 0 (chars ['1', '2', '7', '.', '0', '.', '0', '.', '2']) (chars ['7', '0', '0', '0', '0']) 33554559
    ⟨⟨49, _, rfl, by decide⟩, by decide⟩ (by decide) (by decide) (by decide) (by decide) (by decide)

end ParsedNumbersAux

open ParsedNumbersAux in
/-- After a line with an MTU of 2000, one with an MTU of 50 is read as 5000; and a port of 70000 is stored as 4464, whatever is in the
buffer. -/
theorem leftover_digits_read :
    (processlinkline ⟨linkFifty.text, chars ['2', '0', '0', '0']⟩ initlinks).map (fun links => getmtu links 1 2) = some (some 5000) ∧
      (processhostline ⟨hostSeventyThousand.text, []⟩ (staticHosts 0)).map (·.port) = some 4464 ∧
      ¬∀ (l : LinkLine) (stack : List Byte) (links : Links),
        processlinkline ⟨l.text, stack⟩ links = some (Grid.setBoth links l.first l.second (decimal l.mtu)) := by
  refine ⟨by decide, by decide, fun h => ?_⟩
  have hfifty := congrArg (fun r => r.map fun links => getmtu links 1 2) (h linkFifty (chars ['2', '0', '0', '0']) initlinks)
  exact absurd hfifty (by decide)

end NetworkLayers
