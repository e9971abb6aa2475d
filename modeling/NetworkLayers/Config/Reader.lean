import NetworkLayers.Config.Lines
import NetworkLayers.Lib.Transition

/-!
# The parser as a machine that reads lines

Which function reads the next line of the file, and what is read so far. A line is safe when the function that reads it keeps to the line,
to its buffers and to the arrays.
-/

namespace NetworkLayers

/-- The function that calls `getline` next: `readall`, `readnodes` with its count, `readlinks`, or none when `readall` has returned. -/
inductive Part where
  | all
  | nodes (num : Nat)
  | links
  | done
  deriving DecidableEq, Repr

/-- The parser between two lines. -/
structure Reader where
  part : Part
  links : Links
  hosts : Hosts

/-- The parser when `readconfig` has opened the file. -/
def Reader.start (links : Links) (hosts : Hosts) : Reader := { part := .all, links := links, hosts := hosts }

/-- What has been read. -/
def Reader.tables (r : Reader) : Links × Hosts := (r.links, r.hosts)

/-- One line. -/
def Reader.step (r : Reader) (line : Line) : Option Reader :=
  match r.part with
  | .all =>
    if line.text = endText then some { r with part := .done }
    else if line.text = newLine then some r
    else some { r with part := if nodeHeader <+: line.text then .nodes 0 else .links }
  | .nodes num =>
    if linkHeader <+: line.text then some { r with part := .links }
    else if line.text = newLine then some r
    else
      (Grid.place maxHosts num).bind fun i => (processhostline line (r.hosts i)).map fun host =>
        { r with part := .nodes (num + 1), hosts := Function.update r.hosts i host }
  | .links =>
    if endText <+: line.text then some { r with part := .all }
    else if line.text = newLine then some r
    else (processlinkline line r.links).map fun links => { r with links := links }
  | .done => some r

/-- A character that is the number of a host. -/
def IsHostNumber (c : Byte) : Prop := 49 ≤ c.toNat ∧ c.toNat ≤ 54

/-- The text of a host whose parts there is room for. -/
def SafeHostText (text : List Byte) : Prop :=
  ∃ d ip port, IsHostText text d ip port ∧ ip.length ≤ maxIpStringSize ∧ port.length ≤ maxPortStringSize + 1

/-- The text of a link between two hosts, with room for its MTU. -/
def SafeLinkText (text : List Byte) : Prop :=
  ∃ a b mtu, IsLinkText text a b mtu ∧ mtu.length ≤ mtuStringSize + 1 ∧ IsHostNumber a ∧ IsHostNumber b

/-- The condition on a line: between `Nos` and `Enlaces` it is blank or the safe text of a host for which there is room, and from there to
`Fim` blank or the safe text of a link. -/
def Reader.LineSafe (r : Reader) (line : Line) : Prop :=
  match r.part with
  | .nodes num => ¬linkHeader <+: line.text → line.text ≠ newLine → num < maxHosts ∧ SafeHostText line.text
  | .links => ¬endText <+: line.text → line.text ≠ newLine → SafeLinkText line.text
  | .all | .done => True

end NetworkLayers
