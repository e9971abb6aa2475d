import NetworkLayers.Config.Tables
import NetworkLayers.Lib.Bytes
import NetworkLayers.Lib.Scan

/-!
# Reading the configuration (config.c)

A line as `getline` returns it: its characters, with the line break where there is one, behind which the terminating NUL stands. What a
loop does that runs beyond the NUL, a copy that runs beyond its place and an index beyond an array are `none`. The digits of an MTU and of
a port are copied to a local buffer and not terminated, so that each line comes with what the call that processes it finds in that buffer
and behind it.
-/

namespace NetworkLayers

open Scan

/-- Characters as bytes. -/
def chars (l : List Char) : List Byte := l.map fun c => UInt8.ofNat c.toNat

/-- A line, and the memory from the buffer for its digits on when it is processed. Behind what is listed there is no digit. -/
structure Line where
  text : List Byte
  stack : List Byte
  deriving DecidableEq, Repr

/-- `MTU_STRING_SIZE`. -/
def mtuStringSize : Nat := 4

/-- `MAX_IP_STRING_SIZE`. -/
def maxIpStringSize : Nat := 15

/-- `MAX_PORT_STRING_SIZE`. -/
def maxPortStringSize : Nat := 5

/-- `NODE_HEADER`. -/
def nodeHeader : List Byte := chars ['N', 'o', 's']

/-- `LINK_HEADER`. -/
def linkHeader : List Byte := chars ['E', 'n', 'l', 'a', 'c', 'e', 's']

/-- `END_TEXT`. -/
def endText : List Byte := chars ['F', 'i', 'm']

/-- `NEW_LINE`. -/
def newLine : List Byte := chars ['\n']

/-- `*aux == COMMA_CHAR`. -/
def isComma (c : Byte) : Bool := c == 44

/-- `*aux == END_LINE_CHAR`. -/
def isEndLine (c : Byte) : Bool := c == 59

/-! ## The C library -/

/-- `isdigit`. -/
def isdigit (c : Byte) : Bool := decide (48 ≤ c.toNat ∧ c.toNat ≤ 57)

/-- `isspace`: a blank, or one of the five control characters from the tab on. -/
def isspace (c : Byte) : Bool := decide (c.toNat = 32 ∨ (9 ≤ c.toNat ∧ c.toNat ≤ 13))

/-- `LONG_MAX`. -/
def longMax : Nat := 9223372036854775807

/-- The number of the digits at the start of a text, cut to `LONG_MAX`. -/
def leadingNumber (s : List Byte) : Int := (min (decimal (s.takeWhile isdigit)) longMax : Nat)

/-- `strtol` in base 10: blanks, a sign, and digits up to the first character that is none. -/
def strtol (s : List Byte) : Int :=
  match s.dropWhile isspace with
  | [] => 0
  | c :: s =>
    if c = 45 then max (-(decimal (s.takeWhile isdigit) : Int)) (-(longMax : Int) - 1)
    else if c = 43 then leadingNumber s
    else leadingNumber (c :: s)

/-- What an `int` keeps of a `long`. -/
def longToInt (n : Int) : Int := Int.bmod n 4294967296

/-- What a `uint16_t` keeps of a `long`. -/
def longToU16 (n : Int) : Nat := (n % 65536).toNat

/-- A number of an address: up to 255, and without zeros before it. -/
def octet (s : List Byte) : Option Nat :=
  if s ≠ [] ∧ (∀ c ∈ s, isdigit c = true) ∧ (s.head? = some 48 → s.length = 1) ∧ decimal s ≤ 255 then some (decimal s)
  else none

/-- `inet_pton` for `AF_INET`: four numbers between points, in the order of the network, as a little-endian machine reads them. -/
def inetPton (s : List Byte) : Option Nat :=
  match s.splitOn 46 with
  | [a, b, c, d] => do
    let a ← octet a
    let b ← octet b
    let c ← octet c
    let d ← octet d
    some (a + 256 * b + 65536 * c + 16777216 * d)
  | _ => none

/-! ## config.c -/

/-- `chartoint`. -/
def chartoint (c : Byte) : Int := (c.toNat : Int) - 48

/-- `processlinkline`. -/
def processlinkline (line : Line) (links : Links) : Option Links := do
  let (a, aux) ← seek isdigit line.text
  let first := -1 + chartoint a
  let (b, aux) ← seek isdigit aux
  let second := -1 + chartoint b
  let (c, aux) ← seek isdigit aux
  let (mtuString, _) ← copyTo isEndLine (mtuStringSize + 1) (c :: aux)
  let mtu := longToInt (strtol (overwrite line.stack mtuString))
  Grid.writeBoth links first second mtu

/-- `processhostline`. The address is terminated in its buffer and the port is not. -/
def processhostline (line : Line) (ret : Host) : Option Host := do
  let (d, aux) ← seek isdigit line.text
  let (c, aux) ← seek isdigit aux
  let (ip, aux) ← copyTo isComma maxIpStringSize (c :: aux)
  let (c, aux) ← seek isdigit aux
  let (port, _) ← copyTo isEndLine (maxPortStringSize + 1) (c :: aux)
  some { num := (chartoint d).toNat
         ipAddr := (inetPton ip).getD ret.ipAddr
         port := longToU16 (strtol (overwrite line.stack port)) }

/-- `readnodes`, with the lines of the file that it leaves. -/
def readnodes : List Line → Hosts → Nat → Option (Hosts × List Line)
  | [], hosts, _ => some (hosts, [])
  | line :: file, hosts, num =>
    if linkHeader <+: line.text then some (hosts, file)
    else if line.text = newLine then readnodes file hosts num
    else do
      let i ← Grid.place maxHosts num
      let host ← processhostline line (hosts i)
      readnodes file (Function.update hosts i host) (num + 1)

/-- `readlinks`, with the lines of the file that it leaves. -/
def readlinks : List Line → Links → Option (Links × List Line)
  | [], links => some (links, [])
  | line :: file, links =>
    if endText <+: line.text then some (links, file)
    else if line.text = newLine then readlinks file links
    else do
      let links ← processlinkline line links
      readlinks file links

theorem length_readnodes {file rest : List Line} {hosts hosts' : Hosts} {num : Nat}
    (h : readnodes file hosts num = some (hosts', rest)) : rest.length ≤ file.length := by
  induction file generalizing hosts num with
  | nil =>
    obtain ⟨-, rfl⟩ := Prod.mk.inj (Option.some.inj h)
    exact Nat.le_refl _
  | cons line file ih =>
    unfold readnodes at h
    split at h
    · obtain ⟨-, rfl⟩ := Prod.mk.inj (Option.some.inj h)
      exact Nat.le_succ _
    · split at h
      · exact (ih h).trans (Nat.le_succ _)
      · simp only [Option.bind_eq_bind, Option.bind_eq_some_iff] at h
        obtain ⟨i, -, host, -, h⟩ := h
        exact (ih h).trans (Nat.le_succ _)

theorem length_readlinks {file rest : List Line} {links links' : Links} (h : readlinks file links = some (links', rest)) :
    rest.length ≤ file.length := by
  induction file generalizing links with
  | nil =>
    obtain ⟨-, rfl⟩ := Prod.mk.inj (Option.some.inj h)
    exact Nat.le_refl _
  | cons line file ih =>
    unfold readlinks at h
    split at h
    · obtain ⟨-, rfl⟩ := Prod.mk.inj (Option.some.inj h)
      exact Nat.le_succ _
    · split at h
      · exact (ih h).trans (Nat.le_succ _)
      · simp only [Option.bind_eq_bind, Option.bind_eq_some_iff] at h
        obtain ⟨links, -, h⟩ := h
        exact (ih h).trans (Nat.le_succ _)

/-- `readall`. After any line that is not blank and not the end the links are read, whether the hosts have been or not. -/
def readall (file : List Line) (links : Links) (hosts : Hosts) : Option (Links × Hosts) :=
  match file with
  | [] => some (links, hosts)
  | line :: file =>
    if line.text = endText then some (links, hosts)
    else if line.text = newLine then readall file links hosts
    else
      match _hnodes : if nodeHeader <+: line.text then readnodes file hosts 0 else some (hosts, file) with
      | none => none
      | some (hosts, rest) =>
        match _hlinks : readlinks rest links with
        | none => none
        | some (links, rest') => readall rest' links hosts
termination_by file.length
decreasing_by
  · exact Nat.lt_succ_self _
  · have hrest : rest.length ≤ file.length := by
      split at _hnodes
      · exact length_readnodes _hnodes
      · obtain ⟨-, rfl⟩ := Prod.mk.inj (Option.some.inj _hnodes)
        exact Nat.le_refl _
    exact Nat.lt_succ_of_le ((length_readlinks _hlinks).trans hrest)

end NetworkLayers
