import NetworkLayers.Config.Parser

/-!
# The lines of a configuration file

What a line of a host or of a link looks like: digits between anything that is none. Of a well-formed line, the parts carry that they are
what they are said to be.
-/

namespace NetworkLayers

open Scan

/-- Characters of which none is a digit. -/
def NoDigit (l : List Byte) : Prop := ∀ c ∈ l, isdigit c = false

instance (l : List Byte) : Decidable (NoDigit l) := inferInstanceAs (Decidable (∀ c ∈ l, _))

/-- Characters that begin with a digit, up to a character that ends them. -/
def DigitField (isEnd : Byte → Bool) (l : List Byte) : Prop :=
  (∃ c t, l = c :: t ∧ isdigit c = true) ∧ ∀ c ∈ l, isEnd c = false

/-- The text of a link: the digits of two hosts, and the MTU up to a semicolon. -/
def IsLinkText (text : List Byte) (a b : Byte) (mtu : List Byte) : Prop :=
  ∃ pre mid mid' stop rest, text = pre ++ a :: (mid ++ b :: (mid' ++ (mtu ++ stop :: rest))) ∧ NoDigit pre ∧ NoDigit mid ∧
    NoDigit mid' ∧ isdigit a = true ∧ isdigit b = true ∧ DigitField isEndLine mtu ∧ isEndLine stop = true

/-- The text of a host: the digit of the host, the address up to a comma, and the port up to a semicolon. -/
def IsHostText (text : List Byte) (d : Byte) (ip port : List Byte) : Prop :=
  ∃ pre mid comma mid' stop rest, text = pre ++ d :: (mid ++ (ip ++ comma :: (mid' ++ (port ++ stop :: rest)))) ∧ NoDigit pre ∧
    NoDigit mid ∧ NoDigit mid' ∧ isdigit d = true ∧ DigitField isComma ip ∧ isComma comma = true ∧ DigitField isEndLine port ∧
    isEndLine stop = true

/-- The digit of a host's number. -/
def hostDigit (i : HostIndex) : Byte := UInt8.ofNat (48 + hostNum i)

theorem not_isEndLine {c : Byte} (h : isdigit c = true) : isEndLine c = false := by
  simp only [isdigit, decide_eq_true_eq] at h
  rw [isEndLine, beq_eq_false_iff_ne]
  rintro rfl
  exact absurd h.2 (by decide)

theorem not_isComma {c : Byte} (h : isdigit c = true) : isComma c = false := by
  simp only [isdigit, decide_eq_true_eq] at h
  rw [isComma, beq_eq_false_iff_ne]
  rintro rfl
  exact absurd h.1 (by decide)

theorem digitField_of_digits {l : List Byte} (hne : l ≠ []) (hdigits : ∀ c ∈ l, isdigit c = true) : DigitField isEndLine l := by
  obtain ⟨c, t, rfl⟩ := List.exists_cons_of_ne_nil hne
  exact ⟨⟨c, t, rfl, hdigits c List.mem_cons_self⟩, fun d hd => not_isEndLine (hdigits d hd)⟩

theorem isdigit_hostDigit : ∀ i, isdigit (hostDigit i) = true := by decide

/-- No line of a host begins as the one that ends their section. -/
theorem hostDigit_ne_header : ∀ i, 69 ≠ hostDigit i := by decide

/-- A well-formed line of a link, `a -> b, MTU = m;`. -/
structure LinkLine where
  text : List Byte
  first : HostIndex
  second : HostIndex
  mtu : List Byte
  isLink : IsLinkText text (hostDigit first) (hostDigit second) mtu
  digits : ∀ c ∈ mtu, isdigit c = true
  length : mtu.length ≤ 4
  notEnd : ¬endText <+: text

/-- A well-formed line of a host, `n: IP = a.b.c.d, Porta = p;`. -/
structure HostLine where
  text : List Byte
  num : HostIndex
  ip : List Byte
  addr : Nat
  port : List Byte
  isHost : IsHostText text (hostDigit num) ip port
  isAddr : inetPton ip = some addr
  ipLength : ip.length ≤ maxIpStringSize
  digits : ∀ c ∈ port, isdigit c = true
  length : port.length ≤ 5
  notHeader : ¬linkHeader <+: text

/-- The line `n: IP = a.b.c.d, Porta = p;` of any host. -/
def HostLine.written (num : HostIndex) (ip port : List Byte) (addr : Nat) (hip : DigitField isComma ip) (haddr : inetPton ip = some addr)
    (hlen : ip.length ≤ maxIpStringSize) (hport : port ≠ []) (hdigits : ∀ c ∈ port, isdigit c = true) (hlen' : port.length ≤ 5) :
    HostLine where
  text := hostDigit num :: (chars [':', ' ', 'I', 'P', ' ', '=', ' '] ++
    (ip ++ 44 :: (chars [' ', 'P', 'o', 'r', 't', 'a', ' ', '=', ' '] ++ (port ++ 59 :: newLine))))
  num := num
  ip := ip
  addr := addr
  port := port
  isHost := ⟨[], chars [':', ' ', 'I', 'P', ' ', '=', ' '], 44, chars [' ', 'P', 'o', 'r', 't', 'a', ' ', '=', ' '], 59, newLine, rfl,
    by decide, by decide, by decide, isdigit_hostDigit num, hip, rfl, digitField_of_digits hport hdigits, rfl⟩
  isAddr := haddr
  ipLength := hlen
  digits := hdigits
  length := hlen'
  notHeader h := hostDigit_ne_header num (List.cons_prefix_cons.1 h).1

/-- What the line says of the host. -/
def HostLine.host (l : HostLine) : Host := { num := hostNum l.num, port := decimal l.port, ipAddr := l.addr }

/-! ## What is behind the digits -/

/-- The digits that follow those written in the buffer, and behind it as long as there are any. -/
def leftover (stack digits : List Byte) : List Byte := (stack.drop digits.length).takeWhile isdigit

/-- What follows makes no difference: it is no digit, or the number that both make, cut as `strtol` does, leaves the same remainder. -/
def HarmlessLeftover (modulus : Nat) (stack digits : List Byte) : Prop :=
  leftover stack digits = [] ∨ modulus ∣ min (decimal (digits ++ leftover stack digits)) longMax - decimal digits

instance (modulus : Nat) (stack digits : List Byte) : Decidable (HarmlessLeftover modulus stack digits) :=
  inferInstanceAs (Decidable (_ ∨ _))

/-- The condition on the line of a link and what is in the buffer: what is behind the MTU makes no difference to an `int`. -/
def LinkLine.Clean (l : LinkLine) (stack : List Byte) : Prop := HarmlessLeftover 4294967296 stack l.mtu

/-- The condition on the line of a host and what is in the buffer: the port is one, and what is behind it makes no difference to a
`uint16_t`. -/
def HostLine.Clean (l : HostLine) (stack : List Byte) : Prop := decimal l.port < 65536 ∧ HarmlessLeftover 65536 stack l.port

instance (l : LinkLine) (stack : List Byte) : Decidable (l.Clean stack) := inferInstanceAs (Decidable (HarmlessLeftover ..))

instance (l : HostLine) (stack : List Byte) : Decidable (l.Clean stack) := inferInstanceAs (Decidable (_ ∧ HarmlessLeftover ..))

/-! ## Files -/

/-- A line or a blank one, which is `none`, with what its call finds in the buffer for the digits. -/
def linkLines (l : List (Option LinkLine × List Byte)) : List Line := l.map fun x => ⟨(x.1.map (·.text)).getD newLine, x.2⟩

/-- The same for the lines of hosts. -/
def hostLines (l : List (Option HostLine × List Byte)) : List Line := l.map fun x => ⟨(x.1.map (·.text)).getD newLine, x.2⟩

/-- The hosts of such lines, each with what its call finds in the buffer for the port. -/
def listedHosts (l : List (Option HostLine × List Byte)) : List (HostLine × List Byte) := l.filterMap fun x => x.1.map (·, x.2)

/-- A well-formed file: its hosts between `Nos` and `Enlaces`, and its links between that and `Fim`. -/
structure TopologyFile where
  hosts : List (Option HostLine × List Byte)
  links : List (Option LinkLine × List Byte)

/-- The lines of the file. -/
def TopologyFile.lines (t : TopologyFile) : List Line :=
  ⟨nodeHeader ++ newLine, []⟩ :: (hostLines t.hosts ++ ⟨linkHeader ++ newLine, []⟩ :: (linkLines t.links ++ [⟨endText, []⟩]))

end NetworkLayers
