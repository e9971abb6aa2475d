import NetworkLayers.Config.Lines

/-!
# What the parser makes of a line

`processlinkline` and `processhostline` return for the lines of the right shape whose parts there is room for, and for no others.
-/

namespace NetworkLayers

open Scan

namespace ParserAux

variable {text stack : List Byte} {a b d : Byte} {mtu ip port : List Byte} {links links' : Links} {ret host : Host}

/-- A loop that looks for a digit, and one that copies from there up to an end. -/
def field (isEnd : Byte → Bool) (room : Nat) (l : List Byte) : Option (List Byte × List Byte) :=
  (seek isdigit l).bind fun x => copyTo isEnd room (x.1 :: x.2)

theorem field_eq_some_iff {isEnd : Byte → Bool} {room : Nat} {l copied rest : List Byte}
    (hend : ∀ c, isdigit c = true → isEnd c = false) :
    field isEnd room l = some (copied, rest) ↔
      ∃ pre stop t, l = pre ++ (copied ++ stop :: t) ∧ rest = stop :: t ∧ NoDigit pre ∧ DigitField isEnd copied ∧
        copied.length ≤ room ∧ isEnd stop = true := by
  simp only [field, Option.bind_eq_some_iff, Prod.exists, seek_eq_some_iff, copyTo_eq_some_iff]
  constructor
  · rintro ⟨c, l', ⟨pre, rfl, hpre, hc⟩, hcopy, hcopied, hlen, stop, t, rfl, hstop⟩
    refine ⟨pre, stop, t, by rw [hcopy], rfl, hpre, ⟨?_, hcopied⟩, hlen, hstop⟩
    cases copied with
    | nil =>
      -- the character found would be the end
      obtain ⟨rfl, -⟩ := List.cons.inj hcopy
      rw [hend c hc] at hstop
      cases hstop
    | cons y copied =>
      obtain ⟨rfl, -⟩ := List.cons.inj hcopy
      exact ⟨c, copied, rfl, hc⟩
  · rintro ⟨pre, stop, t, rfl, rfl, hpre, ⟨⟨c, t', rfl, hc⟩, hcopied⟩, hlen, hstop⟩
    exact ⟨c, t' ++ stop :: t, ⟨pre, rfl, hpre, hc⟩, rfl, hcopied, hlen, stop, t, rfl, hstop⟩

/-! ## A line of a link -/

theorem processlinkline_eq (line : Line) (links : Links) :
    processlinkline line links = (seek isdigit line.text).bind fun x => (seek isdigit x.2).bind fun y =>
      (field isEndLine (mtuStringSize + 1) y.2).bind fun z =>
        Grid.writeBoth links (-1 + chartoint x.1) (-1 + chartoint y.1) (longToInt (strtol (overwrite line.stack z.1))) := by
  simp only [field, Option.bind_assoc]
  rfl

/-- What `processlinkline` writes for a line of a link. -/
theorem processlinkline_eq_some_iff :
    processlinkline ⟨text, stack⟩ links = some links' ↔ ∃ a b mtu, IsLinkText text a b mtu ∧ mtu.length ≤ mtuStringSize + 1 ∧
      Grid.writeBoth links (-1 + chartoint a) (-1 + chartoint b) (longToInt (strtol (overwrite stack mtu))) = some links' := by
  simp only [processlinkline_eq, Option.bind_eq_some_iff, Prod.exists, seek_eq_some_iff, field_eq_some_iff fun _ => not_isEndLine]
  constructor
  · rintro ⟨a, _, ⟨pre, rfl, hpre, ha⟩, b, _, ⟨mid, rfl, hmid, hb⟩, mtu, _,
      ⟨mid', stop, rest, rfl, -, hmid', hmtu, hlen, hstop⟩, hw⟩
    exact ⟨a, b, mtu, ⟨pre, mid, mid', stop, rest, rfl, hpre, hmid, hmid', ha, hb, hmtu, hstop⟩, hlen, hw⟩
  · rintro ⟨a, b, mtu, ⟨pre, mid, mid', stop, rest, rfl, hpre, hmid, hmid', ha, hb, hmtu, hstop⟩, hlen, hw⟩
    exact ⟨a, _, ⟨pre, rfl, hpre, ha⟩, b, _, ⟨mid, rfl, hmid, hb⟩, mtu, _,
      ⟨mid', stop, rest, rfl, rfl, hmid', hmtu, hlen, hstop⟩, hw⟩

/-! ## A line of a host -/

theorem processhostline_eq (line : Line) (ret : Host) :
    processhostline line ret = (seek isdigit line.text).bind fun x => (field isComma maxIpStringSize x.2).bind fun y =>
      (field isEndLine (maxPortStringSize + 1) y.2).bind fun z =>
        some { num := (chartoint x.1).toNat, ipAddr := (inetPton y.1).getD ret.ipAddr,
               port := longToU16 (strtol (overwrite line.stack z.1)) } := by
  simp only [field, Option.bind_assoc]
  rfl

/-- What `processhostline` makes of a line of a host. -/
theorem processhostline_eq_some_iff :
    processhostline ⟨text, stack⟩ ret = some host ↔ ∃ d ip port, IsHostText text d ip port ∧ ip.length ≤ maxIpStringSize ∧
      port.length ≤ maxPortStringSize + 1 ∧
      host = { num := (chartoint d).toNat, ipAddr := (inetPton ip).getD ret.ipAddr,
               port := longToU16 (strtol (overwrite stack port)) } := by
  simp only [processhostline_eq, Option.bind_eq_some_iff, Prod.exists, seek_eq_some_iff, field_eq_some_iff fun _ => not_isEndLine,
    field_eq_some_iff fun _ => not_isComma, Option.some.injEq]
  constructor
  · rintro ⟨d, _, ⟨pre, rfl, hpre, hd⟩, ip, _, ⟨mid, comma, rest, rfl, rfl, hmid, hip, hlen, hcomma⟩, port, _,
      ⟨mid', stop, rest', heq, rfl, hmid', hport, hlen', hstop⟩, rfl⟩
    cases mid' with
    | nil =>
      -- the comma would be the first digit of the port
      obtain ⟨⟨c, t, rfl, hc⟩, -⟩ := hport
      obtain ⟨rfl, -⟩ := List.cons.inj heq
      rw [not_isComma hc] at hcomma
      cases hcomma
    | cons c mid' =>
      obtain ⟨rfl, rfl⟩ := List.cons.inj heq
      exact ⟨d, ip, port, ⟨pre, mid, comma, mid', stop, rest', rfl, hpre, hmid, (List.forall_mem_cons.1 hmid').2, hd, hip, hcomma,
        hport, hstop⟩, hlen, hlen', rfl⟩
  · rintro ⟨d, ip, port, ⟨pre, mid, comma, mid', stop, rest, rfl, hpre, hmid, hmid', hd, hip, hcomma, hport, hstop⟩, hlen, hlen',
      rfl⟩
    have hnot : isdigit comma = false := by
      by_contra h
      rw [not_isComma (by simpa using h)] at hcomma
      cases hcomma
    exact ⟨d, _, ⟨pre, rfl, hpre, hd⟩, ip, _, ⟨mid, comma, _, rfl, rfl, hmid, hip, hlen, hcomma⟩, port, _,
      ⟨comma :: mid', stop, rest, rfl, rfl, List.forall_mem_cons.2 ⟨hnot, hmid'⟩, hport, hlen', hstop⟩, rfl⟩

/-! ## The number in the buffer -/

theorem toNat_hostDigit (i : HostIndex) : (hostDigit i).toNat = 48 + hostNum i := by
  have hlt : hostNum i < 7 := Nat.succ_lt_succ i.isLt
  have hbyte : 48 + hostNum i < 256 := by omega
  exact UInt8.toNat_ofNat_of_lt' hbyte

/-- What `strtol` returns for digits, whatever is behind them. -/
theorem strtol_overwrite {digits : List Byte} (hne : digits ≠ []) (hdigits : ∀ c ∈ digits, isdigit c = true) :
    strtol (overwrite stack digits) = (min (decimal (digits ++ leftover stack digits)) longMax : Nat) := by
  have htake := takeWhile_overwrite stack hdigits
  obtain ⟨c, t, rfl⟩ := List.exists_cons_of_ne_nil hne
  have hc : isdigit c = true := hdigits c List.mem_cons_self
  have hspace : isspace c = false := by
    simp only [isdigit, isspace, decide_eq_true_eq, decide_eq_false_iff_not] at hc ⊢
    omega
  have hminus : c ≠ 45 := by
    rintro rfl
    exact absurd hc (by decide)
  have hplus : c ≠ 43 := by
    rintro rfl
    exact absurd hc (by decide)
  rw [leftover, ← htake]
  rw [overwrite, List.cons_append, strtol, List.dropWhile_cons, hspace]
  simp only [Bool.false_eq_true, if_false, if_neg hminus, if_neg hplus]
  rfl

/-- A number that is not cut is the one written exactly when what follows makes no difference. -/
theorem harmless_iff {modulus : Nat} {digits : List Byte} (hlt : decimal digits ≤ longMax) :
    HarmlessLeftover modulus stack digits ↔
      modulus ∣ min (decimal (digits ++ leftover stack digits)) longMax - decimal digits := by
  refine or_iff_right_of_imp fun hnil => ?_
  rw [hnil, List.append_nil, min_eq_left hlt, Nat.sub_self]
  exact Nat.dvd_zero _

theorem longToInt_eq_iff {n v : Nat} (hv : v < 2147483648) (hle : v ≤ n) : longToInt n = v ↔ 4294967296 ∣ n - v := by
  unfold longToInt
  rw [Int.bmod_def]
  split <;> omega

/-- What `processlinkline` makes of a well-formed line. -/
theorem processlinkline_line (l : LinkLine) (stack : List Byte) (links : Links) :
    processlinkline ⟨l.text, stack⟩ links =
      some (Grid.setBoth links l.first l.second (longToInt (strtol (overwrite stack l.mtu)))) := by
  have hplace : ∀ i : HostIndex, -1 + chartoint (hostDigit i) = (i.val : Int) := by
    intro i
    rw [chartoint, toNat_hostDigit, hostNum]
    omega
  refine processlinkline_eq_some_iff.2 ⟨_, _, _, l.isLink, l.length.trans (by decide), ?_⟩
  rw [hplace, hplace, Grid.writeBoth_val]

/-- What `processhostline` makes of a well-formed line. -/
theorem processhostline_line (l : HostLine) (stack : List Byte) (ret : Host) :
    processhostline ⟨l.text, stack⟩ ret = some { l.host with port := longToU16 (strtol (overwrite stack l.port)) } := by
  refine processhostline_eq_some_iff.2 ⟨_, _, _, l.isHost, l.ipLength, l.length.trans (by decide), ?_⟩
  rw [l.isAddr, chartoint, toNat_hostDigit]
  simp only [HostLine.host, Option.getD_some, Host.mk.injEq, and_true]
  omega

theorem longToU16_eq_iff {n v : Nat} (hle : v ≤ n) : longToU16 n = v ↔ v < 65536 ∧ 65536 ∣ n - v := by
  unfold longToU16
  omega

theorem isdigit_le {c : Byte} (h : isdigit c = true) : c.toNat ≤ 57 := by
  simp only [isdigit, decide_eq_true_eq] at h
  exact h.2

theorem ne_nil_of_digitField {isEnd : Byte → Bool} {l : List Byte} (h : DigitField isEnd l) : l ≠ [] := by
  obtain ⟨⟨c, t, rfl, -⟩, -⟩ := h
  exact List.cons_ne_nil c t

theorem mtu_ne_nil (l : LinkLine) : l.mtu ≠ [] := by
  obtain ⟨_, _, _, _, _, -, -, -, -, -, -, hmtu, -⟩ := l.isLink
  exact ne_nil_of_digitField hmtu

theorem port_ne_nil (l : HostLine) : l.port ≠ [] := by
  obtain ⟨_, _, _, _, _, _, -, -, -, -, -, -, -, hport, -⟩ := l.isHost
  exact ne_nil_of_digitField hport

/-- The MTU of the line is read as it is written exactly when what is behind it makes no difference. -/
theorem mtu_eq_iff (l : LinkLine) (stack : List Byte) :
    longToInt (strtol (overwrite stack l.mtu)) = decimal l.mtu ↔ l.Clean stack := by
  have hlt : decimal l.mtu < 10000 :=
    (decimal_lt fun c hc => isdigit_le (l.digits c hc)).trans_le (Nat.pow_le_pow_right (by decide) l.length)
  have hmax : longMax = 9223372036854775807 := rfl
  have hle := decimal_le_append l.mtu (leftover stack l.mtu)
  rw [strtol_overwrite (mtu_ne_nil l) l.digits, longToInt_eq_iff (by omega) (by omega), LinkLine.Clean,
    harmless_iff (by omega)]

/-- The port of the line is read as it is written exactly when it is one and what is behind it makes no difference. -/
theorem port_eq_iff (l : HostLine) (stack : List Byte) :
    longToU16 (strtol (overwrite stack l.port)) = decimal l.port ↔ l.Clean stack := by
  have hlt : decimal l.port < 100000 :=
    (decimal_lt fun c hc => isdigit_le (l.digits c hc)).trans_le (Nat.pow_le_pow_right (by decide) l.length)
  have hmax : longMax = 9223372036854775807 := rfl
  have hle := decimal_le_append l.port (leftover stack l.port)
  rw [strtol_overwrite (port_ne_nil l) l.digits, longToU16_eq_iff (by omega), HostLine.Clean,
    harmless_iff (by omega)]

/-! ## Sections of a file -/

@[simp] theorem readall_nil (links : Links) (hosts : Hosts) : readall [] links hosts = some (links, hosts) := by
  rw [readall]

theorem readall_cons (line : Line) (file : List Line) (links : Links) (hosts : Hosts) :
    readall (line :: file) links hosts =
      if line.text = endText then some (links, hosts)
      else if line.text = newLine then readall file links hosts
      else (if nodeHeader <+: line.text then readnodes file hosts 0 else some (hosts, file)).bind fun x =>
        (readlinks x.2 links).bind fun y => readall y.2 y.1 x.1 := by
  rw [readall]
  split
  · rfl
  · split
    · rfl
    · split
      · rename_i hnodes
        rw [hnodes, Option.bind_none]
      · rename_i hosts' rest hnodes
        rw [hnodes, Option.bind_some]
        split
        · rename_i hlinks
          rw [hlinks, Option.bind_none]
        · rename_i links' rest' hlinks
          rw [hlinks, Option.bind_some]

theorem isdigit_newLine : ∀ c ∈ newLine, isdigit c = false := by decide

theorem link_ne_newLine (l : LinkLine) : l.text ≠ newLine := by
  obtain ⟨pre, _, _, _, _, htext, -, -, -, ha, -⟩ := l.isLink
  intro heq
  have hmem : hostDigit l.first ∈ newLine := by
    rw [← heq, htext]
    exact List.mem_append_right _ List.mem_cons_self
  rw [isdigit_newLine _ hmem] at ha
  cases ha

theorem host_ne_newLine (l : HostLine) : l.text ≠ newLine := by
  obtain ⟨pre, _, _, _, _, _, htext, -, -, -, hd, -⟩ := l.isHost
  intro heq
  have hmem : hostDigit l.num ∈ newLine := by
    rw [← heq, htext]
    exact List.mem_append_right _ List.mem_cons_self
  rw [isdigit_newLine _ hmem] at hd
  cases hd

/-- The links after a line or a blank one, with what is in the buffer for its MTU. -/
def readLink (links : Links) : Option LinkLine × List Byte → Links
  | (none, _) => links
  | (some l, stack) => Grid.setBoth links l.first l.second (longToInt (strtol (overwrite stack l.mtu)))

/-- `readlinks` on well-formed lines. -/
theorem readlinks_lines (l : List (Option LinkLine × List Byte)) (rest : List Line) (links : Links) :
    readlinks (linkLines l ++ rest) links = readlinks rest (l.foldl readLink links) := by
  induction l generalizing links with
  | nil => rfl
  | cons x l ih =>
    obtain ⟨line, stack⟩ := x
    cases line with
    | none =>
      have hblank : ¬endText <+: newLine := by decide
      rw [List.foldl_cons, readLink, ← ih]
      simp [linkLines, readlinks, hblank]
    | some line =>
      rw [List.foldl_cons, readLink, ← ih]
      simp [linkLines, readlinks, line.notEnd, link_ne_newLine line, processlinkline_line]

/-- The entry of a host, with what is in the buffer for its port. -/
def readHost (x : HostLine × List Byte) : Host := { x.1.host with port := longToU16 (strtol (overwrite x.2 x.1.port)) }

theorem listedHosts_none (stack : List Byte) (l : List (Option HostLine × List Byte)) :
    listedHosts ((none, stack) :: l) = listedHosts l := rfl

theorem listedHosts_some (line : HostLine) (stack : List Byte) (l : List (Option HostLine × List Byte)) :
    listedHosts ((some line, stack) :: l) = (line, stack) :: listedHosts l := rfl

/-- `readnodes` on well-formed lines: the hosts are stored one behind the other. -/
theorem readnodes_lines (l : List (Option HostLine × List Byte)) (rest : List Line) (hosts : Hosts) (num : Nat)
    (hroom : num + (listedHosts l).length ≤ maxHosts) :
    ∃ hosts', readnodes (hostLines l ++ rest) hosts num = readnodes rest hosts' (num + (listedHosts l).length) ∧
      (∀ i : HostIndex, i.val < num → hosts' i = hosts i) ∧
      ∀ i : HostIndex, num ≤ i.val → hosts' i = ((listedHosts l)[i.val - num]?.map readHost).getD (hosts i) := by
  induction l generalizing hosts num with
  | nil => exact ⟨hosts, rfl, fun i _ => rfl, fun i _ => rfl⟩
  | cons x l ih =>
    obtain ⟨line, stack⟩ := x
    cases line with
    | none =>
      have hblank : ¬linkHeader <+: newLine := by decide
      rw [listedHosts_none] at hroom ⊢
      obtain ⟨hosts', hread, hentries⟩ := ih hosts num hroom
      refine ⟨hosts', ?_, hentries⟩
      rw [← hread]
      simp [hostLines, readnodes, hblank]
    | some line =>
      rw [listedHosts_some, List.length_cons] at hroom ⊢
      have hnum : num < maxHosts := by omega
      let j : HostIndex := ⟨num, hnum⟩
      have hplace : Grid.place maxHosts num = some j := Grid.place_val j
      obtain ⟨hosts', hread, hbelow, habove⟩ :=
        ih (Function.update hosts j (readHost (line, stack))) (num + 1) (by omega)
      refine ⟨hosts', ?_, fun i hi => ?_, fun i hi => ?_⟩
      · rw [← Nat.add_assoc, Nat.add_right_comm, ← hread]
        simp [hostLines, readnodes, line.notHeader, host_ne_newLine line, hplace, processhostline_line, readHost]
      · rw [hbelow i (by omega), Function.update_of_ne]
        rintro rfl
        exact absurd hi (Nat.lt_irrefl num)
      · by_cases hij : i = j
        · subst hij
          rw [hbelow j (Nat.lt_succ_self num), Function.update_self]
          simp [j]
        · have hlt : num < i.val := Nat.lt_of_le_of_ne hi fun h => hij (Fin.ext h.symm)
          have hsub : i.val - num = i.val - (num + 1) + 1 := by omega
          rw [habove i hlt, Function.update_of_ne hij, hsub, List.getElem?_cons_succ]

end ParserAux

end NetworkLayers
