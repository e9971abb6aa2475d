import NetworkLayers.Common

/-!
# What the checksum tells apart

Adding the carries back keeps a sum modulo 65535, and only the sum 0 folds to 0. A single byte moves the sum of the 16-bit words
by less than 65535 either way, so the checksums of data that differ in one byte differ.
-/

namespace NetworkLayers

/-- The sum of the words of `sumWords`, in a word that does not overflow. -/
def wordSum : List Byte → Nat
  | a :: b :: rest => a.toNat + 256 * b.toNat + wordSum rest
  | [a] => a.toNat
  | [] => 0

/-- No word is above 65535. -/
theorem wordSum_le (l : List Byte) : wordSum l ≤ 65535 * ((l.length + 1) / 2) := by
  induction l using wordSum.induct with
  | case1 a b rest ih =>
    have ha := a.toNat_lt
    have hb := b.toNat_lt
    simp only [wordSum, List.length_cons]
    omega
  | case2 a =>
    have ha := a.toNat_lt
    simp only [wordSum, List.length_cons, List.length_nil]
    omega
  | case3 => simp [wordSum]

/-- As long as the 32 bits of `sum` hold it, the loop of `checksum` adds the words up. -/
theorem sumWords_eq {sum : Nat} {l : List Byte} (h : sum + wordSum l < 4294967296) : sumWords sum l = sum + wordSum l := by
  induction sum, l using sumWords.induct with
  | case1 sum a b rest ih =>
    simp only [wordSum] at h
    have hu : u32 (sum + (a.toNat + 256 * b.toNat)) = sum + (a.toNat + 256 * b.toNat) := u32_of_lt (by omega)
    rw [sumWords, ih (by rw [hu]; omega), hu, wordSum]
    omega
  | case2 sum a =>
    simp only [wordSum] at h
    rw [sumWords, wordSum, u32_of_lt h]
  | case3 sum => rfl

/-- Adding the carries back ends within 16 bits, keeps the sum modulo 65535, and gives 0 for 0 only. -/
theorem foldCarries_spec (n : Nat) :
    foldCarries n ≤ 65535 ∧ foldCarries n % 65535 = n % 65535 ∧ (foldCarries n = 0 ↔ n = 0) := by
  induction n using foldCarries.induct with
  | case1 n h =>
    rw [foldCarries, dif_pos h]
    exact ⟨by omega, rfl, Iff.rfl⟩
  | case2 n h ih =>
    obtain ⟨hle, hmod, hzero⟩ := ih
    rw [foldCarries, dif_neg h]
    refine ⟨hle, ?_, ?_⟩
    · rw [hmod]
      omega
    · rw [hzero]
      omega

theorem checksum_lt (data : List Byte) (size : Nat) : checksum data size < 65536 := by
  unfold checksum
  omega

/-- The checksum of data no longer than a UDP datagram tells their sum modulo 65535. -/
theorem wordSum_of_checksum_eq {l l' : List Byte} (hl : l.length ≤ 65507) (hl' : l'.length ≤ 65507)
    (h : checksum l l.length = checksum l' l'.length) : wordSum l % 65535 = wordSum l' % 65535 := by
  have hsum : ∀ l : List Byte, l.length ≤ 65507 → sumWords 0 (l.take l.length) = wordSum l := by
    intro l hl
    have hle := wordSum_le l
    rw [List.take_length, sumWords_eq (by omega), Nat.zero_add]
  unfold checksum at h
  rw [hsum l hl, hsum l' hl'] at h
  obtain ⟨hle, hmod, -⟩ := foldCarries_spec (wordSum l)
  obtain ⟨hle', hmod', -⟩ := foldCarries_spec (wordSum l')
  have hfold : foldCarries (wordSum l) = foldCarries (wordSum l') := by omega
  rw [← hmod, ← hmod', hfold]

/-- Another byte at a place moves the sum by the difference of the two, times 256 at the odd places. -/
theorem wordSum_set {l : List Byte} {i : Nat} (hi : i < l.length) (v : Byte) :
    ∃ w, 0 < w ∧ w ≤ 256 ∧ wordSum (l.set i v) + w * l[i].toNat = wordSum l + w * v.toNat := by
  induction l using wordSum.induct generalizing i with
  | case1 a b rest ih =>
    match i with
    | 0 =>
      refine ⟨1, by decide, by decide, ?_⟩
      simp only [List.set_cons_zero, wordSum, List.getElem_cons_zero]
      omega
    | 1 =>
      refine ⟨256, by decide, by decide, ?_⟩
      simp only [List.set_cons_succ, List.set_cons_zero, wordSum, List.getElem_cons_succ, List.getElem_cons_zero]
      omega
    | i + 2 =>
      obtain ⟨w, hpos, hle, heq⟩ := ih (i := i) (by simpa using hi)
      refine ⟨w, hpos, hle, ?_⟩
      simp only [List.set_cons_succ, wordSum, List.getElem_cons_succ]
      omega
  | case2 a =>
    obtain rfl : i = 0 := by simpa using hi
    refine ⟨1, by decide, by decide, ?_⟩
    simp only [List.set_cons_zero, wordSum, List.getElem_cons_zero]
    omega
  | case3 => simp at hi

/-- Data that differ in one byte have different checksums. -/
theorem checksum_set_ne {l : List Byte} (hl : l.length ≤ 65507) {i : Nat} (hi : i < l.length) {v : Byte} (hv : v ≠ l[i]) :
    checksum (l.set i v) l.length ≠ checksum l l.length := by
  intro h
  have hset : (l.set i v).length = l.length := List.length_set
  have hmod : wordSum (l.set i v) % 65535 = wordSum l % 65535 :=
    wordSum_of_checksum_eq (by omega) hl (by rw [hset]; exact h)
  obtain ⟨w, hpos, hle, heq⟩ := wordSum_set hi v
  have hne : v.toNat ≠ l[i].toNat := fun he => hv (UInt8.toNat_inj.1 he)
  have h1 := v.toNat_lt
  have h2 := l[i].toNat_lt
  -- the sums differ by less than 65535, and not by 0
  rcases Nat.lt_or_gt_of_ne hne with hlt | hgt
  · obtain ⟨k, hk⟩ : ∃ k, l[i].toNat = v.toNat + k := ⟨l[i].toNat - v.toNat, by omega⟩
    have hwk : w * k ≤ 256 * 255 := Nat.mul_le_mul hle (by omega)
    have hwpos : 0 < w * k := Nat.mul_pos hpos (by omega)
    rw [hk, Nat.mul_add] at heq
    omega
  · obtain ⟨k, hk⟩ : ∃ k, v.toNat = l[i].toNat + k := ⟨v.toNat - l[i].toNat, by omega⟩
    have hwk : w * k ≤ 256 * 255 := Nat.mul_le_mul hle (by omega)
    have hwpos : 0 < w * k := Nat.mul_pos hpos (by omega)
    rw [hk, Nat.mul_add] at heq
    omega

end NetworkLayers
