import DpiEngine.Types

/-!
# Addresses as text

IPv4 addresses as dotted quads and back, as `rule_manager.cpp`, `packet_parser.cpp` and
`dpi_engine.cpp` convert them on a little-endian machine.
-/

namespace DPI

open Bytes

/-- `INT_MAX`. -/
def intMax : ℕ := 2147483647

/-- `result |= (octet << shift)`.  Where the value does not fit `unsigned`, C++17 leaves the shift
undefined; modelled is what it is compiled to, where the bits shifted out of the 32 are lost. -/
def orOctet (result : UInt32) (octet shift : ℕ) : Checked UInt32 :=
  if shift < 32 then .ok (result ||| UInt32.ofNat (octet <<< shift)) else .error .shiftTooFar

/-- The loop of `parseIP`: bytes other than digits and dots are skipped. -/
def parseIPFrom (result : UInt32) (octet shift : ℕ) : Str → Checked UInt32
  | [] => orOctet result octet shift
  | c :: rest =>
    if c = 0x2e then do
      let result ← orOctet result octet shift
      parseIPFrom result 0 (shift + 8) rest
    else if 0x30 ≤ c ∧ c ≤ 0x39 then
      let octet := octet * 10 + (c.toNat - 0x30)
      if octet ≤ intMax then parseIPFrom result octet shift rest else .error .signedOverflow
    else parseIPFrom result octet shift rest

/-- `parseIP`, in the copies of the rule manager and of the engine alike. -/
def parseIP (ip : Str) : Checked UInt32 := parseIPFrom 0 0 0 ip

/-- An integer written to a text stream. -/
def decimal (n : ℕ) : Str := (Nat.toDigits 10 n).map Char.toUInt8

/-- `ipToString`: the lowest byte of the address comes first. -/
def ipToString (ip : UInt32) : Str :=
  decimal ((ip >>> 0) &&& 0xff).toNat ++ text "." ++ decimal ((ip >>> 8) &&& 0xff).toNat ++
    text "." ++ decimal ((ip >>> 16) &&& 0xff).toNat ++ text "." ++
    decimal ((ip >>> 24) &&& 0xff).toNat

/-! ## Parsing undoes printing -/

/-- The digit `d` in a text. -/
def digit (d : ℕ) : UInt8 := UInt8.ofNat (0x30 + d)

theorem decimal_of_lt {n : ℕ} (h : n < 256) :
    decimal n = if n < 10 then [digit n] else if n < 100 then [digit (n / 10), digit (n % 10)]
      else [digit (n / 100), digit (n / 10 % 10), digit (n % 10)] := by
  have hall : ∀ n : Fin 256, decimal n = if n.val < 10 then [digit n] else
      if n.val < 100 then [digit (n / 10), digit (n % 10)]
      else [digit (n / 100), digit (n / 10 % 10), digit (n % 10)] := by decide +kernel
  exact hall ⟨n, h⟩

theorem parseIPFrom_digit {d octet : ℕ} (hd : d < 10) (ho : octet * 10 + d ≤ intMax)
    (result : UInt32) (shift : ℕ) (rest : Str) :
    parseIPFrom result octet shift (digit d :: rest) =
      parseIPFrom result (octet * 10 + d) shift rest := by
  have hall : ∀ d : Fin 10, digit d ≠ 0x2e ∧ (0x30 ≤ digit d ∧ digit d ≤ 0x39) ∧
      (digit d).toNat - 0x30 = d := by decide
  obtain ⟨hdot, hdigit, hvalue⟩ := hall ⟨d, hd⟩
  rw [parseIPFrom, if_neg hdot, if_pos hdigit]
  simp only [hvalue]
  rw [if_pos ho]

theorem parseIPFrom_decimal {n : ℕ} (h : n < 256) (result : UInt32) (shift : ℕ) (rest : Str) :
    parseIPFrom result 0 shift (decimal n ++ rest) = parseIPFrom result n shift rest := by
  have hmax : 10000 < intMax := by decide
  rw [decimal_of_lt h]
  split_ifs with h1 h2
  · rw [List.cons_append, List.nil_append, parseIPFrom_digit h1 (by omega)]
    congr 1
    omega
  · rw [List.cons_append, List.cons_append, List.nil_append,
      parseIPFrom_digit (by omega) (by omega), parseIPFrom_digit (by omega) (by omega)]
    congr 1
    omega
  · rw [List.cons_append, List.cons_append, List.cons_append, List.nil_append,
      parseIPFrom_digit (by omega) (by omega), parseIPFrom_digit (by omega) (by omega),
      parseIPFrom_digit (by omega) (by omega)]
    congr 1
    omega

theorem parseIPFrom_dot {octet shift : ℕ} (hs : shift < 32) (result : UInt32) (rest : Str) :
    parseIPFrom result octet shift (text "." ++ rest) =
      parseIPFrom (result ||| UInt32.ofNat (octet <<< shift)) 0 (shift + 8) rest := by
  change parseIPFrom result octet shift (0x2e :: rest) = _
  rw [parseIPFrom, if_pos rfl, orOctet, if_pos hs]
  rfl

/-- The octet of an address at a shift. -/
theorem toNat_octet (ip : UInt32) {s : UInt32} (hs : s.toNat < 32) :
    ((ip >>> s) &&& 0xff).toNat = ip.toNat / 2 ^ s.toNat % 256 := by
  rw [UInt32.toNat_and, UInt32.toNat_shiftRight, Nat.mod_eq_of_lt hs, Nat.shiftRight_eq_div_pow]
  exact Nat.and_two_pow_sub_one_eq_mod _ 8

theorem parseIP_ipToString (ip : UInt32) : parseIP (ipToString ip) = .ok ip := by
  have hip := ip.toNat_lt
  have h0 : ((ip >>> 0) &&& 0xff).toNat = ip.toNat / 2 ^ 0 % 256 := toNat_octet ip (by decide)
  have h1 : ((ip >>> 8) &&& 0xff).toNat = ip.toNat / 2 ^ 8 % 256 := toNat_octet ip (by decide)
  have h2 : ((ip >>> 16) &&& 0xff).toNat = ip.toNat / 2 ^ 16 % 256 := toNat_octet ip (by decide)
  have h3 : ((ip >>> 24) &&& 0xff).toNat = ip.toNat / 2 ^ 24 % 256 := toNat_octet ip (by decide)
  have hend : decimal (ip.toNat / 2 ^ 24 % 256) = decimal (ip.toNat / 2 ^ 24 % 256) ++ [] := by simp
  rw [ipToString, h0, h1, h2, h3, parseIP, hend]
  simp only [List.append_assoc]
  rw [parseIPFrom_decimal (by omega), parseIPFrom_dot (by omega), parseIPFrom_decimal (by omega),
    parseIPFrom_dot (by omega), parseIPFrom_decimal (by omega), parseIPFrom_dot (by omega),
    parseIPFrom_decimal (by omega), parseIPFrom, orOctet, if_pos (by omega)]
  congr 1
  apply UInt32.toNat_inj.mp
  have hoctet : ∀ a k, a < 256 → k ≤ 24 → (UInt32.ofNat (a <<< k)).toNat = a * 2 ^ k := by
    intro a k ha hk
    rw [Nat.shiftLeft_eq, UInt32.toNat_ofNat_of_lt']
    calc a * 2 ^ k < 256 * 2 ^ 24 :=
          Nat.mul_lt_mul_of_lt_of_le ha (Nat.pow_le_pow_right (by omega) hk) (by positivity)
      _ = UInt32.size := rfl
  rw [UInt32.toNat_or, UInt32.toNat_or, UInt32.toNat_or, UInt32.toNat_or,
    hoctet _ 0 (by omega) (by omega), hoctet _ 8 (by omega) (by omega),
    hoctet _ 16 (by omega) (by omega), hoctet _ 24 (by omega) (by omega), UInt32.toNat_zero,
    Nat.zero_or, or_eq_add (i := 8) (by omega) (Dvd.intro_left _ rfl),
    or_eq_add (i := 16) (by omega) (Dvd.intro_left _ rfl),
    or_eq_add (i := 24) (by omega) (Dvd.intro_left _ rfl)]
  omega
end DPI
