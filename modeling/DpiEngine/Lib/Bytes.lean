import Mathlib.Tactic
import Mathlib.Data.List.Basic

/-!
# Byte strings

Fixed-width numbers as byte strings in either byte order, reads of single bytes and of slices that
fail outside the string, and where such reads land in a concatenation.  An operation without a
defined result is a `Fault`, so a computation that never faults never reads out of bounds.
-/

namespace Bytes

/-- The operations without a defined result: accesses outside an object or to a destroyed one,
overflow of a signed integer and shifts by the width or more. -/
inductive Fault where
  | outOfBounds
  | useAfterFree
  | signedOverflow
  | shiftTooFar
  deriving DecidableEq, Repr

/-- Computations that may stop at an undefined operation. -/
abbrev Checked := Except Fault

theorem bind_eq_ok_iff {α β : Type} {x : Checked α} {f : α → Checked β} {b : β} :
    x >>= f = .ok b ↔ ∃ a, x = .ok a ∧ f a = .ok b := by
  cases x with
  | error e => simp [bind, Except.bind]
  | ok a => simp [bind, Except.bind]

theorem ok_bind {α β : Type} (a : α) (f : α → Checked β) : (Except.ok a >>= f) = f a := rfl

/-- A guard that gives up without a result. -/
theorem ite_none_eq_ok_some {α : Type} {p : Prop} [Decidable p] {x : Checked (Option α)} {a : α} :
    (if p then pure none else x) = .ok (some a) ↔ ¬ p ∧ x = .ok (some a) := by
  split_ifs with h
  · simp [h, pure, Except.pure]
  · simp [h]

/-- The computation meets no fault. -/
def Defined {α : Type} (x : Checked α) : Prop := ∃ a, x = .ok a

theorem defined_ok {α : Type} (a : α) : Defined (.ok a : Checked α) := ⟨a, rfl⟩

theorem not_defined_error {α : Type} (e : Fault) : ¬ Defined (.error e : Checked α) := by
  rintro ⟨a, h⟩
  cases h

theorem Defined.bind {α β : Type} {x : Checked α} {f : α → Checked β} (hx : Defined x)
    (hf : ∀ a, x = .ok a → Defined (f a)) : Defined (x >>= f) := by
  obtain ⟨a, ha⟩ := hx
  obtain ⟨b, hb⟩ := hf a ha
  exact ⟨b, bind_eq_ok_iff.2 ⟨a, ha, hb⟩⟩

theorem Defined.map {α β : Type} {x : Checked α} (hx : Defined x) (f : α → β) :
    Defined (f <$> x) := by
  obtain ⟨a, rfl⟩ := hx
  exact ⟨f a, rfl⟩

theorem Defined.ite {α : Type} {p : Prop} [Decidable p] {x y : Checked α} (hx : p → Defined x)
    (hy : ¬ p → Defined y) : Defined (if p then x else y) := by
  split_ifs with h
  · exact hx h
  · exact hy h

/-- An early return is defined, so a guard leaves the rest. -/
theorem Defined.guard {α : Type} {p : Prop} [Decidable p] {x : Checked α} {a : α}
    (hx : ¬ p → Defined x) : Defined (if p then pure a else x) :=
  .ite (fun _ => defined_ok a) hx

abbrev Str := List UInt8

/-! ## Numbers of a fixed width -/

/-- The `w` low bytes of `n`, least significant byte first. -/
def leBytes : ℕ → ℕ → Str
  | 0, _ => []
  | w + 1, n => UInt8.ofNat n :: leBytes w (n / 256)

/-- The number whose bytes are `bs`, least significant byte first. -/
def leValue : Str → ℕ
  | [] => 0
  | b :: bs => b.toNat + 256 * leValue bs

/-- The `w` low bytes of `n`, most significant byte first. -/
def beBytes (w n : ℕ) : Str := (leBytes w n).reverse

@[simp] theorem length_leBytes (w n : ℕ) : (leBytes w n).length = w := by
  induction w generalizing n with
  | zero => rfl
  | succ w ih => simp [leBytes, ih]

@[simp] theorem length_beBytes (w n : ℕ) : (beBytes w n).length = w := by
  simp [beBytes]

theorem leValue_leBytes {w n : ℕ} (h : n < 256 ^ w) : leValue (leBytes w n) = n := by
  induction w generalizing n with
  | zero => simp at h; simp [leBytes, leValue, h]
  | succ w ih =>
    have hq : n / 256 < 256 ^ w := by
      rw [Nat.div_lt_iff_lt_mul (by norm_num)]
      rwa [pow_succ] at h
    simp only [leBytes, leValue, ih hq, UInt8.toNat_ofNat']
    omega

theorem leValue_lt (bs : Str) : leValue bs < 256 ^ bs.length := by
  induction bs with
  | nil => simp [leValue]
  | cons b bs ih =>
    have hb := b.toNat_lt
    rw [leValue, List.length_cons, pow_succ]
    omega

theorem leBytes_leValue (bs : Str) : leBytes bs.length (leValue bs) = bs := by
  induction bs with
  | nil => rfl
  | cons b bs ih =>
    have hb := b.toNat_lt
    have hd : (b.toNat + 256 * leValue bs) / 256 = leValue bs := by omega
    have hm : UInt8.ofNat (b.toNat + 256 * leValue bs) = b := by
      apply UInt8.toNat_inj.mp
      rw [UInt8.toNat_ofNat']
      omega
    simp [leBytes, leValue, hd, hm, ih]

theorem beBytes_leValue (bs : Str) : beBytes bs.length (leValue bs) = bs.reverse := by
  rw [beBytes, leBytes_leValue]

/-! ## Byte order -/

inductive ByteOrder where
  | little | big
  deriving DecidableEq, Repr

/-- The `w` low bytes of `n` in the given order. -/
def ByteOrder.bytes : ByteOrder → ℕ → ℕ → Str
  | .little => leBytes
  | .big => beBytes

@[simp] theorem ByteOrder.length_bytes (o : ByteOrder) (w n : ℕ) : (o.bytes w n).length = w := by
  cases o with
  | little => exact length_leBytes w n
  | big => exact length_beBytes w n

/-- A mask that keeps the byte at position `k`. -/
theorem and_byteMask (n k : ℕ) :
    n &&& (255 <<< (8 * k)) = n / 2 ^ (8 * k) % 256 * 2 ^ (8 * k) := by
  rw [show (255 : ℕ) = 2 ^ 8 - 1 from rfl, show (256 : ℕ) = 2 ^ 8 from rfl, ← Nat.shiftLeft_eq]
  apply Nat.eq_of_testBit_eq
  intro i
  simp only [Nat.testBit_and, Nat.testBit_shiftLeft, Nat.testBit_mod_two_pow,
    Nat.testBit_div_two_pow, Nat.testBit_two_pow_sub_one]
  by_cases hi : i ≥ 8 * k
  · simp [hi, Nat.sub_add_cancel hi, Bool.and_comm]
  · simp [hi]

/-- Numbers without a common bit are combined by addition. -/
theorem or_eq_add {a b i : ℕ} (ha : a < 2 ^ i) (hb : 2 ^ i ∣ b) : a ||| b = a + b := by
  obtain ⟨c, rfl⟩ := hb
  rw [Nat.or_comm, ← Nat.two_pow_add_eq_or_of_lt ha, Nat.add_comm]

/-! ## Reads -/

/-- The byte at index `i`. -/
def readByte (bs : Str) (i : ℕ) : Checked UInt8 :=
  match bs[i]? with
  | some b => .ok b
  | none => .error .outOfBounds

/-- The `n` bytes from index `i` on. -/
def readSlice (bs : Str) (i n : ℕ) : Checked Str :=
  if i + n ≤ bs.length then .ok ((bs.drop i).take n) else .error .outOfBounds

theorem readByte_eq_ok_iff {bs : Str} {i : ℕ} {b : UInt8} :
    readByte bs i = .ok b ↔ bs[i]? = some b := by
  unfold readByte
  cases bs[i]? <;> simp

theorem readByte_of_lt {bs : Str} {i : ℕ} (h : i < bs.length) : readByte bs i = .ok bs[i] := by
  rw [readByte_eq_ok_iff, List.getElem?_eq_getElem h]

theorem lt_of_readByte {bs : Str} {i : ℕ} {b : UInt8} (h : readByte bs i = .ok b) :
    i < bs.length := (List.getElem?_eq_some_iff.1 (readByte_eq_ok_iff.1 h)).1

theorem defined_readByte {bs : Str} {i : ℕ} (h : i < bs.length) : Defined (readByte bs i) :=
  ⟨_, readByte_of_lt h⟩

theorem readSlice_of_le {bs : Str} {i n : ℕ} (h : i + n ≤ bs.length) :
    readSlice bs i n = .ok ((bs.drop i).take n) := if_pos h

/-- A slice that was read is a contiguous part. -/
theorem infix_of_readSlice {bs s : Str} {i n : ℕ} (h : readSlice bs i n = .ok s) : s <:+: bs := by
  unfold readSlice at h
  split_ifs at h with hle
  cases h
  exact (List.take_prefix n (bs.drop i)).isInfix.trans (List.drop_suffix i bs).isInfix

theorem length_of_readSlice {bs s : Str} {i n : ℕ} (h : readSlice bs i n = .ok s) :
    s.length = n := by
  unfold readSlice at h
  split_ifs at h with hle
  cases h
  rw [List.length_take, List.length_drop]
  omega

theorem defined_readSlice {bs : Str} {i n : ℕ} (h : i + n ≤ bs.length) :
    Defined (readSlice bs i n) := ⟨_, readSlice_of_le h⟩

/-! ## Reading on from an index -/

/-- From index `i` on, `bs` goes on with `rest`. -/
def TailAt (bs : Str) (i : ℕ) (rest : Str) : Prop := i + rest.length = bs.length ∧ bs.drop i = rest

namespace TailAt

variable {bs rest a : Str} {i n : ℕ} {b : UInt8}

theorem start (bs : Str) : TailAt bs 0 bs := ⟨Nat.zero_add _, rfl⟩

theorem append (h : TailAt bs i (a ++ rest)) (hn : n = i + a.length) : TailAt bs n rest := by
  obtain ⟨hlen, hdrop⟩ := h
  subst hn
  rw [List.length_append] at hlen
  exact ⟨by omega, by rw [← List.drop_drop, hdrop, List.drop_left]⟩

theorem tail (h : TailAt bs i (b :: rest)) : TailAt bs (i + 1) rest := by
  rw [← List.singleton_append] at h
  exact h.append rfl

theorem readByte (h : TailAt bs i (b :: rest)) : readByte bs i = .ok b := by
  rw [readByte_eq_ok_iff, ← List.head?_drop, h.2]
  rfl

theorem readSlice (h : TailAt bs i (a ++ rest)) (hn : n = a.length) :
    readSlice bs i n = .ok a := by
  have hlen := h.1
  rw [List.length_append] at hlen
  rw [readSlice_of_le (by omega), h.2, hn, List.take_left]

end TailAt

end Bytes
