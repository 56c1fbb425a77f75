import Mathlib.Data.Nat.ChineseRemainder
import DpiEngine.LoadBalancer

/-!
# Workers in reach

Both stages of routing take a remainder of the same hash.  A worker is in reach iff some hash has
the two remainders that make up its index, so all workers are in reach iff the two numbers are
coprime and the hash takes every remainder by their product.
-/

namespace DPI

/-- The hash takes every remainder by `n`. -/
def HashOnto (n : ℕ) : Prop := ∀ r < n, ∃ t : FiveTuple, (fiveTupleHash t).toNat % n = r

/-- Every worker receives some five-tuple. -/
def AllWorkersReached (numLbs fpsPerLb : ℕ) : Prop :=
  ∀ w < numLbs * fpsPerLb, ∃ t : FiveTuple, worker numLbs fpsPerLb t = w

theorem worker_eq_iff {numLbs fpsPerLb : ℕ} (hf : 0 < fpsPerLb) (t : FiveTuple) (w : ℕ) :
    worker numLbs fpsPerLb t = w ↔
      (fiveTupleHash t).toNat % numLbs = w / fpsPerLb ∧
        (fiveTupleHash t).toNat % fpsPerLb = w % fpsPerLb := by
  have hlt : (fiveTupleHash t).toNat % fpsPerLb < fpsPerLb := Nat.mod_lt _ hf
  constructor
  · rintro rfl
    refine ⟨(worker_div hf t).symm, ?_⟩
    rw [worker, selectFP, Nat.mul_comm, Nat.mul_add_mod, Nat.mod_mod]
  · rintro ⟨hdiv, hmod⟩
    rw [worker, getLBForPacket, selectFP, hdiv, hmod, Nat.mul_comm, Nat.div_add_mod]

/-- The second worker of the first load balancer needs a hash that is 0 for one number and 1 for
the other. -/
theorem coprime_of_allWorkersReached {numLbs fpsPerLb : ℕ} (hl : 0 < numLbs) (hf : 0 < fpsPerLb)
    (h : AllWorkersReached numLbs fpsPerLb) : Nat.Coprime numLbs fpsPerLb := by
  rcases Nat.lt_or_ge 1 fpsPerLb with hone | hone
  · have hlt : 1 < numLbs * fpsPerLb := by nlinarith
    obtain ⟨t, ht⟩ := h 1 hlt
    obtain ⟨hlb, hfp⟩ := (worker_eq_iff hf t 1).1 ht
    rw [Nat.div_eq_of_lt hone] at hlb
    rw [Nat.mod_eq_of_lt hone] at hfp
    have hdvd : Nat.gcd numLbs fpsPerLb ∣ (fiveTupleHash t).toNat :=
      (Nat.gcd_dvd_left _ _).trans (Nat.dvd_of_mod_eq_zero hlb)
    apply Nat.dvd_one.1
    rw [← hfp]
    exact (Nat.dvd_mod_iff (Nat.gcd_dvd_right _ _)).2 hdvd
  · have : fpsPerLb = 1 := by omega
    rw [this]
    exact Nat.coprime_one_right _

theorem hashOnto_of_allWorkersReached {numLbs fpsPerLb : ℕ} (hl : 0 < numLbs) (hf : 0 < fpsPerLb)
    (h : AllWorkersReached numLbs fpsPerLb) : HashOnto (numLbs * fpsPerLb) := by
  intro r hr
  have hcoprime := coprime_of_allWorkersReached hl hf h
  have hw : r % numLbs * fpsPerLb + r % fpsPerLb < numLbs * fpsPerLb := by
    have h₁ : r % numLbs + 1 ≤ numLbs := Nat.mod_lt _ hl
    have h₂ : r % fpsPerLb < fpsPerLb := Nat.mod_lt _ hf
    nlinarith
  obtain ⟨t, ht⟩ := h _ hw
  obtain ⟨hlb, hfp⟩ := (worker_eq_iff hf t _).1 ht
  have hmod : (fiveTupleHash t).toNat ≡ r [MOD numLbs * fpsPerLb] := by
    refine (Nat.modEq_and_modEq_iff_modEq_mul hcoprime).1 ⟨?_, ?_⟩
    · rw [Nat.ModEq, hlb, Nat.mul_comm, Nat.mul_add_div hf,
        Nat.div_eq_of_lt (Nat.mod_lt _ hf), Nat.add_zero]
    · rw [Nat.ModEq, hfp, Nat.mul_comm, Nat.mul_add_mod, Nat.mod_mod]
  exact ⟨t, Eq.trans hmod (Nat.mod_eq_of_lt hr)⟩

theorem allWorkersReached_of_hashOnto {numLbs fpsPerLb : ℕ} (hf : 0 < fpsPerLb)
    (hcoprime : Nat.Coprime numLbs fpsPerLb) (h : HashOnto (numLbs * fpsPerLb)) :
    AllWorkersReached numLbs fpsPerLb := by
  intro w hw
  obtain ⟨r, hlb, hfp⟩ := Nat.chineseRemainder hcoprime (w / fpsPerLb) (w % fpsPerLb)
  obtain ⟨t, ht⟩ := h (r % (numLbs * fpsPerLb)) (Nat.mod_lt _ (by omega))
  have hmod : (fiveTupleHash t).toNat ≡ r [MOD numLbs * fpsPerLb] := ht
  have hdiv : w / fpsPerLb < numLbs := Nat.div_lt_of_lt_mul (by rwa [Nat.mul_comm])
  refine ⟨t, (worker_eq_iff hf t w).2 ⟨?_, ?_⟩⟩
  · exact Eq.trans ((hmod.of_mul_right _).trans hlb) (Nat.mod_eq_of_lt hdiv)
  · exact Eq.trans ((hmod.of_mul_left _).trans hfp) (Nat.mod_mod _ _)

/-! ## Remainders of the hash -/

/-- For these endpoints the last round of the hash adds the protocol to a number that ends in a
zero byte, so the 256 protocols give 256 consecutive hashes. -/
theorem fiveTupleHash_block (i : Fin 256) :
    (fiveTupleHash ⟨1, 2, 3, 127, UInt8.ofNat (i ^^^ 31)⟩).toNat = 0xa3b7d45ee86400 + i := by
  revert i
  decide +kernel

theorem hashOnto_of_le {n : ℕ} (h : n ≤ 256) : HashOnto n := by
  intro r hr
  have hn : 0 < n := by omega
  have hbase : 0xa3b7d45ee86400 % n < n := Nat.mod_lt _ hn
  let i := (r + n - 0xa3b7d45ee86400 % n) % n
  have hi : i < n := Nat.mod_lt _ hn
  refine ⟨_, (congrArg (· % n) (fiveTupleHash_block ⟨i, by omega⟩)).trans ?_⟩
  have hsum : 0xa3b7d45ee86400 + i ≡ r [MOD n] :=
    calc 0xa3b7d45ee86400 + i
        ≡ 0xa3b7d45ee86400 % n + (r + n - 0xa3b7d45ee86400 % n) [MOD n] :=
          (Nat.mod_modEq _ _).symm.add (Nat.mod_modEq _ _)
      _ = r + n := by omega
      _ ≡ r [MOD n] := by simp [Nat.ModEq]
  exact Eq.trans hsum (Nat.mod_eq_of_lt hr)

/-- All workers are in reach iff the numbers of load balancers and of fast paths for each are
coprime and the hash takes every remainder by their product, which it does up to 256. -/
theorem allWorkersReached_iff {numLbs fpsPerLb : ℕ} (hl : 0 < numLbs) (hf : 0 < fpsPerLb) :
    (AllWorkersReached numLbs fpsPerLb ↔
      Nat.Coprime numLbs fpsPerLb ∧ HashOnto (numLbs * fpsPerLb)) ∧
    (numLbs * fpsPerLb ≤ 256 →
      (AllWorkersReached numLbs fpsPerLb ↔ Nat.Coprime numLbs fpsPerLb)) := by
  have hiff : AllWorkersReached numLbs fpsPerLb ↔
      Nat.Coprime numLbs fpsPerLb ∧ HashOnto (numLbs * fpsPerLb) :=
    ⟨fun h => ⟨coprime_of_allWorkersReached hl hf h, hashOnto_of_allWorkersReached hl hf h⟩,
      fun h => allWorkersReached_of_hashOnto hf h.1 h.2⟩
  exact ⟨hiff, fun hle => hiff.trans (and_iff_left (hashOnto_of_le hle))⟩

/-- In the default configuration no packet reaches the second fast path. -/
theorem second_worker_of_two_by_two_unreached : ¬ ∃ t : FiveTuple, worker 2 2 t = 1 := by
  rintro ⟨t, ht⟩
  have := (worker_eq_iff (by decide) t 1).1 ht
  omega

theorem allWorkersReached_two_by_three : AllWorkersReached 2 3 :=
  ((allWorkersReached_iff (by decide) (by decide)).2 (by decide)).2 (by decide)

end DPI
