import Mathlib.Tactic
import Mathlib.Algebra.BigOperators.Group.Finset.Basic
import Mathlib.Algebra.Order.Group.Multiset

/-!
# Outlets

Producers that put jobs into outboxes of their own, from where they reach a common sink and are
delivered.  Whatever the order of the steps, every job produced is, once, in an outbox, in the sink
or delivered.
-/

/-- `produced` is history: the jobs of all producers in their order. -/
structure Outlet (J : Type*) where
  produced : List J
  outbox : ℕ → List J
  sink : List J
  delivered : List J

namespace Outlet

variable {J : Type*}

/-- The outlet before the first job. -/
def initial : Outlet J := ⟨[], fun _ => [], [], []⟩

/-- A step of one of the first `n` producers or of the consumer. -/
inductive Step (n : ℕ) : Outlet J → Outlet J → Prop
  | produce (o : Outlet J) (w : ℕ) (j : J) (hw : w < n) :
      Step n o { o with
        produced := o.produced ++ [j]
        outbox := Function.update o.outbox w (o.outbox w ++ [j]) }
  | emit (o : Outlet J) (w : ℕ) (j : J) (rest : List J) (hw : w < n)
      (h : o.outbox w = j :: rest) :
      Step n o { o with
        outbox := Function.update o.outbox w rest
        sink := o.sink ++ [j] }
  | deliver (o : Outlet J) (j : J) (rest : List J) (h : o.sink = j :: rest) :
      Step n o { o with sink := rest, delivered := o.delivered ++ [j] }

/-- The jobs in the outboxes of the first `n` producers. -/
def pending (n : ℕ) (f : ℕ → List J) : Multiset J := ∑ w ∈ Finset.range n, (f w : Multiset J)

theorem pending_update {n w : ℕ} (hw : w < n) (f : ℕ → List J) (l : List J) :
    pending n (Function.update f w l) + f w = pending n f + l := by
  have hrest : ∑ v ∈ (Finset.range n).erase w, (Function.update f w l v : Multiset J) =
      ∑ v ∈ (Finset.range n).erase w, (f v : Multiset J) := by
    apply Finset.sum_congr rfl
    intro v hv
    rw [Function.update_of_ne (Finset.ne_of_mem_erase hv)]
  have hmem := Finset.mem_range.2 hw
  rw [pending, pending, ← Finset.sum_erase_add _ _ hmem, ← Finset.sum_erase_add _ _ hmem, hrest,
    Function.update_self]
  exact add_right_comm ..

theorem pending_eq_zero {n : ℕ} {f : ℕ → List J} (h : ∀ w < n, f w = []) : pending n f = 0 := by
  apply Finset.sum_eq_zero
  intro w hw
  rw [h w (Finset.mem_range.1 hw)]
  rfl

theorem coe_snoc (l : List J) (j : J) : ((l ++ [j] : List J) : Multiset J) = l + {j} := by
  rw [← Multiset.coe_add, Multiset.coe_singleton]

theorem coe_cons_add (j : J) (l : List J) : ((j :: l : List J) : Multiset J) = l + {j} := by
  rw [← Multiset.cons_coe, ← Multiset.singleton_add, add_comm]

theorem pending_snoc {n w : ℕ} (hw : w < n) (f : ℕ → List J) (j : J) :
    pending n (Function.update f w (f w ++ [j])) = pending n f + {j} := by
  have hpending := pending_update hw f (f w ++ [j])
  rw [coe_snoc, ← add_assoc, add_right_comm] at hpending
  exact add_right_cancel hpending

theorem pending_tail {n w : ℕ} (hw : w < n) {f : ℕ → List J} {j : J} {rest : List J}
    (h : f w = j :: rest) : pending n f = pending n (Function.update f w rest) + {j} := by
  have hpending := pending_update hw f rest
  rw [h, coe_cons_add, ← add_assoc, add_right_comm] at hpending
  exact (add_right_cancel hpending).symm

/-- Every job produced is, once, delivered, in the sink or in an outbox. -/
def Balanced (n : ℕ) (o : Outlet J) : Prop :=
  (o.produced : Multiset J) = o.delivered + o.sink + pending n o.outbox

theorem balanced_initial (n : ℕ) : Balanced n (initial : Outlet J) := by
  have hnone : pending n (initial : Outlet J).outbox = 0 := pending_eq_zero fun _ _ => rfl
  rw [Balanced, hnone]
  rfl

theorem Balanced.step {n : ℕ} {o o' : Outlet J} (h : Balanced n o) (hs : Step n o o') :
    Balanced n o' := by
  unfold Balanced at h ⊢
  cases hs with
  | produce w j hw =>
    rw [coe_snoc, pending_snoc hw, h]
    exact add_assoc ..
  | emit w j rest hw hbox =>
    rw [h, coe_snoc, pending_tail hw hbox]
    abel
  | deliver j rest hsink =>
    rw [h, hsink, coe_snoc, coe_cons_add]
    abel

/-- Once all outboxes and the sink are empty, what was produced is what was delivered. -/
theorem Balanced.perm {n : ℕ} {o : Outlet J} (h : Balanced n o)
    (hbox : ∀ w < n, o.outbox w = []) (hsink : o.sink = []) : o.delivered.Perm o.produced := by
  rw [Balanced, pending_eq_zero hbox, hsink, add_zero] at h
  exact (Multiset.coe_eq_coe.1 (h.trans (add_zero _))).symm

end Outlet
