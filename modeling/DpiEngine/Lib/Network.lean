import Mathlib.Tactic
import Mathlib.Data.List.Count
import DpiEngine.Lib.Run

/-!
# Routing networks

Jobs pass from a source through two rows of FIFO buffers to workers.  `dispatcher` says which
buffer of the first row a job takes and `worker` which buffer of the second row, and jobs of one
worker share a dispatcher.  A worker answers its jobs in order and hands those whose answer passes
to an outbox of its own, from where they reach a common sink and are written.  Whatever the order
of the steps, each worker's jobs stay in order and nothing is lost or made up.
-/

/-- The shape of a network. -/
structure Network.Shape (J A : Type*) where
  worker : J → ℕ
  dispatcher : ℕ → ℕ
  passes : A → Bool

structure Network (J A : Type*) where
  accepted : List J
  source : List J
  first : ℕ → List J
  second : ℕ → List J
  handled : List (J × A)
  outbox : ℕ → List J
  sink : List J
  written : List J

namespace Network

variable {J A : Type*} (S : Shape J A)

/-- The network before the first job. -/
def initial : Network J A := ⟨[], [], fun _ => [], fun _ => [], [], fun _ => [], [], []⟩

inductive Step : Network J A → Network J A → Prop
  | accept (n : Network J A) (j : J) (h : n.source = []) :
      Step n { n with accepted := n.accepted ++ [j], source := [j] }
  | dispatch (n : Network J A) (j : J) (h : n.source = [j]) :
      Step n { n with
        source := []
        first := Function.update n.first (S.dispatcher (S.worker j))
          (n.first (S.dispatcher (S.worker j)) ++ [j]) }
  | assign (n : Network J A) (i : ℕ) (j : J) (rest : List J) (h : n.first i = j :: rest) :
      Step n { n with
        first := Function.update n.first i rest
        second := Function.update n.second (S.worker j) (n.second (S.worker j) ++ [j]) }
  | handle (n : Network J A) (w : ℕ) (j : J) (a : A) (rest : List J)
      (h : n.second w = j :: rest) :
      Step n { n with
        second := Function.update n.second w rest
        handled := n.handled ++ [(j, a)]
        outbox := if S.passes a then Function.update n.outbox w (n.outbox w ++ [j])
          else n.outbox }
  | emit (n : Network J A) (w : ℕ) (j : J) (rest : List J) (h : n.outbox w = j :: rest) :
      Step n { n with
        outbox := Function.update n.outbox w rest
        sink := n.sink ++ [j] }
  | write (n : Network J A) (j : J) (rest : List J) (h : n.sink = j :: rest) :
      Step n { n with sink := rest, written := n.written ++ [j] }

/-- The jobs of worker `w` in a list, in order. -/
def of (w : ℕ) (l : List J) : List J := l.filter fun j => S.worker j == w

@[simp] theorem of_nil (w : ℕ) : of S w [] = [] := rfl

@[simp] theorem of_append (w : ℕ) (l l' : List J) : of S w (l ++ l') = of S w l ++ of S w l' :=
  List.filter_append ..

theorem of_cons_self (j : J) (l : List J) : of S (S.worker j) (j :: l) = j :: of S (S.worker j) l :=
  List.filter_cons_of_pos (by simp)

theorem of_cons_ne {w : ℕ} {j : J} (h : S.worker j ≠ w) (l : List J) : of S w (j :: l) = of S w l :=
  List.filter_cons_of_neg (by simpa using h)

/-- The jobs whose answer passes. -/
def passed (l : List (J × A)) : List J := (l.filter fun e => S.passes e.2).map Prod.fst

/-- Every buffer holds jobs routed to it only, and the jobs of each worker are, in the order in
which they were accepted, those it has handled and those on their way to it, and those that it let
pass are, in the order in which it handled them, those written and those on their way out. -/
structure Ordered (n : Network J A) : Prop where
  first_routed : ∀ i, ∀ j ∈ n.first i, S.dispatcher (S.worker j) = i
  second_routed : ∀ w, ∀ j ∈ n.second w, S.worker j = w
  outbox_routed : ∀ w, ∀ j ∈ n.outbox w, S.worker j = w
  intake : ∀ w, of S w n.accepted = of S w (n.handled.map Prod.fst) ++ n.second w ++
    of S w (n.first (S.dispatcher w)) ++ of S w n.source
  outlet : ∀ w, of S w (passed S n.handled) = of S w n.written ++ of S w n.sink ++ n.outbox w

theorem ordered_initial : Ordered S (initial : Network J A) where
  first_routed := fun _ _ h => by cases h
  second_routed := fun _ _ h => by cases h
  outbox_routed := fun _ _ h => by cases h
  intake := fun _ => rfl
  outlet := fun _ => rfl

theorem mem_update_append {f : ℕ → List J} {k i : ℕ} {j x : J}
    (hx : x ∈ Function.update f k (f k ++ [j]) i) : x ∈ f i ∨ x = j ∧ i = k := by
  by_cases hi : i = k
  · subst hi
    rw [Function.update_self, List.mem_append, List.mem_singleton] at hx
    exact hx.imp_right fun h => ⟨h, rfl⟩
  · rw [Function.update_of_ne hi] at hx
    exact Or.inl hx

theorem mem_update_tail {f : ℕ → List J} {k i : ℕ} {j x : J} {rest : List J}
    (h : f k = j :: rest) (hx : x ∈ Function.update f k rest i) : x ∈ f i := by
  by_cases hi : i = k
  · subst hi
    rw [Function.update_self] at hx
    rw [h]
    exact List.mem_cons_of_mem _ hx
  · rwa [Function.update_of_ne hi] at hx

theorem passed_append (l l' : List (J × A)) : passed S (l ++ l') = passed S l ++ passed S l' := by
  simp [passed]

theorem Ordered.step {n n' : Network J A} (h : Ordered S n) (hstep : Step S n n') :
    Ordered S n' := by
  cases hstep with
  | accept j hsource =>
    refine { h with intake := fun w => ?_ }
    have := h.intake w
    rw [hsource, of_nil, List.append_nil] at this
    simp only [of_append, this]
  | dispatch j hsource =>
    refine { h with first_routed := fun i x hx => ?_, intake := fun w => ?_ }
    · rcases mem_update_append hx with hx | ⟨rfl, rfl⟩
      · exact h.first_routed i x hx
      · rfl
    · rw [h.intake w, hsource]
      by_cases hd : S.dispatcher w = S.dispatcher (S.worker j)
      · simp [hd]
      · have hw : S.worker j ≠ w := fun hw => hd (by rw [hw])
        simp only [Function.update_of_ne hd, of_cons_ne S hw, of_nil]
  | assign i j rest hfirst =>
    have hi : S.dispatcher (S.worker j) = i := h.first_routed i j (by simp [hfirst])
    refine { h with
      first_routed := fun i x hx => h.first_routed i x (mem_update_tail hfirst hx)
      second_routed := fun w x hx => ?_
      intake := fun w => ?_ }
    · rcases mem_update_append hx with hx | ⟨rfl, rfl⟩
      · exact h.second_routed w x hx
      · rfl
    · rw [h.intake w]
      by_cases hw : S.worker j = w
      · subst hw
        simp only [hi, hfirst, Function.update_self, of_cons_self, List.append_assoc,
          List.cons_append, List.nil_append]
      · simp only [Function.update_of_ne (Ne.symm hw)]
        by_cases hd : S.dispatcher w = i
        · simp only [hd, hfirst, Function.update_self, of_cons_ne S hw]
        · simp only [Function.update_of_ne hd]
  | handle w j a rest hsecond =>
    have hj : S.worker j = w := h.second_routed w j (by simp [hsecond])
    refine { h with
      second_routed := fun w x hx => h.second_routed w x (mem_update_tail hsecond hx)
      outbox_routed := fun v x hx => ?_
      intake := fun v => ?_
      outlet := fun v => ?_ }
    · split_ifs at hx
      · rcases mem_update_append hx with hx | ⟨rfl, rfl⟩
        · exact h.outbox_routed v x hx
        · exact hj
      · exact h.outbox_routed v x hx
    · rw [h.intake v, List.map_append, of_append]
      dsimp only
      by_cases hv : S.worker j = v
      · subst hv
        simp only [← hj, Function.update_self, List.map_cons, List.map_nil, of_cons_self, of_nil,
          List.append_assoc, List.cons_append, List.nil_append]
        rw [hj, hsecond]
        simp
      · rw [Function.update_of_ne (fun hvw => hv (hj.trans hvw.symm))]
        simp only [List.map_cons, List.map_nil, of_cons_ne S hv, of_nil, List.append_nil]
    · rw [passed_append, of_append, h.outlet v]
      dsimp only
      by_cases hp : S.passes a = true
      · have hone : passed S [(j, a)] = [j] := by simp [passed, hp]
        rw [hone, if_pos hp]
        by_cases hv : S.worker j = v
        · subst hv
          rw [of_cons_self, of_nil, hj, Function.update_self, List.append_assoc _ _ [j]]
        · rw [of_cons_ne S hv, of_nil, List.append_nil,
            Function.update_of_ne (fun hvw => hv (hj.trans hvw.symm))]
      · have hone : passed S [(j, a)] = [] := by simp [passed, hp]
        rw [hone, if_neg hp, of_nil, List.append_nil]
  | emit w j rest houtbox =>
    have hj : S.worker j = w := h.outbox_routed w j (by simp [houtbox])
    refine { h with
      outbox_routed := fun w x hx => h.outbox_routed w x (mem_update_tail houtbox hx)
      outlet := fun v => ?_ }
    rw [h.outlet v, of_append]
    dsimp only
    by_cases hv : S.worker j = v
    · subst hv
      rw [hj, Function.update_self, houtbox, ← hj, of_cons_self, of_nil]
      simp
    · rw [of_cons_ne S hv, of_nil, List.append_nil,
        Function.update_of_ne (fun hvw => hv (hj.trans hvw.symm))]
  | write j rest hsink =>
    refine { h with outlet := fun v => ?_ }
    rw [h.outlet v, hsink, of_append, ← List.singleton_append, of_append]
    simp only [List.append_assoc]

/-! ## Empty networks -/

theorem mem_of {j : J} {l : List J} : j ∈ of S (S.worker j) l ↔ j ∈ l := by simp [of]

/-- What is written passed. -/
theorem Ordered.mem_passed_of_written {n : Network J A} (h : Ordered S n) {j : J}
    (hj : j ∈ n.written) : j ∈ passed S n.handled := by
  rw [← mem_of S, h.outlet]
  exact List.mem_append_left _ (List.mem_append_left _ ((mem_of S).2 hj))

/-- What is written was accepted. -/
theorem Ordered.mem_accepted_of_written {n : Network J A} (h : Ordered S n) {j : J}
    (hj : j ∈ n.written) : j ∈ n.accepted := by
  obtain ⟨e, he, rfl⟩ := List.mem_map.1 (h.mem_passed_of_written S hj)
  rw [← mem_of S, h.intake, List.append_assoc, List.append_assoc]
  exact List.mem_append_left _ ((mem_of S).2 (List.mem_map_of_mem (List.mem_filter.1 he).1))

/-- Each worker's jobs are written in the order in which they were accepted. -/
theorem Ordered.written_in_order {n : Network J A} (h : Ordered S n) (w : ℕ) :
    (of S w n.written).Sublist (of S w n.accepted) := by
  have hpassed : (of S w n.written).Sublist (of S w (passed S n.handled)) := by
    rw [h.outlet, List.append_assoc]
    exact List.sublist_append_left _ _
  have hhandled : (of S w (passed S n.handled)).Sublist (of S w (n.handled.map Prod.fst)) :=
    (List.filter_sublist.map _).filter _
  have haccepted : (of S w (n.handled.map Prod.fst)).Sublist (of S w n.accepted) := by
    rw [h.intake, List.append_assoc, List.append_assoc]
    exact List.sublist_append_left _ _
  exact hpassed.trans (hhandled.trans haccepted)

theorem count_of [DecidableEq J] (j : J) (l : List J) :
    (of S (S.worker j) l).count j = l.count j := List.count_filter (by simp)

/-- No job is written more often than it was accepted. -/
theorem Ordered.written_subperm [DecidableEq J] {n : Network J A} (h : Ordered S n) :
    n.written.Subperm n.accepted := by
  apply List.subperm_iff_count.2
  intro j
  rw [← count_of S j n.written, ← count_of S j n.accepted]
  exact (h.written_in_order S _).count_le j

theorem perm_of_forall_of_eq [DecidableEq J] {l l' : List J} (h : ∀ w, of S w l = of S w l') :
    l.Perm l' := by
  apply List.perm_iff_count.2
  intro j
  rw [← count_of S j l, ← count_of S j l', h]

/-- Once nothing is on its way, all accepted jobs are handled, and all that passed are written. -/
theorem Ordered.delivered [DecidableEq J] {n : Network J A} (h : Ordered S n)
    (hsource : n.source = []) (hfirst : ∀ w, of S w (n.first (S.dispatcher w)) = [])
    (hsecond : ∀ w, n.second w = []) (hsink : n.sink = []) (houtbox : ∀ w, n.outbox w = []) :
    n.accepted.Perm (n.handled.map Prod.fst) ∧ (passed S n.handled).Perm n.written := by
  refine ⟨perm_of_forall_of_eq S fun w => ?_, perm_of_forall_of_eq S fun w => ?_⟩
  · rw [h.intake w, hsource, hfirst w, hsecond w]
    simp
  · rw [h.outlet w, hsink, houtbox w]
    simp

/-! ## Contents -/

theorem of_flatMap {f : ℕ → List J} {w : ℕ} (h : ∀ i, ∀ j ∈ f i, S.worker j = i) (W : ℕ) :
    of S w ((List.range W).flatMap f) = if w < W then f w else [] := by
  induction W with
  | zero => rfl
  | succ W ih =>
    have hlast : of S w (f W) = if W = w then f w else [] := by
      split_ifs with hw
      · subst hw
        exact List.filter_eq_self.2 fun j hj => by simpa using h W j hj
      · exact List.filter_eq_nil_iff.2 fun j hj => by simpa [h W j hj] using hw
    rw [List.range_succ, List.flatMap_append, List.flatMap_singleton, of_append, ih, hlast]
    rcases lt_trichotomy w W with hw | rfl | hw
    · rw [if_pos hw, if_neg hw.ne', if_pos (hw.trans W.lt_succ_self), List.append_nil]
    · rw [if_neg (lt_irrefl w), if_pos rfl, if_pos w.lt_succ_self, List.nil_append]
    · rw [if_neg hw.not_gt, if_neg hw.ne, if_neg (Nat.succ_le_of_lt hw).not_gt, List.append_nil]

/-- The jobs of a worker in the first row all wait at its dispatcher. -/
theorem of_flatMap_first {f : ℕ → List J} (h : ∀ i, ∀ j ∈ f i, S.dispatcher (S.worker j) = i)
    (w D : ℕ) : of S w ((List.range D).flatMap f) =
      if S.dispatcher w < D then of S w (f (S.dispatcher w)) else [] := by
  induction D with
  | zero => rfl
  | succ D ih =>
    have hlast : of S w (f D) =
        if D = S.dispatcher w then of S w (f (S.dispatcher w)) else [] := by
      split_ifs with hw
      · rw [hw]
      · refine List.filter_eq_nil_iff.2 fun j hj hjw => hw ?_
        rw [← h D j hj, eq_of_beq hjw]
    rw [List.range_succ, List.flatMap_append, List.flatMap_singleton, of_append, ih, hlast]
    rcases lt_trichotomy (S.dispatcher w) D with hw | rfl | hw
    · rw [if_pos hw, if_neg hw.ne', if_pos (hw.trans D.lt_succ_self), List.append_nil]
    · rw [if_neg (lt_irrefl _), if_pos rfl, if_pos (Nat.lt_succ_self _), List.nil_append]
    · rw [if_neg hw.not_gt, if_neg hw.ne, if_neg (Nat.succ_le_of_lt hw).not_gt, List.append_nil]

/-- A list is shared out by the values of a function. -/
theorem sum_length_filter {f : J → ℕ} {W : ℕ} (hW : ∀ j, f j < W) (l : List J) :
    ∑ w ∈ Finset.range W, (l.filter fun j => f j == w).length = l.length := by
  induction l with
  | nil => simp
  | cons j l ih =>
    have hsplit (w : ℕ) : ((j :: l).filter fun j => f j == w).length =
        (if w = f j then 1 else 0) + (l.filter fun j => f j == w).length := by
      by_cases hj : f j = w
      · rw [List.filter_cons_of_pos (by simpa using hj), List.length_cons, if_pos hj.symm, add_comm]
      · rw [List.filter_cons_of_neg (by simpa using hj), if_neg (Ne.symm hj), zero_add]
    simp only [hsplit, Finset.sum_add_distrib, ih, Finset.sum_ite_eq', Finset.mem_range,
      if_pos (hW j), List.length_cons]
    exact add_comm ..

section Contents

variable {n : Network J A} {W D : ℕ} (hW : ∀ j, S.worker j < W)
include hW

theorem of_eq_nil {w : ℕ} (hw : ¬ w < W) (l : List J) : of S w l = [] :=
  List.filter_eq_nil_iff.2 fun j _ hj => hw (eq_of_beq hj ▸ hW j)

variable [DecidableEq J]

/-- Every job is handled or in one of the buffers. -/
theorem Ordered.accepted_perm (h : Ordered S n) (hD : ∀ w < W, S.dispatcher w < D) :
    n.accepted.Perm (n.handled.map Prod.fst ++ (List.range W).flatMap n.second ++
      (List.range D).flatMap n.first ++ n.source) := by
  refine perm_of_forall_of_eq S fun w => ?_
  by_cases hw : w < W
  · rw [h.intake w, of_append, of_append, of_append, of_flatMap S h.second_routed, if_pos hw,
      of_flatMap_first S h.first_routed, if_pos (hD w hw)]
  · rw [of_eq_nil S hW hw, of_eq_nil S hW hw]

/-- Every job that passes is written or on its way out. -/
theorem Ordered.passed_perm (h : Ordered S n) :
    (passed S n.handled).Perm (n.written ++ n.sink ++ (List.range W).flatMap n.outbox) := by
  refine perm_of_forall_of_eq S fun w => ?_
  by_cases hw : w < W
  · rw [h.outlet w, of_append, of_append, of_flatMap S h.outbox_routed, if_pos hw]
  · rw [of_eq_nil S hW hw, of_eq_nil S hW hw]

end Contents

end Network
