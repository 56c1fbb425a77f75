import DpiEngine.Lib.Table

/-!
# Sums over tables

The sum of a measure over the entries of a table, tables that tally a list of items by a key, and
sorted lists that are cut off.
-/

namespace Table

variable {K V M : Type*} [DecidableEq K] [AddCommMonoid M]

/-! ## Sums -/

/-- What `f` measures under a key; where there is no entry it is zero. -/
def measure (t : Table K V) (f : V → M) (k : K) : M := (t.lookup k).elim 0 f

def sum (t : Table K V) (f : V → M) : M := ∑ k ∈ t.keys, t.measure f k

theorem measure_of_notMem {t : Table K V} {k : K} (h : k ∉ t) (f : V → M) :
    t.measure f k = 0 := by
  rw [measure, Finmap.lookup_eq_none.2 h]
  rfl

theorem measure_insert (t : Table K V) (k k' : K) (v : V) (f : V → M) :
    measure (t.insert k v) f k' = if k' = k then f v else t.measure f k' := by
  unfold measure
  split_ifs with hk
  · rw [hk, Finmap.lookup_insert]
    rfl
  · rw [Finmap.lookup_insert_of_ne _ hk]

/-- One entry is new or grows by `w`. -/
theorem sum_of_changed {t t' : Table K V} {f : V → M} {k : K} {w : M}
    (hkeys : t'.keys = insert k t.keys) (hown : t'.measure f k = t.measure f k + w)
    (hother : ∀ k' ≠ k, t'.measure f k' = t.measure f k') : t'.sum f = t.sum f + w := by
  have herase : ∑ k' ∈ t.keys.erase k, t'.measure f k' = ∑ k' ∈ t.keys.erase k, t.measure f k' :=
    Finset.sum_congr rfl fun k' hk' => hother k' (Finset.ne_of_mem_erase hk')
  have hold : t.sum f = t.measure f k + ∑ k' ∈ t.keys.erase k, t.measure f k' := by
    by_cases hk : k ∈ t.keys
    · exact (Finset.add_sum_erase _ _ hk).symm
    · rw [measure_of_notMem (by rwa [← Finmap.mem_keys]), zero_add, Finset.erase_eq_of_notMem hk]
      rfl
  rw [sum, hkeys, ← Finset.insert_erase (Finset.mem_insert_self k t.keys),
    Finset.erase_insert_eq_erase, Finset.sum_insert (Finset.notMem_erase _ _), hown, herase, hold,
    add_right_comm]

theorem sum_congr {t t' : Table K V} {f : V → M} (hkeys : t'.keys = t.keys)
    (h : ∀ k, t'.measure f k = t.measure f k) : t'.sum f = t.sum f := by
  rw [sum, hkeys]
  exact Finset.sum_congr rfl fun k _ => h k

/-! ## Iterations -/

/-- An order of iteration for each table. -/
structure Iteration (K V : Type*) where
  order : Table K V → List K
  isOrder : ∀ t, IsOrder t (order t)

/-- The entries of a table in the order of an iteration. -/
def visited (t : Table K V) (order : List K) : List (K × V) :=
  order.filterMap fun k => (t.lookup k).map fun v => (k, v)

section Visited

variable {t : Table K V} {order : List K}

theorem mem_visited {k : K} {v : V} (h : IsOrder t order) :
    (k, v) ∈ visited t order ↔ t.lookup k = some v := by
  unfold visited
  rw [List.mem_filterMap]
  constructor
  · rintro ⟨k', -, hk'⟩
    obtain ⟨v', hv', heq⟩ := Option.map_eq_some_iff.1 hk'
    cases heq
    exact hv'
  · intro hv
    exact ⟨k, (h.mem_iff k).2 (Finmap.mem_iff.2 ⟨v, hv⟩), by rw [hv]; rfl⟩

theorem map_fst_visited (h : IsOrder t order) : (visited t order).map Prod.fst = order := by
  have hall (l : List K) (hl : ∀ k ∈ l, k ∈ t) : (visited t l).map Prod.fst = l := by
    induction l with
    | nil => rfl
    | cons k l ih =>
      obtain ⟨v, hv⟩ := Finmap.mem_iff.1 (hl k List.mem_cons_self)
      have hrest := ih fun k' hk' => hl k' (List.mem_cons_of_mem _ hk')
      rw [visited, List.filterMap_cons, hv]
      exact congrArg (k :: ·) hrest
  exact hall order fun k hk => (h.mem_iff k).1 hk

/-- Whatever the order of an iteration, it adds up to the sum. -/
theorem sum_visited (h : IsOrder t order) (f : V → M) :
    ((visited t order).map fun e => f e.2).sum = t.sum f := by
  have hmeasure : (visited t order).map (fun e => f e.2) = order.map (t.measure f) := by
    rw [← map_fst_visited h, List.map_map, map_fst_visited h]
    refine List.map_congr_left fun e he => ?_
    rw [Function.comp_apply, measure, (mem_visited h).1 he]
    rfl
  rw [hmeasure, sum, Finset.sum, ← h, Multiset.map_coe, Multiset.sum_coe]

end Visited

/-! ## Tallies -/

section Tally

variable {I : Type*} (key : I → K) (add : I → V → V) (d : V)

/-- One item is added to what is under its key, which is `d` at first. -/
def addItem (t : Table K V) (i : I) : Table K V :=
  t.insert (key i) (add i ((t.lookup (key i)).getD d))

def tally (items : List I) : Table K V := items.foldl (addItem key add d) ∅

variable {key add d} {f : V → M} {w : I → M}

theorem measure_addItem (hd : f d = 0) (hadd : ∀ i v, f (add i v) = f v + w i) (t : Table K V)
    (i : I) (k : K) :
    (addItem key add d t i).measure f k = t.measure f k + if key i = k then w i else 0 := by
  unfold addItem
  rw [measure_insert]
  by_cases hk : k = key i
  · rw [if_pos hk, if_pos hk.symm, hadd, hk, measure]
    cases t.lookup (key i) with
    | none => rw [Option.getD_none, hd]; rfl
    | some v => rfl
  · rw [if_neg hk, if_neg (Ne.symm hk), add_zero]

theorem sum_addItem (hd : f d = 0) (hadd : ∀ i v, f (add i v) = f v + w i) (t : Table K V)
    (i : I) : (addItem key add d t i).sum f = t.sum f + w i := by
  refine sum_of_changed (keys_insert t (key i) _) ?_ fun k hk => ?_
  · rw [measure_addItem hd hadd, if_pos rfl]
  · rw [measure_addItem hd hadd, if_neg (Ne.symm hk), add_zero]

/-- A tally holds, under each key, the sum over the items of that key. -/
theorem measure_tally (hd : f d = 0) (hadd : ∀ i v, f (add i v) = f v + w i) (items : List I)
    (k : K) : (tally key add d items).measure f k =
      (items.map fun i => if key i = k then w i else 0).sum := by
  have hfold (t : Table K V) : (items.foldl (addItem key add d) t).measure f k =
      t.measure f k + (items.map fun i => if key i = k then w i else 0).sum := by
    induction items generalizing t with
    | nil => simp
    | cons i items ih =>
      rw [List.foldl_cons, ih, measure_addItem hd hadd, List.map_cons, List.sum_cons, add_assoc]
  rw [tally, hfold, measure_of_notMem Finmap.notMem_empty, zero_add]

/-- All keys together add up to the sum over all items. -/
theorem sum_tally (hd : f d = 0) (hadd : ∀ i v, f (add i v) = f v + w i) (items : List I) :
    (tally key add d items).sum f = (items.map w).sum := by
  have hfold (t : Table K V) :
      (items.foldl (addItem key add d) t).sum f = t.sum f + (items.map w).sum := by
    induction items generalizing t with
    | nil => simp
    | cons i items ih =>
      rw [List.foldl_cons, ih, sum_addItem hd hadd, List.map_cons, List.sum_cons, add_assoc]
  have hempty : (∅ : Table K V).sum f = 0 := by simp [sum]
  rw [tally, hfold, hempty, zero_add]

theorem mem_tally {items : List I} {k : K} :
    k ∈ tally key add d items ↔ ∃ i ∈ items, key i = k := by
  have hfold (t : Table K V) :
      k ∈ items.foldl (addItem key add d) t ↔ k ∈ t ∨ ∃ i ∈ items, key i = k := by
    induction items generalizing t with
    | nil => simp
    | cons i items ih =>
      rw [List.foldl_cons, ih, addItem, Finmap.mem_insert, List.exists_mem_cons_iff, ← or_assoc,
        or_comm (a := k = key i), eq_comm]
  rw [tally, hfold, or_iff_right Finmap.notMem_empty]

/-- Where what is added depends on the key only, the order of the items does not matter. -/
theorem lookup_tally_iff {items : List I} {c : K → V} (hadd : ∀ i ∈ items, ∀ v, add i v = c (key i))
    {k : K} {v : V} :
    (tally key add d items).lookup k = some v ↔ v = c k ∧ ∃ i ∈ items, key i = k := by
  have hfold (t : Table K V) (ht : ∀ k v, t.lookup k = some v → v = c k) :
      ∀ k v, (items.foldl (addItem key add d) t).lookup k = some v → v = c k := by
    induction items generalizing t with
    | nil => exact ht
    | cons i items ih =>
      refine ih (fun j hj => hadd j (List.mem_cons_of_mem _ hj)) _ fun k v hk => ?_
      unfold addItem at hk
      rw [hadd i List.mem_cons_self] at hk
      by_cases hkey : k = key i
      · rw [hkey, Finmap.lookup_insert] at hk
        rw [hkey, Option.some.inj hk]
      · rw [Finmap.lookup_insert_of_ne _ hkey] at hk
        exact ht k v hk
  have hvalue := hfold ∅ fun k v hk => by rw [Finmap.lookup_empty] at hk; cases hk
  constructor
  · intro hk
    exact ⟨hvalue k v hk, mem_tally.1 (Finmap.mem_iff.2 ⟨v, hk⟩)⟩
  · rintro ⟨rfl, hmem⟩
    obtain ⟨v, hk⟩ := Finmap.mem_iff.1 (mem_tally.2 hmem)
    rw [← hvalue k v hk]
    exact hk

end Tally

end Table

/-! ## Lists cut off -/

/-- What `std::sort` does to a list, up to the order of elements that the comparison does not tell
apart. -/
structure StdSort (α : Type*) (comp : α → α → Bool) where
  sort : List α → List α
  perm : ∀ l, (sort l).Perm l
  sorted : ∀ l, (sort l).Pairwise fun a b => comp b a = false

/-- In a sorted list nothing that is cut off goes before something that is not. -/
theorem not_before_of_mem_take {α : Type*} {r : α → α → Prop} {l : List α} (h : l.Pairwise r)
    {n : ℕ} {a b : α} (ha : a ∈ l.take n) (hb : b ∈ l) (hcut : b ∉ l.take n) : r a b := by
  rw [← List.take_append_drop n l] at h hb
  rcases List.mem_append.1 hb with hb | hb
  · exact absurd hb hcut
  · exact (List.pairwise_append.1 h).2.2 a ha b hb
