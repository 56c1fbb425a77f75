import Mathlib.Tactic
import Mathlib.Data.Finmap

/-!
# Hash tables

A hash table as a finite map.  Its contents do not fix the order in which an iteration meets the
keys, so a scan takes that order as an argument: any list for which `IsOrder` holds.
-/

/-- A table of values under keys. -/
abbrev Table (K V : Type*) := Finmap fun _ : K => V

namespace Table

variable {K V : Type*}

def size (t : Table K V) : ℕ := t.keys.card

/-- `order` lists the keys of the table, each of them once. -/
def IsOrder (t : Table K V) (order : List K) : Prop := (order : Multiset K) = t.keys.val

instance [DecidableEq K] (t : Table K V) (order : List K) : Decidable (IsOrder t order) :=
  inferInstanceAs (Decidable (_ = _))

theorem IsOrder.mem_iff {t : Table K V} {order : List K} (h : IsOrder t order) (k : K) :
    k ∈ order ↔ k ∈ t := by
  rw [← Multiset.mem_coe, h, Finset.mem_val, Finmap.mem_keys]

theorem IsOrder.nodup {t : Table K V} {order : List K} (h : IsOrder t order) : order.Nodup := by
  rw [← Multiset.coe_nodup, h]
  exact t.keys.nodup

variable [DecidableEq K]

theorem keys_insert (t : Table K V) (k : K) (v : V) : (t.insert k v).keys = insert k t.keys := by
  ext k'
  simp [Finmap.mem_keys]

theorem size_insert_of_notMem {t : Table K V} {k : K} (h : k ∉ t) (v : V) :
    size (t.insert k v) = size t + 1 := by
  rw [size, keys_insert, Finset.card_insert_of_notMem (by rwa [Finmap.mem_keys]), size]

theorem mem_insert_self (t : Table K V) (k : K) (v : V) : k ∈ t.insert k v :=
  (Finmap.mem_insert).2 (Or.inl rfl)

/-- A table read with a default value, after an entry is set. -/
theorem getD_lookup_insert (t : Table K V) (k : K) (v d : V) :
    (fun k' => ((t.insert k v).lookup k').getD d) =
      Function.update (fun k' => (t.lookup k').getD d) k v := by
  funext k'
  by_cases hk : k' = k
  · rw [hk, Finmap.lookup_insert, Function.update_self, Option.getD_some]
  · rw [Finmap.lookup_insert_of_ne t hk, Function.update_of_ne hk]

/-! ## Filtering -/

/-- The entries that satisfy `p`. -/
def filter (t : Table K V) (p : K → V → Bool) : Table K V where
  entries := t.entries.filter fun e => p e.1 e.2
  nodupKeys := by
    rcases t with ⟨⟨l⟩, h⟩
    have hl : l.NodupKeys := h
    exact hl.sublist List.filter_sublist

theorem lookup_eq_some_iff_mem_entries {t : Table K V} {k : K} {v : V} :
    t.lookup k = some v ↔ (⟨k, v⟩ : Σ _ : K, V) ∈ t.entries := by
  induction t using Finmap.induction_on with
  | _ a => exact AList.mem_lookup_iff

theorem lookup_filter (t : Table K V) (p : K → V → Bool) (k : K) :
    (filter t p).lookup k = (t.lookup k).filter (p k) := by
  ext v
  rw [lookup_eq_some_iff_mem_entries, Option.filter_eq_some_iff, lookup_eq_some_iff_mem_entries]
  exact Multiset.mem_filter

end Table
