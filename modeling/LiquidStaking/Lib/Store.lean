import Mathlib.Data.List.AList
import Mathlib.Algebra.Order.BigOperators.Group.List
import Mathlib.Tactic.Linarith

/-!
# Weighted totals of a keyed store

A contract keeps its per-account and per-key records in a map, and its books in
counters that are meant to be sums over that map.  `Store K V` is Mathlib's
`AList` at a constant value type, and `Store.total f` is the sum of the weight
`f` over all stored values.

Every update of a store is an `insert` or an `erase`, and each changes a total
at one key only.  `total_insert` and `total_erase` say so in subtraction-free
form: what the key held before is added on the left.  All bookkeeping arguments
about counters are instances of these two equations.
-/

universe u v

/-- A finite map with one value type.  The order of the entries is not
observable through `lookup`, `insert` and `erase`. -/
abbrev Store (K : Type u) (V : Type v) := AList (fun _ : K => V)

namespace Store

variable {K : Type u} {V : Type v}

/-- The sum of the weight `f` over all values of the store. -/
def total (f : V → ℕ) (s : Store K V) : ℕ :=
  (s.entries.map fun e => f e.2).sum

/-- The weight of what a key holds, zero when it holds nothing. -/
def weight (f : V → ℕ) (o : Option V) : ℕ :=
  (o.map f).getD 0

@[simp] theorem weight_none (f : V → ℕ) : weight f (none : Option V) = 0 := rfl

@[simp] theorem weight_some (f : V → ℕ) (v : V) : weight f (some v) = f v := rfl

@[simp] theorem total_empty (f : V → ℕ) : total f (∅ : Store K V) = 0 := rfl

/-- The total only depends on the weight of stored values. -/
theorem total_congr {f g : V → ℕ} (s : Store K V) (h : ∀ v, f v = g v) :
    total f s = total g s := by
  simp [total, h]

theorem total_add (f g : V → ℕ) (s : Store K V) :
    total (fun v => f v + g v) s = total f s + total g s := by
  simp [total, List.sum_map_add]

section Keyed

variable [DecidableEq K]

/-- Removing a key from an entry list removes exactly the weight it held. -/
private theorem sum_kerase (f : V → ℕ) (k : K) (l : List (Sigma fun _ : K => V)) :
    ((l.kerase k).map fun e => f e.2).sum + weight f (l.dlookup k) =
      (l.map fun e => f e.2).sum := by
  induction l with
  | nil => rfl
  | cons e l ih =>
      by_cases h : k = e.1
      · subst h
        rw [List.kerase_cons_eq rfl, List.dlookup_cons_eq]
        simp [add_comm]
      · rw [List.kerase_cons_ne h, List.dlookup_cons_ne _ _ (Ne.symm (Ne.symm h))]
        simp only [List.map_cons, List.sum_cons]
        omega

/-- **Erasing a key** takes the weight it held out of the total.

Both sides are sums of natural numbers: what the key held is added on the left,
so that nothing is subtracted. -/
theorem total_erase (f : V → ℕ) (s : Store K V) (k : K) :
    total f (s.erase k) + weight f (s.lookup k) = total f s :=
  sum_kerase f k s.entries

/-- **Inserting at a key** replaces the weight it held.

An insertion is an erasure followed by a new entry, so this is `total_erase`
with the weight of the new value on the right. -/
theorem total_insert (f : V → ℕ) (s : Store K V) (k : K) (v : V) :
    total f (s.insert k v) + weight f (s.lookup k) = total f s + f v := by
  have herase := total_erase f s k
  have hentries : total f (s.insert k v) = f v + total f (s.erase k) := by
    unfold total
    rw [AList.entries_insert, List.map_cons, List.sum_cons]
    rfl
  omega

/-- The total depends on the stored values only. -/
theorem total_congr_of_lookup {f g : V → ℕ} (s : Store K V)
    (h : ∀ k v, s.lookup k = some v → f v = g v) : total f s = total g s := by
  unfold total
  congr 1
  exact List.map_congr_left fun e he => h e.1 e.2 (AList.mem_lookup_iff.mpr he)

/-- What one key holds is bounded by the total. -/
theorem weight_lookup_le (f : V → ℕ) (s : Store K V) (k : K) :
    weight f (s.lookup k) ≤ total f s := by
  have := total_erase f s k
  omega

theorem le_total {f : V → ℕ} {s : Store K V} {k : K} {v : V}
    (h : s.lookup k = some v) : f v ≤ total f s := by
  have := weight_lookup_le f s k
  rwa [h] at this

/-- Two different keys together hold at most the total. -/
theorem add_le_total {f : V → ℕ} {s : Store K V} {k₁ k₂ : K} {v₁ v₂ : V}
    (hne : k₁ ≠ k₂) (h₁ : s.lookup k₁ = some v₁) (h₂ : s.lookup k₂ = some v₂) :
    f v₁ + f v₂ ≤ total f s := by
  have herase := total_erase f s k₁
  have hrest : f v₂ ≤ total f (s.erase k₁) :=
    le_total (by rw [AList.lookup_erase_ne hne.symm, h₂])
  rw [h₁] at herase
  simp only [weight_some] at herase
  omega

/-- A store that holds at least as much at every key has at least the total.

By induction on the entries: the head's key is erased on both sides. -/
theorem total_le_of_lookup (f : V → ℕ) (s : Store K V) :
    ∀ t : Store K V, (∀ k, weight f (s.lookup k) ≤ weight f (t.lookup k)) →
      total f s ≤ total f t := by
  induction s using AList.insertRec with
  | H0 => exact fun t _ => Nat.zero_le _
  | IH k v s fresh ih =>
      intro t hle
      have hnone : s.lookup k = none := AList.lookup_eq_none.mpr fresh
      have hrest : total f s ≤ total f (t.erase k) := by
        refine ih _ fun k' => ?_
        by_cases hk : k' = k
        · rw [hk, hnone]
          exact Nat.zero_le _
        · have hkept := hle k'
          rw [AList.lookup_insert_ne hk] at hkept
          rwa [AList.lookup_erase_ne hk]
      have hinsert := total_insert f s k v
      have herase := total_erase f t k
      have hkey := hle k
      rw [AList.lookup_insert, weight_some] at hkey
      rw [hnone, weight_none] at hinsert
      omega

end Keyed

end Store
