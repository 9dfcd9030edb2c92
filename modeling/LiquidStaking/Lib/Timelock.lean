import Mathlib.Algebra.BigOperators.Group.List.Basic
import Mathlib.Algebra.Group.Basic
import Mathlib.Data.List.Perm.Basic
import Mathlib.Order.Lattice
import Mathlib.Tactic.Common

/-!
# Amounts that fall due

A list of entries, each with an amount and the time from which it is due.
`owedAt t` is what is due at time `t`.

What a payer does with such a list is invisible from some time on if it changes
nothing that is due then or later.  `AgreeFrom now` is this relation, between
two lists that may even be of different types: an implementation may merge
entries, or keep them in another order, and still agree with a plain record of
every entry.

## Main Results

* `AgreeFrom.append`, `AgreeFrom.later` — the relation composes, and only grows
  weaker as time goes on.
* `AgreeFrom.merge` — merging what has fallen due is invisible.
* `AgreeFrom.pay` — both sides may pay everything due.
* `AgreeFrom.sum_eq` — the two lists hold the same in total.
-/

/-- How the entries of a list are read: when each is due, and its amount. -/
structure Timelock (α T M : Type) where
  due : α → T
  amount : α → M

namespace Timelock

variable {α β T M : Type} [LinearOrder T] [AddCommMonoid M]

/-- The entry is due: its time has come or is past. -/
def isDue (L : Timelock α T M) (t : T) (a : α) : Bool := decide (L.due a ≤ t)

/-- What is due at a time. -/
def owedAt (L : Timelock α T M) (t : T) (l : List α) : M :=
  ((l.filter (L.isDue t)).map L.amount).sum

variable (L : Timelock α T M) {L' : Timelock β T M} {t now : T} {l l₁ l₂ : List α} {a : α}

@[simp] theorem owedAt_nil : L.owedAt t [] = 0 := rfl

@[simp] theorem owedAt_append : L.owedAt t (l₁ ++ l₂) = L.owedAt t l₁ + L.owedAt t l₂ := by
  simp [owedAt]

theorem owedAt_cons : L.owedAt t (a :: l) = (if L.due a ≤ t then L.amount a else 0) +
    L.owedAt t l := by
  unfold owedAt isDue
  by_cases h : L.due a ≤ t <;> simp [h]

theorem owedAt_singleton : L.owedAt t [a] = if L.due a ≤ t then L.amount a else 0 := by
  rw [owedAt_cons, owedAt_nil, add_zero]

theorem owedAt_perm (h : l₁.Perm l₂) : L.owedAt t l₁ = L.owedAt t l₂ :=
  ((h.filter _).map _).sum_eq

/-- Entries that are all due are owed in full. -/
theorem owedAt_of_due (h : ∀ a ∈ l, L.due a ≤ t) : L.owedAt t l = (l.map L.amount).sum := by
  have hall : l.filter (L.isDue t) = l :=
    List.filter_eq_self.mpr fun a mem => decide_eq_true (h a mem)
  rw [owedAt, hall]

/-- What was paid earlier, and what is due of the rest.

This is what makes paying at one time and asking again later the same as asking
once. -/
theorem owedAt_split (h : now ≤ t) :
    L.owedAt now l + L.owedAt t (l.filter fun a => !L.isDue now a) = L.owedAt t l := by
  induction l with
  | nil => simp
  | cons a l ih =>
      rw [owedAt_cons, owedAt_cons, ← ih, List.filter_cons]
      by_cases hdue : L.due a ≤ now
      · rw [if_pos hdue, if_pos (hdue.trans h), if_neg (by simp [isDue, hdue]), add_assoc]
      · rw [if_neg hdue, if_pos (by simp [isDue, hdue]), owedAt_cons, zero_add, add_left_comm]

variable {L}

/-- From `now` on, the two lists owe the same.

Nothing is said about earlier times: what fell due before `now` counts at `now`,
with whatever else is due then. -/
def AgreeFrom (L : Timelock α T M) (L' : Timelock β T M) (now : T) (l : List α) (l' : List β) :
    Prop :=
  ∀ t, now ≤ t → L.owedAt t l = L'.owedAt t l'

namespace AgreeFrom

variable {l' l₁' l₂' : List β}

theorem later (h : AgreeFrom L L' now l l') (hle : now ≤ t) : AgreeFrom L L' t l l' :=
  fun t ht => h t (hle.trans ht)

theorem append (h₁ : AgreeFrom L L' now l₁ l₁') (h₂ : AgreeFrom L L' now l₂ l₂') :
    AgreeFrom L L' now (l₁ ++ l₂) (l₁' ++ l₂') := by
  intro t ht
  rw [owedAt_append, owedAt_append, h₁ t ht, h₂ t ht]

/-- A single entry with the same time and amount. -/
theorem single {b : β} (hdue : L.due a = L'.due b) (hamount : L.amount a = L'.amount b) :
    AgreeFrom L L' now [a] [b] := by
  intro t _
  rw [owedAt_singleton, owedAt_singleton, hdue, hamount]

theorem cons {b : β} (hdue : L.due a = L'.due b) (hamount : L.amount a = L'.amount b)
    (h : AgreeFrom L L' now l l') : AgreeFrom L L' now (a :: l) (b :: l') :=
  (single hdue hamount).append h

/-- **Merging what has fallen due is invisible**: only the sum matters. -/
theorem merge (hl : ∀ a ∈ l, L.due a ≤ now) (hl' : ∀ b ∈ l', L'.due b ≤ now)
    (hsum : (l.map L.amount).sum = (l'.map L'.amount).sum) : AgreeFrom L L' now l l' := by
  intro t ht
  rw [owedAt_of_due L fun a mem => (hl a mem).trans ht,
    owedAt_of_due L' fun b mem => (hl' b mem).trans ht, hsum]

theorem trans {γ : Type} {L'' : Timelock γ T M} {l'' : List γ} (h : AgreeFrom L L' now l l')
    (h' : AgreeFrom L' L'' now l' l'') : AgreeFrom L L'' now l l'' :=
  fun t ht => (h t ht).trans (h' t ht)

theorem of_perm (h : l₁.Perm l₂) : AgreeFrom L L now l₁ l₂ := fun _ _ => L.owedAt_perm h

end AgreeFrom

/-- Every finite list of times has one that is later than all of them. -/
theorem exists_later (now : T) (l : List T) : ∃ t, now ≤ t ∧ ∀ x ∈ l, x ≤ t := by
  induction l with
  | nil => exact ⟨now, le_rfl, by simp⟩
  | cons x l ih =>
      obtain ⟨t, hnow, hlater⟩ := ih
      refine ⟨max x t, hnow.trans (le_max_right x t), fun y mem => ?_⟩
      rcases List.mem_cons.mp mem with rfl | hold
      · exact le_max_left y t
      · exact (hlater y hold).trans (le_max_right x t)

/-- In the end the two lists owe the same in full.

Read the agreement at a time later than every entry (`exists_later`). -/
theorem AgreeFrom.sum_eq {l' : List β} (h : AgreeFrom L L' now l l') :
    (l.map L.amount).sum = (l'.map L'.amount).sum := by
  obtain ⟨t, hnow, hlater⟩ := exists_later now (l.map L.due ++ l'.map L'.due)
  have hl : L.owedAt t l = (l.map L.amount).sum :=
    L.owedAt_of_due fun a mem => hlater _ (List.mem_append_left _ (List.mem_map_of_mem mem))
  have hl' : L'.owedAt t l' = (l'.map L'.amount).sum :=
    L'.owedAt_of_due fun b mem => hlater _ (List.mem_append_right _ (List.mem_map_of_mem mem))
  rw [← hl, ← hl', h t hnow]

/-- **Both sides pay what is due.**

What is left over owes, at any later time, what the whole list owes then less
what it owed `now`; both terms are the same on the two sides. -/
theorem AgreeFrom.pay {M : Type} [AddCancelCommMonoid M] {L : Timelock α T M}
    {L' : Timelock β T M} {l' : List β} (h : AgreeFrom L L' now l l') :
    AgreeFrom L L' now (l.filter fun a => !L.isDue now a)
      (l'.filter fun b => !L'.isDue now b) := by
  intro t ht
  have hall := h t ht
  rw [← L.owedAt_split ht, ← L'.owedAt_split ht, h now le_rfl] at hall
  exact add_left_cancel hall

end Timelock
