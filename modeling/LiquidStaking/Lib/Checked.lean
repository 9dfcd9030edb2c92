import Mathlib.Algebra.Group.Nat.Defs
import Mathlib.Order.Lattice
import Mathlib.Tactic.Common

/-!
# Panicking code and checked machine words

Contract code aborts by panicking, and a panic undoes the whole receipt.  It is
modelled in `Except String`, the error being the panic text.  Machine words are
natural numbers; the checked operations at width `w` fail exactly where the
hardware operation would leave the word.

Each operation has one characterization of when it succeeds and with what, so
that a function built from them is inverted by rewriting.

## Main Definitions

* `require`, `expect`, `onlyIf` — the three ways in which code branches on a
  check: panic unless it holds, panic without a value, or skip the rest.
* `checkedAdd`, `checkedSub`, `checkedMul`, `saturatingAdd` — arithmetic at a
  width.
* `Avoids` — code that may panic, but not with one of the given texts.
-/

namespace Checked

variable {α β : Type}

/-- Panic with `msg` unless `c` holds. -/
def require (c : Prop) [Decidable c] (msg : String) : Except String Unit :=
  if c then .ok () else .error msg

/-- Take the value of an `Option`, or panic. -/
def expect (o : Option α) (msg : String) : Except String α :=
  match o with
  | some a => .ok a
  | none => .error msg

/-- Run `x` when `c` holds, and keep `a` otherwise. -/
def onlyIf (c : Prop) [Decidable c] (x : Except String α) (a : α) : Except String α :=
  if c then x else .ok a

/-- The sum, unless it leaves the word. -/
def checkedAdd (w a b : ℕ) : Option ℕ := if a + b < 2 ^ w then some (a + b) else none

/-- The difference, unless it is negative. -/
def checkedSub (a b : ℕ) : Option ℕ := if b ≤ a then some (a - b) else none

/-- The product, unless it leaves the word. -/
def checkedMul (w a b : ℕ) : Option ℕ := if a * b < 2 ^ w then some (a * b) else none

/-- The sum, or the largest word where the sum does not fit. -/
def saturatingAdd (w a b : ℕ) : ℕ := min (a + b) (2 ^ w - 1)

/-! ## When panicking code succeeds

`simp` with these lemmas turns `f x = .ok y`, for a function written with `do`,
into the conjunction of its guards and of the values it computed. -/

@[simp] theorem pure_eq_ok {a b : α} : (pure a : Except String α) = .ok b ↔ a = b := by
  simp [pure, Except.pure]

@[simp] theorem ok_bind (a : α) (f : α → Except String β) : (Except.ok a >>= f) = f a := rfl

@[simp] theorem error_bind (msg : String) (f : α → Except String β) :
    (Except.error msg >>= f) = .error msg := rfl

/-- Sequenced code succeeds when its first part does and the rest does on what
it produced. -/
@[simp] theorem bind_eq_ok {x : Except String α} {f : α → Except String β} {b : β} :
    (x >>= f) = .ok b ↔ ∃ a, x = .ok a ∧ f a = .ok b := by
  cases x <;> simp

@[simp] theorem map_eq_ok {x : Except String α} {f : α → β} {b : β} :
    (f <$> x) = .ok b ↔ ∃ a, x = .ok a ∧ f a = b := by
  cases x <;> simp [Functor.map, Except.map]

@[simp] theorem require_eq_ok {c : Prop} [Decidable c] {msg : String} {u : Unit} :
    require c msg = .ok u ↔ c := by
  unfold require
  split <;> simp_all

/-- The form in which a guard at the head of a `do` block is taken off. -/
@[simp] theorem require_bind_eq_ok {c : Prop} [Decidable c] {msg : String}
    {f : Unit → Except String β} {b : β} :
    (require c msg >>= f) = .ok b ↔ c ∧ f () = .ok b := by
  unfold require
  split <;> simp_all

theorem onlyIf_pos {c : Prop} [Decidable c] (h : c) (x : Except String α) (a : α) :
    onlyIf c x a = x := if_pos h

theorem onlyIf_neg {c : Prop} [Decidable c] (h : ¬c) (x : Except String α) (a : α) :
    onlyIf c x a = .ok a := if_neg h

@[simp] theorem expect_eq_ok {o : Option α} {msg : String} {a : α} :
    expect o msg = .ok a ↔ o = some a := by
  cases o <;> simp [expect]

@[simp] theorem checkedAdd_eq_some {w a b c : ℕ} :
    checkedAdd w a b = some c ↔ a + b < 2 ^ w ∧ a + b = c := by
  unfold checkedAdd
  split <;> simp [*]

@[simp] theorem checkedSub_eq_some {a b c : ℕ} :
    checkedSub a b = some c ↔ b ≤ a ∧ a - b = c := by
  unfold checkedSub
  split <;> simp [*]

@[simp] theorem checkedMul_eq_some {w a b c : ℕ} :
    checkedMul w a b = some c ↔ a * b < 2 ^ w ∧ a * b = c := by
  unfold checkedMul
  split <;> simp [*]

theorem saturatingAdd_le (w a b : ℕ) : saturatingAdd w a b ≤ a + b := min_le_left _ _

/-- Nothing saturates below the width. -/
theorem saturatingAdd_of_lt {w a b : ℕ} (h : a + b < 2 ^ w) :
    saturatingAdd w a b = a + b := by
  unfold saturatingAdd
  omega

@[simp] theorem saturatingAdd_zero_right {w a : ℕ} (h : a < 2 ^ w) :
    saturatingAdd w a 0 = a := saturatingAdd_of_lt h

/-! ## How panicking code fails

The other half of the characterization: a failure comes from the first check
that does not hold, and carries the text of that check. -/

/-- Sequenced code fails in its first part, or in the rest. -/
theorem bind_eq_error {x : Except String α} {f : α → Except String β} {msg : String} :
    (x >>= f) = .error msg ↔ x = .error msg ∨ ∃ a, x = .ok a ∧ f a = .error msg := by
  cases x <;> simp

theorem pure_ne_error {a : α} {msg : String} : (pure a : Except String α) ≠ .error msg :=
  fun h => nomatch h

theorem require_eq_error {c : Prop} [Decidable c] {msg msg' : String} :
    require c msg = .error msg' ↔ ¬c ∧ msg = msg' := by
  unfold require
  split <;> simp_all

theorem expect_eq_error {o : Option α} {msg msg' : String} :
    expect o msg = .error msg' ↔ o = none ∧ msg = msg' := by
  cases o <;> simp [expect]

theorem onlyIf_eq_error {c : Prop} [Decidable c] {x : Except String α} {a : α} {msg : String} :
    onlyIf c x a = .error msg ↔ c ∧ x = .error msg := by
  unfold onlyIf
  split <;> simp_all

theorem checkedSub_eq_none {a b : ℕ} : checkedSub a b = none ↔ a < b := by
  unfold checkedSub
  split <;> simp <;> omega

/-! ## Which panics code avoids

Some panics abort a receipt that the rest of the system relies on, others only
turn a caller away.  `Avoids` names the first kind by their texts; it composes
along `>>=`, so a function avoids what its parts avoid. -/

/-- None of the panics of `x` is one of `texts`. -/
def Avoids (texts : List String) (x : Except String α) : Prop :=
  ∀ msg, x = .error msg → msg ∉ texts

section Avoids

variable {texts : List String}

theorem avoids_ok (a : α) : Avoids texts (.ok a) := fun _ h => nomatch h

theorem avoids_pure (a : α) : Avoids texts (pure a) := avoids_ok a

theorem avoids_require {c : Prop} [Decidable c] {msg : String} (h : ¬c → msg ∉ texts) :
    Avoids texts (require c msg) := by
  intro msg' herror
  obtain ⟨hc, rfl⟩ := require_eq_error.mp herror
  exact h hc

theorem avoids_expect {o : Option α} {msg : String} (h : o = none → msg ∉ texts) :
    Avoids texts (expect o msg) := by
  intro msg' herror
  obtain ⟨ho, rfl⟩ := expect_eq_error.mp herror
  exact h ho

/-- Sequenced code avoids what its parts avoid. -/
theorem Avoids.bind {x : Except String α} {f : α → Except String β} (hx : Avoids texts x)
    (hf : ∀ a, x = .ok a → Avoids texts (f a)) : Avoids texts (x >>= f) := by
  intro msg herror
  rcases bind_eq_error.mp herror with hfirst | ⟨a, ha, hrest⟩
  · exact hx msg hfirst
  · exact hf a ha msg hrest

end Avoids

end Checked
