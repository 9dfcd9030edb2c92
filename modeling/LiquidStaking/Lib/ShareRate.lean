import Mathlib.Algebra.Order.Field.Basic
import Mathlib.Algebra.Order.Ring.Canonical
import Mathlib.Algebra.Order.Ring.Nat
import Mathlib.Tactic.Ring

/-!
# The rate of a pool of shares

A pool holds assets against shares, and a share is worth assets divided by
shares.  Two pools are compared by cross-multiplication (`Holdings.RateLe`), so
nothing is said about division and empty pools need no convention.

Everything a pool does is a deposit, a redemption, a reward, or a share given
up.  For each of them there is one theorem about the rate; for a deposit it is
an equivalence, and the side condition of the others is what rounding in the
pool's favour provides.
-/

namespace ShareRate

/-- What a pool holds, and the shares it is held against. -/
structure Holdings (R : Type) where
  assets : R
  shares : R

namespace Holdings

variable {R : Type} [CommSemiring R] [LinearOrder R] [IsStrictOrderedRing R]

/-- A share of `q` is worth at least a share of `p`.

Cross-multiplied: `p.assets / p.shares ≤ q.assets / q.shares` where the two
quotients make sense. -/
def RateLe (p q : Holdings R) : Prop := p.assets * q.shares ≤ q.assets * p.shares

variable {p q r : Holdings R} {a l : R}

omit [IsStrictOrderedRing R] in
theorem RateLe.refl (p : Holdings R) : p.RateLe p := le_rfl

/-- Transitivity needs shares in the middle: an empty pool is comparable with
everything. -/
theorem RateLe.trans (h : p.RateLe q) (h' : q.RateLe r) (hp : 0 ≤ p.shares) (hq : 0 < q.shares)
    (hr : 0 ≤ r.shares) : p.RateLe r := by
  unfold RateLe at *
  refine le_of_mul_le_mul_right ?_ hq
  calc p.assets * r.shares * q.shares
      = p.assets * q.shares * r.shares := by ring
    _ ≤ q.assets * p.shares * r.shares := mul_le_mul_of_nonneg_right h hr
    _ = q.assets * r.shares * p.shares := by ring
    _ ≤ r.assets * q.shares * p.shares := mul_le_mul_of_nonneg_right h' hp
    _ = r.assets * p.shares * q.shares := by ring

/-- **A deposit** keeps the rate exactly if its shares are worth at most what
was deposited.

The terms `assets * shares` cancel, and what remains compares the new shares
with the deposit at the old rate. -/
theorem rateLe_deposit_iff :
    p.RateLe ⟨p.assets + a, p.shares + l⟩ ↔ p.assets * l ≤ a * p.shares := by
  unfold RateLe
  rw [mul_add, add_mul, add_le_add_iff_left]

/-- A redemption keeps the rate if what it pays is worth at most its shares. -/
theorem rateLe_redeem (hassets : q.assets + a = p.assets) (hshares : q.shares + l = p.shares)
    (h : a * p.shares ≤ l * p.assets) : p.RateLe q := by
  unfold RateLe
  refine le_of_add_le_add_right (a := a * p.shares) ?_
  calc p.assets * q.shares + a * p.shares
      ≤ p.assets * q.shares + l * p.assets := by gcongr
    _ = p.assets * (q.shares + l) := by ring
    _ = (q.assets + a) * p.shares := by rw [hshares, hassets]
    _ = q.assets * p.shares + a * p.shares := by ring

/-- More assets and no more shares: a reward, or a share given up. -/
theorem rateLe_of_le (hassets : p.assets ≤ q.assets) (hshares : q.shares ≤ p.shares)
    (hp : 0 ≤ p.assets) (hq : 0 ≤ p.shares) : p.RateLe q :=
  (mul_le_mul_of_nonneg_left hshares hp).trans (mul_le_mul_of_nonneg_right hassets hq)

end Holdings

/-! ## What a deposit is worth afterwards

Shares bought with a deposit, rounded down by less than one share, are worth at
most the deposit and less than one old share below it; the rounding goes to the
shares that were there before. -/

section Worth

variable {K : Type} [Field K] [LinearOrder K] [IsStrictOrderedRing K] {p : Holdings K} {a l : K}

/-- What some shares are worth at the rate of a pool. -/
def Holdings.worth (p : Holdings K) (l : K) : K := l * p.assets / p.shares

/-- The pool after a deposit of `a` against `l` shares. -/
def Holdings.deposit (p : Holdings K) (a l : K) : Holdings K := ⟨p.assets + a, p.shares + l⟩

/-- **A depositor gains nothing**: the shares bought are worth at most the
deposit. -/
theorem worth_deposit_le (hshares : 0 < p.shares + l) (h : p.assets * l ≤ a * p.shares) :
    (p.deposit a l).worth l ≤ a := by
  unfold Holdings.worth Holdings.deposit
  rw [div_le_iff₀ hshares]
  calc l * (p.assets + a) = p.assets * l + a * l := by ring
    _ ≤ a * p.shares + a * l := by gcongr
    _ = a * (p.shares + l) := by ring

/-- **A depositor loses less than a share**: rounding down costs less than one
share at the old rate. -/
theorem lt_worth_deposit (hassets : 0 ≤ p.assets) (hshares : 0 < p.shares) (hl : 0 ≤ l)
    (h : a * p.shares < p.assets * (l + 1)) :
    a - p.assets / p.shares < (p.deposit a l).worth l := by
  have hnew : 0 < p.shares + l := add_pos_of_pos_of_nonneg hshares hl
  have hloss : a - p.assets / (p.shares + l) < (p.deposit a l).worth l := by
    unfold Holdings.worth Holdings.deposit
    rw [sub_lt_iff_lt_add, ← add_div, lt_div_iff₀ hnew]
    calc a * (p.shares + l) = a * p.shares + a * l := by ring
      _ < p.assets * (l + 1) + a * l := by gcongr
      _ = l * (p.assets + a) + p.assets := by ring
  refine lt_of_le_of_lt (sub_le_sub_left ?_ a) hloss
  exact div_le_div_of_nonneg_left hassets hshares (le_add_of_nonneg_right hl)

/-- The shares that were there before lose nothing. -/
theorem le_worth_rest (hshares : 0 < p.shares + l) (h : p.assets * l ≤ a * p.shares) :
    p.assets ≤ (p.deposit a l).worth p.shares := by
  unfold Holdings.worth Holdings.deposit
  rw [le_div_iff₀ hshares]
  calc p.assets * (p.shares + l) = p.shares * p.assets + p.assets * l := by ring
    _ ≤ p.shares * p.assets + a * p.shares := by gcongr
    _ = p.shares * (p.assets + a) := by ring

end Worth

/-! ## Rounding down -/

/-- What a deposit buys at the rate of the pool, rounded down, is worth at most
the deposit. -/
theorem assets_mul_floor_le (assets shares a : ℕ) : assets * (a * shares / assets) ≤ a * shares :=
  Nat.mul_div_le _ _

/-- Shares are worth at most the deposit exactly if they are at most what it
buys. -/
theorem le_floor_iff {assets shares a l : ℕ} (hassets : 0 < assets) :
    l ≤ a * shares / assets ↔ assets * l ≤ a * shares := by
  rw [Nat.le_div_iff_mul_le hassets, mul_comm]

/-- Where a share is worth no more, a deposit buys no less. -/
theorem Holdings.RateLe.floor_le {p q : Holdings ℕ} (h : p.RateLe q) (hp : 0 < p.assets)
    (hq : 0 < q.assets) (a : ℕ) : a * q.shares / q.assets ≤ a * p.shares / p.assets := by
  rw [le_floor_iff hp]
  refine Nat.le_of_mul_le_mul_left ?_ hq
  calc q.assets * (p.assets * (a * q.shares / q.assets))
      = p.assets * (q.assets * (a * q.shares / q.assets)) := by ring
    _ ≤ p.assets * (a * q.shares) := Nat.mul_le_mul_left _ (assets_mul_floor_le _ _ _)
    _ = a * (p.assets * q.shares) := by ring
    _ ≤ a * (q.assets * p.shares) := Nat.mul_le_mul_left _ h
    _ = q.assets * (a * p.shares) := by ring

end ShareRate
