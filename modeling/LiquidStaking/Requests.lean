import LiquidStaking.Lib.Checked
import LiquidStaking.Lib.Store

/-!
# The withdrawal queue

Unstaked NEAR waits in a queue keyed by the hash of the unstake message.  Under
one hash sits a vector of *tranches*, each with its own cooldown; a withdrawal
merges the matured ones into a single locked tranche that stays there until the
delivery settles.

The vector operations follow the source: the collapse loop walks the vector and
`swap_remove`s what it collects, an append folds into the first unlocked tranche
of the same epoch, and the settlement works on the first locked tranche.
-/

namespace LiquidStaking

open Checked

/-- `Lock<T>` of `defuse-near-utils`: a value that is set aside while a delivery
is under way. -/
structure Lock (α : Type) where
  locked : Bool
  value : α
  deriving DecidableEq, Repr

namespace Lock

variable {α : Type}

/-- `Lock::get`: the value, unless it is locked. -/
def get (l : Lock α) : Option α := if l.locked then none else some l.value

/-- `Lock::as_locked`: the value, if it is locked. -/
def asLocked (l : Lock α) : Option α := if l.locked then some l.value else none

/-- `Lock::force_unlock`. -/
def forceUnlock (l : Lock α) : Lock α := { l with locked := false }

end Lock

/-- One withdrawal claim.

`wnearResidual` is the part of it that has been wrapped already by an earlier
attempt, and `storageWasPaid` says that an attempt has paid for a registration. -/
structure Tranche where
  withdrawalAmount : ℕ
  unstakeEpoch : ℕ
  wnearResidual : ℕ
  storageWasPaid : Bool
  deriving DecidableEq, Repr

/-- The epochs for which unstaked NEAR stays locked with the validator. -/
def unstakeCooldownPeriod : ℕ := 4

/-- `MAX_LIMIT`. -/
def maxLimit : ℕ := 100

namespace Tranche

/-- `Tranche::new`. -/
def new (withdrawalAmount unstakeEpoch : ℕ) : Tranche :=
  ⟨withdrawalAmount, unstakeEpoch, 0, false⟩

/-- `is_matured`.  The source adds in `u64` and panics when the sum leaves it;
an epoch height within the cooldown of `u64::MAX` does not occur, and the sum is
taken in `ℕ`. -/
def isMatured (t : Tranche) (currentEpoch : ℕ) : Bool :=
  decide (t.unstakeEpoch + unstakeCooldownPeriod ≤ currentEpoch)

/-- One tranche that stands for two: what the collapse loop accumulates. -/
def merge (a b : Tranche) : Tranche :=
  ⟨a.withdrawalAmount + b.withdrawalAmount, max a.unstakeEpoch b.unstakeEpoch,
    a.wnearResidual + b.wnearResidual, a.storageWasPaid || b.storageWasPaid⟩

/-- The accumulator of the collapse loop at its start. -/
def zero : Tranche := ⟨0, 0, 0, false⟩

end Tranche

/-- `WithdrawalRequests`: the tranches queued under each hash. -/
abbrev WithdrawalRequests (H : Type) := Store H (List (Lock Tranche))

/-! ## Vectors of tranches

The operations on the vector under one hash.  Amounts are added in `u128`, and
an overflow panics, here as in the source. -/

namespace Tranches

/-- `Vec::swap_remove`: the last element takes the place of the removed one.
The order of a vector is therefore not an order in time. -/
def swapRemove {α : Type} (l : List α) (i : ℕ) : List α :=
  match l.getLast? with
  | none => []
  | some last => (l.set i last).dropLast

/-- Unlocked and past its cooldown. -/
def isReady (currentEpoch : ℕ) (l : Lock Tranche) : Bool :=
  match l.get with
  | some t => t.isMatured currentEpoch
  | none => false

/-- The loop of `collapse_matured_tranches`, at index `i`; `remaining` is the
number of elements not visited yet.

A tranche that is ready is merged into the accumulator and removed, and the
index stays where it is, since another element has taken that place; any other
tranche is passed over. -/
def collapseLoop (currentEpoch : ℕ) :
    ℕ → ℕ → Tranche → List (Lock Tranche) → Except String (Tranche × List (Lock Tranche))
  | 0, _, acc, ts => .ok (acc, ts)
  | remaining + 1, i, acc, ts =>
      match ts[i]? with
      | none => .ok (acc, ts)
      | some l =>
          if isReady currentEpoch l then do
            let amount ← expect (checkedAdd 128 acc.withdrawalAmount l.value.withdrawalAmount)
              "Overflow while collapsing withdrawal amount"
            let residual ← expect (checkedAdd 128 acc.wnearResidual l.value.wnearResidual)
              "Overflow while collapsing residuals"
            let storage := acc.storageWasPaid || l.value.storageWasPaid
            let epoch := max acc.unstakeEpoch l.value.unstakeEpoch
            -- The last element now stands at `i`, so `i` is tested again.
            collapseLoop currentEpoch remaining i ⟨amount, epoch, residual, storage⟩
              (swapRemove ts i)
          else collapseLoop currentEpoch remaining (i + 1) acc ts

/-- `collapse_matured_tranches`.  An accumulator without an amount is dropped. -/
def collapseMaturedTranches (currentEpoch : ℕ) (ts : List (Lock Tranche)) :
    Except String (Option Tranche × List (Lock Tranche)) := do
  let (acc, ts) ← collapseLoop currentEpoch ts.length 0 Tranche.zero ts
  return (if 0 < acc.withdrawalAmount then some acc else none, ts)

/-- The fold of `append_request` into the first unlocked tranche of the current
epoch, or a new tranche at the end. -/
def foldSameEpoch (currentEpoch amount : ℕ) :
    List (Lock Tranche) → Except String (List (Lock Tranche))
  | [] => .ok [⟨false, Tranche.new amount currentEpoch⟩]
  | l :: ls =>
      if l.locked = false ∧ l.value.unstakeEpoch = currentEpoch then do
        let total ← expect (checkedAdd 128 l.value.withdrawalAmount amount)
          "Overflow while merging same-epoch unstake"
        return { l with value := { l.value with withdrawalAmount := total } } :: ls
      else do
        let ls ← foldSameEpoch currentEpoch amount ls
        return l :: ls

/-- `append_request` on the vector under its hash. -/
def append (currentEpoch amount : ℕ) (ts : List (Lock Tranche)) :
    Except String (List (Lock Tranche)) := do
  if ts.isEmpty then return [⟨false, Tranche.new amount currentEpoch⟩]
  let (collapsed, ts) ← collapseMaturedTranches currentEpoch ts
  let ts := match collapsed with
    | some t => ts ++ [⟨false, t⟩]
    | none => ts
  foldSameEpoch currentEpoch amount ts

/-- `amount_of_matured_tranches` on the vector under its hash.

A locked tranche anywhere refuses the whole hash; otherwise everything matured
becomes one locked tranche, the claim of the delivery that starts. -/
def sweep (currentEpoch : ℕ) (ts : List (Lock Tranche)) :
    Except String (ℕ × List (Lock Tranche)) := do
  require (ts.all (fun l => !l.locked) = true) "Unstake request is already in progress"
  let (collapsed, ts) ← collapseMaturedTranches currentEpoch ts
  match collapsed with
  | some t => return (t.withdrawalAmount, ts ++ [⟨true, t⟩])
  | none => return (0, ts)

/-- The first locked tranche.  There is never a second one, which is an
invariant and not a property of the vector operations. -/
def firstLocked (ts : List (Lock Tranche)) : Option Tranche := ts.findSome? Lock.asLocked

/-- Change the first locked entry. -/
def updateLocked (f : Lock Tranche → Lock Tranche) : List (Lock Tranche) → List (Lock Tranche)
  | [] => []
  | l :: ls => if l.locked then f l :: ls else l :: updateLocked f ls

end Tranches

/-! ## The queue

The same operations under a hash.  An entry whose vector becomes empty is
removed by `removeRequest` only. -/

namespace WithdrawalRequests

variable {H : Type} [DecidableEq H] (q : WithdrawalRequests H)

/-- The vector under a hash; empty for a hash without an entry. -/
def tranchesAt (hash : H) : List (Lock Tranche) := (q.lookup hash).getD []

/-- `append_request`. -/
def appendRequest (currentEpoch : ℕ) (hash : H) (amount : ℕ) :
    Except String (WithdrawalRequests H) := do
  let ts ← Tranches.append currentEpoch amount (tranchesAt q hash)
  return q.insert hash ts

/-- `amount_of_matured_tranches`. -/
def amountOfMaturedTranches (currentEpoch : ℕ) (hash : H) :
    Except String (ℕ × WithdrawalRequests H) :=
  match q.lookup hash with
  | none => .ok (0, q)
  | some ts => do
      let (amount, ts) ← Tranches.sweep currentEpoch ts
      return (amount, q.insert hash ts)

/-- `locked_tranche`. -/
def lockedTranche (hash : H) : Except String Tranche := do
  let ts ← expect (q.lookup hash) "No withdrawal for the given hash"
  expect (Tranches.firstLocked ts) "The user withdrawal should be locked at this point"

/-- Writing through `locked_tranche_mut`. -/
def writeLockedTranche (hash : H) (t : Tranche) : WithdrawalRequests H :=
  match q.lookup hash with
  | none => q
  | some ts => q.insert hash (Tranches.updateLocked (fun l => { l with value := t }) ts)

/-- `remove_request`.  The locked tranches go; the entry goes with them when
nothing else is queued under the hash. -/
def removeRequest (hash : H) : WithdrawalRequests H :=
  match q.lookup hash with
  | none => q
  | some ts =>
      let kept := ts.filter fun l => !l.locked
      if kept.isEmpty then q.erase hash else q.insert hash kept

/-- `release_lock`: whether there was a lock to release.  The claim stays, and
can be withdrawn again. -/
def releaseLock (hash : H) : WithdrawalRequests H × Bool :=
  match q.lookup hash with
  | none => (q, false)
  | some ts =>
      (q.insert hash (Tranches.updateLocked Lock.forceUnlock ts), ts.any Lock.locked)

/-- `get_withdrawal_request_tranches`. -/
def getWithdrawalRequestTranches (hash : H) : Option (List Tranche) :=
  (q.lookup hash).map fun ts => ts.map Lock.value

/-- `get_withdrawal_requests`; the order of the entries is not fixed. -/
def getWithdrawalRequests (skip limit : ℕ) : List (H × List Tranche) :=
  ((q.entries.drop skip).take (min limit maxLimit)).map fun e => (e.1, e.2.map Lock.value)

/-- The filtered stream of `get_hashes_available_for_withdrawal`: a hash is
listed when some unlocked tranche under it has matured. -/
def availableHashes (currentEpoch : ℕ) : List H :=
  q.entries.filterMap fun e =>
    if e.2.any (Tranches.isReady currentEpoch) then some e.1 else none

/-- `get_hashes_available_for_withdrawal`. -/
def getHashesAvailableForWithdrawal (currentEpoch skip limit : ℕ) : List H :=
  ((availableHashes q currentEpoch).drop skip).take (min limit maxLimit)

end WithdrawalRequests

end LiquidStaking
