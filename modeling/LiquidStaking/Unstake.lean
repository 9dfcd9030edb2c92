import LiquidStaking.Transfers

/-!
# Unstaking

`handle_unstaking` burns LST held by the pool and lowers the stake; the result
of the validator action decides in `on_unstake` whether the NEAR is queued for
withdrawal or everything is put back.
-/

namespace LiquidStaking

open Checked PromiseChain

/-- `ON_UNSTAKE_GAS`. -/
def onUnstakeGas : ℕ := tgas 15

namespace LiquidStakingToken

variable {H : Type} [DecidableEq H] (host : Host H) (env : Env) (s : LiquidStakingToken H)

/-- `modify_state_before_unstake`: the LST are burned and the stake is lowered
before the validator is told. -/
def modifyStateBeforeUnstake (unstakeAmount lstTokens : ℕ) :
    Except String (LiquidStakingToken H) := do
  let s ← s.decreaseStakeAmount unstakeAmount
  s.internalWithdraw host.currentAccountId lstTokens

/-- `rollback_state_after_unstake`, its inverse on the books.

The validator is not told: its stake stays as the failed action left it until
the next action. -/
def rollbackStateAfterUnstake (unstakeAmount lstTokens : ℕ) :
    Except String (LiquidStakingToken H) := do
  let s ← s.increaseStakeAmount unstakeAmount
  s.internalDeposit host.currentAccountId lstTokens

/-- The callback of an unstake. -/
def onUnstakeCall (lstAmount nearAmount : ℕ) (hash : H) (trigger : UnstakeTrigger) : Receipt H :=
  .call host.currentAccountId (.onUnstake lstAmount nearAmount hash trigger) 0 onUnstakeGas

/-- `handle_unstaking`: the new state and the promise.

The LST have reached the pool's account by a transfer.  A claim is queued only
in the callback, once the validator action has succeeded. -/
def handleUnstaking (lstAmount : ℕ) (message : UnstakeMessage) (trigger : UnstakeTrigger) :
    Except String (LiquidStakingToken H × List (Receipt H)) := do
  require (0 < lstAmount) "Unstake amount must be more than 0"
  let hash := host.hash message
  let (s, _) ← s.syncRewardsInternal env none
  let unstakeAmount ← s.lstToNear lstAmount
  require (0 < unstakeAmount) "Unstake amount in NEAR must be more than 0"
  require (unstakeAmount ≤ s.statistics.totalStakedAmount) "Attempt to unstake more than staked"
  let s ← s.modifyStateBeforeUnstake host unstakeAmount lstAmount
  return (s, [s.restakePromise host, onUnstakeCall host lstAmount unstakeAmount hash trigger])

/-- `on_unstake`.

On success nothing is handed back.  On failure the books are put back, and then
a holder gets the LST returned, while for a refused stake they stay on the
pool's account. -/
def onUnstake (lstAmount nearAmount : ℕ) (hash : H) (trigger : UnstakeTrigger) :
    Except String (Outcome H) := do
  env.requirePrivate host.currentAccountId
  if env.promiseSucceeded then
    let q ← WithdrawalRequests.appendRequest s.withdrawalRequests env.epochHeight hash nearAmount
    let s ← (s.withQueue q).increasePendingWithdrawals nearAmount
    return .value s (.ofU128 0)
  else
    let s ← s.rollbackStateAfterUnstake host nearAmount lstAmount
    match trigger with
    | .userRequest => return .value s (.ofU128 lstAmount)
    | .refundByContract => return .value s (.ofU128 0)

end LiquidStakingToken

end LiquidStaking
