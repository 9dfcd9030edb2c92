import LiquidStaking.Unstake

/-!
# Staking

A stake runs through up to six receipts.  `stake_and_deposit` quotes the LST and
schedules a batch that mints them to the pool's own account; `restake_or_refund`
sends the new total to the validator; `on_restake_or_refund` hands the LST to
the receiver or takes everything back; with a message the receiver's
`ft_on_transfer` may refuse LST, which `on_ft_on_transfer` then unstakes.

wNEAR takes the same way after an unwrap, and is booked in the tracker already
when it is accepted.
-/

namespace LiquidStaking

open Checked PromiseChain

def refundWnearDepositGas : ℕ := tgas 5
def onFtOnTransferGas : ℕ := tgas 40
def onRestakeOrRefundGasMin : ℕ := tgas 50

/-- `on_restake_or_refund_gas`.

The gas that the message asks for its own `ft_on_transfer` is counted only when
there is a message to deliver. -/
def onRestakeOrRefundGas (args : StakeMessage) : ℕ :=
  if args.msg.isSome then
    Gas.satAdd (Gas.satAdd gasReserve (calculateMinGas args.minGas true)) onFtOnTransferGas
  else onRestakeOrRefundGasMin

/-- `stake_gas`, what a caller has to attach for the chain of a stake.

The sum saturates, as in the source: a message that asks for more gas than there
is asks for all of it, and is then refused. -/
def stakeGas (args : StakeMessage) : ℕ :=
  let gas := Gas.satAdd (Gas.satAdd (Gas.satAdd gasReserve modifyStateAfterStakeGas) gasReserve)
    (onRestakeOrRefundGas args)
  if args.isStorageDeposit then Gas.satAdd gas storageDepositGas else gas

/-- What the callback of the validator action is told about a stake.

It is fixed when the LST are quoted; the state may have changed by the time the
callback runs. -/
structure MintedStake where
  senderId : AccountId
  args : StakeMessage
  stakeAmount : ℕ
  lstTokens : ℕ
  depositToken : DepositToken
  deriving DecidableEq, Repr

/-- What `stake_and_deposit` fixes for the rest of the chain.

The deposit exceeds the stake by the price of a registration, when the message
asks for one. -/
structure StakeOrder extends MintedStake where
  depositAmount : ℕ
  deriving DecidableEq, Repr

/-- The callback of the validator action. -/
def MintedStake.settleCall {H : Type} (host : Host H) (m : MintedStake) : Receipt H :=
  .call host.currentAccountId (.onRestakeOrRefund m.senderId m.stakeAmount m.lstTokens m.args
    m.depositToken) 0 (onRestakeOrRefundGas m.args)

namespace StakeOrder

variable {H : Type} (host : Host H) (o : StakeOrder)

/-- The amount the mint books in the tracker; wNEAR was booked on acceptance.

A native deposit is booked with the price of the registration, although that
price is not staked. -/
def amountToBook : ℕ :=
  match o.depositToken with
  | .native => o.depositAmount
  | .wnear => 0

/-- The batch that registers the receiver and mints.

It is one receipt, so either the receiver is registered and the LST are minted,
or neither happens and a native deposit is sent back by the protocol. -/
def batch (refundTo : Option AccountId) : Receipt H where
  receiver := host.currentAccountId
  actions :=
    (match o.depositToken with
      | .native => [.transfer o.stakeAmount]
      | .wnear => []) ++
    (if o.args.isStorageDeposit then
      [.call (.storageDeposit (some o.args.receiverId) (some true)) ftStorageDeposit
        storageDepositGas]
    else []) ++
    [.call (.modifyStateBeforeStake o.senderId o.args.receiverId o.stakeAmount o.amountToBook
      o.lstTokens) 0 modifyStateAfterStakeGas]
  refundTo := refundTo

/-- The callback of the batch. -/
def restakeCall : Receipt H :=
  .call host.currentAccountId (.restakeOrRefund o.senderId o.depositAmount o.stakeAmount
    o.lstTokens o.args o.depositToken) 0
    (Gas.satAdd gasReserve (onRestakeOrRefundGas o.args))

end StakeOrder

namespace LiquidStakingToken

variable {H : Type} [DecidableEq H] (host : Host H) (env : Env) (s : LiquidStakingToken H)

/-- `assert_message_size`. -/
def assertMessageSize (args : StakeMessage) : Except String Unit :=
  require (host.stakeMessageSize args ≤ maxMessageLength) "Message is too large"

/-- The `refund_to` of the minting batch: only a native deposit travels with it.

For wNEAR the batch carries no NEAR of the sender. -/
def batchRefundTo (env : Env) : DepositToken → Option AccountId
  | .native => some env.refundToAccountId
  | .wnear => none

/-- `stake_and_deposit`; the inner error is the `Err` the caller handles.

The LST are quoted here and minted in a later receipt.  Between the two the rate
may rise. -/
def stakeAndDeposit (senderId : AccountId) (args : StakeMessage) (depositAmount : ℕ)
    (depositToken : DepositToken) : Except String (Except String (List (Receipt H))) := do
  match if args.isStorageDeposit then checkedSub depositAmount ftStorageDeposit
      else some depositAmount with
  | none => return .error "Storage deposit cannot be greater than the staked amount"
  | some stakeAmount =>
      if stakeAmount = 0 then
        return .error "The amount of NEAR tokens for staking must be more than 0"
      let lstTokens ← s.nearToLst stakeAmount
      if lstTokens = 0 then
        return .error "The amount of LST tokens to be minted must be more than 0"
      let order : StakeOrder :=
        { senderId, args, stakeAmount, lstTokens, depositToken, depositAmount }
      return .ok [order.batch host (batchRefundTo env depositToken), order.restakeCall host]

/-- `refund_wnear_promise`. -/
def refundWnearPromise (depositAmount : ℕ) : List (Receipt H) :=
  [.call s.wnearId .nearDeposit depositAmount nearDepositGas,
    .call host.currentAccountId (.refundWnearDeposit depositAmount) 0 refundWnearDepositGas]

/-- `refund_booked_wnear`: the wNEAR booked on acceptance is taken out of the
tracker and wrapped again. -/
def refundBookedWnear (depositAmount : ℕ) :
    Except String (LiquidStakingToken H × List (Receipt H)) := do
  let s ← s.decreaseTotalBalance depositAmount
  return (s, s.refundWnearPromise host depositAmount)

/-- `stake`.  The deposit that came with the call is excluded from the sync, as
it is in the balance already. -/
def stake (args : StakeMessage) : Except String (Outcome H) := do
  env.requireNotPaused .stake
  assertMessageSize host args
  env.assertGas (stakeGas args)
  let senderId := env.predecessorAccountId
  let depositAmount := env.attachedDeposit
  let amountToExclude := if senderId = host.currentAccountId then 0 else depositAmount
  let (s, _) ← s.syncRewardsInternal env (some amountToExclude)
  match ← s.stakeAndDeposit host env senderId args depositAmount .native with
  | .ok promise => return .promise s promise
  | .error err => throw err

/-- `handle_staking`, for wNEAR that arrived.  It is unwrapped first, and the
callback of that goes on. -/
def handleStaking (senderId : AccountId) (depositAmount : ℕ) (args : StakeMessage) :
    Except String (Outcome H) := do
  assertMessageSize host args
  let callbackGas := stakeGas args
  env.assertGas (Gas.satAdd (Gas.satAdd gasReserve nearWithdrawGas) callbackGas)
  -- Booked before the unwrapped NEAR arrives: the tracker may only run ahead.
  let s ← s.increaseTotalBalance depositAmount
  return .promise s
    [.call s.wnearId (.nearWithdraw depositAmount) oneYocto nearWithdrawGas,
      .call host.currentAccountId (.onNearWithdraw senderId depositAmount args) 0 callbackGas]

/-- `on_near_withdraw`.  If the unwrap failed, all of the wNEAR is handed back. -/
def onNearWithdraw (senderId : AccountId) (amount : ℕ) (args : StakeMessage) :
    Except String (Outcome H) := do
  env.requirePrivate host.currentAccountId
  if env.promiseSucceeded then
    let (s, _) ← s.syncRewardsInternal env none
    match ← s.stakeAndDeposit host env senderId args amount .wnear with
    | .ok promise => return .promise s promise
    | .error _ =>
        let (s, promise) ← s.refundBookedWnear host amount
        return .promise s promise
  else
    let s ← s.decreaseTotalBalance amount
    return .value s (.ofU128 amount)

/-- `modify_state_before_stake`, the mint.

The LST are minted to the pool's own account: they are handed over only once the
validator action has succeeded. -/
def modifyStateBeforeStake (senderId receiverId : AccountId)
    (stakeAmount depositAmount lstTokens : ℕ) : Except String (Outcome H) := do
  env.requirePrivate host.currentAccountId
  require (s.isRegistered host receiverId = true)
    ("The account " ++ receiverId ++ " is not registered")
  let s ← onlyIf (senderId ≠ host.currentAccountId) (s.increaseTotalBalance depositAmount) s
  let s ← s.increaseStakeAmount stakeAmount
  let s ← s.internalDeposit host.currentAccountId lstTokens
  return .value s .empty

/-- `restake_or_refund`, behind the minting batch.

For a native deposit a failed batch makes this callback panic, and the protocol
has refunded the deposit by then. -/
def restakeOrRefund (o : StakeOrder) : Except String (Outcome H) := do
  env.requirePrivate host.currentAccountId
  if env.promiseSucceeded then
    return .promise s [s.restakePromise host, o.toMintedStake.settleCall host]
  else
    match o.depositToken with
    | .native => throw "Failed to update state before staking"
    | .wnear =>
        let (s, promise) ← s.refundBookedWnear host o.depositAmount
        return .promise s promise

/-- `rollback_state_after_stake`.

Every subtraction here is checked, so the callback panics if the books do not
cover the stake any more. -/
def rollbackStateAfterStake (senderId : AccountId) (stakeAmount lstTokens : ℕ) :
    Except String (LiquidStakingToken H) := do
  let s ← s.internalWithdraw host.currentAccountId lstTokens
  let s ← s.decreaseStakeAmount stakeAmount
  onlyIf (senderId ≠ host.currentAccountId) (s.decreaseTotalBalance stakeAmount) s

/-- `on_restake_or_refund`, behind the validator action.

If it succeeded, the LST go from the pool to the receiver, and on to its
`ft_on_transfer` when there is a message.  If not, the mint is rolled back and
the stake is sent back to the sender. -/
def onRestakeOrRefund (senderId : AccountId) (stakeAmount lstAmount : ℕ)
    (args : StakeMessage) (depositToken : DepositToken) : Except String (Outcome H) := do
  env.requirePrivate host.currentAccountId
  if env.promiseSucceeded then
    if s.isRegistered host args.receiverId then
      let s ← s.internalTransfer host.currentAccountId args.receiverId lstAmount
      match args.msg with
      | some msg =>
          return .promise s
            [.call args.receiverId (.ftOnTransfer senderId lstAmount msg) 0
                (calculateMinGas args.minGas true),
              .call host.currentAccountId (.onFtOnTransfer lstAmount args) 0 onFtOnTransferGas]
      | none => return .value s (.ofU128 0)
    else return .value s (.ofU128 0)
  else
    let s ← s.rollbackStateAfterStake host senderId stakeAmount lstAmount
    match depositToken with
    | .native => return .promise s [.pay senderId stakeAmount]
    | .wnear => return .promise s (s.refundWnearPromise host stakeAmount)

/-- `refund_wnear_deposit`: what the wNEAR contract is told of the transfer it
resolves, all or nothing. -/
def refundWnearDeposit (depositAmount : ℕ) : Except String (Outcome H) := do
  env.requirePrivate host.currentAccountId
  if env.promiseSucceeded then return .value s (.ofU128 depositAmount)
  else return .value s (.ofU128 0)

/-- `on_ft_on_transfer`, behind the receiver's `ft_on_transfer`.

LST that the receiver did not use are taken back, as a transfer resolver does,
and unstaked under the hash of the refund message. -/
def onFtOnTransfer (lstTokens : ℕ) (args : StakeMessage) : Except String (Outcome H) := do
  env.requirePrivate host.currentAccountId
  match args.refundMessage with
  | none => return .value s (.ofU128 0)
  | some unstakeMessage =>
      let (s, consumed) ←
        s.resolveTransfer env host.currentAccountId args.receiverId lstTokens
      let refund := lstTokens - consumed
      if refund = 0 then return .value s (.ofU128 0)
      let (s, promise) ← s.handleUnstaking host env refund unstakeMessage .refundByContract
      return .promise s promise

end LiquidStakingToken

end LiquidStaking
