import LiquidStaking.Stake

/-!
# Withdrawing

`withdraw` locks everything matured under the message's hash and sends it out,
as native NEAR or as wNEAR.  The settlement callback learns what was delivered,
takes that out of the claim and the books, and releases the lock.
-/

namespace LiquidStaking

open Checked PromiseChain

def onWithdrawWnearGas : ℕ := tgas 15
def onWithdrawNativeGas : ℕ := tgas 15

namespace LiquidStakingToken

variable {H : Type} [DecidableEq H] (host : Host H) (env : Env) (s : LiquidStakingToken H)

/-- `withdraw_gas`, what a caller has to attach for a delivery. -/
def withdrawGas (args : UnstakeMessage) : ℕ :=
  let deliveryGas :=
    match args.withdrawTokens with
    | .native => onWithdrawNativeGas
    | .wnear isStorageDeposit msg _ minGas =>
        let gas := Gas.satAdd nearDepositGas onWithdrawWnearGas
        if args.receiverId ≠ host.currentAccountId then
          let gas := Gas.satAdd gas (calculateMinGas minGas msg.isSome)
          if isStorageDeposit then Gas.satAdd gas storageDepositGas else gas
        else gas
  Gas.satAdd gasReserve deliveryGas

/-- `withdraw_native`.  The transfer carries the whole claim, and the callback
learns whether it arrived. -/
def withdrawNative (receiverId : AccountId) (amount : ℕ) (hash : H) : List (Receipt H) :=
  [.pay receiverId amount,
    .call host.currentAccountId (.onWithdrawNative hash amount) 0 onWithdrawNativeGas]

/-- The batch on the wNEAR contract; each step is in it only if it has something
to do.

It is one receipt: NEAR is wrapped, the receiver is registered and paid, or none
of it. -/
def deliveryActions (receiverId : AccountId) (isSelfWithdraw : Bool)
    (amountToNearDeposit storageToPay amountToSend : ℕ) (msg memo : Option String)
    (ftMinGas : ℕ) : List (Action H) :=
  (if 0 < amountToNearDeposit then [.call .nearDeposit amountToNearDeposit nearDepositGas]
    else []) ++
  (if 0 < storageToPay ∧ isSelfWithdraw = false then
      [.call (.storageDeposit (some receiverId) none) storageToPay storageDepositGas]
    else []) ++
  (if isSelfWithdraw then []
    else match msg with
      | some msg => [.call (.ftTransferCall receiverId amountToSend memo msg) oneYocto ftMinGas]
      | none => [.call (.ftTransfer receiverId amountToSend memo) oneYocto ftMinGas])

/-- The settlement callback of a wNEAR delivery. -/
def onWithdrawWnearCall (hash : H) (amountToSend cost storageToPay : ℕ) (isCall : Bool) :
    Receipt H :=
  .call host.currentAccountId (.onWithdrawWnear hash amountToSend cost storageToPay isCall) 0
    onWithdrawWnearGas

/-- `withdraw_wnear`, for the fields of a `Wnear` message.

A residual of an earlier delivery is wNEAR already and is not wrapped again.
The price of a registration is paid once for a tranche. -/
def withdrawWnear (receiverId : AccountId) (isStorageDeposit : Bool) (msg memo : Option String)
    (minGas : Option ℕ) (amount : ℕ) (hash : H) : Except String (List (Receipt H)) := do
  let isSelfWithdraw := decide (receiverId = host.currentAccountId)
  require (¬(isSelfWithdraw = true ∧ isStorageDeposit = true))
    "There couldn't be a storage_deposit for the current account withdrawal"
  let tranche ← WithdrawalRequests.lockedTranche s.withdrawalRequests hash
  let storageToPay := if !tranche.storageWasPaid && isStorageDeposit then ftStorageDeposit else 0
  let amountToSend ← expect (checkedSub amount storageToPay)
    "Storage deposit exceeds the withdrawal amount"
  let amountToNearDeposit ← expect (checkedSub amountToSend tranche.wnearResidual)
    "wNEAR residual exceeds the deliverable amount"
  let isCall := !isSelfWithdraw && msg.isSome
  let nearDepositAndTransferCost :=
    NearToken.satAdd amountToNearDeposit (if isSelfWithdraw then 0 else oneYocto)
  let actions := deliveryActions receiverId isSelfWithdraw amountToNearDeposit storageToPay
    amountToSend msg memo (calculateMinGas minGas isCall)
  require (actions ≠ [])
    "Nothing to deliver: claim is already fully held as wNEAR by the contract"
  return [⟨s.wnearId, actions, none⟩,
    onWithdrawWnearCall host hash amountToSend nearDepositAndTransferCost storageToPay isCall]

/-- `withdraw`, which anyone may call: what it does is fixed by the message,
whose hash is the key of the claim. -/
def withdraw (args : UnstakeMessage) : Except String (Outcome H) := do
  env.requireNotPaused .withdraw
  env.assertGas (withdrawGas host args)
  let hash := host.hash args
  let (amount, q) ← WithdrawalRequests.amountOfMaturedTranches s.withdrawalRequests
    env.epochHeight hash
  require (0 < amount)
    "There are no available tokens for withdrawal for this message hash"
  let s := s.withQueue q
  match args.withdrawTokens with
  | .native => return .promise s (withdrawNative host args.receiverId amount hash)
  | .wnear isStorageDeposit msg memo minGas =>
      let promise ← s.withdrawWnear host args.receiverId isStorageDeposit msg memo minGas
        amount hash
      return .promise s promise

/-- The accounting of a delivered native withdrawal.

The claim has to be worth exactly what was sent; it cannot have grown, as a
locked tranche is not folded into. -/
def settleNative (hash : H) (amount : ℕ) : Except String (LiquidStakingToken H) := do
  let tranche ← WithdrawalRequests.lockedTranche s.withdrawalRequests hash
  require (tranche.withdrawalAmount = amount)
    "Withdrawal amount does not match the locked claim"
  let s := s.withQueue (WithdrawalRequests.removeRequest s.withdrawalRequests hash)
  let s ← s.decreaseTotalBalance amount
  s.decreasePendingWithdrawals amount

/-- `on_withdraw_native`; settlement and unlocking commit in the same receipt. -/
def onWithdrawNative (hash : H) (amount : ℕ) : Except String (Outcome H) := do
  env.requirePrivate host.currentAccountId
  let s ← onlyIf (env.promiseSucceeded = true) (s.settleNative hash amount) s
  return .value (s.withQueue (WithdrawalRequests.releaseLock s.withdrawalRequests hash).1) .empty

/-- `modify_state_after_withdraw`.

What was not consumed stays in the claim and is kept as wNEAR, the residual of
the tranche. -/
def modifyStateAfterWithdraw (hash : H)
    (amountToSend nearDepositAndTransferCost consumed storageToPay : ℕ) :
    Except String (LiquidStakingToken H) := do
  let refund := amountToSend - consumed
  let delivered := NearToken.satAdd consumed storageToPay
  let tranche ← WithdrawalRequests.lockedTranche s.withdrawalRequests hash
  let newAmount ← expect (checkedSub tranche.withdrawalAmount delivered)
    "Inconsistent state: delivered exceeds queued claim"
  let q := if newAmount = 0 then WithdrawalRequests.removeRequest s.withdrawalRequests hash
    else WithdrawalRequests.writeLockedTranche s.withdrawalRequests hash
      { tranche with
        withdrawalAmount := newAmount
        wnearResidual := refund
        storageWasPaid := tranche.storageWasPaid || decide (0 < storageToPay) }
  let s ← (s.withQueue q).decreasePendingWithdrawals delivered
  let spentNear := NearToken.satAdd nearDepositAndTransferCost storageToPay
  onlyIf (0 < spentNear) (s.decreaseTotalBalance spentNear) s

/-- How `on_withdraw_wnear` reads the result of the delivery: the consumed
amount, or nothing for a plain transfer that failed.

A transfer call that failed counts as consumed in full, since it is not known
what its receiver took.  A result that is too long or is no number makes the
callback panic, and the claim stays locked. -/
def consumedAmount (amountToSend : ℕ) (isCall : Bool) : Except String (Option ℕ) :=
  match env.promiseResultChecked (if isCall then maxResultLength else 0) with
  | .ok payload =>
      if isCall then
        match payload.u128 with
        | some value => .ok (some (min value amountToSend))
        | none => .error "Error while parsing ft_transfer_call result"
      else .ok (some amountToSend)
  | .error .failed => if isCall then .ok (some amountToSend) else .ok none
  | .error _ => .error "Error occurred while making withdrawal"

/-- `on_withdraw_wnear`. -/
def onWithdrawWnear (hash : H) (amountToSend nearDepositAndTransferCost storageToPay : ℕ)
    (isCall : Bool) : Except String (Outcome H) := do
  env.requirePrivate host.currentAccountId
  require (env.promiseResults.length = 1) "Invalid promise results count"
  match ← consumedAmount env amountToSend isCall with
  | some consumed =>
      let s ← s.modifyStateAfterWithdraw hash amountToSend nearDepositAndTransferCost consumed
        storageToPay
      return .value
        (s.withQueue (WithdrawalRequests.releaseLock s.withdrawalRequests hash).1) .empty
  | none =>
      return .value
        (s.withQueue (WithdrawalRequests.releaseLock s.withdrawalRequests hash).1) .empty

end LiquidStakingToken

end LiquidStaking
