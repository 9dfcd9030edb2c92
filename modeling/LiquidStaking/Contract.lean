import LiquidStaking.Withdraw

/-!
# The contract on its platform

The remaining methods — `ft_on_transfer`, `ping`, the admin calls — and the
dispatch from a receipt to the method it calls.  `platform` puts the contract on
the promise-chain machine:

* a receipt with a function call on the pool's own account runs here, its
  actions in order and as one transaction;
* every other receipt — validator actions, payments, calls on wNEAR and on
  receivers — runs elsewhere, and its result may be anything;
* calls from outside have a predecessor other than the pool, scheduled receipts
  have the pool as predecessor.

`Deployment` is a contract just initialized; its `Reaches` relation is a run
from there.
-/

namespace LiquidStaking

open Checked PromiseChain

/-- `MAX_PROTOCOL_FEE_BPS`: 20%. -/
def maxProtocolFeeBps : ℕ := 2000

namespace LiquidStakingToken

variable {H : Type} [DecidableEq H] (host : Host H) (env : Env) (s : LiquidStakingToken H)

/-- `ft_on_transfer`.  wNEAR that arrives is staked, LST that arrives is
unstaked, and any other token is refused. -/
def ftOnTransfer (senderId : AccountId) (amount : ℕ) (msg : String) :
    Except String (Outcome H) := do
  env.requireNotPaused .ftOnTransfer
  let tokenId := env.predecessorAccountId
  if tokenId = s.wnearId then
    let stakeMessage ← expect (host.parseStakeMessage msg) "Invalid format of the StakeMessage"
    s.handleStaking host env senderId amount stakeMessage
  else if tokenId = host.currentAccountId then
    let unstakeMessage ← expect (host.parseUnstakeMessage msg)
      "Invalid format of the UnstakeMessage"
    let (s, promise) ← s.handleUnstaking host env amount unstakeMessage .userRequest
    return .promise s promise
  else throw "Invalid token account ID"

/-- The callback of a validator action nobody else waits for. -/
def onRestakeCall : Receipt H := .call host.currentAccountId .onRestake 0 restakeGas

/-- `ping`.  A sync without a reward ends it; a reward is staked at once, with a
callback behind the action.

A balance below the tracker is the only outcome that is an error here: the
caller may try again. -/
def ping : Except String (Outcome H) := do
  env.requireNotPaused .ping
  let (s, result) ← s.syncRewardsInternal env none
  match result with
  | .noRewards | .alreadySynced => return .value s (.ofU128 0)
  | .rewardsSynced _ => return .promise s [s.restakePromise host, onRestakeCall host]
  | .balanceBelowTracked =>
      throw "Reward sync postponed: balance is below the tracked total. Try again later."

/-- `on_restake`.  Where the stake action failed and something is staked, the
pool unstakes everything and leaves the recovery to the admin. -/
def onRestake : Except String (Outcome H) := do
  env.requirePrivate host.currentAccountId
  if env.promiseResults.head? = some .failed ∧ 0 < env.accountLockedBalance then
    return .promise s [⟨host.currentAccountId, [.stake 0 s.validatorPublicKey], none⟩]
  else return .value s (.json 4)

/-- `set_protocol_fee_bps`.  The sync comes first, so that rewards found by it
are split at the fee in force before. -/
def setProtocolFeeBps (feeBps : ℕ) : Except String (Outcome H) := do
  env.requireAdmin
  env.assertOneYocto
  require (feeBps ≤ maxProtocolFeeBps)
    "protocol fee exceeds MAX_PROTOCOL_FEE_BPS, which is 20%"
  let (s, _) ← s.syncRewardsInternal env none
  return .value { s with statistics := { s.statistics with protocolFeeBps := feeBps } } .empty

/-- `set_validator_public_key`.  The whole stake is moved to the new key by a
restake. -/
def setValidatorPublicKey (key : PublicKey) : Except String (Outcome H) := do
  env.requireAdmin
  env.assertOneYocto
  let (s, _) ← { s with validatorPublicKey := key }.syncRewardsInternal env none
  return .promise s [s.restakePromise host, onRestakeCall host]

/-- `add_full_access_key`. -/
def addFullAccessKey (key : PublicKey) : Except String (Outcome H) := do
  env.requireAdmin
  env.assertOneYocto
  return .promise s [⟨host.currentAccountId, [.addFullAccessKey key], none⟩]

/-- `force_release_lock`.  The escape hatch for a delivery whose callback never
came: it unlocks the claim, whether or not something was paid. -/
def forceReleaseLock (hash : H) : Except String (Outcome H) := do
  env.requireAdmin
  env.assertOneYocto
  let (q, released) := WithdrawalRequests.releaseLock s.withdrawalRequests hash
  return .value (s.withQueue q) (.json (if released then 4 else 5))

end LiquidStakingToken

/-- `#[payable]`. -/
def Method.isPayable {H : Type} : Method H → Bool
  | .stake _ | .ftTransfer .. | .ftTransferCall .. | .storageDeposit .. | .storageWithdraw _
  | .storageUnregister _ | .setProtocolFeeBps _ | .setValidatorPublicKey _
  | .addFullAccessKey _ | .forceReleaseLock _ => true
  | _ => false

section Dispatch

variable {H : Type} [DecidableEq H] (host : Host H)

/-- Run one method.

A deposit with a method that is not `payable` is refused before the method runs. -/
def callMethod (env : Env) (s : LiquidStakingToken H) (method : Method H) :
    Except String (Outcome H) := do
  require (method.isPayable = true ∨ env.attachedDeposit = 0) "Method doesn't accept deposit"
  match method with
  | .stake args => s.stake host env args
  | .ftOnTransfer senderId amount msg => s.ftOnTransfer host env senderId amount msg
  | .ftTransfer receiverId amount _ => s.ftTransfer env receiverId amount
  | .ftTransferCall receiverId amount _ msg => s.ftTransferCall host env receiverId amount msg
  | .withdraw args => s.withdraw host env args
  | .ping => s.ping host env
  | .storageDeposit accountId _ => s.storageDeposit host env accountId
  | .storageWithdraw amount => s.storageWithdraw host env amount
  | .storageUnregister force => s.storageUnregister host env force
  | .setProtocolFeeBps feeBps => s.setProtocolFeeBps env feeBps
  | .setValidatorPublicKey key => s.setValidatorPublicKey host env key
  | .addFullAccessKey key => s.addFullAccessKey host env key
  | .forceReleaseLock hash => s.forceReleaseLock env hash
  | .onNearWithdraw senderId amount args => s.onNearWithdraw host env senderId amount args
  | .modifyStateBeforeStake senderId receiverId stakeAmount depositAmount lstTokens =>
      s.modifyStateBeforeStake host env senderId receiverId stakeAmount depositAmount lstTokens
  | .restakeOrRefund senderId depositAmount stakeAmount lstAmount args depositToken =>
      s.restakeOrRefund host env
        { senderId, args, stakeAmount, lstTokens := lstAmount, depositToken, depositAmount }
  | .onRestakeOrRefund senderId stakeAmount lstAmount args depositToken =>
      s.onRestakeOrRefund host env senderId stakeAmount lstAmount args depositToken
  | .refundWnearDeposit depositAmount => s.refundWnearDeposit host env depositAmount
  | .onFtOnTransfer lstTokens args => s.onFtOnTransfer host env lstTokens args
  | .onUnstake lstAmount nearAmount hash trigger =>
      s.onUnstake host env lstAmount nearAmount hash trigger
  | .onWithdrawNative hash amount => s.onWithdrawNative host env hash amount
  | .onWithdrawWnear hash amountToSend cost storageToPay isCall =>
      s.onWithdrawWnear host env hash amountToSend cost storageToPay isCall
  | .onRestake => s.onRestake host env
  | .ftResolveTransfer senderId receiverId amount =>
      s.ftResolveTransfer host env senderId receiverId amount
  | .nearDeposit | .nearWithdraw _ => throw "MethodNotFound"

/-- Run one action of a receipt on the pool's account; only function calls touch
the contract state. -/
def runAction (env : Env) (input : Option PromiseResult) (s : LiquidStakingToken H) :
    Action H → Except String (Outcome H)
  | .call method deposit _ => callMethod host (env.forCall deposit input) s method
  | _ => .ok (.value s .empty)

/-- Run the actions of a receipt in order; the last one's result is handed on. -/
def runActions (env : Env) (input : Option PromiseResult) :
    List (Action H) → LiquidStakingToken H → Except String (Outcome H)
  | [], s => .ok (.value s .empty)
  | [a], s => runAction host env input s a
  | a :: as, s => do
      let first ← runAction host env input s a
      let rest ← runActions env input as first.state
      return { rest with detached := first.detached ++ rest.detached }

def Action.isCall {H : Type} : Action H → Bool
  | .call .. => true
  | _ => false

/-- The contract on the promise-chain machine.

A receipt runs here when it is for the pool's own account and has a function
call; a call from outside is a single function call by somebody else, with what
it attaches as its deposit; what the contract has scheduled runs with the pool
as predecessor. -/
def platform : Platform (LiquidStakingToken H) Env (Receipt H) Payload where
  execute env input receipt s := runActions host env input receipt.actions s
  isLocal receipt :=
    decide (receipt.receiver = host.currentAccountId) && receipt.actions.any Action.isCall
  accepts env receipt :=
    match receipt.actions with
    | [.call _ deposit _] =>
        decide (receipt.receiver = host.currentAccountId) &&
          decide (env.predecessorAccountId ≠ host.currentAccountId) &&
          decide (env.attachedDeposit = deposit)
    | _ => false
  resumes env := decide (env.predecessorAccountId = host.currentAccountId)
  exhausted env := env.gasExhausted
  clock env := env.epochHeight

abbrev PoolSystem (H : Type) := System (LiquidStakingToken H) Env (Receipt H) Payload
abbrev PoolChain (H : Type) := Chain (LiquidStakingToken H) Env (Receipt H) Payload
abbrev PoolExecution (H : Type) := Execution (LiquidStakingToken H) Env (Receipt H) Payload
abbrev PoolEvent (H : Type) := Event (LiquidStakingToken H) Env (Receipt H) Payload

/-- A contract that has just been initialized, next to a wNEAR contract on
another account.

`created` is the run of the initializer itself, so every property of the first
state comes from the code of `new`. -/
structure Deployment where
  env : Env
  ownerId : AccountId
  wnearId : AccountId
  treasuryId : AccountId
  validatorPublicKey : PublicKey
  state : LiquidStakingToken H
  created : LiquidStakingToken.new host env ownerId wnearId treasuryId validatorPublicKey =
    .ok state
  wnear_ne : wnearId ≠ host.currentAccountId

namespace Deployment

variable {host} (d : Deployment host)

/-- The system right after deployment. -/
def genesis : PoolSystem H := ⟨d.state, [], d.env.epochHeight⟩

/-- A run of the deployed contract. -/
abbrev Reaches (events : List (PoolEvent H)) (s : PoolSystem H) : Prop :=
  (platform host).Run d.genesis events s

/-- Replay a schedule from deployment. -/
def play (moves : List (Platform.Move Env (Receipt H) Payload)) :
    Option (List (PoolEvent H) × PoolSystem H) :=
  (platform host).replay d.genesis [] moves

/-- The events and the system a possible schedule leads to. -/
def played (moves : List (Platform.Move Env (Receipt H) Payload))
    (h : (d.play moves).isSome = true) : List (PoolEvent H) × PoolSystem H :=
  (d.play moves).get h

theorem played_reaches (moves : List (Platform.Move Env (Receipt H) Payload))
    (h : (d.play moves).isSome = true) : d.Reaches (d.played moves h).1 (d.played moves h).2 :=
  Platform.replay_run .start (Option.some_get h).symm

end Deployment

end Dispatch

/-! ## A sample deployment

A pool with a stake of 100 and 1000 yoctoNEAR of its own, and the schedules of
an unstake and of its withdrawal; later files replay them to show that what
their theorems assume can be met. -/

section Sample

/-- Messages are their own hashes; an unstake message names how to pay `bob`. -/
def sampleHost : Host UnstakeMessage where
  currentAccountId := "pool"
  hash := id
  parseStakeMessage _ := some ⟨"alice", none, none, false, none, none⟩
  parseUnstakeMessage msg :=
    if msg = "native" then some ⟨"bob", .native⟩
    else if msg = "wnear" then some ⟨"bob", .wnear false none none none⟩
    else none
  stakeMessageSize _ := 0
  storageBalanceMin := ftStorageDeposit

/-- A receipt of `predecessor` at `epoch` with `deposit` attached, while the
pool has `locked` and `liquid` NEAR. -/
def sampleEnv (locked liquid epoch : ℕ) (predecessor : AccountId) (deposit : ℕ) : Env where
  predecessorAccountId := predecessor
  attachedDeposit := deposit
  accountBalance := liquid
  accountLockedBalance := locked
  epochHeight := epoch
  prepaidGas := tgas 300
  usedGas := 0
  refundToAccountId := predecessor
  promiseResults := []
  paused _ := false
  isAdmin := false
  gasExhausted := false

def samplePool : Deployment sampleHost where
  env := sampleEnv 100 1000 0 "owner" 0
  ownerId := "owner"
  wnearId := "wnear"
  treasuryId := "treasury"
  validatorPublicKey := "key"
  state := ⟨⟨(∅ : Store AccountId ℕ).insert "pool" 0 |>.insert "treasury" 0
    |>.insert "treasury" 100, 100⟩, ∅, "owner", "wnear", "treasury", "key", ⟨1100, 100, 0, 0, 0, 1⟩⟩
  created := rfl
  wnear_ne := by decide

/-- The treasury unstakes 40 LST. -/
def sampleUnstake (msg : String) : List (Platform.Move Env (Receipt UnstakeMessage) Payload) :=
  let env := sampleEnv 100 1000 0 "pool" 0
  [.enter (sampleEnv 100 1000 0 "treasury" oneYocto)
      (.call "pool" (.ftTransferCall "pool" 40 none msg) oneYocto 0),
    .fire 0 env, .answer 0 env (.successful .empty), .fire 0 env, .fire 0 env]

/-- The withdrawal of that unstake, four epochs later, that ends with `r`. -/
def sampleWithdrawal (args : UnstakeMessage) (r : PromiseResult) :
    List (Platform.Move Env (Receipt UnstakeMessage) Payload) :=
  let env := sampleEnv 60 1040 4 "pool" 0
  [.enter (sampleEnv 60 1040 4 "bob" 0) (.call "pool" (.withdraw args) 0 0),
    .answer 1 env r, .fire 1 env]

/-- The treasury unstakes 40 LST, and `bob` receives them as wNEAR. -/
def samplePayout : List (Platform.Move Env (Receipt UnstakeMessage) Payload) :=
  sampleUnstake "wnear" ++
    sampleWithdrawal ⟨"bob", .wnear false none none none⟩ (.successful .empty)

end Sample

end LiquidStaking
