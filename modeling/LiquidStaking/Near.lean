import LiquidStaking.Lib.Checked
import LiquidStaking.Lib.PromiseChain

/-!
# The host: words, messages, receipts

What the contract code sees of the NEAR runtime, and the messages users send.

* `Env` — the values the `env::*` host calls return while a receipt runs.
* `Host` — what does not change: the contract's account, the hash of a message,
  the JSON parsers, the registration price of the token library.  The hash stays
  a parameter with values in an arbitrary type `H`; where the code relies on
  Keccak-256 keeping different messages apart, a theorem says so.
* `Method`, `Action`, `Receipt` — the calls the contract schedules, with the
  NEAR and the static gas attached to each.

Amounts of NEAR, of a token and of gas are natural numbers, in yocto units and
in gas units; the code's checked and saturating operations carry the word size.

A promise result is recorded by what the code observes of its bytes: their
length, and the number they parse to as a JSON `U128`.
-/

namespace LiquidStaking

open Checked

/-- The contract's code only sees strings that are account names; the model
takes any string for one. -/
abbrev AccountId := String
abbrev PublicKey := String

/-- `Gas::from_tgas`. -/
def tgas (n : ℕ) : ℕ := n * 10 ^ 12

/-- `Gas::saturating_add`. -/
def Gas.satAdd (a b : ℕ) : ℕ := saturatingAdd 64 a b

/-- `NearToken::saturating_add`. -/
def NearToken.satAdd (a b : ℕ) : ℕ := saturatingAdd 128 a b

/-- The smallest deposit; attaching it shows that the call was signed with a
full access key. -/
def oneYocto : ℕ := 1

/-- `FT_STORAGE_DEPOSIT`: 1250 micro-NEAR. -/
def ftStorageDeposit : ℕ := 1250 * 10 ^ 18

/-! ## Messages

The JSON messages attached to transfers, after parsing.  A field with a serde
default is the default when the text leaves it out. -/

/-- Which token a withdrawal pays out, and how.  A wNEAR payout is a plain
transfer, or a transfer call when there is a `msg`. -/
inductive WithdrawTokens where
  /-- A transfer of NEAR. -/
  | native
  /-- NEAR is wrapped first; with `isStorageDeposit` the registration of the
  receiver with wNEAR is paid out of the amount. -/
  | wnear (isStorageDeposit : Bool) (msg memo : Option String) (minGas : Option ℕ)
  deriving DecidableEq, Repr

/-- The message of an unstake; its hash is the key of the withdrawal queue.

Two unstakes with the same message share one entry, whoever sent them: the
message names the receiver, not the sender. -/
structure UnstakeMessage where
  receiverId : AccountId
  withdrawTokens : WithdrawTokens
  deriving DecidableEq, Repr

/-- The message of a stake.  `refundMessage` is where the LST go if their
receiver refuses them: they are unstaked again under that message. -/
structure StakeMessage where
  receiverId : AccountId
  msg : Option String
  memo : Option String
  isStorageDeposit : Bool
  minGas : Option ℕ
  refundMessage : Option UnstakeMessage
  deriving DecidableEq, Repr

/-- How a deposit came in, and so how it goes back. -/
inductive DepositToken where
  | native
  | wnear
  deriving DecidableEq, Repr

/-- Who asked for an unstake: a holder, or the contract itself for a refused
stake. -/
inductive UnstakeTrigger where
  | userRequest
  | refundByContract
  deriving DecidableEq, Repr

/-! ## Promise results

The host hands a callback the result of the receipt it waited for, and refuses
one that is longer than the callback allows. -/

/-- What the code observes of a successful result: its length in bytes, and its
value as a JSON `U128`, when it has one.

Nothing else of the bytes matters: a callback asks whether the result fits a
length, and a resolver parses a number. -/
structure Payload where
  length : ℕ
  u128 : Option ℕ
  deriving DecidableEq, Repr

/-- The result of a call that returns nothing. -/
def Payload.empty : Payload := ⟨0, none⟩

/-- A `U128` in JSON: a quoted decimal. -/
def Payload.ofU128 (n : ℕ) : Payload := ⟨(Nat.toDigits 10 n).length + 2, some n⟩

/-- `MAX_RESULT_LENGTH`, in the pool and in the token library: the longest
`u128`, with a sign and quoted. -/
def maxResultLength : ℕ := 42

/-- The result of a view-like call whose value nobody parses. -/
def Payload.json (length : ℕ) : Payload := ⟨length, none⟩

abbrev PromiseResult := PromiseChain.PromiseResult Payload

/-- Why `promise_result_checked` gives no bytes. -/
inductive PromiseError where
  | failed
  | tooLong (length : ℕ)
  | notReady
  deriving DecidableEq, Repr

/-! ## Receipts

What the contract schedules.  The static gas is kept with each call, since the
contract adds it up to decide how much a caller has to attach. -/

/-- The calls between the contract, the wNEAR contract and the receivers: method
name and arguments.

The methods from `onNearWithdraw` to `ftResolveTransfer` are callbacks of the
contract; `nearDeposit` and `nearWithdraw` run on the wNEAR contract. -/
inductive Method (H : Type) where
  | stake (args : StakeMessage)
  | ftOnTransfer (senderId : AccountId) (amount : ℕ) (msg : String)
  | ftTransfer (receiverId : AccountId) (amount : ℕ) (memo : Option String)
  | ftTransferCall (receiverId : AccountId) (amount : ℕ) (memo : Option String)
      (msg : String)
  | withdraw (args : UnstakeMessage)
  | ping
  | storageDeposit (accountId : Option AccountId) (registrationOnly : Option Bool)
  | storageWithdraw (amount : Option ℕ)
  | storageUnregister (force : Option Bool)
  | setProtocolFeeBps (feeBps : ℕ)
  | setValidatorPublicKey (key : PublicKey)
  | addFullAccessKey (key : PublicKey)
  | forceReleaseLock (hash : H)
  | onNearWithdraw (senderId : AccountId) (amount : ℕ) (args : StakeMessage)
  | modifyStateBeforeStake (senderId receiverId : AccountId)
      (stakeAmount depositAmount lstTokens : ℕ)
  | restakeOrRefund (senderId : AccountId) (depositAmount stakeAmount lstAmount : ℕ)
      (args : StakeMessage) (depositToken : DepositToken)
  | onRestakeOrRefund (senderId : AccountId) (stakeAmount lstAmount : ℕ)
      (args : StakeMessage) (depositToken : DepositToken)
  | refundWnearDeposit (depositAmount : ℕ)
  | onFtOnTransfer (lstTokens : ℕ) (args : StakeMessage)
  | onUnstake (lstAmount nearAmount : ℕ) (hash : H) (trigger : UnstakeTrigger)
  | onWithdrawNative (hash : H) (amount : ℕ)
  | onWithdrawWnear (hash : H) (amountToSend amountToNearDeposit storageToPay : ℕ)
      (isCall : Bool)
  | onRestake
  | ftResolveTransfer (senderId receiverId : AccountId) (amount : ℕ)
  | nearDeposit
  | nearWithdraw (amount : ℕ)
  deriving DecidableEq, Repr

/-- One action of a receipt.  A call carries its deposit and its static gas. -/
inductive Action (H : Type) where
  | transfer (amount : ℕ)
  | stake (amount : ℕ) (key : PublicKey)
  | addFullAccessKey (key : PublicKey)
  | call (method : Method H) (deposit : ℕ) (gas : ℕ)
  deriving DecidableEq, Repr

/-- A batch of actions on one account; it commits or fails as a whole.  The
NEAR of a failed batch goes back to `refundTo`, by default to the sender. -/
structure Receipt (H : Type) where
  receiver : AccountId
  actions : List (Action H)
  refundTo : Option AccountId
  deriving DecidableEq, Repr

/-- A receipt of a single function call. -/
def Receipt.call {H : Type} (receiver : AccountId) (method : Method H)
    (deposit : ℕ) (gas : ℕ) : Receipt H :=
  ⟨receiver, [.call method deposit gas], none⟩

/-- `Promise::new(receiver).transfer(amount)`. -/
def Receipt.pay {H : Type} (receiver : AccountId) (amount : ℕ) : Receipt H :=
  ⟨receiver, [.transfer amount], none⟩

abbrev Return (H : Type) := PromiseChain.Return (Receipt H) Payload

/-! ## The execution environment

The host's answers as data.  The access-control and pause plugins appear as what
they decide: whether the caller is an admin, and which features are paused. -/

/-- The methods `near_plugins` can pause. -/
inductive Feature where
  | stake
  | withdraw
  | ping
  | ftTransfer
  | ftTransferCall
  | ftOnTransfer
  deriving DecidableEq, Repr

/-- What the host calls of one receipt return.

Nothing ties the environments of different receipts to each other but the epoch,
which does not fall: balances and gas are whatever the host reports. -/
structure Env where
  predecessorAccountId : AccountId
  attachedDeposit : ℕ
  accountBalance : ℕ
  accountLockedBalance : ℕ
  epochHeight : ℕ
  prepaidGas : ℕ
  usedGas : ℕ
  refundToAccountId : AccountId
  /-- The results of the receipts this one waited for; the contract's callbacks
  wait for one. -/
  promiseResults : List PromiseResult
  /-- The features paused at the moment. -/
  paused : Feature → Bool
  /-- The predecessor holds the `Admin` role. -/
  isAdmin : Bool
  /-- The receipt runs out of gas. -/
  gasExhausted : Bool

/-- What stays fixed over the life of a deployment.

The parsers are partial functions on strings, so a message that does not parse
is covered; the hash is arbitrary. -/
structure Host (H : Type) where
  currentAccountId : AccountId
  /-- `UnstakeMessage::hash`. -/
  hash : UnstakeMessage → H
  parseStakeMessage : String → Option StakeMessage
  parseUnstakeMessage : String → Option UnstakeMessage
  /-- The length of the JSON serialization. -/
  stakeMessageSize : StakeMessage → ℕ
  /-- `storage_balance_bounds().min` of the token library. -/
  storageBalanceMin : ℕ

/-- The environment of one function call in a receipt: its own deposit, and the
result the receipt waited for. -/
def Env.forCall (env : Env) (deposit : ℕ) (input : Option PromiseResult) : Env :=
  { env with attachedDeposit := deposit, promiseResults := input.toList }

/-- `env::promise_result_checked(0, max_len)`.  Where no receipt was awaited at
all the host aborts the call instead of returning an error; a callback of the
contract always runs behind another receipt, so that the first branch is not
taken in a run. -/
def Env.promiseResultChecked (env : Env) (maxLen : ℕ) : Except PromiseError Payload :=
  match env.promiseResults with
  | [] => .error .notReady
  | .failed :: _ => .error .failed
  | .successful v :: _ => if v.length ≤ maxLen then .ok v else .error (.tooLong v.length)

/-- `env::promise_result_checked(0, 0).is_ok()`: the awaited call succeeded and
returned nothing. -/
def Env.promiseSucceeded (env : Env) : Bool :=
  match env.promiseResultChecked 0 with
  | .ok _ => true
  | .error _ => false

/-- `#[pause]`. -/
def Env.requireNotPaused (env : Env) (feature : Feature) : Except String Unit :=
  require (env.paused feature = false) "Pausable: Method is paused"

/-- `#[private]`. -/
def Env.requirePrivate (env : Env) (current : AccountId) : Except String Unit :=
  require (env.predecessorAccountId = current) "Method is private"

/-- `assert_one_yocto`. -/
def Env.assertOneYocto (env : Env) : Except String Unit :=
  require (env.attachedDeposit = oneYocto)
    "Requires attached deposit of exactly 1 yoctoNEAR"

/-- `assert_gas`. -/
def Env.assertGas (env : Env) (required : ℕ) : Except String Unit :=
  require (required ≤ env.prepaidGas - env.usedGas)
    "Insufficient prepaid gas for the complete operation"

/-- `#[access_control_any(roles(Role::Admin))]`. -/
def Env.requireAdmin (env : Env) : Except String Unit :=
  require (env.isAdmin = true) "Insufficient permissions for method"

end LiquidStaking
