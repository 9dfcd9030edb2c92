import LiquidStaking.Contract
import LiquidStaking.Queue

/-!
# The phases of a promise chain

Every chain the contract starts is, at any moment, in one of some twenty phases:
a `Phase` names the receipts still to run together with the data they carry.
`Describes` says that a chain is in a phase; the chain's tasks and waiting input
are exactly those of the phase, and an attempt to deliver a withdrawal is the
one recorded where the chain began.

A phase ending in *-ing* waits for a receipt that runs elsewhere (or, for
`batching` and a `sending` to the pool itself, here), a phase ending in *-ed*
for the callback that reads its result.  `Phase.settle` is where a chain goes
when its next receipt ends with a result; `Describes.settle` says that every
value, every answer from outside and every panic leads there.

Two things hang on behind an unstake or a transfer call: the resolver of
`ft_transfer_call`, and the callback of a stake's own notification.  They are a
`Continuation`.
-/

namespace LiquidStaking

open Checked PromiseChain

/-- The awaited call succeeded and returned nothing: what
`promise_result_checked(0, 0).is_ok()` observes.

A call that succeeded with a value is taken for a failure by these callbacks;
the calls they wait for return none. -/
def resultOk : PromiseResult → Bool
  | .successful v => decide (v.length ≤ 0)
  | .failed => false

/-- An unstake in flight.  Its NEAR amount is what the LST were worth when it
was started. -/
structure UnstakeOrder (H : Type) where
  lstAmount : ℕ
  nearAmount : ℕ
  hash : H
  trigger : UnstakeTrigger
  deriving DecidableEq, Repr

/-- One attempt to deliver a withdrawal: the message, and the tranche locked for
it.

The definitions below are what `withdraw_wnear` computes from the two.  Its
callback is told some of these amounts and reads the others from the tranche,
which is locked and so has not changed. -/
structure Attempt where
  args : UnstakeMessage
  tranche : Tranche
  deriving DecidableEq, Repr

namespace Attempt

variable {H : Type} (host : Host H) (a : Attempt)

def hash : H := host.hash a.args

def isSelf : Bool := decide (a.args.receiverId = host.currentAccountId)

/-- The message asks for a registration on the wNEAR contract. -/
def asksStorage : Bool :=
  match a.args.withdrawTokens with
  | .native => false
  | .wnear isStorageDeposit _ _ _ => isStorageDeposit

def msg : Option String :=
  match a.args.withdrawTokens with
  | .native => none
  | .wnear _ msg _ _ => msg

def memo : Option String :=
  match a.args.withdrawTokens with
  | .native => none
  | .wnear _ _ memo _ => memo

def minGas : Option ℕ :=
  match a.args.withdrawTokens with
  | .native => none
  | .wnear _ _ _ minGas => minGas

/-- The registration paid with this attempt.

It is paid once for a tranche: a settlement of an earlier attempt keeps the
flag. -/
def storageToPay : ℕ :=
  if !a.tranche.storageWasPaid && a.asksStorage then ftStorageDeposit else 0

/-- The wNEAR sent with this attempt. -/
def amountToSend : ℕ := a.tranche.withdrawalAmount - a.storageToPay

/-- The NEAR wrapped for this attempt.

What an earlier attempt wrapped and got back is the residual, and is used first. -/
def amountToNearDeposit : ℕ := a.amountToSend - a.tranche.wnearResidual

def isCall : Bool := !a.isSelf host && a.msg.isSome

/-- What the attempt spends apart from the registration: the wrapped NEAR and,
to an external receiver, the yocto attached to the transfer. -/
def cost : ℕ :=
  NearToken.satAdd a.amountToNearDeposit (if a.isSelf host then 0 else oneYocto)

/-- The batch on the wNEAR contract. -/
def batch (wnear : AccountId) : Receipt H :=
  ⟨wnear, LiquidStakingToken.deliveryActions a.args.receiverId (a.isSelf host)
    a.amountToNearDeposit a.storageToPay a.amountToSend a.msg a.memo
    (calculateMinGas a.minGas (a.isCall host)), none⟩

/-- Nothing in the amounts of the attempt is cut off. -/
structure Fits : Prop where
  /-- The price of the registration can be paid out of the claim. -/
  storage_le : a.storageToPay ≤ a.tranche.withdrawalAmount
  /-- No more wNEAR is left of an earlier attempt than is sent now. -/
  residual_le : a.tranche.wnearResidual ≤ a.amountToSend
  /-- The pool itself is not registered with wNEAR by a delivery. -/
  self_storage : a.isSelf host = true → a.asksStorage = false

/-- What is sent and what is paid for the registration add up to the tranche. -/
theorem Fits.amount_eq {host : Host H} {a : Attempt} (h : a.Fits host) :
    a.amountToSend + a.storageToPay = a.tranche.withdrawalAmount :=
  Nat.sub_add_cancel h.storage_le

end Attempt

/-- What waits behind an unstake or a transfer call. -/
inductive Continuation where
  /-- Nothing: the chain ends there. -/
  | finish
  /-- The resolver of an `ft_transfer_call`. -/
  | resolve (senderId receiverId : AccountId) (amount : ℕ)
  /-- The callback of a stake's own notification. -/
  | notify (lstTokens : ℕ) (args : StakeMessage)
  deriving DecidableEq, Repr

namespace Continuation

variable {H : Type} (host : Host H)

/-- The receipts of a continuation. -/
def tasks : Continuation → List (Receipt H)
  | .finish => []
  | .resolve senderId receiverId amount =>
      [.call host.currentAccountId (.ftResolveTransfer senderId receiverId amount) 0
        ftResolveTransferGas]
  | .notify lstTokens args =>
      [.call host.currentAccountId (.onFtOnTransfer lstTokens args) 0 onFtOnTransferGas]

/-- The continuation waits for the outcome of sending `amount` to `receiver`. -/
def Awaits (receiver : AccountId) (amount : ℕ) : Continuation → Prop
  | .finish => False
  | .resolve senderId receiverId n =>
      receiverId = receiver ∧ n = amount ∧ senderId ≠ host.currentAccountId
  | .notify n args => args.receiverId = receiver ∧ n = amount

/-- What can be said of a continuation on its own. -/
def Valid : Continuation → Prop
  | .finish => True
  | .resolve senderId _ amount => senderId ≠ host.currentAccountId ∧ 0 < amount
  | .notify lstTokens _ => 0 < lstTokens

end Continuation

/-- The phases of a chain.

A chain begins in the phase that its first receipt leads to.  They stand roughly
in the order of a stake, a transfer call, an unstake, a withdrawal, a ping, and
the calls of the operators. -/
inductive Phase (H : Type) where
  /-- The chain is done, or its continuation is all that is left. -/
  | continuing (k : Continuation) (r : PromiseResult)
  /-- wNEAR has arrived and is booked, and waits to be unwrapped. -/
  | unwrapping (senderId : AccountId) (amount : ℕ) (args : StakeMessage)
  /-- The unwrapping has ended; `on_near_withdraw` comes next. -/
  | unwrapped (senderId : AccountId) (amount : ℕ) (args : StakeMessage) (r : PromiseResult)
  /-- A stake is quoted, and its batch is about to register and to mint. -/
  | batching (o : StakeOrder) (refundTo : Option AccountId)
  /-- The batch has ended; `restake_or_refund` comes next. -/
  | batched (o : StakeOrder) (r : PromiseResult)
  /-- The LST are minted to the pool's account, and wait for the validator
  action. -/
  | restaking (m : MintedStake) (amount : ℕ) (key : PublicKey)
  /-- The validator action has ended; `on_restake_or_refund` comes next. -/
  | restaked (m : MintedStake) (r : PromiseResult)
  /-- A deposit in wNEAR is to be given back, and its NEAR is wrapped again. -/
  | rewrapping (amount : ℕ)
  /-- The wrapping has ended; `refund_wnear_deposit` comes next. -/
  | rewrapped (amount : ℕ) (r : PromiseResult)
  /-- NEAR is on its way to an account: a refund, or what a registration left
  over. -/
  | paying (receiver : AccountId) (amount : ℕ)
  /-- A receiver is told of LST that were sent to it. -/
  | sending (receiver senderId : AccountId) (amount : ℕ) (msg : String) (gas : ℕ)
      (k : Continuation)
  /-- The LST are burned, and wait for the validator action. -/
  | unstaking (u : UnstakeOrder H) (amount : ℕ) (key : PublicKey) (k : Continuation)
  /-- The validator action has ended; `on_unstake` comes next. -/
  | unstaked (u : UnstakeOrder H) (k : Continuation) (r : PromiseResult)
  /-- A tranche is locked, and its NEAR is on the way. -/
  | deliveringNative (a : Attempt)
  /-- The payment has ended; `on_withdraw_native` comes next. -/
  | deliveredNative (a : Attempt) (r : PromiseResult)
  /-- A tranche is locked, and its batch on wNEAR is on the way. -/
  | deliveringWnear (a : Attempt)
  /-- The batch has ended; `on_withdraw_wnear` comes next. -/
  | deliveredWnear (a : Attempt) (r : PromiseResult)
  /-- The validator action of a ping, or of a new validator key. -/
  | pinging (amount : ℕ) (key : PublicKey)
  /-- It has ended; `on_restake` comes next. -/
  | pinged (r : PromiseResult)
  /-- It has failed, and everything is unstaked. -/
  | stopping (key : PublicKey)
  /-- A full access key is added to the account. -/
  | addingKey (key : PublicKey)

namespace Phase

variable {H : Type} (host : Host H) (wnear : AccountId)

/-- The receipts still to run.

Each phase names the receipts of its own; a phase with a continuation ends with
those of the continuation. -/
def tasks : Phase H → List (Receipt H)
  | continuing k _ => k.tasks host
  | unwrapping senderId amount args =>
      [.call wnear (.nearWithdraw amount) oneYocto nearWithdrawGas,
        .call host.currentAccountId (.onNearWithdraw senderId amount args) 0 (stakeGas args)]
  | unwrapped senderId amount args _ =>
      [.call host.currentAccountId (.onNearWithdraw senderId amount args) 0 (stakeGas args)]
  | batching o refundTo => [o.batch host refundTo, o.restakeCall host]
  | batched o _ => [o.restakeCall host]
  | restaking m amount key =>
      [⟨host.currentAccountId, [.stake amount key], none⟩, m.settleCall host]
  | restaked m _ => [m.settleCall host]
  | rewrapping amount =>
      [.call wnear .nearDeposit amount nearDepositGas,
        .call host.currentAccountId (.refundWnearDeposit amount) 0 refundWnearDepositGas]
  | rewrapped amount _ =>
      [.call host.currentAccountId (.refundWnearDeposit amount) 0 refundWnearDepositGas]
  | paying receiver amount => [.pay receiver amount]
  | sending receiver senderId amount msg gas k =>
      .call receiver (.ftOnTransfer senderId amount msg) 0 gas :: k.tasks host
  | unstaking u amount key k =>
      ⟨host.currentAccountId, [.stake amount key], none⟩ ::
        LiquidStakingToken.onUnstakeCall host u.lstAmount u.nearAmount u.hash u.trigger ::
          k.tasks host
  | unstaked u k _ =>
      LiquidStakingToken.onUnstakeCall host u.lstAmount u.nearAmount u.hash u.trigger ::
        k.tasks host
  | deliveringNative a =>
      LiquidStakingToken.withdrawNative host a.args.receiverId a.tranche.withdrawalAmount
        (a.hash host)
  | deliveredNative a _ =>
      [.call host.currentAccountId (.onWithdrawNative (a.hash host) a.tranche.withdrawalAmount) 0
        onWithdrawNativeGas]
  | deliveringWnear a =>
      [a.batch host wnear, LiquidStakingToken.onWithdrawWnearCall host (a.hash host)
        a.amountToSend (a.cost host) a.storageToPay (a.isCall host)]
  | deliveredWnear a _ =>
      [LiquidStakingToken.onWithdrawWnearCall host (a.hash host) a.amountToSend (a.cost host)
        a.storageToPay (a.isCall host)]
  | pinging amount key =>
      [⟨host.currentAccountId, [.stake amount key], none⟩, LiquidStakingToken.onRestakeCall host]
  | pinged _ => [LiquidStakingToken.onRestakeCall host]
  | stopping key => [⟨host.currentAccountId, [.stake 0 key], none⟩]
  | addingKey key => [⟨host.currentAccountId, [.addFullAccessKey key], none⟩]

/-- The result waiting for the next receipt. -/
def input : Phase H → Option PromiseResult
  | continuing _ r | unwrapped _ _ _ r | batched _ r | restaked _ r | rewrapped _ r
  | unstaked _ _ r | deliveredNative _ r | deliveredWnear _ r | pinged r => some r
  | _ => none

/-- The delivery attempt a chain is settling.

The four phases of a delivery are the only ones in which a tranche is locked on
behalf of a chain. -/
def attempt : Phase H → Option Attempt
  | deliveringNative a | deliveredNative a _ | deliveringWnear a | deliveredWnear a _ => some a
  | _ => none

/-- Where the chain goes when its next receipt ends with `r`.

A value, an answer from outside and a panic lead to the same phase: callbacks
run whatever the result is. -/
def settle (r : PromiseResult) : Phase H → Phase H
  | continuing _ _ => continuing .finish r
  | unwrapping senderId amount args => unwrapped senderId amount args r
  | unwrapped _ _ _ _ => continuing .finish r
  | batching o _ => batched o r
  | batched _ _ => continuing .finish r
  | restaking m _ _ => restaked m r
  | restaked _ _ => continuing .finish r
  | rewrapping amount => rewrapped amount r
  | rewrapped _ _ => continuing .finish r
  | paying _ _ => continuing .finish r
  | sending _ _ _ _ _ k => continuing k r
  | unstaking u _ _ k => unstaked u k r
  | unstaked _ k _ => continuing k r
  | deliveringNative a => deliveredNative a r
  | deliveredNative _ _ => continuing .finish r
  | deliveringWnear a => deliveredWnear a r
  | deliveredWnear _ _ => continuing .finish r
  | pinging _ _ => pinged r
  | pinged _ => continuing .finish r
  | stopping _ => continuing .finish r
  | addingKey _ => continuing .finish r

end Phase

/-- The quote of a stake adds up. -/
structure StakeOrder.Valid {H : Type} (host : Host H) (o : StakeOrder) : Prop where
  deposit_eq : o.depositAmount =
    o.stakeAmount + if o.args.isStorageDeposit then ftStorageDeposit else 0
  stake_pos : 0 < o.stakeAmount
  lst_pos : 0 < o.lstTokens
  /-- A call from outside does not come from the pool. -/
  sender_ne : o.depositToken = .native → o.senderId ≠ host.currentAccountId

/-- The part of a quote that outlives the mint. -/
structure MintedStake.Valid {H : Type} (host : Host H) (m : MintedStake) : Prop where
  stake_pos : 0 < m.stakeAmount
  lst_pos : 0 < m.lstTokens
  sender_ne : m.depositToken = .native → m.senderId ≠ host.currentAccountId

/-- A quote that adds up leaves a mint that does. -/
theorem StakeOrder.Valid.minted {H : Type} {host : Host H} {o : StakeOrder}
    (h : o.Valid host) : o.toMintedStake.Valid host :=
  ⟨h.stake_pos, h.lst_pos, h.sender_ne⟩

/-- An unstake fits what waits for it: a user's unstake burns the whole
transfer, the refund of a stake has nothing behind it. -/
structure UnstakeOrder.Valid {H : Type} (host : Host H) (u : UnstakeOrder H)
    (k : Continuation) : Prop where
  lst_pos : 0 < u.lstAmount
  near_pos : 0 < u.nearAmount
  trigger : (u.trigger = .userRequest ∧ k.Awaits host host.currentAccountId u.lstAmount) ∨
    (u.trigger = .refundByContract ∧ k = .finish)

/-- What holds of the data in each phase.

All of it was checked by the receipt that scheduled the rest, so a callback may
rely on it. -/
def Phase.Valid {H : Type} (host : Host H) : Phase H → Prop
  | .continuing k _ => k.Valid host
  | .batching o _ | .batched o _ => o.Valid host
  | .restaking m _ _ | .restaked m _ => m.Valid host
  | .sending receiver _ amount _ _ k => k.Awaits host receiver amount ∧ 0 < amount
  | .unstaking u _ _ k | .unstaked u k _ => u.Valid host k
  | .deliveringNative a | .deliveredNative a _ => a.args.withdrawTokens = .native
  | .deliveringWnear a | .deliveredWnear a _ =>
      a.args.withdrawTokens ≠ .native ∧ a.Fits host
  | _ => True

section Settle

variable {H : Type} {host : Host H} {wnear : AccountId}

/-- A continuation that awaits a transfer is valid. -/
theorem Continuation.Awaits.valid {k : Continuation} {receiver : AccountId} {amount : ℕ}
    (h : k.Awaits host receiver amount) (hpos : 0 < amount) : k.Valid host := by
  cases k with
  | finish => exact h.elim
  | resolve senderId receiverId n => exact ⟨h.2.2, h.2.1 ▸ hpos⟩
  | notify n args => exact h.2 ▸ hpos

/-- The phase a chain settles into is as valid as the one it leaves. -/
theorem Phase.Valid.settle {p : Phase H} (h : p.Valid host) (r : PromiseResult) :
    (p.settle r).Valid host := by
  cases p with
  | sending receiver senderId amount msg gas k => exact h.1.valid h.2
  | unstaked u k r' =>
      rcases h.trigger with ⟨-, hk⟩ | ⟨-, rfl⟩
      · exact hk.valid h.lst_pos
      · trivial
  | _ => first | exact h | trivial

/-- The first receipt of a phase gone, the tasks are those of the phase it
settles into.

This and the next lemma are all that is needed of the definition of `settle`. -/
theorem Phase.tasks_settle (p : Phase H) (r : PromiseResult) :
    (p.settle r).tasks host wnear = (p.tasks host wnear).tail := by
  cases p with
  | continuing k r' => cases k <;> rfl
  | _ => rfl

/-- The result is what waits for the next receipt. -/
theorem Phase.input_settle (p : Phase H) (r : PromiseResult) : (p.settle r).input = some r := by
  cases p <;> rfl

/-- Settling does not start an attempt. -/
theorem Phase.attempt_settle {p : Phase H} {r : PromiseResult} {a : Attempt}
    (h : (p.settle r).attempt = some a) : p.attempt = some a := by
  cases p <;> first | exact h | cases h

end Settle

section Describes

variable {H : Type} [DecidableEq H] (host : Host H) (wnear : AccountId)

/-- The delivery attempt a chain began with: its first receipt was a `withdraw`,
and left a locked tranche under the hash of its message.

So the attempt is read off the trace, and stays the same however long the chain
runs. -/
def attemptOf (trace : List (PoolExecution H)) : Option Attempt :=
  match trace.getLast? with
  | some e =>
      match e.task.actions with
      | [.call (.withdraw args) _ _] =>
          ((WithdrawalRequests.locksAt e.after.withdrawalRequests (host.hash args)).head?).map
            fun tranche => ⟨args, tranche⟩
      | _ => none
  | none => none

/-- The chain is in the phase. -/
structure Describes (c : PoolChain H) (p : Phase H) : Prop where
  /-- The receipts still to run are those of the phase. -/
  tasks_eq : c.tasks = p.tasks host wnear
  /-- So is the result that waits for them. -/
  input_eq : c.input = p.input
  /-- An attempt of the phase is the one the chain began with. -/
  attempt_eq : ∀ a, p.attempt = some a → attemptOf host c.trace = some a
  /-- The data of the phase add up. -/
  valid : p.Valid host

variable {host wnear}

/-- A chain keeps the attempt it began with. -/
theorem attemptOf_cons {e : PoolExecution H} {trace : List (PoolExecution H)} {a : Attempt}
    (h : attemptOf host trace = some a) : attemptOf host (e :: trace) = some a := by
  unfold attemptOf at h ⊢
  cases trace with
  | nil => simp at h
  | cons e' trace => rwa [List.getLast?_cons_cons]

/-- **A chain settles** where its phase says, whatever ended its receipt.

Only the data of the phase are inspected; the state of the contract does not
matter. -/
theorem Describes.settle {c c' : PoolChain H} {p : Phase H} {e : PoolExecution H}
    {r : PromiseResult} (h : Describes host wnear c p) (htasks : c'.tasks = c.tasks.tail)
    (hinput : c'.input = some r) (htrace : c'.trace = e :: c.trace) :
    Describes host wnear c' (p.settle r) where
  tasks_eq := by rw [htasks, h.tasks_eq, p.tasks_settle]
  input_eq := by rw [hinput, p.input_settle]
  attempt_eq a ha := by
    rw [htrace]
    exact attemptOf_cons (h.attempt_eq a (Phase.attempt_settle ha))
  valid := h.valid.settle r

end Describes

end LiquidStaking
