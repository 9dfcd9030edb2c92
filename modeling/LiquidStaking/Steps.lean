import LiquidStaking.Phase

/-!
# What each receipt does

`Entry` lists what a call from outside can do to the contract, and `Advance`
what a callback can do to it: one constructor for each way a method commits,
with the checks it passed and the state it leaves.  They are the transition
system of the protocol, read off the code once; everything later is proved by
going through their constructors.

The theorems of this file go from the code to these constructors, one for each
method.  `LiquidStaking.Reachable` puts them together into a single statement
about the executions of a run.

## How the two relations are written

* **A constructor is a committed path.**  A path of the source that panics has
  no constructor; it leaves the state as it was, and `Reachable` deals with all
  of them at once.  A path that returns an error and goes on
  (`stake_and_deposit` in a callback) has one.
* **The state afterwards is named.**  `StakeOrder.mint`, `MintedStake.rollback`
  and the other definitions of the first section are what a method does to the
  books, without its checks.  Their fields are simp lemmas, so that an invariant
  is proved field by field.
* **The checks are fields.**  What the source requires, or what its checked sums
  and differences require, is a field of the constructor with a name of its own.
  Some are never used as such; they say under which circumstances the path is
  taken.
* **A sync is a relation.**  `Synced` says what `sync_rewards_internal` may do
  to a state, so that the paths with a sync in them differ in what follows it
  only.
-/

namespace LiquidStaking

open Checked PromiseChain

section Updates

variable {H : Type} (host : Host H)

/-- The state after a stake was minted: the deposit is booked, unless the pool
stakes for itself or wNEAR has brought it (then it was booked on arrival), the
stake is raised, and the LST are credited to the pool, which keeps them until
the validator action is decided. -/
@[simps! token withdrawalRequests wnearId treasuryId validatorPublicKey
  statistics_latestTotalBalance statistics_totalStakedAmount statistics_totalPendingWithdrawals
  statistics_protocolFeeBps statistics_lastEpochSynced statistics_numDelegators]
def StakeOrder.mint (o : StakeOrder) (s : LiquidStakingToken H) : LiquidStakingToken H :=
  ((s.addBalance (if o.senderId = host.currentAccountId then 0 else o.amountToBook)).addStake
    o.stakeAmount).credit host.currentAccountId o.lstTokens

/-- The books have room for a mint. -/
structure StakeOrder.MintFits (o : StakeOrder) (s : LiquidStakingToken H) : Prop where
  stake : s.statistics.totalStakedAmount + o.stakeAmount < 2 ^ 128
  supply : s.token.totalSupply + o.lstTokens < 2 ^ 128

/-- The state after a stake was taken back: its LST are burned, the stake is
lowered, and its NEAR is booked out, whether the mint has booked it or it was
booked when the wNEAR arrived. -/
@[simps! token withdrawalRequests wnearId treasuryId validatorPublicKey
  statistics_latestTotalBalance statistics_totalStakedAmount statistics_totalPendingWithdrawals
  statistics_protocolFeeBps statistics_lastEpochSynced statistics_numDelegators]
def MintedStake.rollback (m : MintedStake) (s : LiquidStakingToken H) : LiquidStakingToken H :=
  ((s.debit host.currentAccountId m.lstTokens).subStake m.stakeAmount).subBalance
    (if m.senderId = host.currentAccountId then 0 else m.stakeAmount)

/-- The state after the minted LST went to the receiver. -/
@[simps! token withdrawalRequests wnearId treasuryId validatorPublicKey
  statistics_latestTotalBalance statistics_totalStakedAmount statistics_totalPendingWithdrawals
  statistics_protocolFeeBps statistics_lastEpochSynced statistics_numDelegators]
def MintedStake.handOver (m : MintedStake) (s : LiquidStakingToken H) : LiquidStakingToken H :=
  (s.debit host.currentAccountId m.lstTokens).credit m.args.receiverId m.lstTokens

/-- The state after the LST of an unstake was burned.  The LST are on the pool's
account by then, which is where `ft_transfer_call` has sent them. -/
@[simps! token withdrawalRequests wnearId treasuryId validatorPublicKey
  statistics_latestTotalBalance statistics_totalStakedAmount statistics_totalPendingWithdrawals
  statistics_protocolFeeBps statistics_lastEpochSynced statistics_numDelegators]
def UnstakeOrder.burn (u : UnstakeOrder H) (s : LiquidStakingToken H) : LiquidStakingToken H :=
  (s.subStake u.nearAmount).debit host.currentAccountId u.lstAmount

/-- The state after an unstake was taken back.  The LST are minted to the pool
again; it is for the resolver of the transfer to send them back. -/
@[simps! token withdrawalRequests wnearId treasuryId validatorPublicKey
  statistics_latestTotalBalance statistics_totalStakedAmount statistics_totalPendingWithdrawals
  statistics_protocolFeeBps statistics_lastEpochSynced statistics_numDelegators]
def UnstakeOrder.undo (u : UnstakeOrder H) (s : LiquidStakingToken H) : LiquidStakingToken H :=
  (s.addStake u.nearAmount).credit host.currentAccountId u.lstAmount

/-- Register an account on the LST, if it is not there yet. -/
@[simps]
def LiquidStakingToken.registerIfNew (s : LiquidStakingToken H) (a : AccountId) :
    LiquidStakingToken H :=
  { s with token := if s.token.isRegistered a then s.token else s.token.register a }

end Updates

/-- What was consumed of a wNEAR delivery with result `r`; nothing, when it is
to be tried again. -/
inductive Delivery (amountToSend : ℕ) (isCall : Bool) : PromiseResult → Option ℕ → Prop
  /-- A plain `ft_transfer` has returned: all of it is gone. -/
  | sent (v : Payload) (plain : isCall = false) (short : v.length ≤ 0) :
      Delivery amountToSend isCall (.successful v) (some amountToSend)
  /-- An `ft_transfer_call` reports what was used; more than was sent does not
  count. -/
  | reported (v : Payload) (used : ℕ) (call : isCall = true)
      (short : v.length ≤ maxResultLength) (parsed : v.u128 = some used) :
      Delivery amountToSend isCall (.successful v) (some (min used amountToSend))
  /-- A failed `ft_transfer_call` may have delivered, and counts as if it had. -/
  | writtenOff (call : isCall = true) :
      Delivery amountToSend isCall .failed (some amountToSend)
  /-- A failed `ft_transfer` has delivered nothing. -/
  | returned (plain : isCall = false) : Delivery amountToSend isCall .failed none

section Relations

variable {H : Type} [DecidableEq H] (host : Host H) (env : Env) (s : LiquidStakingToken H)

/-- `o` is what `stake_and_deposit` computes in `s`.  The quote is taken here
and not looked at again: the receipt that mints it may find another rate. -/
structure Quoted (o : StakeOrder) : Prop where
  /-- The price of the registration is set aside, if the message asks for one. -/
  deposit_eq : o.depositAmount =
    o.stakeAmount + if o.args.isStorageDeposit then ftStorageDeposit else 0
  stake_pos : 0 < o.stakeAmount
  lst_eq : o.lstTokens = s.lstFor o.stakeAmount
  lst_pos : 0 < o.lstTokens

/-- `handle_unstaking` accepts `message`: `s₁` is the state after its sync, and
`u` the unstake it starts there.

The LST are redeemed at the rate after the sync, so a holder who unstakes has a
share in the rewards that it recognizes. -/
structure Unstakes (message : UnstakeMessage) (s₁ : LiquidStakingToken H)
    (u : UnstakeOrder H) : Prop where
  /-- The sync comes first, so that the LST are redeemed at the rate it leaves. -/
  synced : ∃ result, LiquidStakingToken.Synced env.epochHeight
    (env.accountLockedBalance + env.accountBalance) 0 s s₁ result
  /-- The claim will be queued under the hash of the message. -/
  hash_eq : u.hash = host.hash message
  near_eq : u.nearAmount = s₁.nearFor u.lstAmount
  lst_pos : 0 < u.lstAmount
  near_pos : 0 < u.nearAmount
  /-- No more is taken from the validator than the books have at stake. -/
  near_le : u.nearAmount ≤ s₁.statistics.totalStakedAmount
  /-- The LST to burn are on the pool's account. -/
  lst_le : u.lstAmount ≤ s₁.token.ftBalanceOf host.currentAccountId
  supply_le : u.lstAmount ≤ s₁.token.totalSupply
  registered : s₁.token.isRegistered host.currentAccountId = true

/-- A call from outside that commits: the state it leaves, the phase of its
chain, and the payments it starts on the side. -/
inductive Entry :
    Method H → LiquidStakingToken H → Phase H → List (Receipt H) → Prop
  /-- `stake` with native NEAR: the deposit is left out of the sync, quoted at
  the rate after it, and a batch is scheduled that registers, mints, and is
  refunded to the payer if it fails. -/
  | stake (args : StakeMessage) (s₁ : LiquidStakingToken H)
      (result : LiquidStakingToken.SyncRewardsResult) (o : StakeOrder)
      (synced : LiquidStakingToken.Synced env.epochHeight
        (env.accountLockedBalance + env.accountBalance) env.attachedDeposit s s₁ result)
      (quoted : Quoted s₁ o) (sender_eq : o.senderId = env.predecessorAccountId)
      (args_eq : o.args = args) (deposit_eq : o.depositAmount = env.attachedDeposit)
      (native : o.depositToken = .native) :
      Entry (.stake args) s₁ (.batching o (some env.refundToAccountId)) []
  /-- wNEAR has been sent to the pool: the deposit is booked before it is
  unwrapped, so that the unwrapped NEAR is not mistaken for a reward. -/
  | book (senderId : AccountId) (amount : ℕ) (msg : String) (args : StakeMessage)
      (fromWnear : env.predecessorAccountId = s.wnearId)
      (room : s.statistics.latestTotalBalance + amount < 2 ^ 128) :
      Entry (.ftOnTransfer senderId amount msg) (s.addBalance amount)
        (.unwrapping senderId amount args) []
  /-- `ft_transfer` moves LST, and counts the holders again. -/
  | transfer (receiverId : AccountId) (amount : ℕ) (memo : Option String)
      (moved : s.transferTokens env receiverId amount = .ok
        (s.retokenBoth (s.token.move env.predecessorAccountId receiverId amount)
          env.predecessorAccountId receiverId)) :
      Entry (.ftTransfer receiverId amount memo)
        (s.retokenBoth (s.token.move env.predecessorAccountId receiverId amount)
          env.predecessorAccountId receiverId)
        (.continuing .finish (.successful .empty)) []
  /-- `ft_transfer_call` moves the LST first; the receiver is asked next, and
  the resolver runs in any case. -/
  | transferCall (receiverId : AccountId) (amount : ℕ) (memo : Option String) (msg : String)
      (moved : s.transferTokens env receiverId amount = .ok
        (s.retokenBoth (s.token.move env.predecessorAccountId receiverId amount)
          env.predecessorAccountId receiverId)) :
      Entry (.ftTransferCall receiverId amount memo msg)
        (s.retokenBoth (s.token.move env.predecessorAccountId receiverId amount)
          env.predecessorAccountId receiverId)
        (.sending receiverId env.predecessorAccountId amount msg 0
          (.resolve env.predecessorAccountId receiverId amount)) []
  /-- `withdraw` for a native message: all that has matured is merged into one
  tranche and locked, and its amount is on the way to the receiver. -/
  | withdrawNative (a : Attempt) (q : WithdrawalRequests H)
      (native : a.args.withdrawTokens = .native)
      (swept : WithdrawalRequests.amountOfMaturedTranches s.withdrawalRequests env.epochHeight
        (a.hash host) = .ok (a.tranche.withdrawalAmount, q))
      (pos : 0 < a.tranche.withdrawalAmount)
      (locked : WithdrawalRequests.locksAt q (a.hash host) = [a.tranche]) :
      Entry (.withdraw a.args) (s.withQueue q) (.deliveringNative a) []
  /-- `withdraw` for a wNEAR message: the same, but the NEAR has to be wrapped
  first, less what an earlier attempt has left as wNEAR, and a registration may
  be paid out of the claim. -/
  | withdrawWnear (a : Attempt) (q : WithdrawalRequests H)
      (wrapped : a.args.withdrawTokens ≠ .native)
      (swept : WithdrawalRequests.amountOfMaturedTranches s.withdrawalRequests env.epochHeight
        (a.hash host) = .ok (a.tranche.withdrawalAmount, q))
      (pos : 0 < a.tranche.withdrawalAmount)
      (locked : WithdrawalRequests.locksAt q (a.hash host) = [a.tranche])
      (fits : a.Fits host) :
      Entry (.withdraw a.args) (s.withQueue q) (.deliveringWnear a) []
  /-- `ping` finds nothing to recognize and does nothing else. -/
  | pingIdle (result : LiquidStakingToken.SyncRewardsResult) (s₁ : LiquidStakingToken H)
      (synced : LiquidStakingToken.Synced env.epochHeight
        (env.accountLockedBalance + env.accountBalance) 0 s s₁ result)
      (idle : ∀ reward, result ≠ .rewardsSynced reward) :
      Entry .ping s₁ (.continuing .finish (.successful (.ofU128 0))) []
  /-- `ping` recognizes a reward and stakes it with the validator. -/
  | ping (reward : ℕ) (s₁ : LiquidStakingToken H)
      (synced : LiquidStakingToken.Synced env.epochHeight
        (env.accountLockedBalance + env.accountBalance) 0 s s₁ (.rewardsSynced reward)) :
      Entry .ping s₁
        (.pinging s₁.statistics.totalStakedAmount s₁.validatorPublicKey) []
  /-- `storage_deposit` for an account that is registered already gives
  everything back. -/
  | storageKnown (accountId : Option AccountId) (registrationOnly : Option Bool)
      (registered :
        s.token.isRegistered (accountId.getD env.predecessorAccountId) = true) :
      Entry (.storageDeposit accountId registrationOnly) s
        (.continuing .finish (.successful (.json 50)))
        (detachedPay env.predecessorAccountId env.attachedDeposit)
  /-- `storage_deposit` registers an account.  The price stays and is booked,
  the change goes back. -/
  | storageNew (accountId : Option AccountId) (registrationOnly : Option Bool)
      (fresh : s.token.isRegistered (accountId.getD env.predecessorAccountId) = false)
      (covered : host.storageBalanceMin ≤ env.attachedDeposit)
      (room : s.statistics.latestTotalBalance + host.storageBalanceMin < 2 ^ 128) :
      Entry (.storageDeposit accountId registrationOnly)
        ((s.registerIfNew (accountId.getD env.predecessorAccountId)).addBalance
          host.storageBalanceMin)
        (.continuing .finish (.successful (.json 50)))
        (detachedPay env.predecessorAccountId (env.attachedDeposit - host.storageBalanceMin))
  /-- `storage_withdraw`, of nothing: all of a storage balance is locked, and
  the yoctoNEAR of the call is booked. -/
  | storageWithdraw (amount : Option ℕ) (yocto : env.attachedDeposit = oneYocto)
      (room : s.statistics.latestTotalBalance + oneYocto < 2 ^ 128) :
      Entry (.storageWithdraw amount) (s.addBalance oneYocto)
        (.continuing .finish (.successful (.json 50))) []
  /-- `storage_unregister` closes the account of the caller.  What LST are left
  on it are burned if the caller forces it, and the price of the registration is
  paid back with the yoctoNEAR. -/
  | unregister (force : Option Bool) (holders : ℕ) (yocto : env.attachedDeposit = oneYocto)
      (registered : s.token.isRegistered env.predecessorAccountId = true)
      (ordinary : env.predecessorAccountId ≠ s.treasuryId)
      (forced : s.token.ftBalanceOf env.predecessorAccountId = 0 ∨ force = some true)
      (covered : host.storageBalanceMin ≤ s.statistics.latestTotalBalance)
      (holders_eq : holders = if s.token.ftBalanceOf env.predecessorAccountId = 0 then
        s.statistics.numDelegators else s.statistics.numDelegators - 1) :
      Entry (.storageUnregister force)
        ((s.withToken (s.token.unregister env.predecessorAccountId) holders).subBalance
          host.storageBalanceMin)
        (.continuing .finish (.successful (.json 4)))
        (detachedPay env.predecessorAccountId (host.storageBalanceMin + 1))
  /-- `storage_unregister` by somebody without an account; the yoctoNEAR is
  booked. -/
  | unregisterNone (force : Option Bool) (yocto : env.attachedDeposit = oneYocto)
      (room : s.statistics.latestTotalBalance + oneYocto < 2 ^ 128) :
      Entry (.storageUnregister force) (s.addBalance oneYocto)
        (.continuing .finish (.successful (.json 5))) []
  /-- `set_protocol_fee_bps` syncs at the old fee before it stores the new one. -/
  | setFee (feeBps : ℕ) (s₁ : LiquidStakingToken H)
      (result : LiquidStakingToken.SyncRewardsResult) (admin : env.isAdmin = true)
      (yocto : env.attachedDeposit = oneYocto) (capped : feeBps ≤ maxProtocolFeeBps)
      (synced : LiquidStakingToken.Synced env.epochHeight
        (env.accountLockedBalance + env.accountBalance) 0 s s₁ result) :
      Entry (.setProtocolFeeBps feeBps) (s₁.withFee feeBps)
        (.continuing .finish (.successful .empty)) []
  /-- `set_validator_public_key` stores the key before it syncs, and restakes
  under it. -/
  | setKey (key : PublicKey) (s₁ : LiquidStakingToken H)
      (result : LiquidStakingToken.SyncRewardsResult) (admin : env.isAdmin = true)
      (yocto : env.attachedDeposit = oneYocto)
      (synced : LiquidStakingToken.Synced env.epochHeight
        (env.accountLockedBalance + env.accountBalance) 0 (s.withKey key) s₁ result) :
      Entry (.setValidatorPublicKey key) s₁
        (.pinging s₁.statistics.totalStakedAmount s₁.validatorPublicKey) []
  /-- `add_full_access_key` changes the account, not the state. -/
  | addKey (key : PublicKey) (admin : env.isAdmin = true)
      (yocto : env.attachedDeposit = oneYocto) :
      Entry (.addFullAccessKey key) s (.addingKey key) []
  /-- `force_release_lock` unlocks a tranche although its delivery may be under
  way; no sync, and nothing is booked. -/
  | forceRelease (hash : H) (length : ℕ) (admin : env.isAdmin = true)
      (yocto : env.attachedDeposit = oneYocto) :
      Entry (.forceReleaseLock hash)
        (s.withQueue (WithdrawalRequests.releaseLock s.withdrawalRequests hash).1)
        (.continuing .finish (.successful (.json length))) []

/-- A receipt that runs here and commits, in the phase of its chain: the state
it leaves, the next phase, and the payments it starts on the side.

The phase carries the data that the receipt was scheduled with; the state is the
one it finds, which other chains may have changed since. -/
inductive Advance :
    Phase H → LiquidStakingToken H → Phase H → List (Receipt H) → Prop
  /-- wNEAR did not unwrap.  The booking is taken back, and reporting the whole
  amount as unused makes wNEAR return it. -/
  | unwrapFailed {senderId : AccountId} {amount : ℕ} {args : StakeMessage}
      {r : PromiseResult} (failed : resultOk r = false)
      (covered : amount ≤ s.statistics.latestTotalBalance) :
      Advance (.unwrapped senderId amount args r) (s.subBalance amount)
        (.continuing .finish (.successful (.ofU128 amount))) []
  /-- The unwrapped NEAR is quoted, after a sync, and staked by a batch without
  a deposit. -/
  | unwrapQuoted {senderId : AccountId} {amount : ℕ} {args : StakeMessage}
      {r : PromiseResult} (ok : resultOk r = true) (s₁ : LiquidStakingToken H)
      (result : LiquidStakingToken.SyncRewardsResult) (o : StakeOrder)
      (synced : LiquidStakingToken.Synced env.epochHeight
        (env.accountLockedBalance + env.accountBalance) 0 s s₁ result)
      (quoted : Quoted s₁ o) (sender_eq : o.senderId = senderId) (args_eq : o.args = args)
      (deposit_eq : o.depositAmount = amount) (wnear : o.depositToken = .wnear) :
      Advance (.unwrapped senderId amount args r) s₁ (.batching o none) []
  /-- The unwrapped NEAR is too little for a stake: it is booked out and wrapped
  again, while what the sync has recognized stays. -/
  | unwrapRejected {senderId : AccountId} {amount : ℕ} {args : StakeMessage}
      {r : PromiseResult} (ok : resultOk r = true) (s₁ : LiquidStakingToken H)
      (result : LiquidStakingToken.SyncRewardsResult)
      (synced : LiquidStakingToken.Synced env.epochHeight
        (env.accountLockedBalance + env.accountBalance) 0 s s₁ result)
      (covered : amount ≤ s₁.statistics.latestTotalBalance) :
      Advance (.unwrapped senderId amount args r) (s₁.subBalance amount)
        (.rewrapping amount) []
  /-- The batch of a stake mints, without a registration.  The receiver must be
  registered, and so must the pool, to which the LST are credited. -/
  | minted {o : StakeOrder} {refundTo : Option AccountId} (plain : o.args.isStorageDeposit = false)
      (registered : s.isRegistered host o.args.receiverId = true)
      (pool : s.token.isRegistered host.currentAccountId = true)
      (room : o.senderId ≠ host.currentAccountId →
        s.statistics.latestTotalBalance + o.amountToBook < 2 ^ 128)
      (bounded : o.MintFits s) :
      Advance (.batching o refundTo) (o.mint host s) (.batched o (.successful .empty)) []
  /-- The batch of a stake registers the receiver and mints.  It is the pool
  that calls its own `storage_deposit`, so that the price is not booked and the
  change goes to the pool. -/
  | mintedRegistering {o : StakeOrder} {refundTo : Option AccountId}
      (storage : o.args.isStorageDeposit = true)
      (registered :
        (s.registerIfNew o.args.receiverId).isRegistered host o.args.receiverId = true)
      (covered : s.token.isRegistered o.args.receiverId = false →
        host.storageBalanceMin ≤ ftStorageDeposit)
      (pool : (s.registerIfNew o.args.receiverId).token.isRegistered
        host.currentAccountId = true)
      (room : o.senderId ≠ host.currentAccountId →
        s.statistics.latestTotalBalance + o.amountToBook < 2 ^ 128)
      (bounded : o.MintFits s) :
      Advance (.batching o refundTo) (o.mint host (s.registerIfNew o.args.receiverId))
        (.batched o (.successful .empty))
        (detachedPay host.currentAccountId
          (if s.token.isRegistered o.args.receiverId then ftStorageDeposit
            else ftStorageDeposit - host.storageBalanceMin))
  /-- After the batch the validator is asked to stake all that is to be at stake
  by now, including what other chains have added or taken out since the quote. -/
  | restake {o : StakeOrder} {r : PromiseResult} (ok : resultOk r = true) :
      Advance (.batched o r) s
        (.restaking o.toMintedStake s.statistics.totalStakedAmount s.validatorPublicKey) []
  /-- The batch of a wNEAR stake has failed and changed nothing; the deposit is
  booked out and wrapped again.  After a failed native batch the callback
  panics, since the batch has been refunded to the payer by the chain itself. -/
  | restakeRefund {o : StakeOrder} {r : PromiseResult} (failed : resultOk r = false)
      (wnear : o.depositToken = .wnear)
      (covered : o.depositAmount ≤ s.statistics.latestTotalBalance) :
      Advance (.batched o r) (s.subBalance o.depositAmount) (.rewrapping o.depositAmount) []
  /-- The validator action has succeeded, but the receiver is not registered any
  more: the LST stay on the pool's account. -/
  | keptOnPool {m : MintedStake} {r : PromiseResult} (ok : resultOk r = true)
      (gone : s.isRegistered host m.args.receiverId = false) :
      Advance (.restaked m r) s (.continuing .finish (.successful (.ofU128 0))) []
  /-- The LST go to the receiver, and the stake is complete. -/
  | handedOver {m : MintedStake} {r : PromiseResult} (ok : resultOk r = true)
      (registered : s.isRegistered host m.args.receiverId = true)
      (escrow : m.lstTokens ≤ s.token.ftBalanceOf host.currentAccountId)
      (silent : m.args.msg = none) :
      Advance (.restaked m r) (m.handOver host s)
        (.continuing .finish (.successful (.ofU128 0))) []
  /-- The LST go to the receiver, which is asked what it makes of them, as after
  an `ft_transfer_call`. -/
  | handedOverCall {m : MintedStake} {r : PromiseResult} (ok : resultOk r = true)
      (registered : s.isRegistered host m.args.receiverId = true)
      (escrow : m.lstTokens ≤ s.token.ftBalanceOf host.currentAccountId)
      (msg : String) (msg_eq : m.args.msg = some msg) :
      Advance (.restaked m r) (m.handOver host s)
        (.sending m.args.receiverId m.senderId m.lstTokens msg
          (calculateMinGas m.args.minGas true) (.notify m.lstTokens m.args)) []
  /-- The validator action has failed: the LST are burned, the stake is booked
  out and sent back.  The escrow is where the mint has put it; that the books
  still cover the stake is checked by the subtractions, and does not follow from
  the code. -/
  | rolledBack {m : MintedStake} {r : PromiseResult} (failed : resultOk r = false)
      (escrow : m.lstTokens ≤ s.token.ftBalanceOf host.currentAccountId)
      (supply : m.lstTokens ≤ s.token.totalSupply)
      (staked : m.stakeAmount ≤ s.statistics.totalStakedAmount)
      (tracked : m.senderId ≠ host.currentAccountId →
        m.stakeAmount ≤ s.statistics.latestTotalBalance) :
      Advance (.restaked m r) (m.rollback host s)
        (match m.depositToken with
          | .native => .paying m.senderId m.stakeAmount
          | .wnear => .rewrapping m.stakeAmount) []
  /-- The refund was wrapped, or was not; either way nothing more is done about
  it, only what is reported as unused differs. -/
  | rewrapped {amount : ℕ} {r : PromiseResult} :
      Advance (.rewrapped amount r) s
        (.continuing .finish (.successful (.ofU128 (if resultOk r then amount else 0)))) []
  /-- The message has no refund message: whatever the receiver reports is
  accepted. -/
  | acceptedAsIs {lstTokens : ℕ} {args : StakeMessage} {r : PromiseResult}
      (noRefund : args.refundMessage = none) :
      Advance (.continuing (.notify lstTokens args) r) s
        (.continuing .finish (.successful (.ofU128 0))) []
  /-- The receiver has used all of the LST, or what it refused is gone. -/
  | nothingRefused {lstTokens : ℕ} {args : StakeMessage} {r : PromiseResult}
      (message : UnstakeMessage) (message_eq : args.refundMessage = some message)
      (t : FungibleToken) (used burned : ℕ)
      (resolved : FungibleToken.Resolved (FungibleToken.unusedAmount (some r) lstTokens)
        lstTokens host.currentAccountId args.receiverId s.token t used burned)
      (all : lstTokens ≤ used) :
      Advance (.continuing (.notify lstTokens args) r)
        (s.retokenBoth t host.currentAccountId args.receiverId)
        (.continuing .finish (.successful (.ofU128 0))) []
  /-- The receiver has refused some LST.  They are moved back, as a resolver
  does it, and unstaked for the refund message. -/
  | refused {lstTokens : ℕ} {args : StakeMessage} {r : PromiseResult}
      (message : UnstakeMessage) (message_eq : args.refundMessage = some message)
      (t : FungibleToken) (used burned : ℕ)
      (resolved : FungibleToken.Resolved (FungibleToken.unusedAmount (some r) lstTokens)
        lstTokens host.currentAccountId args.receiverId s.token t used burned)
      (s₁ : LiquidStakingToken H) (u : UnstakeOrder H)
      (lst_eq : u.lstAmount = lstTokens - used) (trigger_eq : u.trigger = .refundByContract)
      (unstakes : Unstakes host env
        (s.retokenBoth t host.currentAccountId args.receiverId) message s₁ u) :
      Advance (.continuing (.notify lstTokens args) r) (u.burn host s₁)
        (.unstaking u (u.burn host s₁).statistics.totalStakedAmount s₁.validatorPublicKey
          .finish) []
  /-- The resolver of an `ft_transfer_call` takes back what the receiver has not
  used. -/
  | resolved {senderId receiverId : AccountId} {amount : ℕ} {r : PromiseResult}
      (t : FungibleToken) (used burned : ℕ)
      (resolved : FungibleToken.Resolved (FungibleToken.unusedAmount (some r) amount)
        amount senderId receiverId s.token t used burned) :
      Advance (.continuing (.resolve senderId receiverId amount) r)
        (s.retokenBoth t senderId receiverId)
        (.continuing .finish (.successful (.ofU128 used))) []
  /-- LST were sent to the pool with an unstake message: they are burned, and
  the validator is asked to unstake their NEAR. -/
  | unstakeRequested {senderId : AccountId} {amount : ℕ} {msg : String} {gas : ℕ}
      {k : Continuation} (message : UnstakeMessage)
      (parsed : host.parseUnstakeMessage msg = some message) (s₁ : LiquidStakingToken H)
      (u : UnstakeOrder H) (lst_eq : u.lstAmount = amount)
      (trigger_eq : u.trigger = .userRequest) (unstakes : Unstakes host env s message s₁ u) :
      Advance (.sending host.currentAccountId senderId amount msg gas k) (u.burn host s₁)
        (.unstaking u (u.burn host s₁).statistics.totalStakedAmount s₁.validatorPublicKey k) []
  /-- The validator action of an unstake has succeeded: its NEAR waits in the
  queue. -/
  | queued {u : UnstakeOrder H} {k : Continuation} {r : PromiseResult} (ok : resultOk r = true)
      (q : WithdrawalRequests H)
      (appended : WithdrawalRequests.appendRequest s.withdrawalRequests env.epochHeight u.hash
        u.nearAmount = .ok q)
      (room : s.statistics.totalPendingWithdrawals + u.nearAmount < 2 ^ 128) :
      Advance (.unstaked u k r) ((s.withQueue q).addPending u.nearAmount)
        (.continuing k (.successful (.ofU128 0))) []
  /-- It has failed: the burn is undone.  A user's unstake reports the LST as
  unused, so that the resolver returns them; those of a refund by the contract
  have nobody to go back to. -/
  | undone {u : UnstakeOrder H} {k : Continuation} {r : PromiseResult}
      (failed : resultOk r = false)
      (bounded : s.statistics.totalStakedAmount + u.nearAmount < 2 ^ 128) :
      Advance (.unstaked u k r) (u.undo host s)
        (.continuing k (.successful (.ofU128
          (match u.trigger with
            | .userRequest => u.lstAmount
            | .refundByContract => 0)))) []
  /-- A native payment has arrived: the claim is removed and booked out. -/
  | paidNative {a : Attempt} {r : PromiseResult} (ok : resultOk r = true) (t : Tranche)
      (locked : WithdrawalRequests.lockedTranche s.withdrawalRequests (a.hash host) = .ok t)
      (amount_eq : t.withdrawalAmount = a.tranche.withdrawalAmount)
      (tracked : a.tranche.withdrawalAmount ≤ s.statistics.latestTotalBalance)
      (pending : a.tranche.withdrawalAmount ≤ s.statistics.totalPendingWithdrawals) :
      Advance (.deliveredNative a r)
        (((s.withQueue (WithdrawalRequests.releaseLock
          (WithdrawalRequests.removeRequest s.withdrawalRequests (a.hash host))
          (a.hash host)).1).subBalance a.tranche.withdrawalAmount).subPending
            a.tranche.withdrawalAmount)
        (.continuing .finish (.successful .empty)) []
  /-- It has failed: the claim is unlocked, to be withdrawn again. -/
  | unpaidNative {a : Attempt} {r : PromiseResult} (failed : resultOk r = false) :
      Advance (.deliveredNative a r)
        (s.withQueue (WithdrawalRequests.releaseLock s.withdrawalRequests (a.hash host)).1)
        (.continuing .finish (.successful .empty)) []
  /-- A wNEAR delivery has arrived, or counts as arrived.  The claim shrinks by
  what was delivered, and by the price of a registration.  What is left of it is
  unlocked, together with the wNEAR that was wrapped for it and not used. -/
  | paidWnear {a : Attempt} {r : PromiseResult} (consumed : ℕ)
      (delivery : Delivery a.amountToSend (a.isCall host) r (some consumed)) (t : Tranche)
      (locked : WithdrawalRequests.lockedTranche s.withdrawalRequests (a.hash host) = .ok t)
      (delivered : ℕ) (delivered_eq : delivered = NearToken.satAdd consumed a.storageToPay)
      (claimed : delivered ≤ t.withdrawalAmount) (q : WithdrawalRequests H)
      (q_eq : q = if t.withdrawalAmount - delivered = 0 then
          WithdrawalRequests.removeRequest s.withdrawalRequests (a.hash host)
        else WithdrawalRequests.writeLockedTranche s.withdrawalRequests (a.hash host)
          { t with
            withdrawalAmount := t.withdrawalAmount - delivered
            wnearResidual := a.amountToSend - consumed
            storageWasPaid := t.storageWasPaid || decide (0 < a.storageToPay) })
      (spent : ℕ) (spent_eq : spent = NearToken.satAdd (a.cost host) a.storageToPay)
      (tracked : spent ≤ s.statistics.latestTotalBalance)
      (pending : delivered ≤ s.statistics.totalPendingWithdrawals) :
      Advance (.deliveredWnear a r)
        (((s.withQueue (WithdrawalRequests.releaseLock q (a.hash host)).1).subPending
          delivered).subBalance spent)
        (.continuing .finish (.successful .empty)) []
  /-- A plain transfer of wNEAR has failed as a whole: the claim is unlocked as
  it was. -/
  | unpaidWnear {a : Attempt} {r : PromiseResult}
      (delivery : Delivery a.amountToSend (a.isCall host) r none) :
      Advance (.deliveredWnear a r)
        (s.withQueue (WithdrawalRequests.releaseLock s.withdrawalRequests (a.hash host)).1)
        (.continuing .finish (.successful .empty)) []
  /-- The stake action of a `ping` has been decided, and nothing depends on how. -/
  | pinged {r : PromiseResult} :
      Advance (.pinged r) s (.continuing .finish (.successful (.json 4))) []
  /-- It has failed while NEAR of the account is locked: the pool takes all of
  it back from the validator. -/
  | stop : Advance (.pinged .failed) s (.stopping s.validatorPublicKey) []

end Relations

/-! ## From the code to the steps

Each theorem takes a method that has committed and names the constructor for it.
The branches of the method are split in the order of the source, and a branch
that panics contradicts the hypothesis. -/

section Code

variable {H : Type} {host : Host H} {env : Env} {s : LiquidStakingToken H}
  {wnear : AccountId} {d : ℕ} {r : PromiseResult} {o : Outcome H}

/-- The chain goes on in phase `p'` after its receipt returned `ret` in phase
`p`: with the rest of its receipts and the value as their input, or with what
the receipt has scheduled put before them.

A receipt that schedules others returns no value of its own, so nothing waits
for the next one then. -/
def Leads (host : Host H) (wnear : AccountId) (p : Phase H) (ret : Return H) (p' : Phase H) :
    Prop :=
  match ret with
  | .value v => p' = p.settle (.successful v)
  | .promise next =>
      p'.tasks host wnear = next ++ (p.tasks host wnear).tail ∧ p'.input = none ∧
        p'.attempt = none ∧ p'.Valid host

/-- What a callback reads of the receipt before it. -/
theorem promiseSucceeded_forCall (env : Env) (d : ℕ) (r : PromiseResult) :
    (env.forCall d (some r)).promiseSucceeded = resultOk r := by
  unfold Env.promiseSucceeded Env.promiseResultChecked resultOk
  cases r with
  | failed => rfl
  | successful v =>
      rw [show (env.forCall d (some (.successful v))).promiseResults = [.successful v] from rfl]
      by_cases hlength : v.length ≤ 0
      · simp [hlength]
      · simp [hlength]

/-- A quote that came out is the one `Quoted` describes, and the receipts are
those of its order.  The two zero checks are what `stake_pos` and `lst_pos` come
from. -/
theorem stakeAndDeposit_eq_ok {env : Env} {senderId : AccountId} {args : StakeMessage}
    {depositAmount : ℕ} {token : DepositToken} {promise : List (Receipt H)}
    (h : s.stakeAndDeposit host env senderId args depositAmount token = .ok (.ok promise)) :
    ∃ o : StakeOrder, Quoted s o ∧ o.senderId = senderId ∧ o.args = args ∧
      o.depositAmount = depositAmount ∧ o.depositToken = token ∧
      promise = [o.batch host (LiquidStakingToken.batchRefundTo env token),
        o.restakeCall host] := by
  unfold LiquidStakingToken.stakeAndDeposit at h
  split at h
  · cases h
  next stakeAmount hstake =>
  split at h
  · cases h
  next hpos =>
  simp only [bind_eq_ok] at h
  obtain ⟨lst, hquote, h⟩ := h
  split at h
  · cases h
  next hlst =>
  obtain rfl := Except.ok.inj (Except.ok.inj h)
  refine ⟨⟨⟨senderId, args, stakeAmount, lst, token⟩, depositAmount⟩,
    ⟨?_, Nat.pos_of_ne_zero hpos, LiquidStakingToken.nearToLst_eq_ok hquote,
      Nat.pos_of_ne_zero hlst⟩, rfl, rfl, rfl, rfl, rfl⟩
  show depositAmount = stakeAmount + if args.isStorageDeposit then ftStorageDeposit else 0
  split at hstake
  · next hstorage =>
      obtain ⟨hle, rfl⟩ := checkedSub_eq_some.mp hstake
      rw [if_pos hstorage, Nat.sub_add_cancel hle]
  · next hstorage =>
      rw [if_neg hstorage, Option.some.inj hstake, Nat.add_zero]

/-- An accepted unstake is the one `Unstakes` describes, and burned at once.
The validator is asked for what the books hold after the burn. -/
theorem handleUnstaking_eq_ok {s' : LiquidStakingToken H} {lst : ℕ} {message : UnstakeMessage}
    {trigger : UnstakeTrigger} {promise : List (Receipt H)} {input : Option PromiseResult}
    (h : s.handleUnstaking host (env.forCall d input) lst message trigger =
      .ok (s', promise)) :
    ∃ s₁ u, Unstakes host env s message s₁ u ∧ u.lstAmount = lst ∧ u.trigger = trigger ∧
      s' = u.burn host s₁ ∧
      promise = [⟨host.currentAccountId, [.stake (u.burn host s₁).statistics.totalStakedAmount
        s₁.validatorPublicKey], none⟩,
        LiquidStakingToken.onUnstakeCall host u.lstAmount u.nearAmount u.hash u.trigger] := by
  simp only [LiquidStakingToken.handleUnstaking, bind_eq_ok, require_eq_ok, Prod.exists,
    LiquidStakingToken.modifyStateBeforeUnstake, LiquidStakingToken.decreaseStakeAmount_eq_ok,
    LiquidStakingToken.internalWithdraw_eq_ok, pure_eq_ok, Prod.mk.injEq] at h
  obtain ⟨_, hpos, s₁, result, hsync, near, hquote, _, hnear, _, hle, _,
    ⟨_, ⟨-, rfl⟩, hreg, hlst, hsupply, rfl⟩, rfl, rfl⟩ := h
  have hsynced := LiquidStakingToken.syncRewardsInternal_eq_ok hsync
  exact ⟨s₁, ⟨lst, near, host.hash message, trigger⟩,
    { synced := ⟨result, hsynced⟩
      hash_eq := rfl
      near_eq := LiquidStakingToken.lstToNear_eq_ok hquote
      lst_pos := hpos
      near_pos := hnear
      near_le := hle
      lst_le := hlst
      supply_le := hsupply
      registered := hreg }, rfl, rfl, rfl, rfl⟩

/-- A wNEAR deposit that was booked is booked out again before it is wrapped. -/
theorem refundBookedWnear_eq_ok {s' : LiquidStakingToken H} {amount : ℕ}
    {promise : List (Receipt H)} (h : s.refundBookedWnear host amount = .ok (s', promise)) :
    amount ≤ s.statistics.latestTotalBalance ∧ s' = s.subBalance amount ∧
      promise = s.refundWnearPromise host amount := by
  simp only [LiquidStakingToken.refundBookedWnear, bind_eq_ok, pure_eq_ok, Prod.mk.injEq,
    LiquidStakingToken.decreaseTotalBalance_eq_ok] at h
  obtain ⟨_, ⟨hle, rfl⟩, rfl, rfl⟩ := h
  exact ⟨hle, rfl, rfl⟩

/-- A sync never touches the accounts the contract is configured with. -/
theorem LiquidStakingToken.Synced.wnearId_eq {epoch balance excluded : ℕ}
    {s s' : LiquidStakingToken H} {result : LiquidStakingToken.SyncRewardsResult}
    (h : LiquidStakingToken.Synced epoch balance excluded s s' result) :
    s'.wnearId = s.wnearId := by
  cases h <;> rfl

/-- Nor the account that the fee goes to. -/
theorem LiquidStakingToken.Synced.treasuryId_eq {epoch balance excluded : ℕ}
    {s s' : LiquidStakingToken H} {result : LiquidStakingToken.SyncRewardsResult}
    (h : LiquidStakingToken.Synced epoch balance excluded s s' result) :
    s'.treasuryId = s.treasuryId := by
  cases h <;> rfl

/-- A sync that recognizes no reward does nothing. -/
theorem LiquidStakingToken.Synced.eq_of_quiet {epoch balance excluded : ℕ}
    {s s' : LiquidStakingToken H} {result : LiquidStakingToken.SyncRewardsResult}
    (h : LiquidStakingToken.Synced epoch balance excluded s s' result)
    (hquiet : s'.statistics.lastEpochSynced = s.statistics.lastEpochSynced) : s' = s := by
  cases h with
  | idle => rfl
  | reward reward feeLst pos _ _ _ _ _ _ _ fresh => exact absurd hquiet fresh

/-- Without a reward, an unstake leaves everything else of the state it finds. -/
theorem Unstakes.synced_eq {env : Env} {message : UnstakeMessage} {s₁ : LiquidStakingToken H}
    {u : UnstakeOrder H} (h : Unstakes host env s message s₁ u)
    (hquiet : s₁.statistics.lastEpochSynced = s.statistics.lastEpochSynced) : s₁ = s := by
  obtain ⟨result, synced⟩ := h.synced
  exact synced.eq_of_quiet hquiet

/-- `storage_deposit` pays back what it does not keep; it books the price only
for a new account and only when somebody else sent it. -/
theorem storageDeposit_eq_ok {env : Env} {accountId : Option AccountId} {target : AccountId}
    (htarget : target = accountId.getD env.predecessorAccountId)
    (h : s.storageDeposit host env accountId = .ok o) :
    o.ret = .value (.json 50) ∧
      ((s.token.isRegistered target = true ∧ o.state = s ∧
          o.detached = detachedPay env.predecessorAccountId env.attachedDeposit) ∨
        (s.token.isRegistered target = false ∧ host.storageBalanceMin ≤ env.attachedDeposit ∧
          o.detached = detachedPay env.predecessorAccountId
            (env.attachedDeposit - host.storageBalanceMin) ∧
          if host.currentAccountId = env.predecessorAccountId then
            o.state = s.registerIfNew target
          else s.statistics.latestTotalBalance + host.storageBalanceMin < 2 ^ 128 ∧
            o.state = (s.registerIfNew target).addBalance host.storageBalanceMin)) := by
  subst htarget
  simp only [LiquidStakingToken.storageDeposit, FungibleToken.storageDeposit, bind_eq_ok,
    Prod.exists, pure_eq_ok] at h
  obtain ⟨t, refund, htoken, s₁, hbook, rfl⟩ := h
  refine ⟨rfl, ?_⟩
  split at htoken
  · next hreg =>
      obtain ⟨rfl, rfl⟩ := Prod.mk.inj (Except.ok.inj htoken)
      rw [onlyIf_neg (by simp [hreg])] at hbook
      obtain rfl := Except.ok.inj hbook
      exact .inl ⟨hreg, rfl, rfl⟩
  · next hreg =>
      have hfresh := Bool.eq_false_iff.mpr hreg
      simp only [bind_eq_ok, require_eq_ok, FungibleToken.internalRegisterAccount, pure_eq_ok,
        Prod.mk.injEq] at htoken
      obtain ⟨_, hle, _, ⟨_, -, rfl⟩, rfl, rfl⟩ := htoken
      refine .inr ⟨hfresh, hle, rfl, ?_⟩
      have hstate : s.registerIfNew (accountId.getD env.predecessorAccountId) =
          { s with token := s.token.register (accountId.getD env.predecessorAccountId) } := by
        simp [LiquidStakingToken.registerIfNew, hfresh]
      rw [hstate]
      by_cases hself : host.currentAccountId = env.predecessorAccountId
      · rw [onlyIf_neg (by simp [LiquidStakingToken.isExternalCall, hself])] at hbook
        rw [if_pos hself]
        exact (Except.ok.inj hbook).symm
      · rw [onlyIf_pos ⟨by simpa [LiquidStakingToken.isExternalCall] using hself, hfresh⟩,
          LiquidStakingToken.increaseTotalBalance_eq_ok] at hbook
        rw [if_neg hself]
        exact ⟨hbook.1, hbook.2.symm⟩

/-- The mint books the deposit, raises the stake and credits the pool. -/
theorem modifyStateBeforeStake_eq_ok {env : Env} {order : StakeOrder} {out : Outcome H}
    (h : s.modifyStateBeforeStake host env order.senderId order.args.receiverId
      order.stakeAmount order.amountToBook order.lstTokens = .ok out) :
    s.isRegistered host order.args.receiverId = true ∧
      s.token.isRegistered host.currentAccountId = true ∧
      (order.senderId ≠ host.currentAccountId →
        s.statistics.latestTotalBalance + order.amountToBook < 2 ^ 128) ∧
      order.MintFits s ∧ out = .value (order.mint host s) .empty := by
  simp only [LiquidStakingToken.modifyStateBeforeStake, bind_eq_ok, require_eq_ok,
    LiquidStakingToken.increaseStakeAmount_eq_ok, LiquidStakingToken.internalDeposit_eq_ok,
    pure_eq_ok] at h
  obtain ⟨_, -, _, hreg, s₁, hbook, _, ⟨hstake, rfl⟩, _, ⟨hpool, -, hsupply, -, rfl⟩, rfl⟩ := h
  by_cases hself : order.senderId = host.currentAccountId
  · rw [onlyIf_neg (not_not.mpr hself)] at hbook
    obtain rfl := Except.ok.inj hbook
    refine ⟨hreg, hpool, fun hne => absurd hself hne, ⟨hstake, hsupply⟩, ?_⟩
    unfold StakeOrder.mint
    rw [if_pos hself]
    rfl
  · rw [onlyIf_pos hself, LiquidStakingToken.increaseTotalBalance_eq_ok] at hbook
    obtain ⟨hroom, rfl⟩ := hbook
    refine ⟨hreg, hpool, fun _ => hroom, ⟨hstake, hsupply⟩, ?_⟩
    unfold StakeOrder.mint
    rw [if_neg hself]

/-- The rollback burns the escrow and lowers the books by the stake.

Its four bounds are the checked subtractions of the source. -/
theorem rollbackStateAfterStake_eq_ok {s' : LiquidStakingToken H} {m : MintedStake}
    (h : s.rollbackStateAfterStake host m.senderId m.stakeAmount m.lstTokens = .ok s') :
    m.lstTokens ≤ s.token.ftBalanceOf host.currentAccountId ∧
      m.lstTokens ≤ s.token.totalSupply ∧ m.stakeAmount ≤ s.statistics.totalStakedAmount ∧
      (m.senderId ≠ host.currentAccountId → m.stakeAmount ≤ s.statistics.latestTotalBalance) ∧
      s' = m.rollback host s := by
  simp only [LiquidStakingToken.rollbackStateAfterStake, bind_eq_ok,
    LiquidStakingToken.internalWithdraw_eq_ok, LiquidStakingToken.decreaseStakeAmount_eq_ok] at h
  obtain ⟨_, ⟨-, hlst, hsupply, rfl⟩, _, ⟨hstake, rfl⟩, h⟩ := h
  refine ⟨hlst, hsupply, hstake, ?_⟩
  by_cases hself : m.senderId = host.currentAccountId
  · rw [onlyIf_neg (not_not.mpr hself)] at h
    refine ⟨fun hne => absurd hself hne, ?_⟩
    unfold MintedStake.rollback
    rw [if_pos hself]
    exact (Except.ok.inj h).symm
  · rw [onlyIf_pos hself, LiquidStakingToken.decreaseTotalBalance_eq_ok] at h
    refine ⟨fun _ => h.1, ?_⟩
    unfold MintedStake.rollback
    rw [if_neg hself]
    exact h.2.symm

variable [DecidableEq H]

/-- What a method in phase `p` did is one of the listed steps.  The theorems
that follow are one for each callback; each unfolds its method, splits along its
branches, and names the constructor that the branch is. -/
def IsAdvance (host : Host H) (env : Env) (s : LiquidStakingToken H) (p : Phase H)
    (o : Outcome H) : Prop :=
  ∃ p', Advance host env s p o.state p' o.detached ∧ Leads host s.wnearId p o.ret p'

/-- `on_near_withdraw` has three outcomes: the unwrap failed, the quote came
out, or the quote was refused. -/
theorem onNearWithdraw_isAdvance {senderId : AccountId} {amount : ℕ} {args : StakeMessage}
    (h : s.onNearWithdraw host (env.forCall d (some r)) senderId amount args = .ok o) :
    IsAdvance host env s (.unwrapped senderId amount args r) o := by
  simp only [LiquidStakingToken.onNearWithdraw, bind_eq_ok, promiseSucceeded_forCall] at h
  obtain ⟨_, -, h⟩ := h
  split at h
  · next hok =>
      simp only [bind_eq_ok, Prod.exists] at h
      obtain ⟨s₁, result, hsync, quote, hquote, h⟩ := h
      have hsynced := LiquidStakingToken.syncRewardsInternal_eq_ok hsync
      split at h
      · next promise =>
          obtain rfl := Except.ok.inj h
          obtain ⟨o, hquoted, hsender, hargs, hdeposit, htoken, rfl⟩ :=
            stakeAndDeposit_eq_ok hquote
          refine ⟨_, .unwrapQuoted hok s₁ result o hsynced hquoted hsender hargs hdeposit htoken,
            rfl, rfl, rfl, hquoted.deposit_eq, hquoted.stake_pos, hquoted.lst_pos, ?_⟩
          simp [htoken]
      · simp only [bind_eq_ok, Prod.exists, pure_eq_ok] at h
        obtain ⟨s₂, promise, hrefund, rfl⟩ := h
        obtain ⟨hle, rfl, rfl⟩ := refundBookedWnear_eq_ok hrefund
        refine ⟨_, .unwrapRejected hok s₁ result hsynced hle, ?_, rfl, rfl, trivial⟩
        rw [← hsynced.wnearId_eq]
        rfl
  · next hfailed =>
      simp only [bind_eq_ok, LiquidStakingToken.decreaseTotalBalance_eq_ok, pure_eq_ok] at h
      obtain ⟨_, ⟨hle, rfl⟩, rfl⟩ := h
      exact ⟨_, .unwrapFailed (by simpa using hfailed) hle, rfl⟩

/-- Only function calls of a batch touch the state. -/
private theorem runActions_transfer {input : Option PromiseResult} {amount : ℕ}
    {as : List (Action H)} (hne : as ≠ []) :
    runActions host env input (.transfer amount :: as) s = runActions host env input as s := by
  cases as with
  | nil => exact absurd rfl hne
  | cons a as =>
      rw [runActions]
      · show (runActions host env input (a :: as) s >>= fun rest =>
          (pure { rest with detached := [] ++ rest.detached } : Except String (Outcome H))) = _
        cases runActions host env input (a :: as) s <;> rfl
      · simp

/-- The batch of a stake: a transfer to the pool itself, which touches no state,
the registration that the message may ask for, and the mint. -/
theorem batch_isAdvance {order : StakeOrder} {refundTo : Option AccountId}
    (hself : env.predecessorAccountId = host.currentAccountId)
    (h : runActions host env none (order.batch host refundTo).actions s = .ok o) :
    IsAdvance host env s (.batching order refundTo) o := by
  have hcalls : runActions host env none
      ((if order.args.isStorageDeposit then
        [.call (.storageDeposit (some order.args.receiverId) (some true)) ftStorageDeposit
          storageDepositGas]
        else []) ++
      [.call (.modifyStateBeforeStake order.senderId order.args.receiverId order.stakeAmount
        order.amountToBook order.lstTokens) 0 modifyStateAfterStakeGas]) s = .ok o := by
    unfold StakeOrder.batch at h
    cases htoken : order.depositToken with
    | native =>
        simp only [htoken, List.cons_append] at h
        rwa [runActions_transfer (by simp)] at h
    | wnear => simpa only [htoken, List.nil_append] using h
  cases hstorage : order.args.isStorageDeposit with
  | false =>
      simp only [hstorage, Bool.false_eq_true, if_false, List.nil_append, runActions, runAction,
        callMethod, bind_eq_ok] at hcalls
      obtain ⟨_, -, hmint⟩ := hcalls
      obtain ⟨hreg, hpool, hroom, hfits, rfl⟩ := modifyStateBeforeStake_eq_ok hmint
      exact ⟨_, .minted hstorage hreg hpool hroom hfits, rfl⟩
  | true =>
      simp only [hstorage, if_true, List.singleton_append, runActions, runAction, callMethod,
        bind_eq_ok, pure_eq_ok] at hcalls
      obtain ⟨first, ⟨_, -, hdeposit⟩, rest, ⟨_, -, hmint⟩, rfl⟩ := hcalls
      obtain ⟨hreg, hpool, hroom, hfits, rfl⟩ := modifyStateBeforeStake_eq_ok hmint
      obtain ⟨-, ⟨hknown, hstate, hdetached⟩ | ⟨hnew, hle, hdetached, hstate⟩⟩ :=
        storageDeposit_eq_ok rfl hdeposit
      · -- The receiver is known: the whole price is given back, to the pool itself.
        replace hknown : s.token.isRegistered order.args.receiverId = true := hknown
        have hsame : s.registerIfNew order.args.receiverId = s := by
          simp [LiquidStakingToken.registerIfNew, hknown]
        rw [hstate] at hreg hpool hroom hfits
        have hadvance : Advance host env s (.batching order refundTo) _ _ _ :=
          .mintedRegistering hstorage (by rwa [hsame]) (fun hno => by simp [hknown] at hno)
            (by rwa [hsame]) hroom hfits
        refine ⟨_, ?_, rfl⟩
        show Advance host env s _ (order.mint host first.state) _ (first.detached ++ [])
        rw [hstate, hdetached, List.append_nil]
        rw [hsame, if_pos hknown, ← hself] at hadvance
        exact hadvance
      · -- A call of the pool to itself does not book the price.
        rw [if_pos (show host.currentAccountId =
          (env.forCall ftStorageDeposit none).predecessorAccountId from hself.symm)] at hstate
        replace hstate : first.state = s.registerIfNew order.args.receiverId := hstate
        replace hnew : s.token.isRegistered order.args.receiverId = false := hnew
        rw [hstate] at hreg hpool hroom hfits
        have hsupply : (s.registerIfNew order.args.receiverId).token.totalSupply =
            s.token.totalSupply := by
          rw [LiquidStakingToken.registerIfNew_token]
          split_ifs <;> rfl
        have hadvance : Advance host env s (.batching order refundTo) _ _ _ :=
          .mintedRegistering hstorage hreg (fun _ => hle) hpool hroom
            ⟨hfits.stake, hsupply ▸ hfits.supply⟩
        refine ⟨_, ?_, rfl⟩
        show Advance host env s _ (order.mint host first.state) _ (first.detached ++ [])
        rw [hstate, hdetached, List.append_nil]
        rw [hnew, if_neg (by simp), ← hself] at hadvance
        exact hadvance

/-- `restake_or_refund` goes on to the validator, or wraps again what came as
wNEAR.  It panics for a native deposit whose batch failed. -/
theorem restakeOrRefund_isAdvance {order : StakeOrder} (hvalid : order.Valid host)
    (h : s.restakeOrRefund host (env.forCall d (some r)) order = .ok o) :
    IsAdvance host env s (.batched order r) o := by
  simp only [LiquidStakingToken.restakeOrRefund, bind_eq_ok, promiseSucceeded_forCall] at h
  obtain ⟨_, -, h⟩ := h
  split at h
  · next hok =>
      obtain rfl := Except.ok.inj h
      exact ⟨_, .restake hok, rfl, rfl, rfl, hvalid.minted⟩
  · next hfailed =>
      split at h
      · cases h
      · next htoken =>
          simp only [bind_eq_ok, Prod.exists, pure_eq_ok] at h
          obtain ⟨s₁, promise, hrefund, rfl⟩ := h
          obtain ⟨hle, rfl, rfl⟩ := refundBookedWnear_eq_ok hrefund
          exact ⟨_, .restakeRefund (by simpa using hfailed) htoken hle, rfl, rfl, rfl, trivial⟩

/-- `on_restake_or_refund` has the most branches: the action succeeded or not,
the receiver is registered or not, there is a message or not, and the deposit
came as NEAR or as wNEAR. -/
theorem onRestakeOrRefund_isAdvance {m : MintedStake} (hvalid : m.Valid host)
    (h : s.onRestakeOrRefund host (env.forCall d (some r)) m.senderId m.stakeAmount m.lstTokens
      m.args m.depositToken = .ok o) : IsAdvance host env s (.restaked m r) o := by
  simp only [LiquidStakingToken.onRestakeOrRefund, bind_eq_ok, promiseSucceeded_forCall] at h
  obtain ⟨_, -, h⟩ := h
  split at h
  · next hok =>
      split at h
      · next hreg =>
          simp only [bind_eq_ok, LiquidStakingToken.internalTransfer,
            LiquidStakingToken.internalWithdraw_eq_ok,
            LiquidStakingToken.internalDeposit_eq_ok] at h
          obtain ⟨_, ⟨_, ⟨-, hlst, -, rfl⟩, -, -, -, -, rfl⟩, h⟩ := h
          split at h
          · next msg hmsg =>
              obtain rfl := Except.ok.inj h
              exact ⟨_, .handedOverCall hok hreg hlst msg hmsg, rfl, rfl, rfl, ⟨rfl, rfl⟩,
                hvalid.lst_pos⟩
          · next hmsg =>
              obtain rfl := Except.ok.inj h
              exact ⟨_, .handedOver hok hreg hlst hmsg, rfl⟩
      · next hgone =>
          obtain rfl := Except.ok.inj h
          exact ⟨_, .keptOnPool hok (by simpa using hgone), rfl⟩
  · next hfailed =>
      simp only [bind_eq_ok] at h
      obtain ⟨_, hrollback, h⟩ := h
      obtain ⟨hlst, hsupply, hstake, htracked, rfl⟩ := rollbackStateAfterStake_eq_ok hrollback
      have hadvance : Advance host env s (.restaked m r) _ _ _ :=
        .rolledBack (by simpa using hfailed) hlst hsupply hstake htracked
      cases htoken : m.depositToken <;> simp only [htoken] at h hadvance <;>
        obtain rfl := Except.ok.inj h <;> exact ⟨_, hadvance, rfl, rfl, rfl, trivial⟩

/-- `refund_wnear_deposit` changes nothing; it reports to the wNEAR contract. -/
theorem refundWnearDeposit_isAdvance {amount : ℕ}
    (h : s.refundWnearDeposit host (env.forCall d (some r)) amount = .ok o) :
    IsAdvance host env s (.rewrapped amount r) o := by
  simp only [LiquidStakingToken.refundWnearDeposit, bind_eq_ok, promiseSucceeded_forCall] at h
  obtain ⟨_, -, h⟩ := h
  have hadvance : Advance host env s (.rewrapped amount r) _ _ _ := .rewrapped
  split at h <;> next hok =>
    obtain rfl := Except.ok.inj h
    simp only [hok, if_true, if_false, Bool.false_eq_true] at hadvance
    exact ⟨_, hadvance, rfl⟩

/-- `on_ft_on_transfer` resolves the notification, and unstakes what came back
if there is a message for it. -/
theorem onFtOnTransfer_isAdvance {lstTokens : ℕ} {args : StakeMessage}
    (h : s.onFtOnTransfer host (env.forCall d (some r)) lstTokens args = .ok o) :
    IsAdvance host env s (.continuing (.notify lstTokens args) r) o := by
  simp only [LiquidStakingToken.onFtOnTransfer, bind_eq_ok] at h
  obtain ⟨_, -, h⟩ := h
  split at h
  · next hnone =>
      obtain rfl := Except.ok.inj h
      exact ⟨_, .acceptedAsIs hnone, rfl⟩
  next message hmessage =>
  simp only [bind_eq_ok, Prod.exists] at h
  obtain ⟨s₁, used, hresolve, h⟩ := h
  obtain ⟨t, burned, hresolved, rfl⟩ := LiquidStakingToken.resolveTransfer_eq_ok hresolve
  split at h
  · next hzero =>
      obtain rfl := Except.ok.inj h
      exact ⟨_, .nothingRefused message hmessage t used burned hresolved (by omega), rfl⟩
  · simp only [bind_eq_ok, Prod.exists, pure_eq_ok] at h
    obtain ⟨s₂, promise, hunstake, rfl⟩ := h
    obtain ⟨s₁, u, hunstakes, hlst, htrigger, rfl, rfl⟩ := handleUnstaking_eq_ok hunstake
    exact ⟨_, .refused message hmessage t used burned hresolved s₁ u hlst htrigger hunstakes,
      rfl, rfl, rfl, hunstakes.lst_pos, hunstakes.near_pos, .inr ⟨htrigger, rfl⟩⟩

/-- `ft_resolve_transfer`, for a transfer call from outside. -/
theorem ftResolveTransfer_isAdvance {senderId receiverId : AccountId} {amount : ℕ}
    (h : s.ftResolveTransfer host (env.forCall d (some r)) senderId receiverId amount = .ok o) :
    IsAdvance host env s (.continuing (.resolve senderId receiverId amount) r) o := by
  simp only [LiquidStakingToken.ftResolveTransfer, bind_eq_ok, Prod.exists, pure_eq_ok] at h
  obtain ⟨_, -, s₁, used, hresolve, rfl⟩ := h
  obtain ⟨t, burned, hresolved, rfl⟩ := LiquidStakingToken.resolveTransfer_eq_ok hresolve
  exact ⟨_, .resolved t used burned hresolved, rfl⟩

/-- The pool's own `ft_on_transfer`, called with LST. -/
theorem ftOnTransfer_isAdvance {senderId : AccountId} {amount : ℕ} {msg : String} {gas : ℕ}
    {k : Continuation} {input : Option PromiseResult}
    (hself : env.predecessorAccountId = host.currentAccountId)
    (hwnear : s.wnearId ≠ host.currentAccountId)
    (hvalid : k.Awaits host host.currentAccountId amount)
    (h : s.ftOnTransfer host (env.forCall d input) senderId amount msg = .ok o) :
    IsAdvance host env s (.sending host.currentAccountId senderId amount msg gas k) o := by
  simp only [LiquidStakingToken.ftOnTransfer, bind_eq_ok] at h
  obtain ⟨_, -, h⟩ := h
  rw [if_neg (show (env.forCall d input).predecessorAccountId ≠ s.wnearId from
      hself ▸ hwnear.symm),
    if_pos (show (env.forCall d input).predecessorAccountId = host.currentAccountId from
      hself)] at h
  simp only [bind_eq_ok, Prod.exists, pure_eq_ok, expect_eq_ok] at h
  obtain ⟨message, hmessage, s₂, promise, hunstake, rfl⟩ := h
  obtain ⟨s₁, u, hunstakes, rfl, htrigger, rfl, rfl⟩ := handleUnstaking_eq_ok hunstake
  exact ⟨_, .unstakeRequested message hmessage s₁ u rfl htrigger hunstakes,
    rfl, rfl, rfl, hunstakes.lst_pos, hunstakes.near_pos, .inl ⟨htrigger, hvalid⟩⟩

/-- `on_unstake` queues the claim, or puts the books back. -/
theorem onUnstake_isAdvance {u : UnstakeOrder H} {k : Continuation}
    (h : s.onUnstake host (env.forCall d (some r)) u.lstAmount u.nearAmount u.hash u.trigger =
      .ok o) : IsAdvance host env s (.unstaked u k r) o := by
  simp only [LiquidStakingToken.onUnstake, bind_eq_ok, promiseSucceeded_forCall] at h
  obtain ⟨_, -, h⟩ := h
  split at h
  · next hok =>
      simp only [bind_eq_ok, pure_eq_ok, LiquidStakingToken.increasePendingWithdrawals_eq_ok] at h
      obtain ⟨q, happend, _, ⟨hroom, rfl⟩, rfl⟩ := h
      exact ⟨_, .queued hok q happend hroom, rfl⟩
  · next hfailed =>
      simp only [bind_eq_ok, LiquidStakingToken.rollbackStateAfterUnstake,
        LiquidStakingToken.increaseStakeAmount_eq_ok,
        LiquidStakingToken.internalDeposit_eq_ok] at h
      obtain ⟨_, ⟨_, ⟨hroom, rfl⟩, -, -, -, -, rfl⟩, h⟩ := h
      have hadvance : Advance host env s (.unstaked u k r) _ _ _ :=
        .undone (by simpa using hfailed) hroom
      cases htrigger : u.trigger <;> simp only [htrigger] at h hadvance <;>
        obtain rfl := Except.ok.inj h <;> exact ⟨_, hadvance, rfl⟩

/-- `on_withdraw_native` settles the claim, or only releases its lock. -/
theorem onWithdrawNative_isAdvance {a : Attempt}
    (h : s.onWithdrawNative host (env.forCall d (some r)) (a.hash host)
      a.tranche.withdrawalAmount = .ok o) : IsAdvance host env s (.deliveredNative a r) o := by
  simp only [LiquidStakingToken.onWithdrawNative, bind_eq_ok, pure_eq_ok,
    promiseSucceeded_forCall] at h
  obtain ⟨_, -, s₁, hsettle, rfl⟩ := h
  by_cases hok : resultOk r = true
  · rw [onlyIf_pos hok] at hsettle
    simp only [LiquidStakingToken.settleNative, bind_eq_ok, require_eq_ok,
      LiquidStakingToken.decreaseTotalBalance_eq_ok,
      LiquidStakingToken.decreasePendingWithdrawals_eq_ok] at hsettle
    obtain ⟨t, hlocked, _, hamount, _, ⟨htracked, rfl⟩, hpending, rfl⟩ := hsettle
    exact ⟨_, .paidNative hok t hlocked hamount htracked hpending, rfl⟩
  · rw [onlyIf_neg hok] at hsettle
    obtain rfl := Except.ok.inj hsettle
    exact ⟨_, .unpaidNative (by simpa using hok), rfl⟩

/-- How the settlement of a wNEAR delivery reads its result.

A result that it cannot read has no case here, as the callback panics on it. -/
theorem consumedAmount_eq_ok {amountToSend : ℕ} {isCall : Bool} {consumed : Option ℕ}
    (h : LiquidStakingToken.consumedAmount (env.forCall d (some r)) amountToSend isCall =
      .ok consumed) : Delivery amountToSend isCall r consumed := by
  unfold LiquidStakingToken.consumedAmount Env.promiseResultChecked at h
  cases r with
  | failed =>
      cases isCall with
      | true =>
          obtain rfl := Except.ok.inj h
          exact .writtenOff rfl
      | false =>
          obtain rfl := Except.ok.inj h
          exact .returned rfl
  | successful v =>
      cases isCall with
      | true =>
          by_cases hlength : v.length ≤ maxResultLength
          · simp only [Env.forCall, Option.toList_some, if_true, hlength] at h
            split at h
            · next value hvalue =>
                obtain rfl := Except.ok.inj h
                exact .reported v value rfl hlength hvalue
            · cases h
          · simp only [Env.forCall, Option.toList_some, if_true, hlength, if_false,
              reduceCtorEq] at h
      | false =>
          by_cases hlength : v.length ≤ 0
          · simp only [Env.forCall, Option.toList_some, Bool.false_eq_true, if_false, hlength,
              if_true] at h
            obtain rfl := Except.ok.inj h
            exact .sent v rfl hlength
          · simp only [Env.forCall, Option.toList_some, Bool.false_eq_true, if_false, hlength,
              reduceCtorEq] at h

/-- `on_withdraw_wnear` settles the claim in full or in part, or only releases
its lock. -/
theorem onWithdrawWnear_isAdvance {a : Attempt}
    (h : s.onWithdrawWnear host (env.forCall d (some r)) (a.hash host) a.amountToSend
      (a.cost host) a.storageToPay (a.isCall host) = .ok o) :
    IsAdvance host env s (.deliveredWnear a r) o := by
  simp only [LiquidStakingToken.onWithdrawWnear, bind_eq_ok] at h
  obtain ⟨_, -, _, -, consumed, hconsumed, h⟩ := h
  have hdelivery := consumedAmount_eq_ok hconsumed
  split at h
  · next consumed =>
      simp only [bind_eq_ok, pure_eq_ok, LiquidStakingToken.modifyStateAfterWithdraw,
        expect_eq_ok, checkedSub_eq_some,
        LiquidStakingToken.decreasePendingWithdrawals_eq_ok] at h
      obtain ⟨_, ⟨t, hlocked, _, ⟨hclaimed, rfl⟩, _, ⟨hpending, rfl⟩, hspent⟩, rfl⟩ := h
      have hadvance : _ → Advance host env s (.deliveredWnear a r) _ _ _ := fun htracked =>
        .paidWnear consumed hdelivery t hlocked _ rfl hclaimed _ rfl _ rfl htracked hpending
      -- The source books nothing out when nothing was spent, which is the same.
      by_cases hpos : 0 < NearToken.satAdd (a.cost host) a.storageToPay
      · rw [onlyIf_pos hpos, LiquidStakingToken.decreaseTotalBalance_eq_ok] at hspent
        obtain ⟨htracked, rfl⟩ := hspent
        exact ⟨_, hadvance htracked, rfl⟩
      · rw [onlyIf_neg hpos] at hspent
        obtain rfl := Except.ok.inj hspent
        have hzero : NearToken.satAdd (a.cost host) a.storageToPay = 0 := by omega
        rw [hzero] at hadvance
        exact ⟨_, hadvance (Nat.zero_le _), rfl⟩
  · obtain rfl := Except.ok.inj h
    exact ⟨_, .unpaidWnear hdelivery, rfl⟩

/-- `on_restake`, behind the validator action of a ping, leaves the state alone;
if that action has failed while NEAR is locked, it asks the validator for a
stake of zero. -/
theorem onRestake_isAdvance
    (h : s.onRestake host (env.forCall d (some r)) = .ok o) :
    IsAdvance host env s (.pinged r) o := by
  simp only [LiquidStakingToken.onRestake, bind_eq_ok] at h
  obtain ⟨_, -, h⟩ := h
  split at h
  · next hstop =>
      obtain rfl := Except.ok.inj h
      obtain rfl : r = .failed := by
        have := hstop.1
        simpa [Env.forCall] using this
      exact ⟨_, .stop, rfl, rfl, rfl, trivial⟩
  · obtain rfl := Except.ok.inj h
    exact ⟨_, .pinged, rfl⟩

end Code

end LiquidStaking
