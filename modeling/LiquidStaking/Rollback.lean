import LiquidStaking.Escrow
import LiquidStaking.Funded
import LiquidStaking.Target

/-!
# Taking back a failed stake

When the validator rejects a stake, `on_restake_or_refund` burns the LST that
wait for it, takes the stake out of the books again and sends the deposit back.
Two facts carry that.

* The LST are still there (`Deployment.escrow_le`), whatever other chains did
  meanwhile.
* What a chain may still take back is what it has put in: `Phase.entered` and
  `Phase.removed` say what a stake has added and what an unstake has taken out
  before its validator action is decided, and one equation for each receipt adds
  up over a run.

The books need not cover the stake any more.  Its LST were rounded down when
they were minted, so the NEAR left when the others have unstaked can be less
than the stake, and then the callback panics and the deposit stays with the pool
(`Deployment.refund_lost`).  Where the books do cover every stake that fails,
every failed stake is refunded and nothing of it remains
(`Deployment.failed_stakes_refunded`).
-/

namespace LiquidStaking

open Checked PromiseChain

section Definitions

variable {H : Type}

/-- The receipt is `on_restake_or_refund`.

It is the last callback of a stake; it learns how the validator action ended. -/
def Receipt.settlesStake (t : Receipt H) : Bool :=
  match t.actions with
  | [.call (.onRestakeOrRefund ..) _ _] => true
  | _ => false

/-- The callbacks of a stake get the gas reserved for them.

The contract reserves it when it builds the chain.  Nothing is said of receipts
of any other kind. -/
def StakeRuns (ev : PoolEvent H) : Prop :=
  (ev.execution.task.restakes || ev.execution.task.settlesStake) = true →
    ev.execution.context.gasExhausted = false

instance : DecidablePred (StakeRuns (H := H)) := fun _ => inferInstanceAs (Decidable (_ → _))

/-- The stake that an event is to take back: `on_restake_or_refund` finds that
the validator action failed.

This is read off the receipt and its input alone, so the event may still panic. -/
def stakeFailed (ev : PoolEvent H) : Option MintedStake :=
  match ev.execution.input, ev.execution.task.actions with
  | some r, [.call (.onRestakeOrRefund senderId stakeAmount lstTokens args depositToken) _ _] =>
      if resultOk r then none else some ⟨senderId, args, stakeAmount, lstTokens, depositToken⟩
  | _, _ => none

/-- The stake whose validator action an event answers with success.

The stake is named by the callback that waits for the answer. -/
def stakeSucceeded (ev : PoolEvent H) : Option MintedStake :=
  match ev.execution.verdict, ev.chain.tasks with
  | .answered r, _ :: u :: _ =>
      match u.actions with
      | [.call (.onRestakeOrRefund senderId stakeAmount lstTokens args depositToken) _ _] =>
          if resultOk r then some ⟨senderId, args, stakeAmount, lstTokens, depositToken⟩ else none
      | _ => none
  | _, _ => none

/-- The unstake whose validator action an event answers with success.

Here the callback that waits is `on_unstake`. -/
def unstakeSucceeded (ev : PoolEvent H) : Option (UnstakeOrder H) :=
  match ev.execution.verdict, ev.chain.tasks with
  | .answered r, _ :: u :: _ =>
      match u.actions with
      | [.call (.onUnstake lstAmount nearAmount hash trigger) _ _] =>
          if resultOk r then some ⟨lstAmount, nearAmount, hash, trigger⟩ else none
      | _ => none
  | _, _ => none

/-- The LST that a reward mints to the treasury.

The fee is converted at the rate that the rest of the reward has led to, as in
`sync_rewards`. -/
def LiquidStakingToken.feeMinted (s : LiquidStakingToken H) (reward : ℕ) : ℕ :=
  (s.addStake (reward - s.feeOn reward)).lstFor (s.feeOn reward)

/-- The fee LST that an event mints. -/
def feeMintedBy (ev : PoolEvent H) : ℕ := ev.execution.before.feeMinted (rewardOf ev)

/-- The LST that an event burns without an unstake: those of an account that
unregisters, and those that a resolver finds no sender for any more.

An account that unregisters may have been gone already, and then its balance is
zero. -/
def forcedBurned (ev : PoolEvent H) : ℕ :=
  match ev.execution.verdict, ev.execution.task.actions with
  | .committed _ _, [.call (.storageUnregister _) _ _] =>
      if ev.execution.after.token.isRegistered ev.execution.context.predecessorAccountId then 0
      else ev.execution.before.token.ftBalanceOf ev.execution.context.predecessorAccountId
  | .committed _ _, [.call (.ftResolveTransfer senderId receiverId amount) _ _] =>
      if ev.execution.before.token.isRegistered senderId then 0
      else min (ev.execution.before.token.ftBalanceOf receiverId)
        (FungibleToken.unusedAmount ev.execution.input amount)
  | _, _ => 0

namespace MintedStake

variable (host : Host H) (m : MintedStake)

/-- What is sent back for a stake that failed.

NEAR is paid out directly.  For wNEAR the NEAR is wrapped again, and the
callback behind reports it as unused, so that wNEAR's own resolver gives it back
to the sender. -/
def refund (wnear : AccountId) : List (Receipt H) :=
  match m.depositToken with
  | .native => [.pay m.senderId m.stakeAmount]
  | .wnear =>
      [.call wnear .nearDeposit m.stakeAmount nearDepositGas,
        .call host.currentAccountId (.refundWnearDeposit m.stakeAmount) 0 refundWnearDepositGas]

/-- The books still cover the stake. -/
structure Covered (s : LiquidStakingToken H) : Prop where
  staked : m.stakeAmount ≤ s.statistics.totalStakedAmount
  tracked : m.senderId ≠ host.currentAccountId → m.stakeAmount ≤ s.statistics.latestTotalBalance

instance (s : LiquidStakingToken H) : Decidable (m.Covered host s) :=
  decidable_of_iff (m.stakeAmount ≤ s.statistics.totalStakedAmount ∧
    (m.senderId ≠ host.currentAccountId → m.stakeAmount ≤ s.statistics.latestTotalBalance))
    ⟨fun h => ⟨h.1, h.2⟩, fun h => ⟨h.staked, h.tracked⟩⟩

end MintedStake

/-- Where an event is to take back a stake, the books cover it. -/
def RollbackCovered (host : Host H) (ev : PoolEvent H) : Prop :=
  ∀ m ∈ stakeFailed ev, m.Covered host ev.execution.before

instance (host : Host H) : DecidablePred (RollbackCovered host) := fun ev =>
  inferInstanceAs (Decidable (∀ m ∈ stakeFailed ev, m.Covered host ev.execution.before))

/-- The event commits and sends back the deposit of `m`. -/
def Refunds (host : Host H) (wnear : AccountId) (m : MintedStake) (ev : PoolEvent H) : Prop :=
  ev.execution.verdict = .committed (.promise (m.refund host wnear)) []

/-! ## What a chain may still take back -/

/-- What a stake in the phase has added to a total, its validator action
undecided or failed.

With `f` the stake itself this is about `total_staked_amount`, with `f` its LST
about the supply. -/
def Phase.entered (f : MintedStake → ℕ) : Phase H → ℕ
  | .batched o r => if resultOk r then f o.toMintedStake else 0
  | .restaking m _ _ => f m
  | .restaked m r => if resultOk r then 0 else f m
  | _ => 0

/-- What an unstake in the phase has taken out of a total.

The unstake burns and takes out in its first receipt, so this holds until its
callback has run. -/
def Phase.removed (g : UnstakeOrder H → ℕ) : Phase H → ℕ
  | .unstaking u _ _ _ => g u
  | .unstaked u _ r => if resultOk r then 0 else g u
  | _ => 0

/-- The stake that a phase takes back with its next receipt. -/
def Phase.failing : Phase H → Option MintedStake
  | .restaked m r => if resultOk r then none else some m
  | _ => none

/-- The stake that a phase has added for good when its receipt ends with `r`. -/
def Phase.stakes (r : PromiseResult) : Phase H → Option MintedStake
  | .restaking m _ _ => if resultOk r then some m else none
  | _ => none

/-- The unstake that a phase has taken out for good when its receipt ends with
`r`. -/
def Phase.unstakes (r : PromiseResult) : Phase H → Option (UnstakeOrder H)
  | .unstaking u _ _ _ => if resultOk r then some u else none
  | _ => none

/-- The LST that a phase burns in `s` with its next receipt, apart from an
unstake's.

Only the resolver of a transfer does so, for a sender who has unregistered
meanwhile. -/
def Phase.burns (s : LiquidStakingToken H) : Phase H → ℕ
  | .continuing (.resolve senderId receiverId amount) r =>
      if s.token.isRegistered senderId then 0
      else min (s.token.ftBalanceOf receiverId) (FungibleToken.unusedAmount (some r) amount)
  | _ => 0

/-- The LST that a call from outside burns between `s` and `s'`. -/
def Method.burns (env : Env) (s s' : LiquidStakingToken H) : Method H → ℕ
  | .storageUnregister _ =>
      if s'.token.isRegistered env.predecessorAccountId then 0
      else s.token.ftBalanceOf env.predecessorAccountId
  | _ => 0

end Definitions

/-! ## Reading an event off its phase -/

section Events

variable {H : Type} {host : Host H} {wnear : AccountId} {c : PoolChain H} {e : PoolExecution H}
  {p : Phase H} {rest : List (Receipt H)} {r : PromiseResult}

/-- Which stake an event is to take back. -/
theorem Phase.stakeFailed_eq (htasks : c.tasks = p.tasks host wnear) (hinput : c.input = p.input)
    (hhead : c.tasks = e.task :: rest) (hread : e.input = c.input) :
    stakeFailed ⟨c, e⟩ = p.failing := by
  rw [hhead] at htasks
  rw [hinput] at hread
  unfold stakeFailed
  dsimp only
  rw [hread]
  cases p with
  | continuing k r' =>
      cases k with
      | finish => cases htasks
      | resolve | notify =>
          obtain ⟨htask, -⟩ := List.cons.inj htasks
          rw [htask]
          rfl
  | unwrapped | batched | restaked | rewrapped | unstaked | deliveredNative | deliveredWnear
  | pinged =>
      obtain ⟨htask, -⟩ := List.cons.inj htasks
      rw [htask]
      rfl
  | _ => rfl

/-- What is decided when a receipt is answered from elsewhere. -/
theorem Phase.succeeded_eq (htasks : c.tasks = p.tasks host wnear)
    (haway : p.place host = .away) (hverdict : e.verdict = .answered r) :
    stakeSucceeded ⟨c, e⟩ = p.stakes r ∧ unstakeSucceeded ⟨c, e⟩ = p.unstakes r := by
  unfold stakeSucceeded unstakeSucceeded
  dsimp only
  rw [hverdict, htasks]
  cases p with
  | continuing k r' => cases k <;> cases haway
  | sending receiver senderId amount msg gas k => cases k <;> exact ⟨rfl, rfl⟩
  | unstaking u amount key k => exact ⟨rfl, rfl⟩
  | restaking m amount key => exact ⟨rfl, rfl⟩
  | unwrapped | batching | batched | restaked | rewrapped | unstaked | deliveredNative
  | deliveredWnear | pinged => cases haway
  | _ => exact ⟨rfl, rfl⟩

/-- Nothing is decided when a receipt runs here.

A validator action runs elsewhere, and its answer is an event of its own. -/
theorem succeeded_none (hverdict : ∀ r, e.verdict ≠ .answered r) :
    stakeSucceeded ⟨c, e⟩ = none ∧ unstakeSucceeded ⟨c, e⟩ = none := by
  unfold stakeSucceeded unstakeSucceeded
  dsimp only
  cases hv : e.verdict with
  | answered r => exact absurd hv (hverdict r)
  | committed | panicked => exact ⟨rfl, rfl⟩

/-- What a committed callback burns. -/
theorem Phase.forcedBurned_eq {ret : Return H} {side : List (Receipt H)}
    (htasks : c.tasks = p.tasks host wnear) (hinput : c.input = p.input)
    (hhead : c.tasks = e.task :: rest) (hread : e.input = c.input)
    (hhere : p.place host = .here) (hverdict : e.verdict = .committed ret side) :
    forcedBurned ⟨c, e⟩ = p.burns e.before := by
  rw [hhead] at htasks
  rw [hinput] at hread
  unfold forcedBurned
  dsimp only
  rw [hverdict, hread]
  cases p with
  | continuing k r' =>
      cases k with
      | finish => cases htasks
      | resolve | notify =>
          obtain ⟨htask, -⟩ := List.cons.inj htasks
          rw [htask]
          rfl
  | batching o refundTo =>
      obtain ⟨htask, -⟩ := List.cons.inj htasks
      rw [htask]
      cases htoken : o.depositToken <;> cases hstorage : o.args.isStorageDeposit <;>
        simp [StakeOrder.batch, htoken, hstorage, Phase.burns]
  | unwrapped | batched | restaked | rewrapped | unstaked | sending | deliveredNative
  | deliveredWnear | pinged =>
      obtain ⟨htask, -⟩ := List.cons.inj htasks
      rw [htask]
      rfl
  | _ => cases hhere

end Events

/-! ## What each receipt does to the books -/

section Steps

variable {H : Type} {host : Host H} {env : Env} {s s' s₁ : LiquidStakingToken H}
  {p p' : Phase H} {side : List (Receipt H)} {excluded : ℕ}

/-- Without a reward there is no fee. -/
@[simp] theorem LiquidStakingToken.feeMinted_zero (s : LiquidStakingToken H) :
    s.feeMinted 0 = 0 := by
  simp [LiquidStakingToken.feeMinted, LiquidStakingToken.feeOn, LiquidStakingToken.lstFor]

/-- The fee depends on nothing but the books. -/
theorem LiquidStakingToken.feeMinted_congr (hstats : s₁.statistics.totalStakedAmount =
      s.statistics.totalStakedAmount ∧
      s₁.statistics.protocolFeeBps = s.statistics.protocolFeeBps)
    (hsupply : s₁.token.totalSupply = s.token.totalSupply) (reward : ℕ) :
    s₁.feeMinted reward = s.feeMinted reward := by
  obtain ⟨hstake, hfee⟩ := hstats
  unfold LiquidStakingToken.feeMinted LiquidStakingToken.lstFor LiquidStakingToken.feeOn
  simp only [LiquidStakingToken.addStake_token,
    LiquidStakingToken.addStake_statistics_totalStakedAmount, hstake, hfee, hsupply]

/-- Without a sync nothing is added to what a receipt does itself.

This brings the receipts that cannot sync into the form of those that can. -/
theorem books_of_quiet {stake stake' supply supply' : ℕ}
    (hquiet : s'.statistics.lastEpochSynced = s.statistics.lastEpochSynced)
    (hstake : stake' = stake) (hsupply : supply' = supply) :
    stake' = stake + rewardIn env excluded s s' ∧
      supply' = supply + s.feeMinted (rewardIn env excluded s s') := by
  rw [rewardIn_eq_zero hquiet, LiquidStakingToken.feeMinted_zero]
  exact ⟨hstake, hsupply⟩

/-- A sync adds the reward to the stake, and the fee to the supply.

Both are stated by `rewardIn`, which reads the reward off the states before and
after. -/
theorem LiquidStakingToken.Synced.books_eq {result : LiquidStakingToken.SyncRewardsResult}
    (h : LiquidStakingToken.Synced env.epochHeight
      (env.accountLockedBalance + env.accountBalance) excluded s s₁ result) :
    s₁.statistics.totalStakedAmount =
        s.statistics.totalStakedAmount + rewardIn env excluded s s₁ ∧
      s₁.token.totalSupply = s.token.totalSupply + s.feeMinted (rewardIn env excluded s s₁) := by
  rw [h.rewardIn_eq]
  cases h with
  | idle result none =>
      cases result with
      | rewardsSynced reward => exact absurd rfl (none reward)
      | _ => exact ⟨rfl, congrArg (_ + ·) s.feeMinted_zero.symm⟩
  | reward reward feeLst _ _ _ _ feeLst_eq => exact ⟨rfl, congrArg _ feeLst_eq⟩

/-- An unstake takes its NEAR and its LST out of what its sync leaves. -/
theorem Unstakes.books_eq [DecidableEq H] {message : UnstakeMessage} {u : UnstakeOrder H}
    (h : Unstakes host env s message s₁ u) :
    (u.burn host s₁).statistics.totalStakedAmount + u.nearAmount =
        s.statistics.totalStakedAmount + rewardIn env 0 s (u.burn host s₁) ∧
      (u.burn host s₁).token.totalSupply + u.lstAmount =
        s.token.totalSupply + s.feeMinted (rewardIn env 0 s (u.burn host s₁)) := by
  obtain ⟨result, synced⟩ := h.synced
  obtain ⟨hstake, hsupply⟩ := synced.books_eq
  exact ⟨(Nat.sub_add_cancel h.near_le).trans hstake,
    (Nat.sub_add_cancel h.supply_le).trans hsupply⟩

variable [DecidableEq H]

/-- A call from outside has nothing to take back. -/
theorem Entry.entered_eq {m : Method H} (h : Entry host env s m s' p side)
    (f : MintedStake → ℕ) (g : UnstakeOrder H → ℕ) : p.entered f = 0 ∧ p.removed g = 0 := by
  cases h <;> exact ⟨rfl, rfl⟩

/-- **What a call from outside does to the books.**

A stake is quoted only, so its call leaves both totals to the sync.  Of all
calls only `storage_unregister` burns by force. -/
theorem Entry.books_eq {m : Method H} (h : Entry host env s m s' p side)
    (hbalanced : s.token.Balanced) :
    s'.statistics.totalStakedAmount = s.statistics.totalStakedAmount +
        rewardIn env (m.excludes env.attachedDeposit) s s' ∧
      s'.token.totalSupply + m.burns env s s' = s.token.totalSupply +
        s.feeMinted (rewardIn env (m.excludes env.attachedDeposit) s s') := by
  cases h with
  | stake args s₁ result o synced => exact synced.books_eq
  | pingIdle result s₁ synced | ping reward s₁ synced => exact synced.books_eq
  | setFee feeBps s₁ result _ _ _ synced => exact synced.books_eq
  | setKey key s₁ result _ _ synced => exact synced.books_eq
  | storageNew accountId registrationOnly fresh =>
      have hsupply := registerIfNew_totalSupply s (accountId.getD env.predecessorAccountId)
      simpa [rewardIn, Method.burns] using hsupply
  | unregister force holders =>
      have hheld := hbalanced.ftBalanceOf_le env.predecessorAccountId
      have hgone : (s.token.unregister env.predecessorAccountId).isRegistered
          env.predecessorAccountId = false := by simp [FungibleToken.isRegistered_unregister]
      refine books_of_quiet rfl rfl ?_
      show s.token.totalSupply - s.token.ftBalanceOf env.predecessorAccountId +
        (if (s.token.unregister env.predecessorAccountId).isRegistered env.predecessorAccountId
          then 0 else s.token.ftBalanceOf env.predecessorAccountId) = s.token.totalSupply
      rw [hgone]
      exact Nat.sub_add_cancel hheld
  | unregisterNone =>
      refine books_of_quiet rfl rfl (Nat.add_eq_left.mpr ?_)
      show (if s.token.isRegistered env.predecessorAccountId then 0
        else s.token.ftBalanceOf env.predecessorAccountId) = 0
      cases hregistered : s.token.isRegistered env.predecessorAccountId with
      | true => rfl
      | false => exact FungibleToken.ftBalanceOf_of_not_isRegistered hregistered
  | _ => simp [rewardIn, Method.burns]

omit [DecidableEq H] in
/-- What a resolver burns.

To a registered sender the LST go back, and the supply stays as it is. -/
theorem FungibleToken.Resolved.supply_eq {t t' : FungibleToken}
    {unused amount used burned : ℕ} {sender receiver : AccountId}
    (h : FungibleToken.Resolved unused amount sender receiver t t' used burned)
    (hbalanced : t.Balanced) :
    t'.totalSupply + (if t.isRegistered sender then 0
      else min (t.ftBalanceOf receiver) unused) = t.totalSupply := by
  cases h with
  | kept none => split_ifs <;> omega
  | returned refund refund_eq pos registered =>
      rw [if_pos registered]
      rfl
  | burned refund refund_eq pos gone =>
      rw [gone, if_neg Bool.false_ne_true, ← refund_eq]
      have hheld : burned ≤ t.ftBalanceOf receiver := refund_eq ▸ min_le_left _ _
      exact Nat.sub_add_cancel (hheld.trans (hbalanced.ftBalanceOf_le _))

/-- **What a callback does to the books**: it recognizes a reward, burns for a
sender who is gone, and changes them by what its chain has entered and removed. -/
theorem Advance.books_eq (h : Advance host env s p s' p' side) (hbalanced : s.token.Balanced)
    (hpool : s.token.isRegistered host.currentAccountId = true) :
    s'.statistics.totalStakedAmount + p'.removed UnstakeOrder.nearAmount +
          p.entered MintedStake.stakeAmount =
        s.statistics.totalStakedAmount + p'.entered MintedStake.stakeAmount +
          p.removed UnstakeOrder.nearAmount + rewardIn env 0 s s' ∧
      s'.token.totalSupply + p'.removed UnstakeOrder.lstAmount +
          p.entered MintedStake.lstTokens + p.burns s =
        s.token.totalSupply + p'.entered MintedStake.lstTokens +
          p.removed UnstakeOrder.lstAmount + s.feeMinted (rewardIn env 0 s s') := by
  cases h with
  | unwrapQuoted ok s₁ result o synced => exact synced.books_eq
  | unwrapRejected ok s₁ result synced => exact synced.books_eq
  | @minted o =>
      exact books_of_quiet rfl rfl rfl
  | @mintedRegistering o =>
      have hsupply := registerIfNew_totalSupply s o.args.receiverId
      refine books_of_quiet rfl rfl ?_
      show (s.registerIfNew o.args.receiverId).token.totalSupply + o.lstTokens =
        s.token.totalSupply + o.lstTokens
      rw [hsupply]
  | restake ok | restakeRefund ok | keptOnPool ok | queued ok =>
      refine books_of_quiet rfl ?_ ?_ <;> simp [Phase.entered, Phase.removed, Phase.burns, ok]
  -- Now the stake is final, and its LST move from the pool to the receiver.
  | @handedOver m r ok registered escrow | @handedOverCall m r ok registered escrow =>
      have hsupply : s.token.totalSupply - m.lstTokens + m.lstTokens = s.token.totalSupply :=
        Nat.sub_add_cancel (escrow.trans (hbalanced.ftBalanceOf_le _))
      refine books_of_quiet rfl ?_ ?_
      · simp [Phase.entered, Phase.removed, ok]
      · simpa [Phase.entered, Phase.removed, Phase.burns, ok] using hsupply
  | @rolledBack m r failed escrow supply staked =>
      have hstake : s.statistics.totalStakedAmount - m.stakeAmount + m.stakeAmount =
        s.statistics.totalStakedAmount := Nat.sub_add_cancel staked
      have hsupply : s.token.totalSupply - m.lstTokens + m.lstTokens = s.token.totalSupply :=
        Nat.sub_add_cancel supply
      refine books_of_quiet rfl ?_ ?_
      · cases m.depositToken <;> simpa [Phase.entered, Phase.removed, failed] using hstake
      · cases m.depositToken <;>
          simpa [Phase.entered, Phase.removed, Phase.burns, failed] using hsupply
  | @undone u k r failed =>
      refine books_of_quiet rfl ?_ ?_ <;>
        simp [Phase.entered, Phase.removed, Phase.burns, failed]
  | nothingRefused message _ t used burned resolved =>
      have hsupply := resolved.totalSupply_eq hpool
      exact books_of_quiet rfl rfl hsupply
  | resolved t used burned resolved =>
      have hsupply := resolved.supply_eq hbalanced
      exact books_of_quiet rfl rfl hsupply
  | @refused lstTokens args r message _ t used burned resolved s₁ u _ _ unstakes =>
      obtain ⟨hstake, hsupply⟩ := unstakes.books_eq
      have hsame := resolved.totalSupply_eq hpool
      have hfee : ∀ reward,
          (s.retokenBoth t host.currentAccountId args.receiverId).feeMinted reward =
            s.feeMinted reward := LiquidStakingToken.feeMinted_congr ⟨rfl, rfl⟩ hsame
      rw [hfee] at hsupply
      exact ⟨hstake, hsupply.trans (congrArg (· + _) hsame)⟩
  | unstakeRequested message _ s₁ u _ _ unstakes => exact unstakes.books_eq
  | _ =>
      exact books_of_quiet rfl rfl rfl

omit [DecidableEq H] in
/-- What an answer decides leaves the chain.

A success makes the change final, so the chain no longer counts it; after a
failure it still does. -/
theorem Phase.answered_eq (hplace : p.place host = .away) (f : MintedStake → ℕ)
    (g : UnstakeOrder H → ℕ) (r : PromiseResult) :
    (p.settle r).entered f + (p.stakes r).elim 0 f = p.entered f ∧
      (p.settle r).removed g + (p.unstakes r).elim 0 g = p.removed g := by
  cases p with
  | restaking m amount key | unstaking u amount key k =>
      cases hok : resultOk r <;>
        simp [Phase.settle, Phase.entered, Phase.removed, Phase.stakes, Phase.unstakes, hok]
  | batching | batched | restaked | unstaked => cases hplace
  | _ => exact ⟨rfl, rfl⟩

omit [DecidableEq H] in
/-- A panic takes nothing back, and drops nothing, in a chain that has nothing
to take back. -/
theorem Phase.panicked_eq (hhere : p.place host = .here) (f : MintedStake → ℕ)
    (g : UnstakeOrder H → ℕ) (hbatched : ∀ o r, p = .batched o r → resultOk r = false)
    (hrestaked : p.failing = none) (hunstaked : ∀ u k r, p ≠ .unstaked u k r) :
    (p.settle .failed).entered f = p.entered f ∧
      (p.settle .failed).removed g = p.removed g := by
  cases p with
  | restaking | unstaking => cases hhere
  | batched o r => simp [Phase.settle, Phase.entered, Phase.removed, hbatched o r rfl]
  | restaked m r =>
      cases hok : resultOk r with
      | true => simp [Phase.settle, Phase.entered, Phase.removed, hok]
      | false => simp [Phase.failing, hok] at hrestaked
  | unstaked u k r => exact absurd rfl (hunstaked u k r)
  | _ => exact ⟨rfl, rfl⟩

omit [DecidableEq H] in
/-- What is on the pool's account can be taken off it. -/
theorem internalWithdraw_escrow {lst : ℕ} (hsound : s.token.Sound [host.currentAccountId])
    (hescrow : lst ≤ s.token.ftBalanceOf host.currentAccountId) :
    s.internalWithdraw host.currentAccountId lst = .ok (s.debit host.currentAccountId lst) :=
  LiquidStakingToken.internalWithdraw_eq_ok.mpr
    ⟨hsound.registered _ (List.mem_singleton_self _), hescrow,
      hescrow.trans (hsound.balanced.ftBalanceOf_le _), rfl⟩

omit [DecidableEq H] in
/-- The rollback succeeds when the LST are there and the books cover the stake.

Each of the three subtractions in it panics on underflow, and each has its
hypothesis here. -/
theorem rollbackStateAfterStake_ok {m : MintedStake}
    (hsound : s.token.Sound [host.currentAccountId])
    (hescrow : m.lstTokens ≤ s.token.ftBalanceOf host.currentAccountId)
    (hcovered : m.Covered host s) :
    s.rollbackStateAfterStake host m.senderId m.stakeAmount m.lstTokens =
      .ok (m.rollback host s) := by
  have hstake : (s.debit host.currentAccountId m.lstTokens).decreaseStakeAmount m.stakeAmount =
      .ok ((s.debit host.currentAccountId m.lstTokens).subStake m.stakeAmount) :=
    LiquidStakingToken.decreaseStakeAmount_eq_ok.mpr ⟨hcovered.staked, rfl⟩
  unfold LiquidStakingToken.rollbackStateAfterStake MintedStake.rollback
  rw [internalWithdraw_escrow hsound hescrow, ok_bind, hstake, ok_bind]
  by_cases hself : m.senderId = host.currentAccountId
  · rw [onlyIf_neg (not_not.mpr hself), if_pos hself]
    rfl
  · rw [onlyIf_pos hself, if_neg hself]
    exact LiquidStakingToken.decreaseTotalBalance_eq_ok.mpr ⟨hcovered.tracked hself, rfl⟩

/-- **A failed stake is refunded** when its callback runs.

The state is the one before the mint but for what other chains did in between. -/
theorem onRestakeOrRefund_refunds {m : MintedStake} {r : PromiseResult}
    (hself : env.predecessorAccountId = host.currentAccountId) (hfailed : resultOk r = false)
    (hsound : s.token.Sound [host.currentAccountId])
    (hescrow : m.lstTokens ≤ s.token.ftBalanceOf host.currentAccountId)
    (hcovered : m.Covered host s) :
    (platform host).execute env (some r) (m.settleCall host) s =
      .ok (Outcome.promise (m.rollback host s) (m.refund host s.wnearId)) := by
  have hprivate : (env.forCall 0 (some r)).requirePrivate host.currentAccountId = .ok () :=
    require_eq_ok.mpr hself
  have hread : (env.forCall 0 (some r)).promiseSucceeded = false :=
    (promiseSucceeded_forCall env 0 r).trans hfailed
  have hcalls : (platform host).execute env (some r) (m.settleCall host) s =
      s.onRestakeOrRefund host (env.forCall 0 (some r)) m.senderId m.stakeAmount m.lstTokens
        m.args m.depositToken := rfl
  unfold LiquidStakingToken.onRestakeOrRefund at hcalls
  rw [hcalls, hprivate, ok_bind, hread, if_neg Bool.false_ne_true,
    rollbackStateAfterStake_ok hsound hescrow hcovered, ok_bind]
  unfold MintedStake.refund
  cases m.depositToken <;> rfl

/-- What commits in a phase runs here. -/
theorem Advance.place_eq (h : Advance host env s p s' p' side) : p.place host = .here := by
  cases h with
  | unstakeRequested => exact if_pos rfl
  | _ => rfl

/-- What a committed call from outside burns. -/
theorem Entry.forcedBurned_eq {c : PoolChain H} {e : PoolExecution H} {m : Method H}
    {deposit gas : ℕ} {ret : Return H}
    (h : Entry host e.context e.before m e.after p side)
    (htask : e.task.actions = [.call m deposit gas]) (hverdict : e.verdict = .committed ret side) :
    forcedBurned ⟨c, e⟩ = m.burns e.context e.before e.after := by
  unfold forcedBurned
  dsimp only
  rw [hverdict, htask]
  generalize e.before = s, e.after = s' at h
  cases h <;> rfl

/-- A callback that commits with a failed stake has rolled it back, and refunds
it. -/
theorem Advance.rolledBack_eq {m : MintedStake} {r : PromiseResult} (wnear : AccountId)
    (h : Advance host env s (.restaked m r) s' p' side) (hfailed : resultOk r = false) :
    m.Covered host s ∧ side = [] ∧ p'.tasks host wnear = m.refund host wnear := by
  cases h with
  | keptOnPool ok | handedOver ok | handedOverCall ok =>
      rw [hfailed] at ok
      cases ok
  | rolledBack _ escrow supply staked tracked =>
      refine ⟨⟨staked, tracked⟩, rfl, ?_⟩
      unfold MintedStake.refund
      cases m.depositToken <;> rfl

end Steps

/-! ## Runs -/

section Reaches

variable {H : Type} [DecidableEq H] {host : Host H} {d : Deployment host}
  {events : List (PoolEvent H)} {sys : PoolSystem H} {c : PoolChain H} {e : PoolExecution H}
  {Good : PoolEvent H → Prop} {p : Phase H} {r : PromiseResult}

/-- What the phase of a chain says of the event it is in. -/
theorem Describes.stakeFailed_eq (hnow : Describes host d.wnearId c p)
    (turn : d.Turn Good events sys c e) : stakeFailed ⟨c, e⟩ = p.failing := by
  obtain ⟨rest, hhead⟩ := turn.fires.tasks_eq
  exact Phase.stakeFailed_eq hnow.tasks_eq hnow.input_eq hhead turn.fires.input_eq

omit [DecidableEq H] in
/-- A phase with a stake to take back is its last callback, with a failed
result. -/
theorem Phase.failing_eq_some {m : MintedStake} (h : p.failing = some m) :
    ∃ r, p = .restaked m r ∧ resultOk r = false := by
  cases p with
  | restaked m' r =>
      cases hok : resultOk r with
      | true => simp [Phase.failing, hok] at h
      | false =>
          simp only [Phase.failing, hok, Bool.false_eq_true, if_false, Option.some.injEq] at h
          exact ⟨r, by rw [h], hok⟩
  | _ => cases h

/-- The escrow of a stake is there when its last callback runs.

All that is in escrow is on the pool's own account, and a chain counts its own
part of it. -/
theorem Deployment.escrow_kept (turn : d.Turn Good events sys c e)
    (hunstake : ∀ ev ∈ events, UnstakeRuns ev) {m : MintedStake}
    (hnow : Describes host d.wnearId c (.restaked m r)) :
    m.lstTokens ≤ e.before.token.ftBalanceOf host.currentAccountId := by
  rw [turn.fires.before_eq]
  exact d.escrow_le_of_mem turn.run hunstake (hnow.mem turn.origin) hnow

/-- **A failed stake is refunded** exactly if the books cover it.

If they do, the callback commits, since it has its gas and the escrow is kept.
If it commits, its subtractions went through. -/
theorem Deployment.refunds_iff (turn : d.Turn Good events sys c e)
    (hunstake : ∀ ev ∈ events, UnstakeRuns ev) (hgas : StakeRuns ⟨c, e⟩) {m : MintedStake}
    (hfailed : stakeFailed ⟨c, e⟩ = some m) :
    Refunds host d.wnearId m ⟨c, e⟩ ↔ m.Covered host e.before := by
  cases d.transition turn with
  | entered m' p side deposit gas fresh =>
      have hread : e.input = none := turn.fires.input_eq.trans (by rw [fresh]; rfl)
      simp only [stakeFailed, hread] at hfailed
      cases hfailed
  | advanced p p' side now self advance next verdict =>
      rw [now.stakeFailed_eq turn] at hfailed
      obtain ⟨r, rfl, hno⟩ := Phase.failing_eq_some hfailed
      obtain ⟨hcovered, rfl, hrefund⟩ := advance.rolledBack_eq d.wnearId hno
      obtain ⟨ret, hverdict⟩ := verdict
      refine iff_of_true ?_ hcovered
      -- What the callback goes on with is all that its chain has ahead.
      have hsent : e.next = m.refund host d.wnearId := by
        have htasks := next.tasks_eq
        rwa [Chain.resume_tasks, now.tasks_eq, Phase.tasks, List.tail_cons, List.append_nil,
          hrefund] at htasks
      unfold Refunds
      unfold Execution.next at hsent
      rw [hverdict] at hsent ⊢
      cases ret with
      | value v =>
          unfold MintedStake.refund at hsent
          cases htoken : m.depositToken <;> rw [htoken] at hsent <;> cases hsent
      | promise ts => rw [show ts = m.refund host d.wnearId from hsent]
  | panicked p now here self verdict same next =>
      rw [now.stakeFailed_eq turn] at hfailed
      obtain ⟨r, rfl, hno⟩ := Phase.failing_eq_some hfailed
      refine ⟨fun hrefunds => absurd (verdict.symm.trans hrefunds) (by simp), fun hcovered => ?_⟩
      -- With its gas, the escrow and the books there is nothing left to panic
      -- for.
      exfalso
      obtain ⟨rest, hhead⟩ := turn.fires.tasks_eq
      obtain ⟨htask, -⟩ := List.cons.inj (hhead.symm.trans now.tasks_eq)
      have hread : e.input = some r := turn.fires.input_eq.trans now.input_eq
      have hlegal := turn.fires.legal
      simp only [Platform.Legal, verdict, hread, htask] at hlegal
      have hexecutes := onRestakeOrRefund_refunds self hno (d.turn_sound turn)
        (d.escrow_kept turn hunstake now) hcovered
      rcases hlegal.2.2 with hexhausted | ⟨msg, herror⟩
      · have hroom := hgas (by rw [htask]; rfl)
        exact absurd (hroom.symm.trans hexhausted) (by simp)
      · cases hexecutes.symm.trans herror
  | answered p r now away verdict same next =>
      rw [now.stakeFailed_eq turn] at hfailed
      obtain ⟨r, rfl, -⟩ := Phase.failing_eq_some hfailed
      cases away

/-- A stake that was minted goes on to its validator action.

The callback in between changes nothing and can only run out of gas. -/
theorem StakeRuns.not_panicked {o : StakeOrder} (hgas : StakeRuns ⟨c, e⟩)
    (turn : d.Turn Good events sys c e) (hnow : Describes host d.wnearId c (.batched o r))
    (hself : e.context.predecessorAccountId = host.currentAccountId)
    (hok : resultOk r = true) : e.verdict ≠ .panicked := by
  intro hverdict
  obtain ⟨rest, hhead⟩ := turn.fires.tasks_eq
  obtain ⟨htask, -⟩ := List.cons.inj (hhead.symm.trans hnow.tasks_eq)
  have hread : e.input = some r := turn.fires.input_eq.trans hnow.input_eq
  have hlegal := turn.fires.legal
  simp only [Platform.Legal, hverdict, hread, htask] at hlegal
  rcases hlegal.2.2 with hexhausted | ⟨msg, herror⟩
  · have hroom := hgas (by rw [htask]; rfl)
    exact absurd (hroom.symm.trans hexhausted) (by simp)
  · cases (restakeOrRefund_ok hself hok).symm.trans herror

/-- Every callback that could take something back runs, and finds what it takes.

This is what an event must satisfy for its rollbacks to be complete. -/
structure RollsBack (host : Host H) (ev : PoolEvent H) : Prop where
  unstake : UnstakeRuns ev
  stake : StakeRuns ev
  covered : RollbackCovered host ev

/-- A panic never hits a callback that would have taken something back: each has
its gas, and finds what it takes. -/
theorem Deployment.panicked_takesBack (turn : d.Turn (RollsBack host) events sys c e)
    (now : Describes host d.wnearId c p)
    (self : e.context.predecessorAccountId = host.currentAccountId)
    (verdict : e.verdict = .panicked) :
    (∀ o r, p = .batched o r → resultOk r = false) ∧ p.failing = none ∧
      ∀ u k r, p ≠ .unstaked u k r := by
  refine ⟨?_, ?_, ?_⟩
  · rintro o r rfl
    cases hok : resultOk r with
    | true => exact absurd verdict (turn.now.stake.not_panicked turn now self hok)
    | false => rfl
  · cases hfailing : p.failing with
    | none => rfl
    | some m =>
        have hfailed := (now.stakeFailed_eq turn).trans hfailing
        have hrefunds := (d.refunds_iff turn (fun ev hev => (turn.good ev hev).unstake)
          turn.now.stake hfailed).mpr (turn.now.covered m hfailed)
        cases verdict.symm.trans hrefunds
  · rintro u k r rfl
    exact turn.now.unstake.not_panicked now turn.fires self (d.turn_sound turn)
      (turn.fires.before_eq ▸ d.queueSound turn.run) verdict

/-- **What an event does to the books.**

Subtractions are avoided: what is final or taken back stands on one side, what
is added on the other.  A commit is `Advance.books_eq` or `Entry.books_eq`, an
answer `Phase.answered_eq`, a panic `Phase.panicked_eq`. -/
theorem Deployment.books_turn (turn : d.Turn (RollsBack host) events sys c e) :
    e.after.statistics.totalStakedAmount +
          carried host (Phase.removed UnstakeOrder.nearAmount) (c.resume e) +
          carried host (Phase.entered MintedStake.stakeAmount) c +
          (unstakeSucceeded ⟨c, e⟩).elim 0 UnstakeOrder.nearAmount =
        e.before.statistics.totalStakedAmount +
          carried host (Phase.entered MintedStake.stakeAmount) (c.resume e) +
          carried host (Phase.removed UnstakeOrder.nearAmount) c +
          ((stakeSucceeded ⟨c, e⟩).elim 0 MintedStake.stakeAmount + rewardOf ⟨c, e⟩) ∧
      e.after.token.totalSupply +
          carried host (Phase.removed UnstakeOrder.lstAmount) (c.resume e) +
          carried host (Phase.entered MintedStake.lstTokens) c +
          ((unstakeSucceeded ⟨c, e⟩).elim 0 UnstakeOrder.lstAmount + forcedBurned ⟨c, e⟩) =
        e.before.token.totalSupply +
          carried host (Phase.entered MintedStake.lstTokens) (c.resume e) +
          carried host (Phase.removed UnstakeOrder.lstAmount) c +
          ((stakeSucceeded ⟨c, e⟩).elim 0 MintedStake.lstTokens + feeMintedBy ⟨c, e⟩) := by
  have hsound := d.turn_sound turn
  obtain ⟨rest, hhead⟩ := turn.fires.tasks_eq
  have hread := turn.fires.input_eq
  have hfee : feeMintedBy ⟨c, e⟩ = e.before.feeMinted (rewardOf ⟨c, e⟩) := rfl
  have hreward : rewardOf ⟨c, e⟩ = rewardIn e.context (excludedBy e.task) e.before e.after := rfl
  rw [hfee, hreward]
  cases d.transition turn with
  | entered m p side deposit gas fresh task_eq deposit_eq external entry next verdict =>
      obtain ⟨ret, hverdict⟩ := verdict
      obtain ⟨hstaked, hunstaked⟩ := succeeded_none (c := c) (e := e) (by simp [hverdict])
      obtain ⟨-, -, hexcluded, -⟩ := entered_flow host (c := c) task_eq
        (hread.trans (by rw [fresh]; rfl)) hverdict
      -- The chain has only just begun.
      have hnone : ∀ w : Phase H → ℕ, carried host w c = 0 := fun w => by
        rw [fresh, carried_call w task_eq]
      obtain ⟨hstake, hsupply⟩ := entry.books_eq hsound.balanced
      have hburned := entry.forcedBurned_eq (c := c) task_eq hverdict
      obtain ⟨hnear, hremoved⟩ := entry.entered_eq MintedStake.stakeAmount UnstakeOrder.nearAmount
      obtain ⟨hlst, hburning⟩ := entry.entered_eq MintedStake.lstTokens UnstakeOrder.lstAmount
      rw [deposit_eq] at hstake hsupply
      rw [hstaked, hunstaked, hexcluded, hburned]
      simp only [hnone, next.carried_eq, hnear, hremoved, hlst, hburning, Option.elim_none]
      omega
  | advanced p p' side now self advance next verdict =>
      obtain ⟨ret, hverdict⟩ := verdict
      obtain ⟨hstaked, hunstaked⟩ := succeeded_none (c := c) (e := e) (by simp [hverdict])
      obtain ⟨-, -, hexcluded, -⟩ := Phase.committed_flow advance now.valid now.tasks_eq
        now.input_eq hhead hread hverdict
      have hburned := Phase.forcedBurned_eq now.tasks_eq now.input_eq hhead hread
        advance.place_eq hverdict
      obtain ⟨hstake, hsupply⟩ := advance.books_eq hsound.balanced
        (hsound.registered _ (List.mem_singleton_self _))
      rw [hstaked, hunstaked, hexcluded, hburned]
      simp only [now.carried_eq, next.carried_eq, Option.elim_none]
      omega
  | panicked p now here self verdict same next =>
      obtain ⟨hstaked, hunstaked⟩ := succeeded_none (c := c) (e := e) (by simp [verdict])
      have hburned : forcedBurned ⟨c, e⟩ = 0 := by simp only [forcedBurned, verdict]
      obtain ⟨hbatched, hrestaked, hunstaking⟩ := d.panicked_takesBack turn now self verdict
      obtain ⟨hstake, hremoved⟩ := Phase.panicked_eq here MintedStake.stakeAmount
        UnstakeOrder.nearAmount hbatched hrestaked hunstaking
      obtain ⟨hlst, hburning⟩ := Phase.panicked_eq here MintedStake.lstTokens
        UnstakeOrder.lstAmount hbatched hrestaked hunstaking
      rw [hstaked, hunstaked, hburned, same, rewardIn_eq_zero rfl,
        LiquidStakingToken.feeMinted_zero]
      simp only [now.carried_eq, next.carried_eq, hstake, hremoved, hlst, hburning,
        Option.elim_none]
      omega
  | answered p r now away verdict same next =>
      obtain ⟨hstaked, hunstaked⟩ := Phase.succeeded_eq now.tasks_eq away verdict
      have hburned : forcedBurned ⟨c, e⟩ = 0 := by simp only [forcedBurned, verdict]
      have hnear := Phase.answered_eq away MintedStake.stakeAmount UnstakeOrder.nearAmount r
      have hlst := Phase.answered_eq away MintedStake.lstTokens UnstakeOrder.lstAmount r
      rw [hstaked, hunstaked, hburned, same, rewardIn_eq_zero rfl,
        LiquidStakingToken.feeMinted_zero]
      simp only [now.carried_eq, next.carried_eq]
      omega

/-- A chain that is done has nothing to take back. -/
theorem entered_of_done (run : d.Reaches events sys) (hdone : ∀ c ∈ sys.chains, c.tasks = [])
    (f : MintedStake → ℕ) (g : UnstakeOrder H → ℕ) :
    ∀ c ∈ sys.chains, carried host (Phase.entered f) c = 0 ∧
      carried host (Phase.removed g) c = 0 := by
  intro c hc
  obtain ⟨p, hp⟩ := (d.phased run).described c hc
  have htasks := hp.tasks_eq.symm.trans (hdone c hc)
  rw [hp.carried_eq, hp.carried_eq]
  cases p <;> first | exact ⟨rfl, rfl⟩ | cases htasks

/-- Payments on the side have nothing to take back. -/
theorem entered_spawned (turn : d.Turn Good events sys c e) (f : MintedStake → ℕ)
    (g : UnstakeOrder H → ℕ) : ∀ c' ∈ e.spawned, carried host (Phase.entered f) c' = 0 ∧
      carried host (Phase.removed g) c' = 0 := by
  intro c' hc'
  obtain ⟨receiver, amount, hpay⟩ := (d.transition turn).describes.2 c' hc'
  rw [hpay.carried_eq, hpay.carried_eq]
  exact ⟨rfl, rfl⟩

omit [DecidableEq H] in
/-- What is found of some of the events, added up over all. -/
theorem sum_filterMap {α : Type} (found : PoolEvent H → Option α) (f : α → ℕ)
    (events : List (PoolEvent H)) :
    ((events.filterMap found).map f).sum =
      (events.map fun ev => (found ev).elim 0 f).sum := by
  induction events with
  | nil => rfl
  | cons ev events ih =>
      cases hfound : found ev with
      | none => simp [hfound, ih]
      | some a => simp [hfound, ih]

/-- **A failed stake is rolled back and refunded** wherever the books cover it,
and there only; and where they cover every stake that fails, nothing of a failed
stake or unstake remains.  Once nothing is in flight, the stake has changed by
the rewards, the stakes and the unstakes whose validator action succeeded, and
the LST supply by their LST, by the fees on the rewards and by what was burned
for accounts that are gone.

The books can fail to cover a stake, and `Deployment.refund_lost` is such a run;
so the first part is an equivalence.  For the second part one adds up
`Deployment.books_turn` over the run.  The terms of the chains vanish at both
ends, since nothing is in flight there. -/
theorem Deployment.failed_stakes_refunded (run : d.Reaches events sys)
    (hunstake : ∀ ev ∈ events, UnstakeRuns ev) (hstake : ∀ ev ∈ events, StakeRuns ev) :
    (∀ ev ∈ events, ∀ m, stakeFailed ev = some m →
      (Refunds host d.wnearId m ev ↔ m.Covered host ev.execution.before)) ∧
    ((∀ ev ∈ events, RollbackCovered host ev) → (∀ c ∈ sys.chains, c.tasks = []) →
      sys.state.statistics.totalStakedAmount +
          ((events.filterMap unstakeSucceeded).map UnstakeOrder.nearAmount).sum =
        d.state.statistics.totalStakedAmount +
          ((events.filterMap stakeSucceeded).map MintedStake.stakeAmount).sum +
          (events.map rewardOf).sum ∧
      sys.state.token.totalSupply +
          ((events.filterMap unstakeSucceeded).map UnstakeOrder.lstAmount).sum +
          (events.map forcedBurned).sum =
        d.state.token.totalSupply +
          ((events.filterMap stakeSucceeded).map MintedStake.lstTokens).sum +
          (events.map feeMintedBy).sum) := by
  refine ⟨?_, fun hcovered hdone => ?_⟩
  · have hturn : ∀ {events sys c e},
        d.Turn (fun ev => UnstakeRuns ev ∧ StakeRuns ev) events sys c e →
        ∀ m, stakeFailed ⟨c, e⟩ = some m →
          (Refunds host d.wnearId m ⟨c, e⟩ ↔ m.Covered host e.before) :=
      fun turn m hfailed => d.refunds_iff turn (fun ev hev => (turn.good ev hev).1) turn.now.2
        hfailed
    exact run.forall_event (Q := fun ev => ∀ m, stakeFailed ev = some m →
      (Refunds host d.wnearId m ev ↔ m.Covered host ev.execution.before)) hturn
      fun ev hev => ⟨hunstake ev hev, hstake ev hev⟩
  · have hgood : ∀ ev ∈ events, RollsBack host ev := fun ev hev =>
      ⟨hunstake ev hev, hstake ev hev, hcovered ev hev⟩
    -- One ledger for the stake, and one for the supply.
    have hnear : sys.state.statistics.totalStakedAmount +
          (events.map fun ev => (unstakeSucceeded ev).elim 0 UnstakeOrder.nearAmount).sum =
        d.state.statistics.totalStakedAmount + (events.map fun ev =>
          (stakeSucceeded ev).elim 0 MintedStake.stakeAmount + rewardOf ev).sum :=
      run.settled_eq (Φ := fun s => s.statistics.totalStakedAmount)
        (fun haccepts => ⟨carried_single _ haccepts, carried_single _ haccepts⟩)
        (fun turn => ⟨entered_spawned turn _ _, (d.books_turn turn).1⟩) rfl
        (entered_of_done run hdone _ _) hgood
    have hlst : sys.state.token.totalSupply + (events.map fun ev =>
          (unstakeSucceeded ev).elim 0 UnstakeOrder.lstAmount + forcedBurned ev).sum =
        d.state.token.totalSupply + (events.map fun ev =>
          (stakeSucceeded ev).elim 0 MintedStake.lstTokens + feeMintedBy ev).sum :=
      run.settled_eq (Φ := fun s => s.token.totalSupply)
        (fun haccepts => ⟨carried_single _ haccepts, carried_single _ haccepts⟩)
        (fun turn => ⟨entered_spawned turn _ _, (d.books_turn turn).2⟩) rfl
        (entered_of_done run hdone _ _) hgood
    rw [List.sum_map_add] at hnear hlst
    rw [List.sum_map_add] at hlst
    rw [sum_filterMap, sum_filterMap, sum_filterMap, sum_filterMap]
    omega

/-- `alice` stakes 10 for the treasury, and the validator action fails.

The last answer is that of the refund. -/
def sampleFailedStake : List (Platform.Move Env (Receipt UnstakeMessage) Payload) :=
  let env := sampleEnv 100 1010 0 "pool" 0
  [.enter (sampleEnv 100 1010 0 "alice" 10)
      (.call "pool" (.stake ⟨"treasury", none, none, false, none, none⟩) 10 0),
    .fire 0 env, .fire 0 env, .answer 0 env .failed, .fire 0 env,
    .answer 0 env (.successful .empty)]

/-- The books cover the 10, so they are sent back, and the stake is what it was. -/
theorem Deployment.failed_stakes_refunded_sample :
    (∀ ev ∈ (samplePool.played sampleFailedStake rfl).1, ∀ m, stakeFailed ev = some m →
        Refunds sampleHost "wnear" m ev) ∧
      (samplePool.played sampleFailedStake rfl).2.state.statistics.totalStakedAmount = 100 := by
  have hrefunded := samplePool.failed_stakes_refunded
    (samplePool.played_reaches sampleFailedStake rfl) (by decide +kernel) (by decide +kernel)
  have hcovered : ∀ ev ∈ (samplePool.played sampleFailedStake rfl).1,
      RollbackCovered sampleHost ev := by decide +kernel
  refine ⟨fun ev hev m hfailed => ?_, ?_⟩
  · exact (hrefunded.1 ev hev m hfailed).mpr (hcovered ev hev m hfailed)
  · exact (hrefunded.2 hcovered (by decide +kernel)).1

/-- A reward of 800 makes 100 LST worth 900 NEAR.  Then `alice` stakes 17 for
one LST, the treasury unstakes its 100, and the validator action of the stake
fails. -/
private def sampleLostRefund : List (Platform.Move Env (Receipt UnstakeMessage) Payload) :=
  let env := sampleEnv 900 1017 1 "pool" 0
  [.enter (sampleEnv 900 1000 1 "bob" 0) (.call "pool" .ping 0 0),
    .answer 0 env (.successful .empty), .fire 0 env,
    .enter (sampleEnv 900 1017 1 "alice" 17)
      (.call "pool" (.stake ⟨"treasury", none, none, false, none, none⟩) 17 0),
    .fire 1 env, .fire 1 env,
    .enter (sampleEnv 900 1017 1 "treasury" oneYocto)
      (.call "pool" (.ftTransferCall "pool" 100 none "native") oneYocto 0),
    .fire 2 env, .answer 1 env .failed, .answer 2 env (.successful .empty), .fire 2 env,
    .fire 2 env, .fire 1 env]

/-- Of 917 NEAR at stake the 100 LST redeem 907, and the 10 that are left do not
cover the stake of 17: the callback panics, and `alice` has neither LST nor her
deposit.

No callback of a stake or an unstake is short of gas in this run, nothing is
left in flight, and nothing else panics.  One LST was worth nine NEAR when she
staked, so her 17 bought one. -/
theorem Deployment.refund_lost :
    samplePool.Reaches (samplePool.played sampleLostRefund rfl).1
        (samplePool.played sampleLostRefund rfl).2 ∧
      (∀ ev ∈ (samplePool.played sampleLostRefund rfl).1, UnstakeRuns ev ∧ StakeRuns ev) ∧
      ((samplePool.played sampleLostRefund rfl).1.filter panics).map stakeFailed =
        [some ⟨"alice", ⟨"treasury", none, none, false, none, none⟩, 17, 1, .native⟩] ∧
      (∀ c ∈ (samplePool.played sampleLostRefund rfl).2.chains, c.tasks = []) ∧
      (samplePool.played sampleLostRefund rfl).2.state.statistics.totalStakedAmount = 10 ∧
      (samplePool.played sampleLostRefund rfl).1.filterMap stakeSucceeded = [] ∧
      ((samplePool.played sampleLostRefund rfl).1.filterMap unstakeSucceeded).map
        UnstakeOrder.nearAmount = [907] ∧
      ((samplePool.played sampleLostRefund rfl).1.map rewardOf).sum = 800 := by
  refine ⟨samplePool.played_reaches sampleLostRefund rfl, ?_⟩
  decide +kernel

end Reaches

end LiquidStaking
