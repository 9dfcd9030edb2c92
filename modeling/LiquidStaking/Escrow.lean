import LiquidStaking.Backing
import LiquidStaking.Pending

/-!
# The escrow on the pool's own account

LST in transit wait on the pool's own account: those of a stake between its mint
and its last callback, those sent to the pool to be unstaked, and those put back
when an unstake failed.  `Phase.escrow` is what a chain counts on, and
`leftOnPool` what an event leaves there with no callback to follow.

No turn takes more LST from the account than its own chain brought there, so the
balance covers all of it, and no callback finds the account short.  The one
callback that must not be cut off is `on_unstake`: its result tells the resolver
that the LST are back, and a panic would tell it so too (`UnstakeRuns`).
-/

namespace LiquidStaking

open Checked PromiseChain

section Room

variable {H : Type}

/-- The books have room for either outcome of an unstake.

An unstake that succeeds is appended and counted as pending; one that fails is
put back into the stake and the supply. -/
structure LiquidStakingToken.HasRoom (s : LiquidStakingToken H) (lstAmount nearAmount : ℕ) :
    Prop where
  staked : s.statistics.totalStakedAmount + nearAmount < 2 ^ 128
  pending : s.statistics.totalPendingWithdrawals + nearAmount < 2 ^ 128
  residual : WithdrawalRequests.total Tranche.wnearResidual s.withdrawalRequests < 2 ^ 128
  supply : s.token.totalSupply + lstAmount < 2 ^ 128
  holders : s.HolderRoom

instance (s : LiquidStakingToken H) (lstAmount nearAmount : ℕ) :
    Decidable (s.HasRoom lstAmount nearAmount) :=
  decidable_of_iff (s.statistics.totalStakedAmount + nearAmount < 2 ^ 128 ∧
      s.statistics.totalPendingWithdrawals + nearAmount < 2 ^ 128 ∧
      WithdrawalRequests.total Tranche.wnearResidual s.withdrawalRequests < 2 ^ 128 ∧
      s.token.totalSupply + lstAmount < 2 ^ 128 ∧ s.statistics.numDelegators + 1 < 2 ^ 64)
    ⟨fun ⟨h₁, h₂, h₃, h₄, h₅⟩ => ⟨h₁, h₂, h₃, h₄, h₅⟩,
      fun ⟨h₁, h₂, h₃, h₄, h₅⟩ => ⟨h₁, h₂, h₃, h₄, h₅⟩⟩

/-- An `on_unstake` has the gas it needs, and its sums fit their words.

Both are about the execution itself.  That the code has set the gas aside is
another result (`Deployment.gas_covered`). -/
def UnstakeRuns (ev : PoolEvent H) : Prop :=
  match ev.execution.task.actions with
  | [.call (.onUnstake lstAmount nearAmount _ _) _ _] =>
      ev.execution.context.gasExhausted = false ∧
        ev.execution.before.HasRoom lstAmount nearAmount
  | _ => True

instance : DecidablePred (UnstakeRuns (H := H)) := fun ev => by
  unfold UnstakeRuns
  split <;> infer_instance

/-- A resolver has the gas it needs, and the holder count has room for it. -/
def ResolverRuns (ev : PoolEvent H) : Prop :=
  match ev.execution.task.actions with
  | [.call (.ftResolveTransfer _ _ _) _ _] =>
      ev.execution.context.gasExhausted = false ∧
        ev.execution.before.statistics.numDelegators + 2 < 2 ^ 64
  | _ => True

instance : DecidablePred (ResolverRuns (H := H)) := fun ev => by
  unfold ResolverRuns
  split <;> infer_instance

variable [DecidableEq H] {host : Host H} {env : Env} {s : LiquidStakingToken H}
  {c : PoolChain H} {e : PoolExecution H}

/-- **With room for both outcomes** `on_unstake` does not panic.

Nothing else in it can fail: the append has only its sums to check, and the pool
is registered on its own token. -/
theorem LiquidStakingToken.onUnstake_ok {lstAmount nearAmount : ℕ} {hash : H}
    {trigger : UnstakeTrigger} (hself : env.predecessorAccountId = host.currentAccountId)
    (hsound : s.token.Sound [host.currentAccountId]) (hqueue : QueueSound s)
    (hroom : s.HasRoom lstAmount nearAmount) :
    ∃ o, s.onUnstake host env lstAmount nearAmount hash trigger = .ok o := by
  have hprivate : env.requirePrivate host.currentAccountId = .ok () := require_eq_ok.mpr hself
  unfold LiquidStakingToken.onUnstake
  rw [hprivate, ok_bind]
  split_ifs
  · have happends : ∃ q, WithdrawalRequests.appendRequest s.withdrawalRequests env.epochHeight hash
        nearAmount = .ok q :=
      WithdrawalRequests.appendRequest_ok hroom.residual (hqueue.pending_eq ▸ hroom.pending)
    obtain ⟨q, happend⟩ := happends
    have hpending : (s.withQueue q).increasePendingWithdrawals nearAmount =
        .ok ((s.withQueue q).addPending nearAmount) :=
      LiquidStakingToken.increasePendingWithdrawals_eq_ok.mpr ⟨hroom.pending, rfl⟩
    exact ⟨_, by rw [happend, ok_bind, hpending]; rfl⟩
  · have hstake : s.increaseStakeAmount nearAmount = .ok (s.addStake nearAmount) :=
      LiquidStakingToken.increaseStakeAmount_eq_ok.mpr ⟨hroom.staked, rfl⟩
    have hbalance := hsound.balanced.ftBalanceOf_le host.currentAccountId
    have hdeposit : (s.addStake nearAmount).internalDeposit host.currentAccountId lstAmount =
        .ok ((s.addStake nearAmount).credit host.currentAccountId lstAmount) :=
      LiquidStakingToken.internalDeposit_eq_ok.mpr
        ⟨hsound.registered _ (List.mem_singleton_self _),
          lt_of_le_of_lt (Nat.add_le_add_right hbalance lstAmount) hroom.supply, hroom.supply,
          fun _ => hroom.holders, rfl⟩
    unfold LiquidStakingToken.rollbackStateAfterUnstake
    rw [hstake, ok_bind, hdeposit, ok_bind]
    cases trigger <;> exact ⟨_, rfl⟩

/-- What `UnstakeRuns` says of a chain about to run its `on_unstake`. -/
theorem UnstakeRuns.hasRoom {u : UnstakeOrder H} {k : Continuation}
    {r : PromiseResult} {wnear : AccountId} {sys : PoolSystem H} (hruns : UnstakeRuns ⟨c, e⟩)
    (hnow : Describes host wnear c (.unstaked u k r)) (hfires : (platform host).Fires sys c e) :
    e.task = LiquidStakingToken.onUnstakeCall host u.lstAmount u.nearAmount u.hash u.trigger ∧
      e.context.gasExhausted = false ∧ e.before.HasRoom u.lstAmount u.nearAmount := by
  obtain ⟨rest, htasks⟩ := hfires.tasks_eq
  obtain ⟨htask, -⟩ := List.cons.inj (htasks.symm.trans hnow.tasks_eq)
  simp only [UnstakeRuns, htask, LiquidStakingToken.onUnstakeCall, Receipt.call] at hruns
  exact ⟨htask, hruns⟩

/-- So the chain of an unstake does not lose its callback. -/
theorem UnstakeRuns.not_panicked {u : UnstakeOrder H} {k : Continuation} {r : PromiseResult}
    {wnear : AccountId} {sys : PoolSystem H} (hruns : UnstakeRuns ⟨c, e⟩)
    (hnow : Describes host wnear c (.unstaked u k r))
    (hfires : (platform host).Fires sys c e)
    (hself : e.context.predecessorAccountId = host.currentAccountId)
    (hsound : e.before.token.Sound [host.currentAccountId]) (hqueue : QueueSound e.before) :
    e.verdict ≠ .panicked := by
  intro hverdict
  obtain ⟨htask, hgas, hroom⟩ := hruns.hasRoom hnow hfires
  have hlegal := hfires.legal
  simp only [Platform.Legal, hverdict] at hlegal
  obtain ⟨-, -, hexhausted | ⟨msg, herror⟩⟩ := hlegal
  · exact absurd (hgas.symm.trans hexhausted) (by decide)
  · have hself' : (e.context.forCall 0 e.input).predecessorAccountId = host.currentAccountId :=
      hself
    obtain ⟨o, hok⟩ := LiquidStakingToken.onUnstake_ok hself' hsound hqueue hroom
    rw [htask] at herror
    cases hok.symm.trans herror

end Room

/-! ## What a chain counts on -/

section Definitions

variable {H : Type} (host : Host H)

/-- The LST on the pool's account that a resolver or a stake's last callback
takes, when the call before it ended with `r`.

Where the receiver is somebody else, the LST are taken from that account and not
from the pool's. -/
def Continuation.escrow (r : PromiseResult) : Continuation → ℕ
  | .finish => 0
  | .resolve _ receiverId amount =>
      if receiverId = host.currentAccountId then FungibleToken.unusedAmount (some r) amount else 0
  | .notify lstTokens args =>
      if args.receiverId = host.currentAccountId then
        FungibleToken.unusedAmount (some r) lstTokens
      else 0

/-- The LST on the pool's account that a chain counts on.

Each part is there from the receipt that brings it to the receipt that takes it:
from the mint to the hand-over or the rollback, and from a transfer to the pool
to the burn. -/
def Phase.escrow : Phase H → ℕ
  | .continuing k r => k.escrow host r
  | .batched o r => if resultOk r then o.lstTokens else 0
  | .restaking m _ _ | .restaked m _ => m.lstTokens
  | .sending receiver _ amount _ _ _ => if receiver = host.currentAccountId then amount else 0
  | _ => 0

/-- What was refused of a stake to the pool itself that names no refund. -/
def Phase.unrefunded : Phase H → ℕ
  | .continuing (.notify lstTokens args) r =>
      if args.refundMessage = none then
        (Continuation.notify lstTokens args).escrow host r
      else 0
  | _ => 0

/-- The LST that an event leaves on the pool's account with no callback to
follow: all its chain counted on, when a callback panics, and what a stake
without a refund message was refused.

Nobody can take these LST from the account any more, so they only add to the
balance. -/
def leftOnPool [DecidableEq H] (ev : PoolEvent H) : ℕ :=
  match ev.execution.verdict with
  | .panicked => carried host (fun p => p.escrow host - (p.settle .failed).escrow host) ev.chain
  | .committed _ _ => carried host (Phase.unrefunded host) ev.chain
  | .answered _ => 0

end Definitions

section Settle

variable {H : Type} {host : Host H}

/-- A chain whose receipt panics, or is answered from elsewhere, counts on no
more than before; only the callback of an unstake brings LST back.

This is why a panic of `on_unstake` has to be excluded: its failure would be
read as a refusal of LST that are burned. -/
theorem Phase.escrow_settle_le {p : Phase H} (hvalid : p.Valid host) (r : PromiseResult)
    (hplace : p.place host = .away ∨ r = .failed)
    (hunstaked : ∀ u k r', p ≠ .unstaked u k r') :
    (p.settle r).escrow host ≤ p.escrow host := by
  cases p with
  | sending receiver senderId amount msg gas k =>
      have hunused : FungibleToken.unusedAmount (some r) amount ≤ amount :=
        FungibleToken.unusedAmount_le _ _
      cases k with
      | finish => exact hvalid.1.elim
      | resolve senderId receiverId n =>
          obtain ⟨rfl, rfl, -⟩ := hvalid.1
          simp only [Phase.settle, Phase.escrow, Continuation.escrow]
          split_ifs
          · exact hunused
          · exact le_rfl
      | notify n args =>
          obtain ⟨rfl, rfl⟩ := hvalid.1
          simp only [Phase.settle, Phase.escrow, Continuation.escrow]
          split_ifs
          · exact hunused
          · exact le_rfl
  | batching o refundTo =>
      rcases hplace with haway | rfl
      · cases haway
      · exact le_rfl
  | unstaked u k r' => exact absurd rfl (hunstaked u k r')
  | restaking => exact le_rfl
  | _ => exact Nat.zero_le _

/-- The result of an unstake taken back tells what waits for it that its LST are
back. -/
theorem UnstakeOrder.Valid.escrow_undone {u : UnstakeOrder H} {k : Continuation}
    (h : u.Valid host k) :
    k.escrow host (.successful (.ofU128
      (match u.trigger with
        | .userRequest => u.lstAmount
        | .refundByContract => 0))) ≤ u.lstAmount := by
  rcases h.trigger with ⟨htrigger, hawaits⟩ | ⟨-, rfl⟩
  · rw [htrigger]
    cases k with
    | finish => exact Nat.zero_le _
    | resolve senderId receiverId n =>
        obtain ⟨rfl, rfl, -⟩ := hawaits
        simp [Continuation.escrow]
    | notify n args =>
        obtain ⟨hreceiver, rfl⟩ := hawaits
        simp [Continuation.escrow, hreceiver]
  · exact Nat.zero_le _

end Settle

section Steps

variable {H : Type} [DecidableEq H] {host : Host H} {env : Env} {s s' : LiquidStakingToken H}

omit [DecidableEq H] in
/-- A sync only adds to a balance. -/
theorem LiquidStakingToken.Synced.ftBalanceOf_le {epoch balance excluded : ℕ}
    {result : LiquidStakingToken.SyncRewardsResult}
    (h : LiquidStakingToken.Synced epoch balance excluded s s' result) (a : AccountId) :
    s.token.ftBalanceOf a ≤ s'.token.ftBalanceOf a := by
  cases h with
  | idle => exact le_rfl
  | reward reward feeLst =>
      rw [LiquidStakingToken.recognize_token, FungibleToken.ftBalanceOf_mint]
      split_ifs with h
      · rw [h]
        exact Nat.le_add_right _ _
      · exact le_rfl

omit [DecidableEq H] in
/-- Registering somebody leaves a registered account alone. -/
theorem ftBalanceOf_registerIfNew {a b : AccountId} (h : s.token.isRegistered b = true) :
    (s.registerIfNew a).token.ftBalanceOf b = s.token.ftBalanceOf b := by
  rw [LiquidStakingToken.registerIfNew_token]
  split_ifs with ha
  · rfl
  · rw [FungibleToken.ftBalanceOf_register, if_neg]
    rintro rfl
    exact ha h

/-- A call from outside takes no LST from the pool's account, and brings those
that its chain counts on. -/
theorem Entry.escrow_le {m : Method H} {p : Phase H} {side : List (Receipt H)}
    (hentry : Entry host env s m s' p side)
    (hext : env.predecessorAccountId ≠ host.currentAccountId)
    (hpool : s.token.isRegistered host.currentAccountId = true) :
    s.token.ftBalanceOf host.currentAccountId + p.escrow host ≤
      s'.token.ftBalanceOf host.currentAccountId := by
  cases hentry with
  | stake args s₁ result o synced => exact synced.ftBalanceOf_le _
  | pingIdle result s₁ synced | ping reward s₁ synced => exact synced.ftBalanceOf_le _
  | setFee feeBps s₁ result _ _ _ synced => exact synced.ftBalanceOf_le _
  | setKey key s₁ result _ _ synced => exact synced.ftBalanceOf_le _
  | transfer receiverId amount memo moved | transferCall receiverId amount memo msg moved =>
      obtain ⟨hne, -, -, -, hle, -⟩ := LiquidStakingToken.transferTokens_eq_ok moved
      simp only [Phase.escrow, Continuation.escrow, LiquidStakingToken.retokenBoth_token,
        FungibleToken.ftBalanceOf_move _ _ _ _ _ hle, if_neg hne, if_neg hext.symm]
      rcases eq_or_ne receiverId host.currentAccountId with rfl | hother
      · simp
      · simp [hother, hother.symm]
  | storageNew accountId registrationOnly fresh =>
      exact (ftBalanceOf_registerIfNew hpool).ge
  | unregister =>
      show _ ≤ (s.token.unregister env.predecessorAccountId).ftBalanceOf host.currentAccountId
      rw [FungibleToken.ftBalanceOf_unregister, if_neg hext.symm]
      exact le_rfl
  | _ => exact le_rfl

omit [DecidableEq H] in
/-- A resolver takes no more than the unused amount, and that from the receiver. -/
theorem FungibleToken.Resolved.ftBalanceOf_le {t t' : FungibleToken}
    {unused amount used burned : ℕ} {sender receiver : AccountId}
    (h : FungibleToken.Resolved unused amount sender receiver t t' used burned)
    (a : AccountId) :
    t.ftBalanceOf a ≤ t'.ftBalanceOf a + if receiver = a then unused else 0 := by
  cases h with
  | kept => exact Nat.le_add_right _ _
  | returned refund refund_eq pos registered =>
      rw [FungibleToken.ftBalanceOf_move _ _ _ _ _ (refund_eq ▸ min_le_left _ _)]
      split_ifs <;> grind
  | burned refund refund_eq pos gone =>
      rw [FungibleToken.ftBalanceOf_burn]
      split_ifs <;> grind

omit [DecidableEq H] in
/-- A sender gets what is reported as not used, apart from what was its own all
along. -/
theorem FungibleToken.Resolved.returned_le {t t' : FungibleToken}
    {unused amount used burned : ℕ} {sender receiver : AccountId}
    (h : FungibleToken.Resolved unused amount sender receiver t t' used burned) :
    t.ftBalanceOf sender + (amount - used) ≤
      t'.ftBalanceOf sender + if receiver = sender then unused else 0 := by
  have hkept := h.ftBalanceOf_le sender
  cases h with
  | kept | burned =>
      rw [Nat.sub_self]
      exact hkept
  | returned refund refund_eq pos registered =>
      rw [FungibleToken.ftBalanceOf_move _ _ _ _ _ (refund_eq ▸ min_le_left _ _), if_pos rfl]
      split_ifs <;> omega

/-- **What a callback takes from the pool's account** its chain had there.

One case for each callback, with the balance and the escrow before on one side
and those after on the other. -/
theorem Advance.escrow_le {p p' : Phase H} {side : List (Receipt H)}
    (hadvance : Advance host env s p s' p' side) (hvalid : p.Valid host)
    (hpool : s.token.isRegistered host.currentAccountId = true) :
    s.token.ftBalanceOf host.currentAccountId + p'.escrow host + p.unrefunded host ≤
      s'.token.ftBalanceOf host.currentAccountId + p.escrow host := by
  cases hadvance with
  | unwrapQuoted ok s₁ result o synced => exact synced.ftBalanceOf_le _
  | unwrapRejected ok s₁ result synced => exact synced.ftBalanceOf_le _
  | @minted o refundTo =>
      show _ + o.lstTokens + 0 ≤ (s.token.mint host.currentAccountId o.lstTokens).ftBalanceOf
        host.currentAccountId + 0
      rw [FungibleToken.ftBalanceOf_mint_self]
  | @mintedRegistering o refundTo =>
      show _ + o.lstTokens + 0 ≤ ((s.registerIfNew o.args.receiverId).token.mint
        host.currentAccountId o.lstTokens).ftBalanceOf host.currentAccountId + 0
      rw [FungibleToken.ftBalanceOf_mint_self, ftBalanceOf_registerIfNew hpool]
  | @restake o r ok => simp [Phase.escrow, Phase.unrefunded, ok]
  | keptOnPool => exact Nat.le_add_right _ _
  | @handedOver m r ok registered escrow =>
      show _ + 0 + 0 ≤ ((s.token.burn host.currentAccountId m.lstTokens).mint m.args.receiverId
        m.lstTokens).ftBalanceOf host.currentAccountId + m.lstTokens
      rw [FungibleToken.ftBalanceOf_mint]
      split_ifs with h
      · rw [← h, FungibleToken.ftBalanceOf_burn_self]
        omega
      · rw [FungibleToken.ftBalanceOf_burn_self]
        omega
  | @handedOverCall m r ok registered escrow msg =>
      show _ + (if m.args.receiverId = host.currentAccountId then m.lstTokens else 0) + 0 ≤
        ((s.token.burn host.currentAccountId m.lstTokens).mint m.args.receiverId
          m.lstTokens).ftBalanceOf host.currentAccountId + m.lstTokens
      rw [FungibleToken.ftBalanceOf_mint]
      -- LST that are handed over to the pool itself do not leave its account.
      by_cases h : m.args.receiverId = host.currentAccountId
      · rw [if_pos h, if_pos h.symm, h, FungibleToken.ftBalanceOf_burn_self]
        omega
      · rw [if_neg h, if_neg (Ne.symm h), FungibleToken.ftBalanceOf_burn_self]
        omega
  | @rolledBack m r failed escrow =>
      have hburned : (m.rollback host s).token.ftBalanceOf host.currentAccountId =
          s.token.ftBalanceOf host.currentAccountId - m.lstTokens :=
        FungibleToken.ftBalanceOf_burn_self _ _ _
      rw [hburned]
      cases m.depositToken <;> simp only [Phase.escrow, Phase.unrefunded] <;> omega
  | @acceptedAsIs lstTokens args r noRefund =>
      simp [Phase.escrow, Phase.unrefunded, noRefund, Continuation.escrow]
  | @nothingRefused lstTokens args r message message_eq t used burned resolved =>
      simpa [Phase.escrow, Phase.unrefunded, Continuation.escrow, message_eq] using
        resolved.ftBalanceOf_le host.currentAccountId
  | @refused lstTokens args r message message_eq t used burned resolved s₁ u lst_eq _ unstakes =>
      obtain ⟨result, synced⟩ := unstakes.synced
      -- What the resolver returned is burned in the same receipt, after a sync
      -- that can only add.
      have hreturned := resolved.returned_le
      have hsynced := synced.ftBalanceOf_le host.currentAccountId
      have hlst := unstakes.lst_le
      have hburned : (u.burn host s₁).token.ftBalanceOf host.currentAccountId =
          s₁.token.ftBalanceOf host.currentAccountId - u.lstAmount :=
        FungibleToken.ftBalanceOf_burn_self _ _ _
      rw [LiquidStakingToken.retokenBoth_token] at hsynced
      rw [hburned]
      simp only [Phase.escrow, Phase.unrefunded, Continuation.escrow, message_eq, reduceCtorEq,
        if_false]
      omega
  | @resolved senderId receiverId amount r t used burned resolved =>
      exact resolved.ftBalanceOf_le host.currentAccountId
  | @unstakeRequested senderId amount msg gas k message parsed s₁ u lst_eq _ unstakes =>
      obtain ⟨result, synced⟩ := unstakes.synced
      have hsynced := synced.ftBalanceOf_le host.currentAccountId
      have hlst := unstakes.lst_le
      have hburned : (u.burn host s₁).token.ftBalanceOf host.currentAccountId =
          s₁.token.ftBalanceOf host.currentAccountId - u.lstAmount :=
        FungibleToken.ftBalanceOf_burn_self _ _ _
      rw [hburned]
      simp only [Phase.escrow, Phase.unrefunded, if_true]
      omega
  | @queued u k r =>
      have hnone : k.escrow host (.successful (.ofU128 0)) = 0 := by
        cases k <;> simp [Continuation.escrow]
      exact (congrArg (_ + · + 0) hnone).le
  | @undone u k r failed =>
      have hminted : (u.undo host s).token.ftBalanceOf host.currentAccountId =
          s.token.ftBalanceOf host.currentAccountId + u.lstAmount :=
        FungibleToken.ftBalanceOf_mint_self _ _ _
      rw [hminted]
      exact Nat.add_le_add_left hvalid.escrow_undone _
  | _ => first | exact le_rfl | exact Nat.zero_le _ | exact Nat.le_add_right _ _

/-! ## The supply fits its word -/

omit [DecidableEq H] in
/-- A sync mints with a checked sum. -/
theorem LiquidStakingToken.Synced.supply_lt {epoch balance excluded : ℕ}
    {result : LiquidStakingToken.SyncRewardsResult}
    (h : LiquidStakingToken.Synced epoch balance excluded s s' result)
    (hlt : s.token.totalSupply < 2 ^ 128) : s'.token.totalSupply < 2 ^ 128 := by
  cases h with
  | idle => exact hlt
  | reward reward feeLst _ _ _ _ _ supply_bounded => exact supply_bounded

/-- So does every call from outside. -/
theorem Entry.supply_lt {m : Method H} {p : Phase H} {side : List (Receipt H)}
    (hentry : Entry host env s m s' p side) (hlt : s.token.totalSupply < 2 ^ 128) :
    s'.token.totalSupply < 2 ^ 128 := by
  cases hentry with
  | stake args s₁ result o synced => exact synced.supply_lt hlt
  | pingIdle result s₁ synced | ping reward s₁ synced => exact synced.supply_lt hlt
  | setFee feeBps s₁ result _ _ _ synced => exact synced.supply_lt hlt
  | setKey key s₁ result _ _ synced => exact synced.supply_lt hlt
  | storageNew accountId => exact lt_of_eq_of_lt (registerIfNew_totalSupply s _) hlt
  | unregister => exact lt_of_le_of_lt (Nat.sub_le _ _) hlt
  | _ => exact hlt

/-- And every callback; an unstake put back needs room for its LST. -/
theorem Advance.supply_lt {p p' : Phase H} {side : List (Receipt H)}
    (hadvance : Advance host env s p s' p' side) (hbalanced : s.token.Balanced)
    (hroom : ∀ u k r, p = .unstaked u k r → s.token.totalSupply + u.lstAmount < 2 ^ 128)
    (hlt : s.token.totalSupply < 2 ^ 128) : s'.token.totalSupply < 2 ^ 128 := by
  cases hadvance with
  | unwrapQuoted ok s₁ result o synced => exact synced.supply_lt hlt
  | unwrapRejected ok s₁ result synced => exact synced.supply_lt hlt
  | minted plain registered pool room bounded => exact bounded.supply
  | @mintedRegistering o refundTo storage registered covered pool room bounded =>
      have hsame := registerIfNew_totalSupply s o.args.receiverId
      have hfits := bounded.supply
      show (s.registerIfNew o.args.receiverId).token.totalSupply + o.lstTokens < 2 ^ 128
      omega
  | handedOver ok registered escrow | handedOverCall ok registered escrow =>
      refine lt_of_eq_of_lt (Nat.sub_add_cancel ?_) hlt
      exact escrow.trans (hbalanced.ftBalanceOf_le _)
  | rolledBack => exact lt_of_le_of_lt (Nat.sub_le _ _) hlt
  | nothingRefused message _ t used burned resolved | resolved t used burned resolved =>
      exact lt_of_le_of_lt resolved.totalSupply_le hlt
  | refused message _ t used burned resolved s₁ u _ _ unstakes =>
      obtain ⟨result, synced⟩ := unstakes.synced
      refine lt_of_le_of_lt (Nat.sub_le _ _) (synced.supply_lt ?_)
      exact lt_of_le_of_lt resolved.totalSupply_le hlt
  | unstakeRequested message _ s₁ u _ _ unstakes =>
      obtain ⟨result, synced⟩ := unstakes.synced
      exact lt_of_le_of_lt (Nat.sub_le _ _) (synced.supply_lt hlt)
  | @undone u k r => exact hroom u k r rfl
  | _ => exact hlt

end Steps

/-! ## No callback finds the account short -/

section Panics

variable {H : Type} {host : Host H} {env : Env} {s : LiquidStakingToken H}

/-- An unstake of LST the pool holds. -/
theorem handleUnstaking_avoids {lst : ℕ} {message : UnstakeMessage} {trigger : UnstakeTrigger}
    (hle : lst ≤ s.token.ftBalanceOf host.currentAccountId) :
    Avoids [LiquidStakingToken.balanceTooLow] (s.handleUnstaking host env lst message trigger) := by
  refine (avoids_require fun _ => by decide).bind fun _ _ => ?_
  refine (LiquidStakingToken.syncRewardsInternal_avoids (by decide)).bind
    fun ⟨s₁, result⟩ hsync => ?_
  have hsynced := (LiquidStakingToken.syncRewardsInternal_eq_ok hsync).ftBalanceOf_le
    host.currentAccountId
  refine (LiquidStakingToken.lstToNear_avoids (by decide)).bind fun _ _ => ?_
  refine (avoids_require fun _ => by decide).bind fun _ _ => ?_
  refine (avoids_require fun _ => by decide).bind fun _ _ => ?_
  refine Avoids.bind ?_ fun _ _ => avoids_pure _
  refine (LiquidStakingToken.decreaseStakeAmount_avoids (by decide)).bind fun s₂ hstake => ?_
  obtain ⟨-, rfl⟩ := LiquidStakingToken.decreaseStakeAmount_eq_ok.mp hstake
  refine LiquidStakingToken.internalWithdraw_avoids (fun hlt => ?_) (by decide)
  exact absurd hlt (not_lt.mpr (hle.trans hsynced))

/-- The callback of a validator action, with the LST of its stake still there. -/
theorem onRestakeOrRefund_avoids {m : MintedStake}
    (hle : m.lstTokens ≤ s.token.ftBalanceOf host.currentAccountId) :
    Avoids [LiquidStakingToken.balanceTooLow] (s.onRestakeOrRefund host env m.senderId
      m.stakeAmount m.lstTokens m.args m.depositToken) := by
  have hwithdraw : Avoids [LiquidStakingToken.balanceTooLow]
      (s.internalWithdraw host.currentAccountId m.lstTokens) :=
    LiquidStakingToken.internalWithdraw_avoids (fun hlt => absurd hlt (not_lt.mpr hle)) (by decide)
  refine (avoids_require fun _ => by decide).bind fun _ _ => ?_
  split_ifs
  · refine Avoids.bind ?_ fun _ _ => by split <;> exact avoids_pure _
    exact hwithdraw.bind fun _ _ => LiquidStakingToken.internalDeposit_avoids (by decide)
  · exact avoids_pure _
  · refine Avoids.bind ?_ fun _ _ => by split <;> exact avoids_pure _
    refine hwithdraw.bind fun _ _ => ?_
    refine (LiquidStakingToken.decreaseStakeAmount_avoids (by decide)).bind fun _ _ => ?_
    unfold onlyIf
    split_ifs
    · exact LiquidStakingToken.decreaseTotalBalance_avoids (by decide)
    · exact avoids_ok _

/-- The pool's own `ft_on_transfer`. -/
theorem ftOnTransfer_avoids {senderId : AccountId} {amount : ℕ} {msg : String}
    (hself : env.predecessorAccountId = host.currentAccountId)
    (hwnear : s.wnearId ≠ host.currentAccountId)
    (hle : amount ≤ s.token.ftBalanceOf host.currentAccountId) :
    Avoids [LiquidStakingToken.balanceTooLow] (s.ftOnTransfer host env senderId amount msg) := by
  refine (avoids_require fun _ => by decide).bind fun _ _ => ?_
  dsimp only
  rw [if_neg (hself ▸ hwnear.symm), if_pos hself]
  refine (avoids_expect fun _ => by decide).bind fun _ _ => ?_
  exact (handleUnstaking_avoids hle).bind fun _ _ => avoids_pure _

/-- A resolver looks at the balance of the receiver before it takes anything. -/
theorem resolveTransfer_avoids {senderId receiverId : AccountId} {amount : ℕ} :
    Avoids [LiquidStakingToken.balanceTooLow]
      (s.resolveTransfer env senderId receiverId amount) := by
  refine Avoids.bind ?_ fun _ _ => Avoids.bind ?_ fun _ _ => avoids_pure _
  · unfold FungibleToken.internalFtResolveTransfer
    dsimp only
    split_ifs
    · split
      · exact (avoids_expect fun _ => by decide).bind fun _ _ => avoids_pure _
      · exact (avoids_expect fun _ => by decide).bind fun _ _ => avoids_pure _
    · exact avoids_pure _
  · refine (LiquidStakingToken.updateDelegators_avoids (by decide)).bind fun _ _ => ?_
    exact LiquidStakingToken.updateDelegators_avoids (by decide)

/-- The last callback of a stake: what was refused is back before it is
unstaked. -/
theorem onFtOnTransfer_avoids {lstTokens : ℕ} {args : StakeMessage} {r : PromiseResult}
    (hinput : env.promiseResults = [r])
    (hle : (Continuation.notify lstTokens args).escrow host r ≤
      s.token.ftBalanceOf host.currentAccountId) :
    Avoids [LiquidStakingToken.balanceTooLow] (s.onFtOnTransfer host env lstTokens args) := by
  refine (avoids_require fun _ => by decide).bind fun _ _ => ?_
  split
  · exact avoids_pure _
  refine resolveTransfer_avoids.bind fun ⟨s₁, consumed⟩ hresolve => ?_
  obtain ⟨t, burned, hresolved, rfl⟩ := LiquidStakingToken.resolveTransfer_eq_ok hresolve
  have hreturned := hresolved.returned_le
  rw [hinput, List.head?_cons] at hreturned
  simp only [Continuation.escrow] at hle
  dsimp only
  split_ifs with hzero
  · exact avoids_pure _
  · refine (handleUnstaking_avoids ?_).bind fun _ _ => avoids_pure _
    rw [LiquidStakingToken.retokenBoth_token]
    omega

/-- **The resolver gives back in full** what the pool refused, or burns it when
its sender is gone.

It needs the LST still on the receiver's account, which is what the escrow
provides when the receiver is the pool. -/
theorem ftResolveTransfer_ok {senderId receiverId : AccountId} {amount : ℕ} {r : PromiseResult}
    {keepers : List AccountId} (hself : env.predecessorAccountId = host.currentAccountId)
    (hinput : env.promiseResults = [r])
    (hrefused : FungibleToken.unusedAmount (some r) amount = amount) (hpos : 0 < amount)
    (hne : senderId ≠ receiverId) (hheld : amount ≤ s.token.ftBalanceOf receiverId)
    (hsound : s.token.Sound keepers) (hsupply : s.token.totalSupply < 2 ^ 128)
    (hroom : s.statistics.numDelegators + 2 < 2 ^ 64) :
    s.ftResolveTransfer host env senderId receiverId amount =
      .ok (if s.token.isRegistered senderId then
        .value (s.retokenBoth (s.token.move receiverId senderId amount) senderId receiverId)
          (.ofU128 0)
      else
        .value (s.retokenBoth (s.token.burn receiverId amount) senderId receiverId)
          (.ofU128 amount)) := by
  have hprivate : env.requirePrivate host.currentAccountId = .ok () := require_eq_ok.mpr hself
  have hhead : FungibleToken.unusedAmount env.promiseResults.head? amount = amount := by
    rw [hinput]
    exact hrefused
  -- Both balances are parts of the supply, so what goes back does not overflow.
  have htwo := hsound.balanced.add_le hne
  unfold LiquidStakingToken.ftResolveTransfer LiquidStakingToken.resolveTransfer
  rw [hprivate, ok_bind]
  cases hregistered : s.token.isRegistered senderId with
  | true =>
      rw [FungibleToken.internalFtResolveTransfer_returned hhead hpos hheld hne hregistered
        (by omega), ok_bind]
      dsimp only
      rw [LiquidStakingToken.updateBoth_ok _ _ _ hroom, Nat.sub_self]
      rfl
  | false =>
      have hle := hheld.trans (hsound.balanced.ftBalanceOf_le _)
      rw [FungibleToken.internalFtResolveTransfer_burned hhead hpos hheld hne hregistered hle,
        ok_bind]
      dsimp only
      rw [LiquidStakingToken.updateBoth_ok _ _ _ hroom]
      rfl

end Panics

/-! ## Runs -/

section Reaches

variable {H : Type} [DecidableEq H] {host : Host H} {d : Deployment host}
  {events : List (PoolEvent H)} {sys : PoolSystem H} {c : PoolChain H} {e : PoolExecution H}

/-- The pool is registered on its own token, wherever a turn starts. -/
theorem Deployment.turn_sound {Good : PoolEvent H → Prop} (turn : d.Turn Good events sys c e) :
    e.before.token.Sound [host.currentAccountId] := by
  have hsound := d.sound turn.run
  rw [← turn.fires.before_eq] at hsound
  refine ⟨hsound.balanced, fun a ha => hsound.registered a ?_⟩
  rw [List.mem_singleton.mp ha]
  exact List.mem_cons_self

/-- **The pool's account covers the escrow**: what the chains in flight count
on, and what events left there.

By induction over the run; the chains that do not take part in a turn keep their
parts. -/
theorem Deployment.escrow_le (run : d.Reaches events sys)
    (hunstake : ∀ ev ∈ events, UnstakeRuns ev) :
    (sys.chains.map (carried host (Phase.escrow host))).sum +
        (events.map (leftOnPool host)).sum ≤
      sys.state.token.ftBalanceOf host.currentAccountId := by
  have hledger := run.potential_le
    (Φ := fun s => (s.token.ftBalanceOf host.currentAccountId : ℤ))
    (w := carried host fun p => -(p.escrow host : ℤ))
    (g := fun ev => -(leftOnPool host ev : ℤ)) (carried_single _) ?_ hunstake
  · have hchains : (sys.chains.map (carried host fun p => -(p.escrow host : ℤ))).sum =
        -((sys.chains.map (carried host (Phase.escrow host))).sum : ℤ) := by
      rw [← Platform.Run.sum_neg_cast]
      exact congrArg List.sum (List.map_congr_left fun c _ => carried_neg_cast _ c)
    have hevents := Platform.Run.sum_neg_cast (leftOnPool host) events
    simp only [Platform.Run.ledger, hchains, hevents, Deployment.genesis, List.map_nil,
      List.sum_nil] at hledger
    omega
  intro events s c e turn _
  have hsound := d.turn_sound turn
  have hpool := hsound.registered _ (List.mem_singleton_self _)
  cases d.transition turn with
  | entered m p side deposit gas fresh task_eq deposit_eq external entry next verdict spawned =>
      obtain ⟨ret, hverdict⟩ := verdict
      have hleft : leftOnPool host ⟨c, e⟩ = 0 := by
        simp only [leftOnPool, hverdict]
        rw [fresh, carried_call _ task_eq]
      have hescrow := entry.escrow_le external hpool
      rw [hleft, fresh, carried_call _ task_eq, ← fresh, next.carried_eq,
        carried_spawned entry.paying spawned fun _ _ => rfl]
      omega
  | advanced p p' side now self advance next verdict spawned =>
      obtain ⟨ret, hverdict⟩ := verdict
      have hleft : leftOnPool host ⟨c, e⟩ = p.unrefunded host := by
        simp only [leftOnPool, hverdict]
        exact now.carried_eq _
      have hescrow := advance.escrow_le now.valid hpool
      rw [hleft, now.carried_eq, next.carried_eq,
        carried_spawned advance.paying spawned fun _ _ => rfl]
      omega
  | panicked p now here self verdict same next spawned =>
      have hleft : leftOnPool host ⟨c, e⟩ = p.escrow host - (p.settle .failed).escrow host := by
        simp only [leftOnPool, verdict]
        exact now.carried_eq _
      -- The one callback whose panic would be taken for LST returned.
      have hescrow := Phase.escrow_settle_le now.valid .failed (.inr rfl) fun u k r hp =>
        turn.now.not_panicked (hp ▸ now) turn.fires self hsound
          (turn.fires.before_eq ▸ d.queueSound turn.run) verdict
      rw [hleft, now.carried_eq, next.carried_eq, spawned, same, List.map_nil, List.sum_nil]
      omega
  | answered p r now away verdict same next spawned =>
      have hleft : leftOnPool host ⟨c, e⟩ = 0 := by simp only [leftOnPool, verdict]
      have hescrow := Phase.escrow_settle_le now.valid r (.inl away) fun u k r' hp => by
        rw [hp] at away
        cases away
      rw [hleft, now.carried_eq, next.carried_eq, spawned, same, List.map_nil, List.sum_nil]
      omega

/-- So each chain in flight finds its part there. -/
theorem Deployment.escrow_le_of_mem (run : d.Reaches events sys)
    (hunstake : ∀ ev ∈ events, UnstakeRuns ev) {p : Phase H} (hmem : c ∈ sys.chains)
    (hnow : Describes host d.wnearId c p) :
    p.escrow host ≤ sys.state.token.ftBalanceOf host.currentAccountId := by
  have hescrow := d.escrow_le run hunstake
  have hpart := List.single_le_sum (by simp) (carried host (Phase.escrow host) c)
    (List.mem_map_of_mem hmem)
  rw [hnow.carried_eq] at hpart
  omega

/-- The supply fits its word, as long as unstakes are taken back with room for
them. -/
theorem Deployment.supply_lt (run : d.Reaches events sys)
    (hunstake : ∀ ev ∈ events, UnstakeRuns ev) : sys.state.token.totalSupply < 2 ^ 128 := by
  refine run.forall_state (I := fun s => s.token.totalSupply < 2 ^ 128) ?_ ?_ hunstake
  · exact lt_of_le_of_lt d.initial_backed.supply_le d.initial_backed.stake_lt
  intro events s c e turn hlt
  cases d.transition turn with
  | entered m p side deposit gas fresh task_eq deposit_eq external entry next verdict spawned =>
      exact entry.supply_lt hlt
  | advanced p p' side now self advance next verdict spawned =>
      refine advance.supply_lt (d.turn_sound turn).balanced (fun u k r hp => ?_) hlt
      exact (turn.now.hasRoom (hp ▸ now) turn.fires).2.2.supply
  | panicked p now here self verdict same next spawned => exact same ▸ hlt
  | answered p r now away verdict same next spawned => exact same ▸ hlt

/-- **The escrow is never spent twice.**  As long as every `on_unstake` runs to
its end, the pool's account covers what the chains in flight count on and what
events left there; so no withdrawal from it fails for its amount, and what the
pool refused to unstake goes back in full. -/
theorem Deployment.escrow_held (run : d.Reaches events sys)
    (hunstake : ∀ ev ∈ events, UnstakeRuns ev) :
    (sys.chains.map (carried host (Phase.escrow host))).sum +
        (events.map (leftOnPool host)).sum ≤
      sys.state.token.ftBalanceOf host.currentAccountId ∧
    (∀ c ∈ sys.chains, ∀ m r env, Describes host d.wnearId c (.restaked m r) →
      Avoids [LiquidStakingToken.balanceTooLow] (sys.state.onRestakeOrRefund host env m.senderId
        m.stakeAmount m.lstTokens m.args m.depositToken)) ∧
    (∀ c ∈ sys.chains, ∀ senderId amount msg gas k env,
      Describes host d.wnearId c
        (.sending host.currentAccountId senderId amount msg gas k) →
      env.predecessorAccountId = host.currentAccountId →
      Avoids [LiquidStakingToken.balanceTooLow]
        (sys.state.ftOnTransfer host env senderId amount msg)) ∧
    (∀ c ∈ sys.chains, ∀ lstTokens args r env,
      Describes host d.wnearId c (.continuing (.notify lstTokens args) r) →
      env.promiseResults = [r] →
      Avoids [LiquidStakingToken.balanceTooLow]
        (sys.state.onFtOnTransfer host env lstTokens args)) ∧
    ∀ c ∈ sys.chains, ∀ senderId amount r env,
      Describes host d.wnearId c
        (.continuing (.resolve senderId host.currentAccountId amount) r) →
      env.predecessorAccountId = host.currentAccountId → env.promiseResults = [r] →
      FungibleToken.unusedAmount (some r) amount = amount →
      sys.state.statistics.numDelegators + 2 < 2 ^ 64 →
      sys.state.ftResolveTransfer host env senderId host.currentAccountId amount =
        .ok (if sys.state.token.isRegistered senderId then
          .value (sys.state.retokenBoth
            (sys.state.token.move host.currentAccountId senderId amount) senderId
              host.currentAccountId) (.ofU128 0)
        else
          .value (sys.state.retokenBoth (sys.state.token.burn host.currentAccountId amount)
            senderId host.currentAccountId) (.ofU128 amount)) := by
  refine ⟨d.escrow_le run hunstake, ?_, ?_, ?_, ?_⟩
  · intro c hmem m r env hnow
    exact onRestakeOrRefund_avoids (d.escrow_le_of_mem run hunstake hmem hnow)
  · intro c hmem senderId amount msg gas k env hnow hself
    have hheld := d.escrow_le_of_mem run hunstake hmem hnow
    rw [Phase.escrow, if_pos rfl] at hheld
    exact ftOnTransfer_avoids hself ((d.phased run).wnearId_eq ▸ d.wnear_ne) hheld
  · intro c hmem lstTokens args r env hnow hinput
    exact onFtOnTransfer_avoids hinput (d.escrow_le_of_mem run hunstake hmem hnow)
  · intro c hmem senderId amount r env hnow hself hinput hrefused hroom
    obtain ⟨hne, hpos⟩ := hnow.valid
    have hheld := d.escrow_le_of_mem run hunstake hmem hnow
    simp only [Phase.escrow, Continuation.escrow, if_true, hrefused] at hheld
    exact ftResolveTransfer_ok hself hinput hrefused hpos hne hheld (d.sound run)
      (d.supply_lt run hunstake) hroom

/-- The treasury sends 40 LST with a message that is not understood: until the
resolver runs, they are all the pool holds. -/
theorem Deployment.escrow_held_sample :
    (samplePool.played ((sampleUnstake "other").take 2) rfl).2.state.token.ftBalanceOf "pool" = 40 ∧
      (((samplePool.played ((sampleUnstake "other").take 2) rfl).2.chains.map
        (carried sampleHost (Phase.escrow sampleHost))).sum +
          ((samplePool.played ((sampleUnstake "other").take 2) rfl).1.map
            (leftOnPool sampleHost)).sum ≤ 40) ∧
      ((samplePool.played ((sampleUnstake "other").take 2) rfl).2.chains.map
        (carried sampleHost (Phase.escrow sampleHost))).sum = 40 :=
  ⟨by decide +kernel, (samplePool.escrow_held (samplePool.played_reaches _ rfl)
    (by decide +kernel)).1, by decide +kernel⟩

end Reaches

end LiquidStaking
