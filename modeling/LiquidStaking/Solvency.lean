import LiquidStaking.Delivery

/-!
# The tracked books are solvent

`latest_total_balance` covers the stake, what is owed to the queue beyond the
wNEAR already set aside for it, the balance the contract was created with and
the price of every registration, up to one yoctoNEAR for each wNEAR delivery to
somebody else.

The quantity `slack` is what the tracker has beyond these.  A chain in flight
may have booked NEAR ahead of a stake, or taken stake out ahead of the queue;
that is its `Phase.booked` amount.  No turn lowers the slack by more than its
chain had booked, apart from that one yoctoNEAR.
-/

namespace LiquidStaking

open Checked PromiseChain

section Definitions

variable {H : Type}

/-- What the queue is owed beyond the wNEAR set aside for it.

It is an integer, as the two sums are only known to be in order when every
residual fits its tranche. -/
def owed (q : WithdrawalRequests H) : ℤ :=
  WithdrawalRequests.total Tranche.withdrawalAmount q -
    WithdrawalRequests.total Tranche.wnearResidual q

/-- What the tracker has beyond the stake, the queue and the registrations.

The accounts that nobody can unregister are not counted: `new` registers them
without a price. -/
def slack (host : Host H) (keepers : List AccountId) (s : LiquidStakingToken H) : ℤ :=
  s.statistics.latestTotalBalance - s.statistics.totalStakedAmount - owed s.withdrawalRequests -
    host.storageBalanceMin * s.token.registrations keepers

/-- What a chain has booked in the tracker ahead of the stake, or taken out of
the stake ahead of the queue.

It is the part of the slack that the chain will still use up. -/
def Phase.booked : Phase H → ℕ
  | .unwrapping _ amount _ | .unwrapped _ amount _ _ => amount
  | .batching o _ => if o.depositToken = .wnear then o.depositAmount else 0
  | .batched o r => if o.depositToken = .wnear ∧ resultOk r = false then o.depositAmount else 0
  | .unstaking u _ _ _ | .unstaked u _ _ => u.nearAmount
  | _ => 0

/-- A result that nobody acts on books nothing. -/
theorem Phase.booked_settle_le (p : Phase H) (r : PromiseResult) :
    (p.settle r).booked ≤ p.booked := by
  cases p with
  | unwrapping | unstaking => exact le_rfl
  | batching o refundTo =>
      simp only [Phase.settle, Phase.booked]
      split_ifs with hfailed hwnear
      · exact le_rfl
      · exact absurd hfailed.1 hwnear
      · exact Nat.zero_le _
      · exact le_rfl
  | _ => exact Nat.zero_le _

/-- The event settles a wNEAR delivery to somebody else than the pool.

These are the receipts that pay a yoctoNEAR with the transfer which no claim
covers. -/
def settlesExternally [DecidableEq H] (host : Host H) (ev : PoolEvent H) : Bool :=
  match ev.execution.verdict, ev.execution.task.actions, ev.execution.input with
  | .committed _ _, [.call (.onWithdrawWnear _ _ _ _ isCall) _ _], some r =>
      (isCall || decide (r ≠ .failed)) &&
        (match attemptOf host ev.chain.trace with
          | some a => !a.isSelf host
          | none => false)
  | _, _, _ => false

end Definitions

section Steps

variable {H : Type} [DecidableEq H] {host : Host H} {env : Env} {s s' : LiquidStakingToken H}
  {q q' : WithdrawalRequests H} {hash : H} {messages : Set UnstakeMessage}

/-! ## What is owed to the queue -/

/-- A sweep moves tranches under a lock; they are owed as before. -/
theorem owed_lock {e amount : ℕ}
    (hswept : WithdrawalRequests.amountOfMaturedTranches q e hash = .ok (amount, q'))
    (hpos : 0 < amount) : owed q' = owed q := by
  obtain ⟨hnone, t, -, heffect⟩ := WithdrawalRequests.amountOfMaturedTranches_effect hswept hpos
  have hamount := (heffect Tranches.additive_withdrawalAmount).total_eq
  have hresidual := (heffect Tranches.additive_wnearResidual).total_eq
  simp only [hnone, List.map_nil, List.map_cons, List.sum_nil, List.sum_cons] at hamount hresidual
  unfold owed
  omega

/-- A released lock does not change what is owed. -/
theorem owed_release (hone : WithdrawalRequests.OneLock q) (hash : H) :
    owed (WithdrawalRequests.releaseLock q hash).1 = owed q := by
  obtain ⟨_, heffect, rfl⟩ := hone.released_effect (f := Tranche.withdrawalAmount) hash
  obtain ⟨_, heffect', rfl⟩ := hone.released_effect (f := Tranche.wnearResidual) hash
  have hamount := heffect.total_eq
  have hresidual := heffect'.total_eq
  simp only [List.map_nil, List.sum_nil] at hamount hresidual
  unfold owed
  omega

/-- An append owes its amount. -/
theorem owed_append (hcovered : WithdrawalRequests.AllAt (Covered host messages) q) {e amount : ℕ}
    (happend : WithdrawalRequests.appendRequest q e hash amount = .ok q') :
    owed q' = owed q + amount := by
  have hamount := (WithdrawalRequests.appendRequest_effect Tranches.additive_withdrawalAmount
    (fun t _ hzero => hzero) happend).total_eq
  have hresidual := (WithdrawalRequests.appendRequest_effect Tranches.additive_wnearResidual
    (fun t mem hzero => ?_) happend).total_eq
  · simp only [Tranche.new] at hamount hresidual
    unfold owed
    omega
  · obtain ⟨l, hl, hget⟩ := List.mem_filterMap.mp mem
    have hle := (hcovered hash l hl).residual_le
    unfold Lock.get at hget
    split at hget
    · cases hget
    · obtain rfl := Option.some.inj hget
      omega

/-- A claim settled in full, or with all that is left of it set aside. -/
theorem owed_settle {t : Tranche} (hlocks : WithdrawalRequests.locksAt q hash = [t])
    (hq : q' = WithdrawalRequests.removeRequest q hash ∨
      ∃ t', t'.withdrawalAmount = t'.wnearResidual ∧
        q' = WithdrawalRequests.writeLockedTranche q hash t') :
    owed (WithdrawalRequests.releaseLock q' hash).1 =
      owed q - (t.withdrawalAmount - t.wnearResidual) := by
  rcases hq with rfl | ⟨t', ht', rfl⟩
  · have hamount := (WithdrawalRequests.settled_effect (f := Tranche.withdrawalAmount) q
      hash).total_eq
    have hresidual := (WithdrawalRequests.settled_effect (f := Tranche.wnearResidual) q
      hash).total_eq
    simp only [hlocks, List.map_nil, List.map_cons, List.sum_nil, List.sum_cons]
      at hamount hresidual
    unfold owed
    omega
  · have hamount := (WithdrawalRequests.shrunk_effect (f := Tranche.withdrawalAmount) t'
      hlocks).total_eq
    have hresidual := (WithdrawalRequests.shrunk_effect (f := Tranche.wnearResidual) t'
      hlocks).total_eq
    simp only [hlocks, List.map_nil, List.map_cons, List.sum_nil, List.sum_cons]
      at hamount hresidual
    unfold owed
    omega

end Steps

/-! ## The slack -/

section Slack

variable {H : Type} {host : Host H} {s s' : LiquidStakingToken H} {keepers : List AccountId}
  {n : ℕ}

/-- NEAR booked in. -/
theorem slack_addBalance : slack host keepers (s.addBalance n) = slack host keepers s + n := by
  simp only [slack, LiquidStakingToken.addBalance_statistics_latestTotalBalance,
    LiquidStakingToken.addBalance_statistics_totalStakedAmount,
    LiquidStakingToken.addBalance_withdrawalRequests, LiquidStakingToken.addBalance_token]
  omega

/-- NEAR booked out. -/
theorem slack_subBalance (h : n ≤ s.statistics.latestTotalBalance) :
    slack host keepers (s.subBalance n) = slack host keepers s - n := by
  simp only [slack, LiquidStakingToken.subBalance_statistics_latestTotalBalance,
    LiquidStakingToken.subBalance_statistics_totalStakedAmount,
    LiquidStakingToken.subBalance_withdrawalRequests, LiquidStakingToken.subBalance_token]
  omega

/-- NEAR put at stake. -/
theorem slack_addStake : slack host keepers (s.addStake n) = slack host keepers s - n := by
  simp only [slack, LiquidStakingToken.addStake_statistics_latestTotalBalance,
    LiquidStakingToken.addStake_statistics_totalStakedAmount,
    LiquidStakingToken.addStake_withdrawalRequests, LiquidStakingToken.addStake_token]
  omega

/-- NEAR taken out of the stake. -/
theorem slack_subStake (h : n ≤ s.statistics.totalStakedAmount) :
    slack host keepers (s.subStake n) = slack host keepers s + n := by
  simp only [slack, LiquidStakingToken.subStake_statistics_latestTotalBalance,
    LiquidStakingToken.subStake_statistics_totalStakedAmount,
    LiquidStakingToken.subStake_withdrawalRequests, LiquidStakingToken.subStake_token]
  omega

/-- The counter of pending withdrawals does not matter here. -/
theorem slack_subPending : slack host keepers (s.subPending n) = slack host keepers s := rfl

/-- Another queue. -/
theorem slack_withQueue (q : WithdrawalRequests H) :
    slack host keepers (s.withQueue q) =
      slack host keepers s + owed s.withdrawalRequests - owed q := by
  simp only [slack, LiquidStakingToken.withQueue_statistics,
    LiquidStakingToken.withQueue_withdrawalRequests, LiquidStakingToken.withQueue_token]
  omega

/-- Another ledger with as many registrations, and a holder count to go with it. -/
theorem slack_withToken {t : FungibleToken} {holders : ℕ}
    (h : t.registrations keepers = s.token.registrations keepers) :
    slack host keepers (s.withToken t holders) = slack host keepers s := by
  simp only [slack, LiquidStakingToken.withToken_statistics_latestTotalBalance,
    LiquidStakingToken.withToken_statistics_totalStakedAmount,
    LiquidStakingToken.withToken_withdrawalRequests, LiquidStakingToken.withToken_token, h]

theorem slack_retokenBoth {t : FungibleToken} {a b : AccountId}
    (h : t.registrations keepers = s.token.registrations keepers) :
    slack host keepers (s.retokenBoth t a b) = slack host keepers s :=
  slack_withToken h

/-- LST credited to a registered account. -/
theorem slack_credit {a : AccountId} (h : s.token.isRegistered a = true) :
    slack host keepers (s.credit a n) = slack host keepers s :=
  slack_withToken (FungibleToken.registrations_mint h n)

/-- LST debited from one. -/
theorem slack_debit {a : AccountId} (h : s.token.isRegistered a = true) :
    slack host keepers (s.debit a n) = slack host keepers s :=
  slack_withToken (FungibleToken.registrations_burn h n)

/-- A registration costs its price. -/
theorem slack_registerIfNew {a : AccountId} (h : s.token.isRegistered a = false)
    (hkeeper : a ∉ keepers) :
    slack host keepers (s.registerIfNew a) = slack host keepers s - host.storageBalanceMin := by
  have hcount := FungibleToken.registrations_register h hkeeper
  simp only [slack, LiquidStakingToken.registerIfNew_statistics,
    LiquidStakingToken.registerIfNew_withdrawalRequests,
    LiquidStakingToken.registerIfNew_token, h, Bool.false_eq_true, if_false, hcount]
  push_cast
  rw [mul_add]
  omega

/-- An account removed gives its price back. -/
theorem slack_unregister {a : AccountId} (h : s.token.isRegistered a = true) (hkeeper : a ∉ keepers)
    (holders : ℕ) : slack host keepers (s.withToken (s.token.unregister a) holders) =
      slack host keepers s + host.storageBalanceMin := by
  have hcount := FungibleToken.registrations_unregister h hkeeper
  simp only [slack, LiquidStakingToken.withToken_statistics_latestTotalBalance,
    LiquidStakingToken.withToken_statistics_totalStakedAmount,
    LiquidStakingToken.withToken_withdrawalRequests, LiquidStakingToken.withToken_token, ← hcount]
  push_cast
  rw [mul_add]
  omega

theorem registerIfNew_of_registered {a : AccountId} (h : s.token.isRegistered a = true) :
    s.registerIfNew a = s := by
  simp [LiquidStakingToken.registerIfNew, h]

/-- A recognized reward raises the tracker and the stake alike. -/
theorem LiquidStakingToken.Synced.slack_eq {epoch balance excluded : ℕ}
    {result : LiquidStakingToken.SyncRewardsResult}
    (h : LiquidStakingToken.Synced epoch balance excluded s s' result) :
    slack host keepers s' = slack host keepers s := by
  cases h with
  | idle => rfl
  | reward reward feeLst _ _ _ _ _ _ _ registered =>
      simp only [slack, LiquidStakingToken.recognize_statistics_latestTotalBalance,
        LiquidStakingToken.recognize_statistics_totalStakedAmount,
        LiquidStakingToken.recognize_withdrawalRequests, LiquidStakingToken.recognize_token,
        FungibleToken.registrations_mint registered]
      omega

end Slack

section Steps

variable {H : Type} [DecidableEq H] {host : Host H} {env : Env} {s s' : LiquidStakingToken H}
  {keepers : List AccountId} {messages : Set UnstakeMessage}

omit [DecidableEq H] in
/-- An account that is not registered is no keeper. -/
theorem not_mem_keepers {a : AccountId} (hsound : s.token.Sound keepers)
    (h : s.token.isRegistered a = false) : a ∉ keepers := by
  intro hmem
  rw [hsound.registered a hmem] at h
  cases h

/-- A call from outside leaves at least the slack it found, and what its chain
has booked on top.

wNEAR that arrives is booked before it is unwrapped, an unstake takes its NEAR
out of the stake before it is queued, and a registration brings its price. -/
theorem Entry.slack_le {m : Method H} {p : Phase H} {side : List (Receipt H)}
    (hentry : Entry host env s m s' p side)
    (hsound : s.token.Sound keepers) (hqueue : QueueSound s)
    (hkeeper : env.predecessorAccountId ∈ keepers → env.predecessorAccountId = s.treasuryId) :
    slack host keepers s + p.booked ≤ slack host keepers s' := by
  cases hentry with
  | stake args s₁ result o synced _ _ _ _ native =>
      rw [synced.slack_eq]
      simp [Phase.booked, native]
  | book senderId amount =>
      rw [slack_addBalance]
      exact le_rfl
  | transfer receiverId amount memo moved | transferCall receiverId amount memo msg moved =>
      obtain ⟨-, -, hsender, hreceiver, -, -⟩ := LiquidStakingToken.transferTokens_eq_ok moved
      rw [slack_retokenBoth (FungibleToken.registrations_move hsender hreceiver amount)]
      simp [Phase.booked]
  | withdrawNative a q native swept pos | withdrawWnear a q wrapped swept pos =>
      rw [slack_withQueue, owed_lock swept pos]
      simp [Phase.booked]
  | pingIdle result s₁ synced | ping reward s₁ synced =>
      rw [synced.slack_eq]
      simp [Phase.booked]
  | storageKnown => simp [Phase.booked]
  | storageNew accountId registrationOnly fresh =>
      rw [slack_addBalance, slack_registerIfNew fresh (not_mem_keepers hsound fresh)]
      simp [Phase.booked]
  | storageWithdraw | unregisterNone =>
      rw [slack_addBalance]
      simp [Phase.booked]
  -- The price of the registration goes back, and the account is one holder
  -- less.
  | unregister force holders yocto registered ordinary forced covered =>
      rw [slack_subBalance (by simpa using covered),
        slack_unregister registered (fun hmem => ordinary (hkeeper hmem)) holders]
      simp [Phase.booked]
  | setFee feeBps s₁ result _ _ _ synced =>
      have hsame : slack host keepers (s₁.withFee feeBps) = slack host keepers s₁ := rfl
      rw [hsame, synced.slack_eq]
      simp [Phase.booked]
  | setKey key s₁ result _ _ synced =>
      rw [synced.slack_eq]
      simp [Phase.booked, slack]
  | addKey => simp [Phase.booked]
  | forceRelease hash =>
      rw [slack_withQueue, owed_release hqueue.oneLock]
      simp [Phase.booked]

omit [DecidableEq H] in
/-- What a wNEAR delivery spends: what it wraps and registers, and one yoctoNEAR
to somebody else. -/
theorem Attempt.spent_le {a : Attempt} (hfits : a.Fits host) :
    NearToken.satAdd (a.cost host) a.storageToPay + a.tranche.wnearResidual ≤
      a.tranche.withdrawalAmount + if a.isSelf host then 0 else 1 := by
  have hspent := saturatingAdd_le 128 (a.cost host) a.storageToPay
  have hcost := saturatingAdd_le 128 a.amountToNearDeposit (if a.isSelf host then 0 else oneYocto)
  have hamount := hfits.amount_eq
  have hresidual := hfits.residual_le
  unfold NearToken.satAdd
  unfold Attempt.cost NearToken.satAdd at *
  unfold Attempt.amountToNearDeposit at *
  unfold oneYocto at *
  omega

omit [DecidableEq H] in
/-- The stake of an order, and its registration, are covered by its deposit. -/
theorem StakeOrder.slack_mint_le (keepers : List AccountId) {o : StakeOrder}
    (hvalid : o.Valid host) (hpool : s.token.isRegistered host.currentAccountId = true) :
    slack host keepers s - (if o.depositToken = .wnear then o.depositAmount else 0 : ℕ) +
        (if o.args.isStorageDeposit then ftStorageDeposit else 0 : ℕ) ≤
      slack host keepers (o.mint host s) := by
  unfold StakeOrder.mint
  rw [slack_credit (by simpa using hpool), slack_addStake, slack_addBalance]
  have hdeposit := hvalid.deposit_eq
  have hsender := hvalid.sender_ne
  simp only [StakeOrder.amountToBook]
  cases htoken : o.depositToken with
  | native =>
      rw [if_neg (hsender htoken)]
      simp only [reduceCtorEq, if_false]
      split_ifs at hdeposit ⊢ <;> push_cast <;> omega
  | wnear =>
      simp only [ite_self, if_true]
      split_ifs at hdeposit ⊢ <;> push_cast <;> omega

omit [DecidableEq H] in
/-- An unstake takes its NEAR out of the stake. -/
theorem Unstakes.slack_eq {message : UnstakeMessage} {s₁ : LiquidStakingToken H}
    {u : UnstakeOrder H} (h : Unstakes host env s message s₁ u) :
    slack host keepers (u.burn host s₁) = slack host keepers s + u.nearAmount := by
  obtain ⟨result, synced⟩ := h.synced
  unfold UnstakeOrder.burn
  rw [slack_debit (by simpa using h.registered), slack_subStake h.near_le, synced.slack_eq]

omit [DecidableEq H] in
/-- A registration takes at most its price out of the slack. -/
theorem slack_registerIfNew_le {a : AccountId} (hsound : s.token.Sound keepers)
    (hcovered : s.token.isRegistered a = false → host.storageBalanceMin ≤ ftStorageDeposit) :
    slack host keepers s ≤ slack host keepers (s.registerIfNew a) + ftStorageDeposit := by
  cases hregistered : s.token.isRegistered a with
  | true =>
      rw [registerIfNew_of_registered hregistered]
      omega
  | false =>
      have hprice := hcovered hregistered
      rw [slack_registerIfNew hregistered (not_mem_keepers hsound hregistered)]
      omega

omit [DecidableEq H] in
/-- A rollback takes nothing out of the slack: what leaves the tracker was at
stake. -/
theorem MintedStake.slack_rollback_le (keepers : List AccountId) (m : MintedStake)
    (hpool : s.token.isRegistered host.currentAccountId = true)
    (hstaked : m.stakeAmount ≤ s.statistics.totalStakedAmount)
    (htracked : m.senderId ≠ host.currentAccountId →
      m.stakeAmount ≤ s.statistics.latestTotalBalance) :
    slack host keepers s ≤ slack host keepers (m.rollback host s) := by
  have hbooked : (if m.senderId = host.currentAccountId then 0 else m.stakeAmount) ≤
      ((s.debit host.currentAccountId m.lstTokens).subStake
        m.stakeAmount).statistics.latestTotalBalance := by
    split_ifs with hself
    · exact Nat.zero_le _
    · exact htracked hself
  unfold MintedStake.rollback
  rw [slack_subBalance hbooked, slack_subStake (by simpa using hstaked), slack_debit hpool]
  split_ifs <;> push_cast <;> omega

/-- The settlement of a wNEAR delivery takes at most the one yocto out of the
slack that a transfer to another account costs. -/
theorem QueueSound.slack_paidWnear_le (keepers : List AccountId) (h : QueueSound s)
    {a : Attempt} {r : PromiseResult} {consumed delivered spent : ℕ} {t : Tranche}
    {q : WithdrawalRequests H} (hfits : a.Fits host)
    (hown : WithdrawalRequests.locksAt s.withdrawalRequests (a.hash host) = [a.tranche])
    (delivery : Delivery a.amountToSend (a.isCall host) r (some consumed))
    (hlocked : WithdrawalRequests.lockedTranche s.withdrawalRequests (a.hash host) = .ok t)
    (delivered_eq : delivered = NearToken.satAdd consumed a.storageToPay)
    (q_eq : q = if t.withdrawalAmount - delivered = 0 then
        WithdrawalRequests.removeRequest s.withdrawalRequests (a.hash host)
      else WithdrawalRequests.writeLockedTranche s.withdrawalRequests (a.hash host)
        { t with
          withdrawalAmount := t.withdrawalAmount - delivered
          wnearResidual := a.amountToSend - consumed
          storageWasPaid := t.storageWasPaid || decide (0 < a.storageToPay) })
    (spent_eq : spent = NearToken.satAdd (a.cost host) a.storageToPay)
    (htracked : spent ≤ s.statistics.latestTotalBalance) :
    slack host keepers s ≤ slack host keepers (((s.withQueue
        (WithdrawalRequests.releaseLock q (a.hash host)).1).subPending delivered).subBalance
          spent) + if a.isSelf host then 0 else 1 := by
  obtain ⟨rfl, hbounded⟩ := h.own_tranche hown hlocked
  have hamount := hfits.amount_eq
  rw [delivery.satAdd_eq hfits hbounded] at delivered_eq
  -- Either the tranche is gone, or it shrinks to what was not consumed; the
  -- residual of the new tranche is what wNEAR gave back.
  have howed : owed (WithdrawalRequests.releaseLock q (a.hash host)).1 =
      owed s.withdrawalRequests -
        (a.tranche.withdrawalAmount - a.tranche.wnearResidual) := by
    refine owed_settle hown ?_
    split_ifs at q_eq with hzero
    · exact .inl q_eq
    · refine .inr ⟨_, ?_, q_eq⟩
      show a.tranche.withdrawalAmount - delivered = a.amountToSend - consumed
      omega
  have hspent := Attempt.spent_le hfits
  rw [slack_subBalance (by simpa using htracked), slack_subPending, slack_withQueue, howed,
    spent_eq]
  split_ifs at hspent ⊢ <;> omega

/-- What a chain had booked covers what its callback takes out of the slack,
apart from the yoctoNEAR of an external wNEAR delivery.

One case for each callback; the deliveries are the only ones where the queue and
the tracker move together. -/
theorem Advance.slack_le {p p' : Phase H} {side : List (Receipt H)}
    (hadvance : Advance host env s p s' p' side) (hvalid : p.Valid host)
    (hsound : s.token.Sound keepers) (hpool : host.currentAccountId ∈ keepers)
    (hmessage : ∀ a, p.attempt = some a → a.args ∈ messages) (hqueue : QueueSound s)
    (hcovered : WithdrawalRequests.AllAt (Covered host messages) s.withdrawalRequests)
    (hlocked : ∀ a, p.attempt = some a →
      WithdrawalRequests.locksAt s.withdrawalRequests (a.hash host) = [a.tranche]) :
    slack host keepers s + p'.booked ≤ slack host keepers s' + p.booked ∨
      ∃ a r consumed, p = .deliveredWnear a r ∧
        Delivery a.amountToSend (a.isCall host) r (some consumed) ∧ a.isSelf host = false ∧
        slack host keepers s + p'.booked ≤ slack host keepers s' + p.booked + 1 := by
  have hregistered := hsound.registered _ hpool
  cases hadvance with
  | unwrapFailed failed covered =>
      rw [slack_subBalance covered]
      simp [Phase.booked]
  | unwrapQuoted ok s₁ result o synced quoted sender args deposit wnear =>
      rw [synced.slack_eq]
      simp [Phase.booked, wnear, deposit]
  | unwrapRejected ok s₁ result synced covered =>
      rw [slack_subBalance covered, synced.slack_eq]
      simp [Phase.booked]
  | minted plain =>
      left
      have hmint := StakeOrder.slack_mint_le keepers hvalid hregistered
      simp only [plain, Bool.false_eq_true, if_false, Nat.cast_zero, add_zero] at hmint
      simp only [Phase.booked, resultOk, Payload.empty, le_refl, decide_true, reduceCtorEq,
        and_false, if_false]
      omega
  -- The registration costs the price that the batch takes off the stake, so the
  -- one pays for the other.
  | @mintedRegistering o refundTo storage registered covered =>
      left
      have hmint := StakeOrder.slack_mint_le (s := s.registerIfNew o.args.receiverId) keepers hvalid
        ((LiquidStakingToken.registerIfNew_sound hsound _).registered _ hpool)
      have hregister := slack_registerIfNew_le hsound covered
      simp only [storage, if_true] at hmint
      simp only [Phase.booked, resultOk, Payload.empty, le_refl, decide_true, reduceCtorEq,
        and_false, if_false]
      omega
  | restake ok => simp [Phase.booked, ok]
  | restakeRefund failed wnear covered =>
      rw [slack_subBalance covered]
      simp [Phase.booked, failed, wnear]
  | keptOnPool | rewrapped | acceptedAsIs | pinged | stop => simp [Phase.booked]
  | handedOver ok registered escrow | handedOverCall ok registered escrow =>
      left
      have hreceiver := LiquidStakingToken.isRegistered_imp registered
      unfold MintedStake.handOver
      rw [slack_credit (by simp [FungibleToken.isRegistered_burn, hreceiver]),
        slack_debit hregistered]
      simp [Phase.booked]
  | @rolledBack m r failed escrow supply staked tracked =>
      left
      have hrolled := m.slack_rollback_le keepers hregistered staked tracked
      cases m.depositToken with
      | native | wnear => simpa [Phase.booked] using hrolled
  | nothingRefused message _ t used burned resolved | resolved t used burned resolved =>
      left
      rw [slack_retokenBoth resolved.registrations_eq]
      simp [Phase.booked]
  | refused message _ t used burned resolved s₁ u _ _ unstakes =>
      left
      rw [unstakes.slack_eq, slack_retokenBoth resolved.registrations_eq]
      simp [Phase.booked]
  | unstakeRequested message _ s₁ u _ _ unstakes =>
      left
      rw [unstakes.slack_eq]
      simp [Phase.booked]
  | @queued u k r ok q appended =>
      left
      have hqueued : slack host keepers (s.withQueue q) = _ := slack_withQueue q
      rw [owed_append hcovered appended] at hqueued
      show slack host keepers s + (0 : ℕ) ≤ slack host keepers (s.withQueue q) + u.nearAmount
      omega
  | undone failed =>
      left
      unfold UnstakeOrder.undo
      rw [slack_credit (by simpa using hregistered), slack_addStake]
      simp [Phase.booked]
  | @paidNative a r ok t locked amount_eq tracked =>
      left
      -- A native withdrawal leaves no wNEAR behind, so the tranche is owed in
      -- NEAR.
      have hnone : a.tranche.wnearResidual = 0 :=
        (hcovered.locked (show a.tranche ∈ WithdrawalRequests.locksAt _ (a.hash host) by
          rw [hlocked a rfl]; simp)).native a.args
          (hmessage a rfl) hvalid rfl
      have howed := owed_settle (hlocked a rfl) (.inl rfl)
      show slack host keepers s + (0 : ℕ) ≤ slack host keepers ((s.withQueue _).subBalance
        a.tranche.withdrawalAmount) + (0 : ℕ)
      rw [slack_subBalance (by simpa using tracked), slack_withQueue, howed, hnone]
      omega
  | unpaidNative | unpaidWnear =>
      left
      rw [slack_withQueue, owed_release hqueue.oneLock]
      simp [Phase.booked]
  | @paidWnear a r consumed delivery t locked delivered delivered_eq claimed q q_eq spent
      spent_eq tracked =>
      have hslack := hqueue.slack_paidWnear_le keepers hvalid.2 (hlocked a rfl) delivery locked
        delivered_eq q_eq spent_eq tracked
      -- Only an attempt that sends wNEAR to another account spends the one
      -- yocto.
      cases hself : a.isSelf host with
      | true =>
          left
          simpa [hself, Phase.booked] using hslack
      | false =>
          right
          refine ⟨a, r, consumed, rfl, delivery, hself, ?_⟩
          simpa [hself, Phase.booked] using hslack

end Steps

/-! ## Runs -/

section Reaches

variable {H : Type} [DecidableEq H] {host : Host H} {d : Deployment host}
  {events : List (PoolEvent H)} {sys : PoolSystem H} {c : PoolChain H} {e : PoolExecution H}
  {messages : Set UnstakeMessage}

/-- The deliveries that cost a yoctoNEAR are the external ones that were
settled. -/
theorem settlesExternally_eq_true {wnear : AccountId} {a : Attempt} {r : PromiseResult}
    {consumed : ℕ} {side : List (Receipt H)} (hnow : Describes host wnear c (.deliveredWnear a r))
    (hfires : (platform host).Fires sys c e) (hverdict : ∃ ret, e.verdict = .committed ret side)
    (hdelivery : Delivery a.amountToSend (a.isCall host) r (some consumed))
    (hself : a.isSelf host = false) : settlesExternally host ⟨c, e⟩ = true := by
  obtain ⟨ret, hverdict⟩ := hverdict
  obtain ⟨rest, htasks⟩ := hfires.tasks_eq
  obtain ⟨htask, -⟩ := List.cons.inj (htasks.symm.trans hnow.tasks_eq)
  have hinput : e.input = some r := hfires.input_eq.trans hnow.input_eq
  have hsettled : a.isCall host = true ∨ r ≠ .failed := by
    generalize hconsumed : some consumed = settled at hdelivery
    cases hdelivery with
    | sent | reported => exact .inr (by simp)
    | writtenOff call => exact .inl call
    | returned plain => cases hconsumed
  simp only [settlesExternally, hverdict, htask, LiquidStakingToken.onWithdrawWnearCall,
    Receipt.call, hinput, hnow.attempt_eq a rfl, hself]
  simpa using hsettled

/-- **The slack of a run**: the chains in flight account for what they booked,
and each external delivery for a yoctoNEAR.

This is the account whose step is `Entry.slack_le` and `Advance.slack_le`; it
never uses that a chain comes to an end. -/
theorem Deployment.slack_le (hinj : Set.InjOn host.hash messages) (run : d.Reaches events sys)
    (hgood : ∀ ev ∈ events, Orderly messages ev) :
    slack host d.keepers d.state ≤
      slack host d.keepers sys.state +
        (sys.chains.map (carried host fun p => -(p.booked : ℤ))).sum +
        events.countP (settlesExternally host) := by
  -- What a chain has booked is no longer in the slack, so it counts with the
  -- other sign.
  have hledger := run.potential_le (Φ := slack host d.keepers)
    (w := carried host fun p => -(p.booked : ℤ))
    (g := fun ev => if settlesExternally host ev then 1 else 0)
    (carried_single _) ?_ hgood
  · simpa [Platform.Run.ledger, Platform.Run.sum_indicator, Deployment.genesis] using hledger
  intro events s c e turn _
  have hbefore := turn.fires.before_eq
  have hsound : e.before.token.Sound d.keepers := hbefore ▸ d.sound turn.run
  have hqueue := d.queueSound turn.run
  have htally : (0 : ℤ) ≤ if settlesExternally host ⟨c, e⟩ then 1 else 0 := by
    split_ifs <;> decide
  cases d.transition turn with
  | entered m p side deposit gas fresh task_eq deposit_eq external entry next verdict spawned =>
      rw [fresh, carried_call _ task_eq, ← fresh, next.carried_eq,
        carried_spawned entry.paying spawned fun _ _ => rfl]
      have hslack := entry.slack_le hsound (hbefore ▸ hqueue) fun hmem => ?_
      · omega
      · rw [hbefore, (d.phased turn.run).treasuryId_eq]
        rcases List.mem_cons.mp hmem with hpool | htreasury
        · exact absurd hpool external
        · exact List.mem_singleton.mp htreasury
  | advanced p p' side now self advance next verdict spawned =>
      have hmem := now.mem turn.origin
      rw [now.carried_eq, next.carried_eq,
        carried_spawned advance.paying spawned fun _ _ => rfl]
      rcases advance.slack_le now.valid hsound
        (by simp [Deployment.keepers]) (fun a ha => d.attempt_mem turn.run turn.good hmem now ha)
        (hbefore ▸ hqueue) (hbefore ▸ d.covered hinj turn.run turn.good)
        (fun a ha => hbefore ▸ d.locksAt_eq turn.run
          (fun ev hev => (turn.good ev hev).unforced) hmem now ha) with
        hslack | ⟨a, r, consumed, rfl, hdelivery, hself, hslack⟩
      · omega
      · rw [settlesExternally_eq_true now turn.fires verdict hdelivery hself, if_pos rfl]
        omega
  | panicked p now here self verdict same next spawned =>
      have hbooked := p.booked_settle_le .failed
      rw [now.carried_eq, next.carried_eq, spawned, same, List.map_nil, List.sum_nil]
      omega
  | answered p r now away verdict same next spawned =>
      have hbooked := p.booked_settle_le r
      rw [now.carried_eq, next.carried_eq, spawned, same, List.map_nil, List.sum_nil]
      omega

omit [DecidableEq H] in
/-- Right after deployment the tracker is the stake and the liquid balance. -/
theorem Deployment.slack_initial : slack host d.keepers d.state = d.env.accountBalance := by
  have hnobody : d.state.token.registrations d.keepers = 0 := by
    refine List.length_eq_zero_iff.mpr (List.filter_eq_nil_iff.mpr fun a ha => ?_)
    have hregistered := (d.initial.registered_iff a).mp (FungibleToken.mem_keys_iff.mp ha)
    simpa [Deployment.keepers, or_iff_not_imp_left] using hregistered
  have howed : owed d.state.withdrawalRequests = 0 := by
    rw [d.initial.queue_eq]
    rfl
  unfold slack
  rw [hnobody, howed, d.initial.balance_eq, d.initial.stake_eq]
  push_cast
  omega

/-- What the chains in flight have booked only helps. -/
theorem Deployment.solvent (hinj : Set.InjOn host.hash messages) (run : d.Reaches events sys)
    (hgood : ∀ ev ∈ events, Orderly messages ev) :
    (d.env.accountBalance : ℤ) ≤
      slack host d.keepers sys.state + events.countP (settlesExternally host) := by
  have hslack := d.slack_le hinj run hgood
  have hbooked : (sys.chains.map (carried host fun p => -(p.booked : ℤ))).sum ≤
      (sys.chains.map fun _ => (0 : ℤ)).sum := by
    refine List.sum_le_sum fun c hc => ?_
    obtain ⟨p, hp⟩ := (d.phased run).described c hc
    rw [hp.carried_eq]
    omega
  rw [List.map_const', List.sum_replicate, nsmul_zero] at hbooked
  rw [d.slack_initial] at hslack
  omega

/-- **The books are solvent.**  As long as nobody releases locks by hand and the
messages withdrawn for have different hashes, the tracker, with one yoctoNEAR
for each external wNEAR delivery, covers the stake, what the queue is owed
beyond the wNEAR set aside, the initial liquid balance, and the registrations.

The hash is a parameter of the host, so that messages have different hashes is
asked for the messages of the run only.  `hprice` says that the token library
charges what the contract believes it charges.  The bound is met exactly in the
sample, so the yoctoNEAR cannot be left out. -/
theorem Deployment.books_solvent (hprice : host.storageBalanceMin = ftStorageDeposit)
    (run : d.Reaches events sys) (hforce : ∀ ev ∈ events, Unforced ev)
    (hinj : Set.InjOn host.hash (withdrawn events)) :
    sys.state.statistics.totalStakedAmount +
        WithdrawalRequests.total (fun t => t.withdrawalAmount - t.wnearResidual)
          sys.state.withdrawalRequests +
        d.env.accountBalance + ftStorageDeposit * sys.state.token.registrations d.keepers ≤
      sys.state.statistics.latestTotalBalance + events.countP (settlesExternally host) := by
  have hgood := orderly_withdrawn hforce
  have hsolvent := d.solvent hinj run hgood
  have hsplit := WithdrawalRequests.total_sub_residual (q := sys.state.withdrawalRequests)
    fun hash l mem => (d.covered hinj run hgood hash l mem).residual_le
  unfold slack owed at hsolvent
  rw [hprice] at hsolvent
  omega

/-- After 40 LST were unstaked and delivered as wNEAR, the tracker is one
yoctoNEAR short of the stake of 60 and the initial 1000, and the bound is met
exactly. -/
theorem Deployment.books_solvent_sample :
    1060 ≤ (samplePool.played samplePayout rfl).2.state.statistics.latestTotalBalance + 1 ∧
      (samplePool.played samplePayout rfl).2.state.statistics.latestTotalBalance = 1059 := by
  have hsolvent := samplePool.books_solvent rfl (samplePool.played_reaches
    samplePayout rfl) (by decide +kernel) fun _ _ _ _ h => h
  exact ⟨hsolvent, rfl⟩

end Reaches

end LiquidStaking
