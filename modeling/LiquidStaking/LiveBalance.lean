import LiquidStaking.Solvency

/-!
# The live balance

What the account really has, locked and liquid, next to what it tracks in
`latest_total_balance`.  The contract books NEAR in other receipts than those in
which the NEAR moves, so the two agree only up to what is in transit:
`Phase.transit` is the tracked NEAR of a chain that is not on the account at the
moment.

`Funded` is a run together with the live balance: an executed receipt brings its
deposit along and takes away what it attaches to the receipts it schedules, a
failed payment comes back as a refund at some later time, and everything else
that is credited is income.

What an event does to the two sides is one equation (`Deployment.flow_eq`),
whatever other chains are in flight.  A reward that a sync recognizes raises the
tracked total alone, so rewards can only come out of income.

The reward of an event is read off its states (`rewardOf`, `Recognizes`), since
a receipt does not return the result of its sync.  `Deployment.recognizes_iff`
says that it is that result.
-/

namespace LiquidStaking

open Checked PromiseChain

/-! ## Where NEAR moves -/

section Flows

variable {H : Type}

/-- The NEAR an action takes along. -/
def Action.carries : Action H → ℕ
  | .transfer amount => amount
  | .call _ deposit _ => deposit
  | _ => 0

/-- The NEAR a receipt takes along.  A validator action takes none. -/
def Receipt.carries (t : Receipt H) : ℕ := (t.actions.map Action.carries).sum

/-- The NEAR that leaves the account with the receipts an event schedules. -/
def leaving (ev : PoolEvent H) : ℕ :=
  ((ev.execution.next ++ ev.execution.detached).map Receipt.carries).sum

/-- What wNEAR pays out on a receipt: it unwraps, and gives the deposit back. -/
def Receipt.unwraps (t : Receipt H) : ℕ :=
  match t.actions with
  | [.call (.nearWithdraw amount) deposit _] => amount + deposit
  | _ => 0

/-- The NEAR that comes to the account with an event: the deposit of a receipt
that runs here, a payment of the account to itself, and what wNEAR unwraps.

A receipt that panics keeps nothing; the host sends its deposit on. -/
def arriving (host : Host H) (ev : PoolEvent H) : ℕ :=
  match ev.execution.verdict with
  | .committed _ _ => ev.execution.task.carries
  | .panicked => 0
  | .answered r =>
      if ev.execution.task.receiver = host.currentAccountId then ev.execution.task.carries
      else if resultOk r then ev.execution.task.unwraps else 0

/-- The NEAR of a failed payment that is still tracked; it comes back in a
receipt of its own.  What the books have written off, or never had, comes back
as income.

It depends on the callback that will read the failure, as that callback decides
whether the books keep the amount. -/
def refunded (host : Host H) (ev : PoolEvent H) : ℕ :=
  match ev.execution.verdict with
  | .committed _ _ => 0
  | .panicked => if ev.execution.task.refundTo = none then ev.execution.task.carries else 0
  | .answered r =>
      if ev.execution.task.receiver = host.currentAccountId then 0
      else match ev.chain.tasks with
        | t :: u :: _ =>
            match u.actions with
            | [.call (.onNearWithdraw _ _ _) _ _] | [.call (.onWithdrawNative _ _) _ _] =>
                if resultOk r then 0 else t.carries
            | [.call (.onWithdrawWnear _ _ _ _ isCall) _ _] =>
                if isCall = false ∧ r = .failed then t.carries else 0
            | _ => 0
        | _ => 0

/-- The methods whose deposit is a stake, or is booked or sent back by
themselves. -/
def Method.booksDeposit : Method H → Bool
  | .stake _ | .storageDeposit _ _ | .storageWithdraw _ | .storageUnregister _ => true
  | _ => false

/-- The income that comes with an event: the yoctoNEAR attached to other calls,
and a claim that is paid out to the account itself. -/
def earned (host : Host H) (ev : PoolEvent H) : ℕ :=
  match ev.execution.verdict with
  | .committed _ _ =>
      match ev.execution.task.actions with
      | [.call m deposit _] => if m.booksDeposit then 0 else deposit
      | _ => 0
  | .panicked => 0
  | .answered r =>
      match ev.chain.tasks with
      | t :: u :: _ =>
          match u.actions with
          | [.call (.onWithdrawNative _ _) _ _] =>
              if t.receiver = host.currentAccountId ∧ resultOk r = true then t.carries else 0
          | _ => 0
      | _ => 0

/-- The reward that a receipt in `env` recognizes between `s` and `s'`, when its
sync leaves `excluded` out: what it saw beyond the tracked total. -/
def rewardIn (env : Env) (excluded : ℕ) (s s' : LiquidStakingToken H) : ℕ :=
  if s'.statistics.lastEpochSynced = s.statistics.lastEpochSynced then 0
  else env.accountLockedBalance + env.accountBalance - excluded - s.statistics.latestTotalBalance

/-- What the sync of a method leaves out of the balance: the deposit of a
`stake`. -/
def Method.excludes (m : Method H) (deposit : ℕ) : ℕ :=
  match m with
  | .stake _ => deposit
  | _ => 0

/-- What the sync of a receipt leaves out of the balance. -/
def excludedBy (t : Receipt H) : ℕ :=
  match t.actions with
  | [.call m deposit _] => m.excludes deposit
  | _ => 0

/-- The reward an event recognizes: what its sync returns
(`Deployment.recognizes_iff`). -/
def rewardOf (ev : PoolEvent H) : ℕ :=
  rewardIn ev.execution.context (excludedBy ev.execution.task) ev.execution.before
    ev.execution.after

/-- The receipt recognizes a reward: its sync wrote the epoch, which a sync does
exactly if it returns `RewardsSynced` (`syncRewardsInternal_recognizes`,
`Deployment.recognizes_iff`). -/
def Recognizes (e : PoolExecution H) : Prop :=
  e.after.statistics.lastEpochSynced ≠ e.before.statistics.lastEpochSynced

/-- Between `s` and `s'` a sync in `env` has returned `RewardsSynced` with
`reward`.  It found the tracked total and the last epoch of `s`, and left the
last epoch of `s'`. -/
def ReturnsReward (env : Env) (excluded : ℕ) (s s' : LiquidStakingToken H) (reward : ℕ) : Prop :=
  ∃ s₀ s₁ : LiquidStakingToken H, LiquidStakingToken.Synced env.epochHeight
      (env.accountLockedBalance + env.accountBalance) excluded s₀ s₁ (.rewardsSynced reward) ∧
    s₀.statistics.latestTotalBalance = s.statistics.latestTotalBalance ∧
    s₀.statistics.lastEpochSynced = s.statistics.lastEpochSynced ∧
    s₁.statistics.lastEpochSynced = s'.statistics.lastEpochSynced

/-- The NEAR an event leaves tracked although it is gone: a callback panics that
was to book out a payment, or to take back a deposit that never arrived; or the
pool itself is refunded a stake in wNEAR. -/
def lost (host : Host H) (ev : PoolEvent H) : ℕ :=
  match ev.execution.verdict, ev.execution.input, ev.execution.task.actions with
  | .committed _ _, some r, [.call (.onRestakeOrRefund senderId stakeAmount _ _ _) _ _] =>
      if resultOk r = false ∧ senderId = host.currentAccountId then stakeAmount else 0
  | .panicked, some r, [.call (.onNearWithdraw _ amount _) _ _] => if resultOk r then 0 else amount
  | .panicked, some r, [.call (.onWithdrawNative _ amount) _ _] => if resultOk r then amount else 0
  | .panicked, some r, [.call (.onWithdrawWnear _ _ cost storageToPay isCall) _ _] =>
      if isCall = false ∧ r = .failed then 0 else cost + storageToPay
  | _, _, _ => 0

end Flows

/-! ## What the phases carry -/

section Phases

variable {H : Type} (host : Host H)

/-- What a wNEAR delivery spends. -/
def Attempt.outlay (a : Attempt) : ℕ :=
  a.amountToNearDeposit + a.storageToPay + if a.isSelf host then 0 else oneYocto

/-- What the minting batch takes along to the account itself. -/
def StakeOrder.carried (o : StakeOrder) : ℕ :=
  (match o.depositToken with
    | .native => o.stakeAmount
    | .wnear => 0) + if o.args.isStorageDeposit then ftStorageDeposit else 0

/-- The NEAR that the receipts of a phase take along. -/
def Phase.carries : Phase H → ℕ
  | .unwrapping _ _ _ => oneYocto
  | .batching o _ => o.carried
  | .rewrapping amount | .paying _ amount => amount
  | .deliveringNative a => a.tranche.withdrawalAmount
  | .deliveringWnear a => a.outlay host
  | _ => 0

/-- The tracked NEAR of a chain that is not on the account. -/
def Phase.transit : Phase H → ℕ
  | .unwrapping _ amount _ => amount + oneYocto
  | .unwrapped _ amount _ r => if resultOk r then 0 else amount
  | .batching o refundTo => if refundTo = none then o.carried else 0
  | .paying receiver amount => if receiver = host.currentAccountId then amount else 0
  | .deliveringNative a => a.tranche.withdrawalAmount
  | .deliveredNative a r => if resultOk r then a.tranche.withdrawalAmount else 0
  | .deliveringWnear a => a.outlay host
  | .deliveredWnear a r =>
      if a.isCall host = false ∧ r = .failed then 0 else a.outlay host
  | _ => 0

/-- A native deposit comes back to its sender, a wNEAR one to the pool; and no
delivery spends more than an account can hold. -/
def Phase.Fits : Phase H → Prop
  | .batching o refundTo => refundTo = none ↔ o.depositToken = .wnear
  | .deliveringWnear a | .deliveredWnear a _ => a.outlay host < 2 ^ 128
  | _ => True

variable {host} {wnear : AccountId}

/-- A call takes its deposit along. -/
theorem Action.carries_single (m : Method H) (deposit gas : ℕ) :
    ([Action.call m deposit gas].map Action.carries).sum = deposit := by
  simp [Action.carries]

/-- A call takes its deposit along. -/
@[simp] theorem Receipt.carries_call (receiver : AccountId) (m : Method H) (deposit gas : ℕ) :
    (Receipt.call receiver m deposit gas).carries = deposit := Action.carries_single m deposit gas

/-- A payment takes its amount along. -/
@[simp] theorem Receipt.carries_pay (receiver : AccountId) (amount : ℕ) :
    (Receipt.pay receiver amount : Receipt H).carries = amount := by
  simp [Receipt.carries, Receipt.pay, Action.carries]

/-- The minting batch takes along what its order says. -/
theorem StakeOrder.batch_carries (o : StakeOrder) (refundTo : Option AccountId) :
    (o.batch host refundTo).carries = o.carried := by
  unfold Receipt.carries StakeOrder.batch StakeOrder.carried
  rw [List.map_append, List.map_append, List.sum_append, List.sum_append, Action.carries_single,
    add_zero]
  congr 1
  · cases o.depositToken with
    | native => exact add_zero _
    | wnear => rfl
  · split_ifs
    · exact Action.carries_single _ _ _
    · rfl

/-- An optional call with a deposit. -/
theorem Action.carries_optional (c : Prop) [Decidable c] (m : Method H) (deposit gas : ℕ) :
    ((if c then [Action.call m deposit gas] else []).map Action.carries).sum =
      if c then deposit else 0 := by
  split_ifs
  · exact Action.carries_single m deposit gas
  · rfl

/-- The delivery batch takes along what is wrapped, the registration, and the
yoctoNEAR of the transfer. -/
theorem Attempt.batch_carries {a : Attempt} (wnear : AccountId) (hfits : a.Fits host) :
    (a.batch host wnear : Receipt H).carries = a.outlay host := by
  have hdeposit : (if 0 < a.amountToNearDeposit then a.amountToNearDeposit else 0) =
      a.amountToNearDeposit := by
    split_ifs <;> omega
  have hstorage : (if 0 < a.storageToPay ∧ a.isSelf host = false then a.storageToPay else 0) =
      a.storageToPay := by
    split_ifs with hpays
    · rfl
    · rcases Nat.eq_zero_or_pos a.storageToPay with hzero | hpos
      · exact hzero.symm
      · have hself : a.isSelf host = true := by simpa [hpos] using hpays
        simp [Attempt.storageToPay, hfits.self_storage hself]
  unfold Receipt.carries Attempt.batch LiquidStakingToken.deliveryActions Attempt.outlay
  rw [List.map_append, List.map_append, List.sum_append, List.sum_append,
    Action.carries_optional, Action.carries_optional, hdeposit, hstorage]
  congr 1
  split_ifs
  · rfl
  · cases a.msg <;> exact Action.carries_single _ _ _

/-- It unwraps nothing. -/
theorem Attempt.batch_unwraps (a : Attempt) :
    (a.batch host wnear : Receipt H).unwraps = 0 := by
  unfold Receipt.unwraps Attempt.batch LiquidStakingToken.deliveryActions
  split
  · next hactions =>
      generalize a.msg = msg at hactions
      cases msg <;> split_ifs at hactions <;> simp at hactions
  · rfl

/-- What waits behind an unstake or a transfer call takes nothing along. -/
theorem Continuation.carries_eq (k : Continuation) :
    ((k.tasks host).map Receipt.carries).sum = 0 := by
  cases k <;> rfl

/-- The receipts of a phase take along what it says. -/
theorem Phase.carries_eq (wnear : AccountId) {p : Phase H} (hvalid : p.Valid host) :
    ((p.tasks host wnear).map Receipt.carries).sum = p.carries host := by
  cases p with
  | continuing k r => exact k.carries_eq
  | batching o refundTo =>
      simp only [Phase.tasks, StakeOrder.restakeCall, List.map_cons, List.map_nil, List.sum_cons,
        List.sum_nil, Receipt.carries_call, StakeOrder.batch_carries, add_zero]
      rfl
  | sending receiver senderId amount msg gas k =>
      simp only [Phase.tasks, List.map_cons, List.sum_cons, Receipt.carries_call,
        k.carries_eq, add_zero]
      rfl
  | unstaking u amount key k =>
      simp only [Phase.tasks, LiquidStakingToken.onUnstakeCall, List.map_cons, List.sum_cons,
        Receipt.carries_call, k.carries_eq, add_zero]
      rfl
  | unstaked u k r =>
      simp only [Phase.tasks, LiquidStakingToken.onUnstakeCall, List.map_cons, List.sum_cons,
        Receipt.carries_call, k.carries_eq, add_zero]
      rfl
  | deliveringWnear a =>
      simp only [Phase.tasks, LiquidStakingToken.onWithdrawWnearCall, List.map_cons,
        List.map_nil, List.sum_cons, List.sum_nil, Receipt.carries_call,
        Attempt.batch_carries wnear hvalid.2, add_zero]
      rfl
  | deliveringNative a =>
      simp only [Phase.tasks, LiquidStakingToken.withdrawNative, List.map_cons, List.map_nil,
        List.sum_cons, List.sum_nil, Receipt.carries_call, Receipt.carries_pay, add_zero]
      rfl
  | unwrapping | rewrapping | paying =>
      simp only [Phase.tasks, List.map_cons, List.map_nil, List.sum_cons, List.sum_nil,
        Receipt.carries_call, Receipt.carries_pay, add_zero]
      rfl
  | _ => rfl

end Phases

/-! ## One receipt -/

section Steps

variable {H : Type} {host : Host H} {env : Env} {s s' s₁ : LiquidStakingToken H}
  {p p' : Phase H} {side : List (Receipt H)} {excluded : ℕ}

/-- Without a sync there is no reward. -/
theorem rewardIn_eq_zero (h : s'.statistics.lastEpochSynced = s.statistics.lastEpochSynced) :
    rewardIn env excluded s s' = 0 := if_pos h

/-- The reward that a sync reports. -/
def LiquidStakingToken.SyncRewardsResult.recognized : LiquidStakingToken.SyncRewardsResult → ℕ
  | .rewardsSynced reward => reward
  | _ => 0

/-- The reward between two states is the one that the sync reports. -/
theorem LiquidStakingToken.Synced.rewardIn_eq {result : LiquidStakingToken.SyncRewardsResult}
    (h : LiquidStakingToken.Synced env.epochHeight
      (env.accountLockedBalance + env.accountBalance) excluded s s₁ result) :
    rewardIn env excluded s s₁ = result.recognized := by
  cases h with
  | idle result none =>
      rw [rewardIn_eq_zero rfl]
      cases result with
      | rewardsSynced reward => exact absurd rfl (none reward)
      | _ => rfl
  | reward reward feeLst _ balance_eq _ _ _ _ _ _ fresh =>
      have hsynced : (s.recognize reward feeLst env.epochHeight).statistics.lastEpochSynced ≠
          s.statistics.lastEpochSynced := fresh
      rw [rewardIn, if_neg hsynced, balance_eq, LiquidStakingToken.SyncRewardsResult.recognized]
      omega

/-- **A sync writes the epoch** exactly if it returns `RewardsSynced`, with the
reward that is read off the two states. -/
theorem syncRewardsInternal_recognizes {amountToExclude : Option ℕ}
    {result : LiquidStakingToken.SyncRewardsResult}
    (h : s.syncRewardsInternal env amountToExclude = .ok (s', result)) :
    (s'.statistics.lastEpochSynced ≠ s.statistics.lastEpochSynced ↔
      ∃ reward, result = .rewardsSynced reward) ∧
    rewardIn env (amountToExclude.getD 0) s s' = result.recognized := by
  have hsynced := LiquidStakingToken.syncRewardsInternal_eq_ok h
  refine ⟨?_, hsynced.rewardIn_eq⟩
  cases hsynced with
  | idle result none =>
      constructor
      · intro hmoved
        exact absurd rfl hmoved
      · rintro ⟨reward, rfl⟩
        exact absurd rfl (none reward)
  | reward reward feeLst pos balance_eq bounded fee_le feeLst_eq supply stake registered fresh =>
      exact ⟨fun _ => ⟨reward, rfl⟩, fun _ => fresh⟩

/-- A sync that returns a reward returns the one that is read off the states. -/
theorem ReturnsReward.rewardIn_eq {reward : ℕ} (h : ReturnsReward env excluded s s' reward) :
    s'.statistics.lastEpochSynced ≠ s.statistics.lastEpochSynced ∧
      rewardIn env excluded s s' = reward := by
  obtain ⟨s₀, s₁, hsynced, htracked, hlast, hnext⟩ := h
  have hreturned : (LiquidStakingToken.SyncRewardsResult.rewardsSynced reward).recognized =
      reward := rfl
  cases hsynced with
  | idle _ none => exact absurd rfl (none reward)
  | reward _ feeLst pos balance_eq _ _ _ _ _ _ fresh =>
      have hmoved : s'.statistics.lastEpochSynced ≠ s.statistics.lastEpochSynced := by
        rw [← hnext, ← hlast]
        exact fresh
      refine ⟨hmoved, ?_⟩
      rw [rewardIn, if_neg hmoved]
      omega

/-- A sync that writes the epoch, and a receipt that runs it on what it finds. -/
theorem LiquidStakingToken.Synced.returnsReward {result : LiquidStakingToken.SyncRewardsResult}
    {s₀ : LiquidStakingToken H}
    (h : LiquidStakingToken.Synced env.epochHeight
      (env.accountLockedBalance + env.accountBalance) excluded s₀ s₁ result)
    (hmoved : s'.statistics.lastEpochSynced ≠ s.statistics.lastEpochSynced)
    (htracked : s₀.statistics.latestTotalBalance = s.statistics.latestTotalBalance)
    (hlast : s₀.statistics.lastEpochSynced = s.statistics.lastEpochSynced)
    (hnext : s₁.statistics.lastEpochSynced = s'.statistics.lastEpochSynced) :
    ∃ reward, ReturnsReward env excluded s s' reward := by
  cases result with
  | rewardsSynced reward => exact ⟨reward, s₀, s₁, h, htracked, hlast, hnext⟩
  | _ =>
      cases h with
      | idle => exact absurd (hnext.symm.trans hlast) hmoved

/-- A sync raises the tracked total by the reward. -/
theorem LiquidStakingToken.Synced.tracked_eq {result : LiquidStakingToken.SyncRewardsResult}
    (h : LiquidStakingToken.Synced env.epochHeight
      (env.accountLockedBalance + env.accountBalance) excluded s s₁ result) :
    s₁.statistics.latestTotalBalance =
      s.statistics.latestTotalBalance + rewardIn env excluded s s₁ := by
  rw [h.rewardIn_eq]
  cases h with
  | idle result none =>
      cases result with
      | rewardsSynced reward => exact absurd rfl (none reward)
      | _ => rfl
  | reward => exact LiquidStakingToken.recognize_statistics_latestTotalBalance ..

/-- What the payments on the side take along, and what of it comes back to the
account. -/
def sideCarries (side : List (Receipt H)) : ℕ := (side.map Receipt.carries).sum

/-- What is in transit in payments on the side: those of the account to itself. -/
def sideTransit (host : Host H) (side : List (Receipt H)) : ℕ :=
  (side.map fun t => if t.receiver = host.currentAccountId then t.carries else 0).sum

/-- A detached payment takes its amount along. -/
theorem sideCarries_detachedPay (receiver : AccountId) (amount : ℕ) :
    sideCarries (detachedPay receiver amount : List (Receipt H)) = amount := by
  unfold sideCarries detachedPay
  split_ifs with hzero
  · exact hzero.symm
  · simp

/-- A payment to somebody else is not tracked any more. -/
theorem sideTransit_detachedPay_ne {receiver : AccountId} (h : receiver ≠ host.currentAccountId)
    (amount : ℕ) : sideTransit host (detachedPay receiver amount) = 0 := by
  unfold sideTransit detachedPay
  split_ifs with hzero
  · rfl
  · simp [Receipt.pay, h]

/-- A payment to the account itself is. -/
theorem sideTransit_detachedPay_self (amount : ℕ) :
    sideTransit host (detachedPay host.currentAccountId amount) = amount := by
  unfold sideTransit detachedPay
  split_ifs with hzero
  · exact hzero.symm
  · have hcarries := Receipt.carries_pay (H := H) host.currentAccountId amount
    simpa [Receipt.pay] using hcarries

variable [DecidableEq H]

/-- The payments of a call from outside go to its caller. -/
theorem Entry.sideTransit_eq {m : Method H} (h : Entry host env s m s' p side)
    (hext : env.predecessorAccountId ≠ host.currentAccountId) : sideTransit host side = 0 := by
  cases h with
  | storageKnown | storageNew | unregister => exact sideTransit_detachedPay_ne hext _
  | _ => rfl

/-- **What a call from outside moves**: its deposit, a reward, and what it sends
on. -/
theorem Entry.flow_eq {m : Method H} (h : Entry host env s m s' p side) :
    s.statistics.latestTotalBalance + env.attachedDeposit + p.transit host +
        rewardIn env (m.excludes env.attachedDeposit) s s' =
      s'.statistics.latestTotalBalance + p.carries host + sideCarries side +
        if m.booksDeposit then 0 else env.attachedDeposit := by
  cases h with
  | stake args s₁ result o synced quoted sender_eq args_eq deposit_eq native =>
      have htracked := synced.tracked_eq
      have hdeposit := quoted.deposit_eq
      -- The deposit goes on with the chain, as nothing is booked before the
      -- mint.
      have hcarried : o.carried = env.attachedDeposit := by
        unfold StakeOrder.carried
        rw [native, ← deposit_eq, hdeposit]
      simp only [Phase.transit, Phase.carries, hcarried, reduceCtorEq, if_false,
        Method.booksDeposit, Method.excludes, if_true, sideCarries, List.map_nil, List.sum_nil]
      omega
  | pingIdle result s₁ synced | ping reward s₁ synced | setKey key s₁ result _ _ synced =>
      have htracked : _ = s.statistics.latestTotalBalance + rewardIn env 0 s _ :=
        synced.tracked_eq
      simp only [Phase.transit, Phase.carries, Method.booksDeposit, Method.excludes,
        Bool.false_eq_true, if_false,
        sideCarries, List.map_nil, List.sum_nil]
      omega
  | setFee feeBps s₁ result _ _ _ synced =>
      have htracked := synced.tracked_eq
      -- The new fee is stored after the sync.
      have hsame : rewardIn env 0 s (s₁.withFee feeBps) = rewardIn env 0 s s₁ := rfl
      have hfee : (s₁.withFee feeBps).statistics.latestTotalBalance =
        s₁.statistics.latestTotalBalance := rfl
      simp only [Phase.transit, Phase.carries, Method.booksDeposit, Method.excludes,
        Bool.false_eq_true, if_false,
        sideCarries, List.map_nil, List.sum_nil, hsame, hfee]
      omega
  | storageNew accountId registrationOnly fresh covered =>
      simp only [Phase.transit, Phase.carries, Method.booksDeposit, Method.excludes, if_true,
        sideCarries_detachedPay, LiquidStakingToken.addBalance_statistics_latestTotalBalance,
        LiquidStakingToken.registerIfNew_statistics, rewardIn,
        LiquidStakingToken.addBalance_statistics_lastEpochSynced]
      omega
  | storageKnown =>
      simp only [Phase.transit, Phase.carries, Method.booksDeposit, Method.excludes, if_true,
        sideCarries_detachedPay, rewardIn]
      omega
  | unregister force holders yocto registered ordinary forced covered =>
      simp only [Phase.transit, Phase.carries, Method.booksDeposit, Method.excludes, if_true,
        yocto, oneYocto,
        sideCarries_detachedPay, LiquidStakingToken.subBalance_statistics_latestTotalBalance,
        LiquidStakingToken.withToken_statistics_latestTotalBalance, rewardIn,
        LiquidStakingToken.subBalance_statistics_lastEpochSynced,
        LiquidStakingToken.withToken_statistics_lastEpochSynced]
      omega
  | storageWithdraw amount yocto | unregisterNone force yocto =>
      simp [Phase.transit, Phase.carries, Method.booksDeposit, rewardIn, sideCarries, yocto]
  | book | withdrawNative | withdrawWnear =>
      simp only [Phase.transit, Phase.carries, Method.booksDeposit, Method.excludes,
        Bool.false_eq_true, if_false,
        rewardIn, sideCarries, List.map_nil, List.sum_nil,
        LiquidStakingToken.addBalance_statistics_latestTotalBalance,
        LiquidStakingToken.addBalance_statistics_lastEpochSynced,
        LiquidStakingToken.withQueue_statistics, if_true]
      omega
  | _ => simp [Phase.transit, Phase.carries, Method.booksDeposit, rewardIn, sideCarries]

/-- Calls from outside write the epoch in a sync only. -/
theorem Entry.returnsReward {m : Method H} (h : Entry host env s m s' p side)
    (hmoved : s'.statistics.lastEpochSynced ≠ s.statistics.lastEpochSynced) :
    ∃ reward, ReturnsReward env (m.excludes env.attachedDeposit) s s' reward := by
  cases h with
  | stake args s₁ result o synced => exact synced.returnsReward hmoved rfl rfl rfl
  | pingIdle result s₁ synced | ping reward s₁ synced =>
      exact synced.returnsReward hmoved rfl rfl rfl
  | setFee feeBps s₁ result _ _ _ synced => exact synced.returnsReward hmoved rfl rfl rfl
  | setKey key s₁ result _ _ synced => exact synced.returnsReward hmoved rfl rfl rfl
  | _ => exact absurd rfl hmoved

/-- So do callbacks. -/
theorem Advance.returnsReward (h : Advance host env s p s' p' side)
    (hmoved : s'.statistics.lastEpochSynced ≠ s.statistics.lastEpochSynced) :
    ∃ reward, ReturnsReward env 0 s s' reward := by
  cases h with
  | unwrapQuoted ok s₁ result o synced => exact synced.returnsReward hmoved rfl rfl rfl
  | unwrapRejected ok s₁ result synced => exact synced.returnsReward hmoved rfl rfl rfl
  | refused message _ t used burned _ s₁ u _ _ unstakes =>
      obtain ⟨result, synced⟩ := unstakes.synced
      exact synced.returnsReward hmoved rfl rfl rfl
  | unstakeRequested message _ s₁ u _ _ unstakes =>
      obtain ⟨result, synced⟩ := unstakes.synced
      exact synced.returnsReward hmoved rfl rfl rfl
  | _ => exact absurd rfl hmoved

/-- What a committed callback leaves tracked although it is gone. -/
def Phase.loses (host : Host H) : Phase H → ℕ
  | .restaked m r =>
      if resultOk r = false ∧ m.senderId = host.currentAccountId then m.stakeAmount else 0
  | _ => 0

/-- The payments of a callback go to the account itself, and to nobody else. -/
theorem Advance.sideTransit_eq (h : Advance host env s p s' p' side) :
    sideTransit host side = sideCarries side := by
  cases h with
  | mintedRegistering => rw [sideTransit_detachedPay_self, sideCarries_detachedPay]
  | _ => rfl

omit [DecidableEq H] in
/-- An unstake leaves the tracked total to its sync. -/
theorem Unstakes.tracked_eq {message : UnstakeMessage} {u : UnstakeOrder H}
    (h : Unstakes host env s message s₁ u) :
    (u.burn host s₁).statistics.latestTotalBalance =
      s.statistics.latestTotalBalance + rewardIn env 0 s (u.burn host s₁) := by
  obtain ⟨result, synced⟩ := h.synced
  exact synced.tracked_eq

omit [DecidableEq H] in
/-- A mint books what a native batch brings along; a wNEAR deposit was booked
before. -/
theorem StakeOrder.mint_tracked_eq {o : StakeOrder} (hvalid : o.Valid host)
    {refundTo : Option AccountId} (hfits : refundTo = none ↔ o.depositToken = .wnear)
    (s : LiquidStakingToken H) :
    (o.mint host s).statistics.latestTotalBalance + (if refundTo = none then o.carried else 0) =
      s.statistics.latestTotalBalance + o.carried := by
  have hdeposit := hvalid.deposit_eq
  rw [StakeOrder.mint_statistics_latestTotalBalance]
  unfold StakeOrder.amountToBook StakeOrder.carried
  cases htoken : o.depositToken with
  | native =>
      rw [if_neg (hvalid.sender_ne htoken), if_neg (by simp [hfits, htoken]), hdeposit]
      rfl
  | wnear => simp [hfits.mpr htoken]

omit [DecidableEq H] in
/-- The cost of a delivery, when its outlay fits. -/
theorem Attempt.cost_add {a : Attempt} (hfits : a.outlay host < 2 ^ 128) :
    a.cost host + a.storageToPay = a.outlay host := by
  unfold Attempt.outlay at hfits ⊢
  unfold Attempt.cost NearToken.satAdd
  rw [saturatingAdd_of_lt (by omega)]
  omega

omit [DecidableEq H] in
/-- What a delivery takes out of the tracker is its outlay. -/
theorem Attempt.spent_eq {a : Attempt} (hfits : a.outlay host < 2 ^ 128) :
    NearToken.satAdd (a.cost host) a.storageToPay = a.outlay host := by
  have hcost := Attempt.cost_add hfits
  unfold NearToken.satAdd
  rw [saturatingAdd_of_lt (by omega), hcost]

omit [DecidableEq H] in
/-- A delivery that counts something was not a plain transfer that failed. -/
theorem Delivery.not_returned {amountToSend consumed : ℕ} {isCall : Bool} {r : PromiseResult}
    (h : Delivery amountToSend isCall r (some consumed)) : ¬(isCall = false ∧ r = .failed) := by
  rintro ⟨hcall, rfl⟩
  cases h with
  | writtenOff call => exact absurd (call.symm.trans hcall) (by decide)

omit [DecidableEq H] in
/-- One that counts nothing was. -/
theorem Delivery.eq_returned {amountToSend : ℕ} {isCall : Bool} {r : PromiseResult}
    (h : Delivery amountToSend isCall r none) : isCall = false ∧ r = .failed := by
  cases h with
  | returned plain => exact ⟨plain, rfl⟩

/-- **What a callback moves.** -/
theorem Advance.flow_eq (h : Advance host env s p s' p' side) (hvalid : p.Valid host)
    (hfits : p.Fits host) :
    s.statistics.latestTotalBalance + p.carries host + p'.transit host + sideTransit host side +
        p.loses host + rewardIn env 0 s s' =
      s'.statistics.latestTotalBalance + p'.carries host + sideCarries side + p.transit host := by
  rw [h.sideTransit_eq]
  cases h with
  | unwrapFailed failed covered =>
      simp only [Phase.transit, Phase.carries, Phase.loses, rewardIn, failed, Bool.false_eq_true,
        if_false, if_true, LiquidStakingToken.subBalance_statistics_latestTotalBalance,
        LiquidStakingToken.subBalance_statistics_lastEpochSynced]
      omega
  | unwrapQuoted ok s₁ result o synced quoted sender_eq args_eq deposit_eq wnear =>
      have htracked := synced.tracked_eq
      simp only [Phase.transit, Phase.carries, Phase.loses, ok, if_true]
      omega
  | @unwrapRejected senderId amount args r ok s₁ result synced covered =>
      have htracked := synced.tracked_eq
      -- The rejected deposit leaves the tracker after the sync.
      have hreward : rewardIn env 0 s (s₁.subBalance amount) = rewardIn env 0 s s₁ := rfl
      simp only [Phase.transit, Phase.carries, Phase.loses, ok, if_true, hreward,
        LiquidStakingToken.subBalance_statistics_latestTotalBalance]
      omega
  | @minted o refundTo plain =>
      have hmint := o.mint_tracked_eq hvalid hfits s
      have hreward : rewardIn env 0 s (o.mint host s) = 0 := rewardIn_eq_zero rfl
      simp only [Phase.transit, Phase.carries, Phase.loses, hreward]
      omega
  | @mintedRegistering o refundTo storage =>
      have hmint := o.mint_tracked_eq hvalid hfits (s.registerIfNew o.args.receiverId)
      have hreward : rewardIn env 0 s (o.mint host (s.registerIfNew o.args.receiverId)) = 0 :=
        rewardIn_eq_zero rfl
      rw [LiquidStakingToken.registerIfNew_statistics] at hmint
      simp only [Phase.transit, Phase.carries, Phase.loses, hreward]
      omega
  | @restakeRefund o r failed wnear covered =>
      simp only [Phase.transit, Phase.carries, Phase.loses, rewardIn, if_true,
        LiquidStakingToken.subBalance_statistics_latestTotalBalance,
        LiquidStakingToken.subBalance_statistics_lastEpochSynced]
      omega
  | @rolledBack m r failed escrow supply staked tracked =>
      have hreward : rewardIn env 0 s (m.rollback host s) = 0 := rewardIn_eq_zero rfl
      simp only [Phase.transit, Phase.carries, Phase.loses, hreward, failed, true_and,
        MintedStake.rollback_statistics_latestTotalBalance, sideCarries, List.map_nil,
        List.sum_nil]
      cases htoken : m.depositToken with
      | native =>
          have hsender := hvalid.sender_ne htoken
          have hle := tracked hsender
          simp only [hsender, if_false]
          omega
      | wnear =>
          simp only
          split_ifs with hsender
          · omega
          · have hle := tracked hsender
            omega
  | @refused lstTokens args r message message_eq t used burned resolved s₁ u lst_eq trigger_eq
      unstakes =>
      have htracked := unstakes.tracked_eq
      have hreward : rewardIn env 0 (s.retokenBoth t host.currentAccountId args.receiverId)
        (u.burn host s₁) = rewardIn env 0 s (u.burn host s₁) := rfl
      rw [hreward, LiquidStakingToken.retokenBoth_statistics_latestTotalBalance] at htracked
      simp only [Phase.transit, Phase.carries, Phase.loses, sideCarries, List.map_nil,
        List.sum_nil]
      omega
  | @unstakeRequested senderId amount msg gas k message parsed s₁ u lst_eq trigger_eq unstakes =>
      have htracked := unstakes.tracked_eq
      simp only [Phase.transit, Phase.carries, Phase.loses, sideCarries, List.map_nil,
        List.sum_nil]
      omega
  | @paidNative a r ok t locked amount_eq tracked =>
      simp only [Phase.transit, Phase.carries, Phase.loses, rewardIn, ok, if_true, sideCarries,
        List.map_nil, List.sum_nil, LiquidStakingToken.subPending_statistics_latestTotalBalance,
        LiquidStakingToken.subBalance_statistics_latestTotalBalance,
        LiquidStakingToken.withQueue_statistics,
        LiquidStakingToken.subPending_statistics_lastEpochSynced,
        LiquidStakingToken.subBalance_statistics_lastEpochSynced]
      omega
  | @paidWnear a r consumed delivery t locked delivered delivered_eq claimed q q_eq spent spent_eq
      tracked =>
      -- What the callback takes off the tracker is what the batch has cost.
      have hspent : spent = a.outlay host := spent_eq.trans (Attempt.spent_eq hfits)
      simp only [Phase.transit, Phase.carries, Phase.loses, rewardIn, delivery.not_returned,
        if_true, if_false, sideCarries, List.map_nil, List.sum_nil,
        LiquidStakingToken.subPending_statistics_latestTotalBalance,
        LiquidStakingToken.subBalance_statistics_latestTotalBalance,
        LiquidStakingToken.withQueue_statistics,
        LiquidStakingToken.subPending_statistics_lastEpochSynced,
        LiquidStakingToken.subBalance_statistics_lastEpochSynced]
      omega
  | keptOnPool ok | handedOver ok | handedOverCall ok =>
      simp [Phase.transit, Phase.carries, Phase.loses, rewardIn, sideCarries, ok]
  | unpaidNative failed =>
      simp [Phase.transit, Phase.carries, Phase.loses, rewardIn, sideCarries, failed]
  | unpaidWnear delivery =>
      obtain ⟨hcall, rfl⟩ := delivery.eq_returned
      simp [Phase.transit, Phase.carries, Phase.loses, rewardIn, sideCarries, hcall]
  | _ => simp [Phase.transit, Phase.carries, Phase.loses, rewardIn, sideCarries]

end Steps

/-! ## One turn -/

section Turns

variable {H : Type} [DecidableEq H] {host : Host H} {wnear : AccountId} {p p' : Phase H}
  {c : PoolChain H} {e : PoolExecution H} {rest : List (Receipt H)} {r : PromiseResult}

omit [DecidableEq H] in
/-- **What an answer moves.** -/
theorem Phase.answered_flow (hwnear : wnear ≠ host.currentAccountId) (hvalid : p.Valid host)
    (htasks : c.tasks = p.tasks host wnear) (hhead : c.tasks = e.task :: rest)
    (haway : p.place host = .away) (hverdict : e.verdict = .answered r) :
    arriving host ⟨c, e⟩ + refunded host ⟨c, e⟩ + (p.settle r).transit host =
      p.transit host + earned host ⟨c, e⟩ := by
  unfold arriving refunded earned
  simp only [hverdict]
  rw [hhead]
  rw [hhead] at htasks
  cases p with
  | continuing k r' => cases k <;> cases haway
  | unwrapping senderId amount args =>
      obtain ⟨htask, rfl⟩ := List.cons.inj htasks
      cases hok : resultOk r <;>
        simp [htask, Receipt.call, hwnear, Phase.transit, Phase.settle, Receipt.carries,
          Receipt.unwraps, Action.carries, hok, add_comm]
  | rewrapping | stopping | addingKey =>
      obtain ⟨htask, rfl⟩ := List.cons.inj htasks
      simp [htask, Receipt.call, hwnear, Phase.transit, Phase.settle, Receipt.carries,
        Receipt.unwraps, Action.carries]
  | pinging =>
      obtain ⟨htask, rfl⟩ := List.cons.inj htasks
      simp [htask, LiquidStakingToken.onRestakeCall, Receipt.call, Phase.transit, Phase.settle,
        Receipt.carries, Action.carries]
  | restaking m amount key =>
      obtain ⟨htask, rfl⟩ := List.cons.inj htasks
      simp [htask, MintedStake.settleCall, Receipt.call, Phase.transit, Phase.settle,
        Receipt.carries, Action.carries]
  | unstaking u amount key k =>
      obtain ⟨htask, rfl⟩ := List.cons.inj htasks
      simp [htask, LiquidStakingToken.onUnstakeCall, Receipt.call, Phase.transit, Phase.settle,
        Receipt.carries, Action.carries]
  | paying receiver amount =>
      obtain ⟨htask, rfl⟩ := List.cons.inj htasks
      simp [htask, Receipt.pay, Phase.transit, Phase.settle, Receipt.carries, Receipt.unwraps,
        Action.carries]
  | sending receiver senderId amount msg gas k =>
      obtain ⟨htask, rfl⟩ := List.cons.inj htasks
      -- To itself the pool would answer with an execution of its own.
      have hreceiver : receiver ≠ host.currentAccountId := by
        intro hself
        simp [Phase.place, hself] at haway
      cases k <;>
        simp [htask, Receipt.call, hreceiver, Phase.transit, Phase.settle, Continuation.tasks,
          Receipt.unwraps]
  | deliveringNative a =>
      obtain ⟨htask, rfl⟩ := List.cons.inj htasks
      have hcarries := Receipt.carries_pay (H := H) a.args.receiverId a.tranche.withdrawalAmount
      have hunwraps : (Receipt.pay a.args.receiverId a.tranche.withdrawalAmount :
        Receipt H).unwraps = 0 := rfl
      simp only [htask, hcarries, hunwraps, Phase.transit, Phase.settle, Receipt.call, ite_self]
      by_cases hself : a.args.receiverId = host.currentAccountId <;> cases resultOk r <;>
        simp [Receipt.pay, hself]
  | deliveringWnear a =>
      obtain ⟨htask, rfl⟩ := List.cons.inj htasks
      have hcarries := Attempt.batch_carries wnear hvalid.2
      have hreceiver : (a.batch host wnear).receiver ≠ host.currentAccountId := hwnear
      simp only [htask, hcarries, if_neg hreceiver, a.batch_unwraps, ite_self, Phase.transit,
        Phase.settle, LiquidStakingToken.onWithdrawWnearCall, Receipt.call]
      split_ifs <;> omega
  | _ => cases haway

omit [DecidableEq H] in
/-- **What a panic moves**: a minting batch sends its deposit back, and a
callback that was to book out does not. -/
theorem Phase.panicked_flow (hfits : p.Fits host) (htasks : c.tasks = p.tasks host wnear)
    (hinput : c.input = p.input) (hhead : c.tasks = e.task :: rest) (hread : e.input = c.input)
    (hhere : p.place host = .here) (hverdict : e.verdict = .panicked) :
    refunded host ⟨c, e⟩ + (p.settle .failed).transit host + lost host ⟨c, e⟩ =
      p.transit host := by
  rw [hhead] at htasks
  rw [hinput] at hread
  unfold refunded lost
  simp only [hverdict, hread]
  cases p with
  | continuing k r' =>
      cases k with
      | finish => cases hhere
      | resolve | notify =>
          obtain ⟨htask, -⟩ := List.cons.inj htasks
          simp [htask, Receipt.call, Receipt.carries, Action.carries, Phase.transit, Phase.settle,
            Phase.input]
  | unwrapped senderId amount args r' =>
      obtain ⟨htask, -⟩ := List.cons.inj htasks
      simp [htask, Receipt.call, Receipt.carries, Action.carries, Phase.transit, Phase.settle,
        Phase.input]
  | batching o refundTo =>
      obtain ⟨htask, -⟩ := List.cons.inj htasks
      simp only [htask, StakeOrder.batch_carries, Phase.transit, Phase.settle, Phase.input]
      rfl
  | batched | restaked | rewrapped | pinged | unstaked =>
      obtain ⟨htask, -⟩ := List.cons.inj htasks
      simp [htask, Receipt.call, Receipt.carries, Action.carries, Phase.transit, Phase.settle,
        Phase.input, StakeOrder.restakeCall, MintedStake.settleCall,
        LiquidStakingToken.onRestakeCall, LiquidStakingToken.onUnstakeCall]
  | sending receiver senderId amount msg gas k =>
      obtain ⟨htask, -⟩ := List.cons.inj htasks
      simp [htask, Receipt.call, Receipt.carries, Action.carries, Phase.transit, Phase.settle,
        Phase.input]
  | deliveredNative a r' =>
      obtain ⟨htask, -⟩ := List.cons.inj htasks
      simp [htask, Receipt.call, Receipt.carries, Action.carries, Phase.transit, Phase.settle,
        Phase.input]
  | deliveredWnear a r' =>
      obtain ⟨htask, -⟩ := List.cons.inj htasks
      -- A settlement that panics loses what its batch has cost.
      have hcost : a.cost host + a.storageToPay = a.outlay host := Attempt.cost_add hfits
      simp [htask, Receipt.call, Receipt.carries, Action.carries, Phase.transit, Phase.settle,
        Phase.input, LiquidStakingToken.onWithdrawWnearCall, hcost]
  | _ => cases hhere

omit [DecidableEq H] in
/-- What an event sends is what the chain then has to send more than before. -/
theorem leaving_eq {ret : Return H} {side : List (Receipt H)} (hhead : c.tasks = e.task :: rest)
    (hverdict : e.verdict = .committed ret side) (hvalid : p'.Valid host)
    (hnext : (c.resume e).tasks = p'.tasks host wnear) :
    leaving ⟨c, e⟩ + (rest.map Receipt.carries).sum = p'.carries host + sideCarries side := by
  have hdetached : e.detached = side := by rw [Execution.detached, hverdict]
  have hcarries := Phase.carries_eq wnear hvalid
  rw [← hnext, Chain.resume_tasks, hhead, List.tail_cons, List.map_append, List.sum_append]
    at hcarries
  show ((e.next ++ e.detached).map Receipt.carries).sum + (rest.map Receipt.carries).sum =
    p'.carries host + (side.map Receipt.carries).sum
  rw [List.map_append, List.sum_append, hdetached]
  omega

omit [DecidableEq H] in
/-- What a call from outside sends. -/
theorem leaving_entered {ret : Return H} {side : List (Receipt H)}
    (hfresh : c = Chain.single e.task) (hverdict : e.verdict = .committed ret side)
    (hvalid : p'.Valid host) (hnext : (c.resume e).tasks = p'.tasks host wnear) :
    leaving ⟨c, e⟩ = p'.carries host + sideCarries side := by
  have hhead : c.tasks = [e.task] := by
    rw [hfresh]
    rfl
  exact leaving_eq hhead hverdict hvalid hnext

/-- A scheduled receipt that commits brings along what it takes, and nothing of
it is income. -/
theorem Phase.committed_flow {ret : Return H} {side : List (Receipt H)} {env : Env}
    {s s' : LiquidStakingToken H} (h : Advance host env s p s' p' side)
    (hvalid : p.Valid host) (htasks : c.tasks = p.tasks host wnear) (hinput : c.input = p.input)
    (hhead : c.tasks = e.task :: rest) (hread : e.input = c.input)
    (hverdict : e.verdict = .committed ret side) :
    arriving host ⟨c, e⟩ + (rest.map Receipt.carries).sum = p.carries host ∧
      earned host ⟨c, e⟩ = 0 ∧ excludedBy e.task = 0 ∧ lost host ⟨c, e⟩ = p.loses host := by
  have hcarries := Phase.carries_eq wnear hvalid
  rw [← htasks, hhead, List.map_cons, List.sum_cons] at hcarries
  rw [hhead] at htasks
  rw [hinput] at hread
  refine ⟨by simpa only [arriving, hverdict] using hcarries, ?_⟩
  unfold earned excludedBy lost
  simp only [hverdict, hread]
  cases p with
  | continuing k r' =>
      cases k with
      | finish => cases htasks
      | resolve | notify =>
          obtain ⟨htask, -⟩ := List.cons.inj htasks
          simp [htask, Receipt.call, Phase.input, Phase.loses, Method.excludes]
  | batching o refundTo =>
      obtain ⟨htask, -⟩ := List.cons.inj htasks
      cases htoken : o.depositToken <;> cases hstorage : o.args.isStorageDeposit <;>
        simp [htask, StakeOrder.batch, htoken, hstorage, Phase.input, Phase.loses, Method.excludes]
  | unwrapped | batched | restaked | rewrapped | pinged | unstaked | sending | deliveredNative
  | deliveredWnear =>
      obtain ⟨htask, -⟩ := List.cons.inj htasks
      simp [htask, Receipt.call, Phase.input, Phase.loses, Method.excludes, StakeOrder.restakeCall,
        MintedStake.settleCall, LiquidStakingToken.onRestakeCall,
        LiquidStakingToken.onUnstakeCall, LiquidStakingToken.onWithdrawWnearCall]
  | _ => cases h

omit [DecidableEq H] in
/-- A call from outside brings its deposit. -/
theorem entered_flow (host : Host H) {ret : Return H} {side : List (Receipt H)} {m : Method H}
    {deposit gas : ℕ} (htask : e.task.actions = [.call m deposit gas]) (hread : e.input = none)
    (hverdict : e.verdict = .committed ret side) :
    arriving host ⟨c, e⟩ = deposit ∧
      earned host ⟨c, e⟩ = (if m.booksDeposit then 0 else deposit) ∧
      excludedBy e.task = m.excludes deposit ∧ lost host ⟨c, e⟩ = 0 := by
  have hcarries : e.task.carries = deposit := by
    unfold Receipt.carries
    rw [htask, Action.carries_single]
  unfold earned excludedBy lost
  simp only [arriving, hverdict, hcarries, htask, hread, true_and]

end Turns

section Reaches

variable {H : Type} [DecidableEq H] {host : Host H} {d : Deployment host}
  {events : List (PoolEvent H)} {sys : PoolSystem H} {c : PoolChain H} {e : PoolExecution H}
  {Good : PoolEvent H → Prop}

/-- What the chains started on the side have in transit. -/
theorem transit_spawned {side : List (Receipt H)} (hpaying : Paying side)
    (hspawned : e.spawned = side.map Chain.single) :
    (e.spawned.map (carried host (Phase.transit host))).sum = sideTransit host side := by
  unfold sideTransit
  rw [hspawned, List.map_map]
  congr 1
  refine List.map_congr_left fun t ht => ?_
  obtain ⟨receiver, amount, rfl⟩ := hpaying t ht
  have hpay : Describes host default (Chain.single (.pay receiver amount))
      (.paying receiver amount) := ⟨rfl, rfl, fun _ ha => (nomatch ha), trivial⟩
  rw [Function.comp_apply, hpay.carried_eq, Receipt.carries_pay]
  rfl

/-- **Which events recognize a reward**: those whose sync returns
`RewardsSynced`, and what they recognize is the reward it returns. -/
theorem Deployment.recognizes_iff (run : d.Reaches events sys) :
    ∀ ev ∈ events, (Recognizes ev.execution ↔ ∃ reward, ReturnsReward ev.execution.context
        (excludedBy ev.execution.task) ev.execution.before ev.execution.after reward) ∧
      ∀ reward, ReturnsReward ev.execution.context (excludedBy ev.execution.task)
        ev.execution.before ev.execution.after reward → rewardOf ev = reward := by
  refine run.forall_event (Q := fun ev => (Recognizes ev.execution ↔
      ∃ reward, ReturnsReward ev.execution.context (excludedBy ev.execution.task)
        ev.execution.before ev.execution.after reward) ∧
      ∀ reward, ReturnsReward ev.execution.context (excludedBy ev.execution.task)
        ev.execution.before ev.execution.after reward → rewardOf ev = reward)
    ?_ fun _ _ => trivial
  intro events s c e turn
  refine ⟨⟨fun hmoved => ?_, fun ⟨reward, hreturns⟩ => hreturns.rewardIn_eq.1⟩,
    fun reward hreturns => hreturns.rewardIn_eq.2⟩
  obtain ⟨rest, hhead⟩ := turn.fires.tasks_eq
  have hread := turn.fires.input_eq
  cases d.transition turn with
  | entered m p side deposit gas fresh task_eq deposit_eq external entry next verdict =>
      obtain ⟨ret, hverdict⟩ := verdict
      obtain ⟨-, -, hexcluded, -⟩ := entered_flow host (c := c) task_eq
        (hread.trans (by rw [fresh]; rfl)) hverdict
      rw [hexcluded, ← deposit_eq]
      exact entry.returnsReward hmoved
  | advanced p p' side now self advance next verdict =>
      obtain ⟨ret, hverdict⟩ := verdict
      obtain ⟨-, -, hexcluded, -⟩ := Phase.committed_flow advance now.valid now.tasks_eq
        now.input_eq hhead hread hverdict
      rw [hexcluded]
      exact advance.returnsReward hmoved
  | panicked p now here self verdict same | answered p r now away verdict same =>
      exact absurd (by rw [same]) hmoved

/-- **What an event moves**, on both sides: the tracked total with what is in
transit, and what comes and goes. -/
theorem Deployment.flow_eq (turn : d.Turn Good events sys c e)
    (hfits : ∀ p, Describes host d.wnearId c p → p.Fits host) :
    e.before.statistics.latestTotalBalance + arriving host ⟨c, e⟩ + refunded host ⟨c, e⟩ +
        carried host (Phase.transit host) (c.resume e) +
        (e.spawned.map (carried host (Phase.transit host))).sum + lost host ⟨c, e⟩ +
        rewardOf ⟨c, e⟩ =
      e.after.statistics.latestTotalBalance + leaving ⟨c, e⟩ +
        carried host (Phase.transit host) c + earned host ⟨c, e⟩ := by
  obtain ⟨rest, hhead⟩ := turn.fires.tasks_eq
  have hread := turn.fires.input_eq
  have hreward : rewardOf ⟨c, e⟩ = rewardIn e.context (excludedBy e.task) e.before e.after := rfl
  rw [hreward]
  cases d.transition turn with
  | entered m p side deposit gas fresh task_eq deposit_eq external entry next verdict spawned =>
      obtain ⟨ret, hverdict⟩ := verdict
      obtain ⟨harriving, hearned, hexcluded, hlost⟩ := entered_flow host (c := c) task_eq
        (hread.trans (by rw [fresh]; rfl)) hverdict
      have hrefunded : refunded host ⟨c, e⟩ = 0 := by simp only [refunded, hverdict]
      have hleaving := leaving_entered fresh hverdict next.valid next.tasks_eq
      have hflow := entry.flow_eq
      -- Nothing is under way in a chain that has only just begun.
      have hcarried : carried host (Phase.transit host) c = 0 := by
        rw [fresh, carried_call _ task_eq]
      rw [hcarried, next.carried_eq, transit_spawned entry.paying spawned,
        entry.sideTransit_eq external, harriving, hearned, hexcluded, hlost, hrefunded, hleaving]
      rw [deposit_eq] at hflow
      omega
  | advanced p p' side now self advance next verdict spawned =>
      obtain ⟨ret, hverdict⟩ := verdict
      obtain ⟨harriving, hearned, hexcluded, hlost⟩ := Phase.committed_flow advance
        now.valid now.tasks_eq now.input_eq hhead hread hverdict
      have hrefunded : refunded host ⟨c, e⟩ = 0 := by simp only [refunded, hverdict]
      have hleaving := leaving_eq hhead hverdict next.valid next.tasks_eq
      have hflow := advance.flow_eq now.valid (hfits p now)
      rw [now.carried_eq, next.carried_eq, transit_spawned advance.paying spawned, hearned,
        hexcluded, hlost, hrefunded]
      omega
  | panicked p now here self verdict same next spawned =>
      have hflow := Phase.panicked_flow (hfits p now) now.tasks_eq now.input_eq hhead hread here
        verdict
      have hnone : arriving host ⟨c, e⟩ = 0 ∧ earned host ⟨c, e⟩ = 0 ∧ leaving ⟨c, e⟩ = 0 := by
        simp [arriving, earned, leaving, Execution.next, Execution.detached, verdict]
      obtain ⟨harriving, hearned, hleaving⟩ := hnone
      rw [now.carried_eq, next.carried_eq, spawned, same, harriving, hearned, hleaving,
        rewardIn_eq_zero rfl]
      simp only [List.map_nil, List.sum_nil]
      omega
  | answered p r now away verdict same next spawned =>
      have hflow := Phase.answered_flow d.wnear_ne now.valid now.tasks_eq hhead away verdict
      have hnone : lost host ⟨c, e⟩ = 0 ∧ leaving ⟨c, e⟩ = 0 := by
        simp [lost, leaving, Execution.next, Execution.detached, verdict]
      obtain ⟨hlost, hleaving⟩ := hnone
      rw [now.carried_eq, next.carried_eq, spawned, same, hlost, hleaving, rewardIn_eq_zero rfl]
      simp only [List.map_nil, List.sum_nil]
      omega

end Reaches

end LiquidStaking
