import LiquidStaking.Claimable
import LiquidStaking.Wrapping

/-!
# A wNEAR claim is delivered, and what comes back is delivered again

A wNEAR delivery is harder than a payment.  It may pay for a registration of the
receiver, it wraps only what is not wNEAR already, and the receiver of a
transfer call may give a part back, which stays in the claim.  Two amounts must
then not be cut off: the registration may not exceed the claim, and the wNEAR
kept from before may not exceed what is to be sent.  The second never happens,
because what came back was sent in an attempt that had paid for the registration
(`Retryable`).

`Deployment.claim_deliverable` is about one attempt, and what it leaves for the
next one.
-/

namespace LiquidStaking

open Checked PromiseChain

/-! ## One attempt -/

section Attempts

variable {H : Type} [DecidableEq H] {host : Host H} {env : Env} {s : LiquidStakingToken H}
  {a : Attempt} {args : UnstakeMessage} {r : PromiseResult}
  {q q' : WithdrawalRequests H} {e : ℕ}

open WithdrawalRequests

/-- The attempt a withdrawal starts: everything that is ready, as one tranche. -/
def attemptFor (host : Host H) (q : WithdrawalRequests H) (e : ℕ) (args : UnstakeMessage) :
    Attempt :=
  ⟨args, Tranches.merged e (tranchesAt q (host.hash args))⟩

/-- The claim is enough for the registration it asks for, and the pool asks for
none of its own account.

These are the two checks of `withdraw_wnear` that can fail. -/
structure Attempt.Payable (host : Host H) (a : Attempt) : Prop where
  storage_le : a.storageToPay ≤ a.tranche.withdrawalAmount
  self : a.isSelf host = true → a.asksStorage = false

omit [DecidableEq H] in
/-- Nothing of a claim is cut off in an attempt that is payable.

What was kept as wNEAR was sent in an earlier attempt, so it fits into what is
sent now. -/
theorem Retryable.fits (h : Retryable host a.args a.tranche) (hpayable : a.Payable host) :
    a.Fits host := by
  refine ⟨hpayable.storage_le, ?_, hpayable.self⟩
  have hresidual := h.residual_le
  unfold Attempt.amountToSend
  by_cases hzero : a.storageToPay = 0
  · omega
  · -- The registration is still to be paid, so nothing was kept.
    have hnew : a.asksStorage = true ∧ a.tranche.storageWasPaid = false := by
      unfold Attempt.storageToPay at hzero
      simpa [and_comm, ftStorageDeposit] using hzero
    have hnone : a.tranche.wnearResidual = 0 := by
      by_contra hkept
      rw [h.paid hnew.1 (Nat.pos_of_ne_zero hkept)] at hnew
      cases hnew.2
    omega

omit [DecidableEq H] in
/-- After an attempt for a message that asks for it, the registration is paid. -/
theorem Attempt.storage_paid (hasks : a.asksStorage = true) :
    (a.tranche.storageWasPaid || decide (0 < a.storageToPay)) = true := by
  unfold Attempt.storageToPay
  cases a.tranche.storageWasPaid with
  | true => rfl
  | false => simp [hasks, ftStorageDeposit]

/-- What a settlement with result `r` takes out of the tracked balance. -/
def Attempt.spent (host : Host H) (a : Attempt) (r : PromiseResult) : ℕ :=
  match r with
  | .failed => if a.isCall host then NearToken.satAdd (a.cost host) a.storageToPay else 0
  | .successful _ => NearToken.satAdd (a.cost host) a.storageToPay

/-- The settlement callback of an attempt. -/
def Attempt.settlement (host : Host H) (a : Attempt) : Receipt H :=
  LiquidStakingToken.onWithdrawWnearCall host (a.hash host) a.amountToSend (a.cost host)
    a.storageToPay (a.isCall host)

omit [DecidableEq H] in
/-- The delivery has something to do. -/
theorem Attempt.batch_ne_nil (wnear : AccountId)
    (h : Retryable host a.args a.tranche) (hpayable : a.Payable host)
    (hpos : 0 < a.tranche.withdrawalAmount) : (a.batch host wnear).actions ≠ [] := by
  by_cases hself : a.isSelf host = true
  · -- A delivery to the pool wraps the whole claim.
    have hnone := h.self (of_decide_eq_true hself)
    have hdeposit : 0 < a.amountToNearDeposit := by
      have hstorage : a.storageToPay = 0 := by simp [Attempt.storageToPay, hpayable.self hself]
      unfold Attempt.amountToNearDeposit Attempt.amountToSend
      omega
    simp [Attempt.batch, LiquidStakingToken.deliveryActions, hdeposit]
  · simp only [Attempt.batch, LiquidStakingToken.deliveryActions, hself]
    cases a.msg <;> simp

/-- The withdrawal sends the batch out. -/
theorem LiquidStakingToken.withdraw_wnear (hwrapped : a.args.withdrawTokens ≠ .native)
    (hunpaused : env.paused .withdraw = false)
    (hgas : withdrawGas host a.args ≤ env.prepaidGas - env.usedGas)
    (hswept : amountOfMaturedTranches s.withdrawalRequests env.epochHeight (a.hash host) =
      .ok (a.tranche.withdrawalAmount, q)) (hpos : 0 < a.tranche.withdrawalAmount)
    (hlocked : lockedTranche q (a.hash host) = .ok a.tranche) (hfits : a.Fits host)
    (hsome : (a.batch host s.wnearId).actions ≠ []) :
    s.withdraw host env.arriving a.args =
      .ok (.promise (s.withQueue q) [a.batch host s.wnearId, a.settlement host]) := by
  simp only [LiquidStakingToken.withdraw, Env.requireNotPaused, Env.assertGas, bind_eq_ok,
    require_eq_ok, Prod.exists]
  refine ⟨(), hunpaused, (), hgas, _, q, hswept, (), hpos, ?_⟩
  cases htokens : a.args.withdrawTokens with
  | native => exact absurd htokens hwrapped
  | wnear isStorageDeposit msg memo minGas =>
      have hasks : a.asksStorage = isStorageDeposit := by simp [Attempt.asksStorage, htokens]
      have hmsg : a.msg = msg := by simp [Attempt.msg, htokens]
      have hmemo : a.memo = memo := by simp [Attempt.memo, htokens]
      have hmin : a.minGas = minGas := by simp [Attempt.minGas, htokens]
      subst hasks hmsg hmemo hmin
      simp only [LiquidStakingToken.withdrawWnear, bind_eq_ok, require_eq_ok, pure_eq_ok]
      refine ⟨_, ⟨(), ?_, a.tranche, hlocked, a.amountToSend, ?_, a.amountToNearDeposit, ?_, (),
        hsome, rfl⟩, rfl⟩
      · rintro ⟨hself, hstorage⟩
        rw [hfits.self_storage hself] at hstorage
        cases hstorage
      · exact expect_eq_ok.mpr (checkedSub_eq_some.mpr ⟨hfits.storage_le, rfl⟩)
      · exact expect_eq_ok.mpr (checkedSub_eq_some.mpr ⟨hfits.residual_le, rfl⟩)

/-- What is written back is ready again, once the lock is released. -/
theorem WithdrawalRequests.Swept.rewritten {hash : H} {t u : Tranche} (h : Swept q q' e hash t)
    (hmatured : u.isMatured e = true) :
    Reopened q (releaseLock (writeLockedTranche q' hash u) hash).1 e hash [u] := by
  have hwritten := writeLockedTranche_replaces q' hash u
  have hreleased := releaseLock_replaces (writeLockedTranche q' hash u) hash
  obtain ⟨hlocks, hfrees⟩ := Tranches.locks_updateLocked
    (g := fun l => { l with value := u }) h.locks_eq
  rw [← hwritten.at_eq] at hlocks hfrees
  obtain ⟨hnone, hfree⟩ := Tranches.locks_updateLocked (g := Lock.forceUnlock)
    (show Tranches.locks (tranchesAt (writeLockedTranche q' hash u) hash) = [u] from hlocks)
  constructor
  · rw [locksAt, hreleased.at_eq, hnone]
    rfl
  · apply ready_of_frees (tranchesAt q hash) (by simpa using hmatured) (by simp)
    rw [hreleased.at_eq]
    exact hfree.trans ((hfrees.trans h.cooling).append_left [u])
  · intro k hne
    rw [hreleased.others k hne, hwritten.others k hne, h.others k hne]

/-- The settlement of a delivery goes through, and is one of the two.

That it is the step of an attempt that settled is what the effects below are
read off. -/
theorem LiquidStakingToken.onWithdrawWnear_settles
    (hself : env.predecessorAccountId = host.currentAccountId) (hfits : a.Fits host)
    (hreads : (a.settlement host).reads r = true)
    (hlocked : lockedTranche s.withdrawalRequests (a.hash host) = .ok a.tranche)
    (hbounded : a.tranche.withdrawalAmount < 2 ^ 128)
    (htracked : a.tranche.withdrawalAmount + 1 ≤
      s.statistics.latestTotalBalance + a.tranche.wnearResidual)
    (hpending : a.tranche.withdrawalAmount ≤ s.statistics.totalPendingWithdrawals) :
    ∃ s', s.onWithdrawWnear host (env.forCall 0 (some r)) (a.hash host) a.amountToSend
        (a.cost host) a.storageToPay (a.isCall host) = .ok (.value s' .empty) ∧
      Advance host env s (.deliveredWnear a r) s'
        (.continuing .finish (.successful .empty)) [] := by
  obtain ⟨⟨s', ret, detached⟩, ho⟩ := LiquidStakingToken.onWithdrawWnear_commits
    (r := r) hself hfits (Receipt.reads_wnear hreads) hlocked hbounded htracked hpending
  obtain ⟨p', hadvance, hleads⟩ := onWithdrawWnear_isAdvance ho
  dsimp only at hadvance hleads
  have hended : p' = .continuing .finish (.successful .empty) ∧ detached = [] := by
    cases hadvance <;> exact ⟨rfl, rfl⟩
  obtain ⟨rfl, rfl⟩ := hended
  cases ret with
  | value v =>
      simp only [Leads, Phase.settle, Phase.continuing.injEq, true_and] at hleads
      obtain rfl := PromiseResult.successful.inj hleads
      exact ⟨s', ho, hadvance⟩
  | promise next => cases hleads.2.1

/-- What an attempt that ended with `r` has done, from the state before its
withdrawal to the state after its settlement. -/
structure Attempt.Settled (host : Host H) (a : Attempt) (r : PromiseResult) (e : ℕ)
    (s s' : LiquidStakingToken H) : Prop where
  /-- Nothing stays locked under its hash. -/
  locks_eq : locksAt s'.withdrawalRequests (a.hash host) = []
  /-- Other hashes are not touched. -/
  others : ∀ k, k ≠ a.hash host →
    tranchesAt s'.withdrawalRequests k = tranchesAt s.withdrawalRequests k
  /-- What was delivered is not claimable any more, and everything else is. -/
  claimable_eq : claimable s'.withdrawalRequests e (a.hash host) +
      wnearDelivered a.amountToSend a.storageToPay (a.isCall host) r =
    claimable s.withdrawalRequests e (a.hash host)
  /-- The counter follows. -/
  pending_eq : s'.statistics.totalPendingWithdrawals +
      wnearDelivered a.amountToSend a.storageToPay (a.isCall host) r =
    s.statistics.totalPendingWithdrawals
  /-- The tracked balance is lowered by what was spent. -/
  latest_eq : s'.statistics.latestTotalBalance + a.spent host r = s.statistics.latestTotalBalance
  /-- If something is left, the next attempt can be made at once. -/
  again : 0 < claimable s'.withdrawalRequests e (a.hash host) →
    a.hash host ∈ availableHashes s'.withdrawalRequests e ∧
      (attemptFor host s'.withdrawalRequests e a.args).Payable host

omit [DecidableEq H] in
/-- No registration is due once it was paid for. -/
theorem Attempt.storageToPay_eq_zero
    (hpaid : a.asksStorage = true → a.tranche.storageWasPaid = true) : a.storageToPay = 0 := by
  unfold Attempt.storageToPay
  cases hasks : a.asksStorage with
  | true => simp [hpaid hasks]
  | false => simp

omit [DecidableEq H] in
/-- Unless it is to be repeated as a whole, a delivery costs what it was meant
to. -/
theorem Delivery.spent_eq {consumed : ℕ}
    (h : Delivery a.amountToSend (a.isCall host) r (some consumed)) :
    a.spent host r = NearToken.satAdd (a.cost host) a.storageToPay := by
  generalize hconsumed : some consumed = c at h
  cases h with
  | sent | reported => rfl
  | writtenOff call => exact if_pos call
  | returned => cases hconsumed

/-- What is reopened with one tranche can be attempted again. -/
theorem WithdrawalRequests.Reopened.again {t : Tranche} (h : Reopened q q' e (a.hash host) [t])
    (hstorage : Attempt.storageToPay ⟨a.args, t⟩ ≤ t.withdrawalAmount)
    (hpayable : a.Payable host) :
    a.hash host ∈ availableHashes q' e ∧ (attemptFor host q' e a.args).Payable host := by
  have hmerged : Tranches.merged e (tranchesAt q' (a.hash host)) = t := by
    unfold Tranches.merged
    rw [h.ready_eq]
    simp [Tranche.merge, Tranche.zero]
  constructor
  · rw [mem_availableHashes_iff, h.ready_eq]
    exact List.cons_ne_nil t []
  · unfold attemptFor
    rw [show tranchesAt q' (host.hash a.args) = tranchesAt q' (a.hash host) from rfl, hmerged]
    exact ⟨hstorage, hpayable.self⟩

/-- The settlement, seen from the state before the withdrawal. -/
theorem Advance.settled {s s₂ s' : LiquidStakingToken H}
    (h : Advance host env s₂ (.deliveredWnear a r) s' (.continuing .finish (.successful .empty)) [])
    (hswept : Swept s.withdrawalRequests s₂.withdrawalRequests e (a.hash host) a.tranche)
    (hbooks : s₂.statistics = s.statistics) (hbounded : a.tranche.withdrawalAmount < 2 ^ 128)
    (hfits : a.Fits host) (hpayable : a.Payable host) : a.Settled host r e s s' := by
  have hclaim := hswept.amount_eq
  cases h with
  | @paidWnear _ _ consumed delivery t locked delivered delivered_eq claimed q q_eq spent spent_eq
      tracked pending =>
      -- What the settlement found is what the withdrawal locked.
      obtain rfl : a.tranche = t := by
        have hfound := lockedTranche_eq_ok.mp locked
        rw [hswept.locks_eq] at hfound
        exact Option.some.inj hfound
      obtain ⟨hdelivered, -⟩ := delivery.delivered_eq a.storageToPay
      rw [delivery.satAdd_eq hfits hbounded, ← hdelivered] at delivered_eq
      have hspent : a.spent host r = spent := delivery.spent_eq.trans spent_eq.symm
      have hpending : s₂.statistics.totalPendingWithdrawals - delivered + delivered =
          s.statistics.totalPendingWithdrawals := by
        rw [← hbooks]
        exact Nat.sub_add_cancel pending
      have hlatest : s₂.statistics.latestTotalBalance - spent + spent =
          s.statistics.latestTotalBalance := by
        rw [← hbooks]
        exact Nat.sub_add_cancel tracked
      by_cases hzero : a.tranche.withdrawalAmount - delivered = 0
      · rw [if_pos hzero] at q_eq
        have hgone := q_eq ▸ hswept.removed
        refine ⟨hgone.locks_eq, hgone.others, ?_, delivered_eq ▸ hpending, hspent ▸ hlatest, ?_⟩
        · show claimable (releaseLock q _).1 _ _ + _ = _
          rw [hgone.claimable_eq, ← hclaim, ← delivered_eq]
          simp only [List.map_nil, List.sum_nil]
          omega
        · intro hleft
          have hnone : claimable (releaseLock q (a.hash host)).1 e (a.hash host) = 0 :=
            hgone.claimable_eq
          exact absurd hnone hleft.ne'
      · rw [if_neg hzero] at q_eq
        have hback := q_eq ▸ hswept.rewritten (u := { a.tranche with
            withdrawalAmount := a.tranche.withdrawalAmount - delivered
            wnearResidual := a.amountToSend - consumed
            storageWasPaid := a.tranche.storageWasPaid || decide (0 < a.storageToPay) })
          hswept.matured
        refine ⟨hback.locks_eq, hback.others, ?_, delivered_eq ▸ hpending, hspent ▸ hlatest, ?_⟩
        · show claimable (releaseLock q _).1 _ _ + _ = _
          rw [hback.claimable_eq, ← hclaim, ← delivered_eq]
          simp only [List.map_cons, List.map_nil, List.sum_cons, List.sum_nil]
          omega
        · intro _
          have hpaid := Attempt.storageToPay_eq_zero (a := ⟨a.args, { a.tranche with
            withdrawalAmount := a.tranche.withdrawalAmount - delivered
            wnearResidual := a.amountToSend - consumed
            storageWasPaid := a.tranche.storageWasPaid || decide (0 < a.storageToPay) }⟩)
            fun hasks => Attempt.storage_paid (a := a) hasks
          exact hback.again (hpaid.le.trans (Nat.zero_le _)) hpayable
  | unpaidWnear delivery =>
      have hback := hswept.released
      have hspent : a.spent host r = 0 := by
        generalize hnone : (none : Option ℕ) = c at delivery
        cases delivery with
        | returned plain => exact if_neg (by simp [plain])
        | _ => cases hnone
      refine ⟨hback.locks_eq, hback.others, ?_, ?_, ?_, ?_⟩
      · show claimable (releaseLock s₂.withdrawalRequests _).1 _ _ + _ = _
        rw [hback.claimable_eq, delivery.delivered_eq_zero, ← hclaim]
        simp
      · rw [delivery.delivered_eq_zero, ← hbooks]
        rfl
      · rw [hspent, ← hbooks]
        rfl
      · intro _
        exact hback.again hpayable.storage_le hpayable

/-- A withdrawal that commits found its attempt payable. -/
theorem Entry.payable {s' : LiquidStakingToken H} {p : Phase H}
    {side : List (Receipt H)} (h : Entry host env s (.withdraw args) s' p side)
    (hwrapped : args.withdrawTokens ≠ .native) :
    (attemptFor host s.withdrawalRequests env.epochHeight args).Payable host := by
  cases h with
  | withdrawNative a q native => exact absurd native hwrapped
  | withdrawWnear a q wrapped swept pos locked fits =>
      -- The tranche the withdrawal locked is the merged one.
      obtain ⟨t, -, hswept⟩ := amountOfMaturedTranches_swept swept pos
      obtain rfl : t = a.tranche := (List.cons.inj (hswept.locks_eq.symm.trans locked)).1
      have hsame : attemptFor host s.withdrawalRequests env.epochHeight a.args = a := by
        unfold attemptFor
        rw [← show a.tranche = Tranches.merged _ (tranchesAt _ (host.hash a.args)) from
          hswept.merged_eq]
      rw [hsame]
      exact ⟨fits.storage_le, fits.self_storage⟩

/-- A delivery runs on the wNEAR account. -/
theorem Attempt.batch_away (a : Attempt) {wnear : AccountId}
    (hne : wnear ≠ host.currentAccountId) :
    (platform host).isLocal (a.batch host wnear) = false := by
  show (decide (wnear = host.currentAccountId) && _) = false
  rw [decide_eq_false hne]
  rfl

omit [DecidableEq H] in
/-- A delivery neither withdraws nor releases a lock. -/
theorem Attempt.batch_quiet (a : Attempt) (host : Host H) (wnear : AccountId) :
    (a.batch host wnear).releasesByHand = false ∧
      ∀ m, ¬(a.batch host wnear).Withdraws m := by
  unfold Receipt.releasesByHand Receipt.Withdraws Attempt.batch LiquidStakingToken.deliveryActions
  constructor
  · cases a.msg <;> split_ifs <;> rfl
  · rintro m ⟨deposit, gas, h⟩
    revert h
    cases a.msg <;> split_ifs <;> simp

end Attempts

/-! ## Runs -/

section Reaches

variable {H : Type} [DecidableEq H] {host : Host H} {d : Deployment host}
  {events : List (PoolEvent H)} {sys : PoolSystem H} {args : UnstakeMessage}

open WithdrawalRequests

/-- A withdrawal from outside that commits had enough claimable for the
registration. -/
theorem Deployment.payable_of_withdraws (run : d.Reaches events sys) {ev : PoolEvent H}
    {sys' : PoolSystem H} (hstep : (platform host).Step sys ev sys') {deposit gas : ℕ}
    (htask : ev.execution.task = .call host.currentAccountId (.withdraw args) deposit gas)
    (hexternal : ev.execution.context.predecessorAccountId ≠ host.currentAccountId)
    (hwrapped : args.withdrawTokens ≠ .native) :
    (attemptFor host sys.state.withdrawalRequests ev.execution.context.epochHeight
      args).Payable host := by
  have hactions : ev.execution.task.actions = [.call (.withdraw args) deposit gas] := by
    rw [htask]
    rfl
  have turn : d.Turn (fun _ => True) events sys ev.chain ev.execution :=
    ⟨run, fun _ _ => trivial, hstep.fires, hstep.origin, trivial⟩
  cases d.transition turn with
  | entered m p side deposit' gas' fresh task_eq deposit_eq external entry =>
      obtain rfl : m = .withdraw args := by
        rw [hactions] at task_eq
        exact (Action.call.inj (List.cons.inj task_eq).1).1.symm
      exact hstep.fires.before_eq ▸ entry.payable hwrapped
  | advanced p p' side now self => exact absurd self hexternal
  | panicked p now here self => exact absurd self hexternal
  | answered p r now away verdict =>
      have hlocal : (platform host).isLocal ev.execution.task = true := by
        simp [platform, htask, Receipt.call, Action.isCall]
      have hlegal := hstep.fires.legal
      simp [Platform.Legal, verdict, hlocal] at hlegal

/-- What the settlement of a delivery finds in the books. -/
theorem Deployment.wnear_books {messages : Set UnstakeMessage}
    (hinj : Set.InjOn host.hash messages) (run : d.Reaches events sys)
    (hgood : ∀ ev ∈ events, Orderly messages ev)
    (hroom : events.countP (settlesExternally host) < d.env.accountBalance) {a : Attempt}
    (hlocks : locksAt sys.state.withdrawalRequests (a.hash host) = [a.tranche]) :
    lockedTranche sys.state.withdrawalRequests (a.hash host) = .ok a.tranche ∧
      a.tranche.withdrawalAmount < 2 ^ 128 ∧
      a.tranche.withdrawalAmount + 1 ≤
        sys.state.statistics.latestTotalBalance + a.tranche.wnearResidual ∧
      a.tranche.withdrawalAmount ≤ sys.state.statistics.totalPendingWithdrawals := by
  have hlocked := lockedTranche_eq_ok.mpr
    (show (locksAt _ (a.hash host)).head? = some a.tranche by rw [hlocks]; rfl)
  have hqueue := d.queueSound run
  have htracked := d.tracked_of_locked hinj run hgood hlocks
  exact ⟨hlocked, (hqueue.own_tranche hlocks hlocked).2, by omega, (hqueue.settle hlocked).1⟩

omit [DecidableEq H] in
/-- A run whose messages have different hashes is orderly for the messages that
are `args` or have another hash. -/
theorem orderly_distinct (hforce : ∀ ev ∈ events, Unforced ev)
    (hinj : Set.InjOn host.hash (insert args (withdrawn events))) :
    ∀ ev ∈ events, Orderly (distinctFrom host args) ev := fun ev hev =>
  ⟨hforce ev hev, fun _ h => hinj (Set.mem_insert_of_mem _ ⟨ev, hev, h⟩) (Set.mem_insert _ _)⟩

/-- **A wNEAR claim can be delivered.**  Without forced releases, with different
hashes for the messages withdrawn for and fewer external wNEAR deliveries than
the pool was created with yoctoNEAR, take a wNEAR message that is listed and not
in delivery, and the attempt `a` that a withdrawal for it starts.

* A withdrawal commits only if `a` is payable.
* If it is, anybody can withdraw.  The batch sends and pays for the registration
  exactly what was claimable, wrapping only what is not wNEAR already; on every
  result the callback can read, the settlement commits, and takes what was
  delivered out of the claim and the books.
* What is left is listed again, and the next attempt for it is payable as well.

A receiver that keeps giving wNEAR back can thus be sent the rest again and
again, and pays for its registration at most once. -/
theorem Deployment.claim_deliverable (run : d.Reaches events sys)
    (hforce : ∀ ev ∈ events, Unforced ev)
    (hinj : Set.InjOn host.hash (insert args (withdrawn events)))
    (hroom : events.countP (settlesExternally host) < d.env.accountBalance)
    (hwrapped : args.withdrawTokens ≠ .native) {env : Env}
    (henv : env.Withdraws host args sys.now)
    (hlisted : host.hash args ∈ availableHashes sys.state.withdrawalRequests env.epochHeight)
    (hfree : locksAt sys.state.withdrawalRequests (host.hash args) = []) :
    let a := attemptFor host sys.state.withdrawalRequests env.epochHeight args
    (∀ ev sys' deposit gas, (platform host).Step sys ev sys' → ev.execution.context = env →
      ev.execution.task = .call host.currentAccountId (.withdraw args) deposit gas →
      a.Payable host) ∧
    (a.Payable host → a.amountToSend + a.storageToPay =
        claimable sys.state.withdrawalRequests env.epochHeight (host.hash args) ∧
      a.amountToNearDeposit + a.tranche.wnearResidual = a.amountToSend ∧
      ∀ gas r, (a.settlement host).reads r = true →
        ∃ withdrawal delivery settlement sys',
          (platform host).Run sys [settlement, delivery, withdrawal] sys' ∧
          withdrawal.execution.context = env ∧
          withdrawal.execution.task = .call host.currentAccountId (.withdraw args) 0 gas ∧
          delivery.execution.task = a.batch host d.wnearId ∧
          delivery.execution.verdict = .answered r ∧
          settlement.execution.verdict = .committed (.value .empty) [] ∧
          a.Settled host r env.epochHeight sys.state sys'.state) := by
  intro a
  obtain ⟨amount, q, hpos, hsweep⟩ := d.sweeps run hforce hlisted hfree
  obtain ⟨t, rfl, hswept⟩ := amountOfMaturedTranches_swept hsweep hpos
  obtain rfl : t = a.tranche := hswept.merged_eq
  -- Every tranche under the hash was appended by the same message or left by
  -- its attempts, and so is what they merge to.
  have hretryable : Retryable host args a.tranche :=
    (retryable_closed host args).merged fun l hl =>
      d.retryable run (orderly_distinct hforce hinj) _ l hl rfl
  refine ⟨?_, ?_⟩
  · rintro ev sys' deposit gas hstep rfl htask
    exact d.payable_of_withdraws run hstep htask henv.external hwrapped
  · intro hpayable
    have hfits : a.Fits host := Retryable.fits hretryable hpayable
    refine ⟨hfits.amount_eq.trans hswept.amount_eq, Nat.sub_add_cancel hfits.residual_le, ?_⟩
    intro gas r hreads
    have hwnear : sys.state.wnearId = d.wnearId := (d.phased run).wnearId_eq
    have hlocked : lockedTranche q (a.hash host) = .ok a.tranche := by
      refine lockedTranche_eq_ok.mpr ?_
      show (locksAt q (host.hash args)).head? = _
      rw [hswept.locks_eq]
      rfl
    have hcommits := LiquidStakingToken.withdraw_wnear (a := a) hwrapped henv.unpaused
      henv.enough_gas hsweep hpos hlocked hfits
      (Attempt.batch_ne_nil _ hretryable hpayable hpos)
    rw [hwnear] at hcommits
    obtain ⟨withdrawal, sys₁, hstep₁, hcontext, htask, hstate₁, hnow₁, hchains₁⟩ :=
      withdrawal_step henv hcommits gas
    obtain ⟨delivery, sys₂, hstep₂, hbatch, hanswered, hstate₂, hnow₂, hchains₂⟩ := answer_step
      env hchains₁ (a.batch_away d.wnear_ne) hnow₁.le r
    have hquiet := a.batch_quiet host d.wnearId
    -- The books are sound after the two steps, so the settlement finds what it
    -- subtracts.
    have hgood := orderly_delivery hforce htask (hbatch ▸ hquiet.1) (hbatch ▸ hquiet.2)
    have hqueue : sys₂.state.withdrawalRequests = q := by
      rw [hstate₂, hstate₁]
      rfl
    have hsettles : settlesExternally host withdrawal = false ∧
        settlesExternally host delivery = false := by
      constructor
      · simp only [settlesExternally, htask, Receipt.call]
        split <;> simp_all
      · simp [settlesExternally, hanswered]
    have hroom' : (delivery :: withdrawal :: events).countP (settlesExternally host) <
        d.env.accountBalance := by
      rwa [List.countP_cons_of_neg (by simp [hsettles.2]),
        List.countP_cons_of_neg (by simp [hsettles.1])]
    obtain ⟨hlocked₂, hbounded, htracked, hpending⟩ := d.wnear_books (a := a) hinj
      ((run.step hstep₁).step hstep₂) hgood hroom' (hqueue ▸ hswept.locks_eq)
    obtain ⟨s', hsettled, hadvance⟩ := LiquidStakingToken.onWithdrawWnear_settles (r := r)
      (show (env.inner host).predecessorAccountId = host.currentAccountId from rfl) hfits hreads
      hlocked₂ hbounded htracked hpending
    have hcall : callMethod host ((env.inner host).forCall 0 (some r)) sys₂.state
        (.onWithdrawWnear (a.hash host) a.amountToSend (a.cost host) a.storageToPay
          (a.isCall host)) = .ok (.value s' .empty) := by
      simp only [callMethod, bind_eq_ok, require_eq_ok]
      exact ⟨(), .inr rfl, hsettled⟩
    obtain ⟨settlement, sys', hstep₃, rfl, -, hverdict⟩ :=
      callback_step env hchains₂ hcall hnow₂.le
    refine ⟨withdrawal, delivery, settlement, sys', ((Platform.Run.start.step hstep₁).step
      hstep₂).step hstep₃, hcontext, htask, hbatch, hanswered, hverdict, ?_⟩
    refine hadvance.settled (hqueue ▸ hswept) ?_ hbounded hfits hpayable
    rw [hstate₂, hstate₁]
    rfl

/-- The 40 that the treasury unstaked for `bob` are sent as wNEAR when the
cooldown is over, and nothing is left to send. -/
theorem Deployment.claim_deliverable_sample :
    ∃ newer sys', (platform sampleHost).Run (samplePool.played (sampleUnstake "wnear") rfl).2
        newer sys' ∧
      claimable sys'.state.withdrawalRequests 4 ⟨"bob", .wnear false none none none⟩ = 0 := by
  let args : UnstakeMessage := ⟨"bob", .wnear false none none none⟩
  let a := attemptFor sampleHost
    (samplePool.played (sampleUnstake "wnear") rfl).2.state.withdrawalRequests 4 args
  have henv : (sampleEnv 60 1040 4 "bob" 0).Withdraws sampleHost args
      (samplePool.played (sampleUnstake "wnear") rfl).2.now :=
    ⟨by decide, rfl, by decide +kernel, rfl, rfl, by decide +kernel⟩
  have hpayable : a.Payable sampleHost := ⟨by decide +kernel, by decide +kernel⟩
  have hall : wnearDelivered a.amountToSend a.storageToPay (a.isCall sampleHost)
      (.successful .empty) = claimable
        (samplePool.played (sampleUnstake "wnear") rfl).2.state.withdrawalRequests 4 args := by
    decide +kernel
  obtain ⟨-, hdelivers⟩ := samplePool.claim_deliverable
    (samplePool.played_reaches (sampleUnstake "wnear") rfl) (by decide +kernel)
    (fun _ _ _ _ h => h) (by decide +kernel) (by decide) henv (by decide +kernel)
    (by decide +kernel)
  obtain ⟨-, -, hattempt⟩ := hdelivers hpayable
  obtain ⟨_, _, _, sys', hrun, -, -, -, -, -, hsettled⟩ :=
    hattempt 0 (.successful .empty) (by decide +kernel)
  refine ⟨_, sys', hrun, ?_⟩
  exact Nat.add_eq_right.mp (hsettled.claimable_eq.trans hall.symm)

end Reaches

end LiquidStaking
