import LiquidStaking.Available
import LiquidStaking.Ledger
import LiquidStaking.Payout

/-!
# What is listed can be claimed

Anybody can have a listed native claim paid out: the withdrawal commits and
sends out exactly what is claimable under the hash, and whichever way the
payment ends, the settlement commits.  If it succeeded, the claim is off the
queue and the books; if it failed, the claim is as it was before, and can be
withdrawn again.
-/

namespace LiquidStaking

open Checked PromiseChain

/-! ## A sweep and what follows -/

namespace WithdrawalRequests

variable {H : Type} [DecidableEq H] {q q' : WithdrawalRequests H} {hash : H} {e amount : ℕ}

/-- A sweep takes everything claimable, and locks it as one tranche. -/
structure Swept (q q' : WithdrawalRequests H) (e : ℕ) (hash : H) (t : Tranche) : Prop where
  merged_eq : t = Tranches.merged e (tranchesAt q hash)
  matured : t.isMatured e = true
  locks_eq : locksAt q' hash = [t]
  cooling : (Tranches.frees (tranchesAt q' hash)).Perm (Tranches.cooling e (tranchesAt q hash))
  others : ∀ h, h ≠ hash → tranchesAt q' h = tranchesAt q h

/-- After a settlement nothing is locked, and `ts` is what is ready again. -/
structure Reopened (q q' : WithdrawalRequests H) (e : ℕ) (hash : H) (ts : List Tranche) :
    Prop where
  locks_eq : locksAt q' hash = []
  ready_eq : Tranches.ready e (tranchesAt q' hash) = ts
  others : ∀ h, h ≠ hash → tranchesAt q' h = tranchesAt q h

/-- What a sweep that finds something does, in one piece. -/
theorem amountOfMaturedTranches_swept (h : amountOfMaturedTranches q e hash = .ok (amount, q'))
    (hpos : 0 < amount) : ∃ t, t.withdrawalAmount = amount ∧ Swept q q' e hash t := by
  obtain ⟨ts, hsweep, hreplaces⟩ := amountOfMaturedTranches_replaces h hpos
  obtain ⟨-, rfl, hlocks, hfrees⟩ := Tranches.sweep_cases hsweep
  rw [Tranches.carried, if_pos hpos] at hlocks
  refine ⟨_, rfl, rfl, Tranches.merged_isMatured hpos, ?_, ?_, hreplaces.others⟩
  · rw [locksAt, hreplaces.at_eq, hlocks]
  · rwa [hreplaces.at_eq]

variable {t : Tranche} {ts : List Tranche}

/-- It locks what was claimable. -/
theorem Swept.amount_eq (h : Swept q q' e hash t) : t.withdrawalAmount = claimable q e hash := by
  rw [h.merged_eq]
  exact Tranches.additive_withdrawalAmount.merged e _

/-- What is free under the hash is on top of what is cooling down. -/
theorem ready_of_frees (us : List (Lock Tranche)) {vs : List (Lock Tranche)}
    (hts : ∀ t ∈ ts, t.isMatured e = true) (hshort : ts.length ≤ 1)
    (h : (Tranches.frees vs).Perm (ts ++ Tranches.cooling e us)) : Tranches.ready e vs = ts := by
  have hready := h.filter fun t => t.isMatured e
  have hcooling : (Tranches.cooling e us).filter (fun t => t.isMatured e) = [] := by
    rw [List.filter_eq_nil_iff]
    intro t mem
    simpa using (List.mem_filter.mp mem).2
  rw [List.filter_append, hcooling, List.append_nil, List.filter_eq_self.mpr hts,
    ← Tranches.ready_eq] at hready
  -- At most one tranche is ready, so that its place does not matter.
  cases ts with
  | nil => exact hready.eq_nil
  | cons t rest =>
      obtain rfl : rest = [] := List.eq_nil_of_length_eq_zero (by simpa using hshort)
      exact List.perm_singleton.mp hready

/-- Removed, the claim is gone. -/
theorem Swept.removed (h : Swept q q' e hash t) :
    Reopened q (releaseLock (removeRequest q' hash) hash).1 e hash [] := by
  have hremoved := removeRequest_replaces q' hash
  have hreleased := releaseLock_replaces (removeRequest q' hash) hash
  obtain ⟨hlocks, hfrees⟩ := Tranches.locks_filter (tranchesAt q' hash)
  have hat : tranchesAt (releaseLock (removeRequest q' hash) hash).1 hash =
      (tranchesAt q' hash).filter fun l => !l.locked := by
    rw [hreleased.at_eq, hremoved.at_eq, Tranches.updateLocked_of_none hlocks]
  constructor
  · rw [locksAt, hat, hlocks]
  · refine ready_of_frees (tranchesAt q hash) (by simp) (by simp) ?_
    rw [hat, hfrees]
    exact h.cooling
  · intro k hne
    rw [hreleased.others k hne, hremoved.others k hne, h.others k hne]

/-- Released, it is as it was. -/
theorem Swept.released (h : Swept q q' e hash t) :
    Reopened q (releaseLock q' hash).1 e hash [t] := by
  have hreleased := releaseLock_replaces q' hash
  obtain ⟨hlocks, hfrees⟩ := Tranches.locks_updateLocked (g := Lock.forceUnlock) h.locks_eq
  constructor
  · rw [locksAt, hreleased.at_eq, hlocks]
    rfl
  · refine ready_of_frees (tranchesAt q hash) (by simpa using h.matured) (by simp) ?_
    rw [hreleased.at_eq]
    exact hfrees.trans (h.cooling.append_left [t])
  · intro k hne
    rw [hreleased.others k hne, h.others k hne]

/-- After a settlement what is claimable is what the settlement has left. -/
theorem Reopened.claimable_eq (h : Reopened q q' e hash ts) :
    claimable q' e hash = (ts.map Tranche.withdrawalAmount).sum := by
  rw [claimable, h.ready_eq]

end WithdrawalRequests

/-! ## The three receipts of a native claim -/

section Calls

variable {H : Type} [DecidableEq H] {host : Host H} {env : Env} {s : LiquidStakingToken H}
  {args : UnstakeMessage} {amount : ℕ} {q : WithdrawalRequests H} {r : PromiseResult}

/-- The withdrawal sends out what was swept. -/
theorem LiquidStakingToken.withdraw_native (hnative : args.withdrawTokens = .native)
    (hunpaused : env.paused .withdraw = false)
    (hgas : withdrawGas host args ≤ env.prepaidGas - env.usedGas)
    (hswept : WithdrawalRequests.amountOfMaturedTranches s.withdrawalRequests env.epochHeight
      (host.hash args) = .ok (amount, q)) (hpos : 0 < amount) :
    s.withdraw host env.arriving args =
      .ok (.promise (s.withQueue q)
        (withdrawNative host args.receiverId amount (host.hash args))) := by
  simp only [LiquidStakingToken.withdraw, Env.requireNotPaused, Env.assertGas, bind_eq_ok,
    require_eq_ok, Prod.exists]
  refine ⟨(), hunpaused, (), hgas, amount, q, hswept, (), hpos, ?_⟩
  rw [hnative]
  rfl

/-- The settlement of a payment that ended with `r`. -/
theorem LiquidStakingToken.onWithdrawNative_eq {hash : H} {t : Tranche}
    (hself : env.predecessorAccountId = host.currentAccountId)
    (hlocked : WithdrawalRequests.lockedTranche s.withdrawalRequests hash = .ok t)
    (htracked : t.withdrawalAmount ≤ s.statistics.latestTotalBalance)
    (hpending : t.withdrawalAmount ≤ s.statistics.totalPendingWithdrawals) :
    ∃ s', s.onWithdrawNative host (env.forCall 0 (some r)) hash t.withdrawalAmount =
        .ok (.value s' .empty) ∧
      if resultOk r then
        s'.withdrawalRequests = (WithdrawalRequests.releaseLock
          (WithdrawalRequests.removeRequest s.withdrawalRequests hash) hash).1 ∧
        s'.statistics.totalPendingWithdrawals + t.withdrawalAmount =
          s.statistics.totalPendingWithdrawals ∧
        s'.statistics.latestTotalBalance + t.withdrawalAmount =
          s.statistics.latestTotalBalance
      else
        s'.withdrawalRequests = (WithdrawalRequests.releaseLock s.withdrawalRequests hash).1 ∧
        s'.statistics = s.statistics := by
  simp only [LiquidStakingToken.onWithdrawNative, Env.requirePrivate, bind_eq_ok, require_eq_ok,
    promiseSucceeded_forCall]
  by_cases hok : resultOk r = true
  · rw [onlyIf_pos hok]
    simp only [if_pos hok, LiquidStakingToken.settleNative, hlocked, ok_bind, bind_eq_ok,
      require_eq_ok, LiquidStakingToken.decreaseTotalBalance_eq_ok,
      LiquidStakingToken.decreasePendingWithdrawals_eq_ok]
    refine ⟨_, ⟨(), hself, _, ⟨(), trivial, _, ⟨htracked, rfl⟩, hpending, rfl⟩, rfl⟩, rfl, ?_, ?_⟩
    · exact Nat.sub_add_cancel hpending
    · exact Nat.sub_add_cancel htracked
  · rw [onlyIf_neg hok]
    simp only [if_neg hok]
    exact ⟨_, ⟨(), hself, s, rfl, rfl⟩, rfl, rfl⟩

/-- A withdrawal that the platform and the first checks of the code let through. -/
structure Env.Withdraws (env : Env) (host : Host H) (args : UnstakeMessage) (now : ℕ) :
    Prop where
  external : env.predecessorAccountId ≠ host.currentAccountId
  unpaused : env.paused .withdraw = false
  enough_gas : LiquidStakingToken.withdrawGas host args ≤ env.prepaidGas - env.usedGas
  has_gas : env.gasExhausted = false
  deposit_eq : env.attachedDeposit = 0
  now_le : now ≤ env.epochHeight

/-- The environment in which the pool's own receipts run afterwards. -/
def Env.inner (env : Env) (host : Host H) : Env :=
  { env with predecessorAccountId := host.currentAccountId, gasExhausted := false }

end Calls

section Reaches

variable {H : Type} [DecidableEq H] {host : Host H} {d : Deployment host}
  {events : List (PoolEvent H)} {sys : PoolSystem H} {args : UnstakeMessage}

open WithdrawalRequests

/-- The queue step of a withdrawal for a listed hash without a lock. -/
theorem Deployment.sweeps (run : d.Reaches events sys) (hforce : ∀ ev ∈ events, Unforced ev)
    {hash : H} {e : ℕ} (hlisted : hash ∈ availableHashes sys.state.withdrawalRequests e)
    (hfree : locksAt sys.state.withdrawalRequests hash = []) :
    ∃ amount q, 0 < amount ∧
      amountOfMaturedTranches sys.state.withdrawalRequests e hash = .ok (amount, q) := by
  have hqueue := d.queueSound run
  have hamount := lt_of_le_of_lt (ready_le_total (q := sys.state.withdrawalRequests)
    Tranche.withdrawalAmount e hash) (hqueue.pending_eq ▸ hqueue.bounded)
  refine (d.recorded run).neat.withdrawable_iff.mpr ⟨hlisted, hfree, hamount, ?_⟩
  refine lt_of_le_of_lt (List.sum_le_sum fun t mem => ?_) hamount
  obtain ⟨l, hl, rfl⟩ := List.mem_map.mp mem
  exact d.residual_le run hforce hash l (List.mem_filter.mp hl).1

/-- A withdrawal that goes through starts its chain. -/
theorem withdrawal_step {env : Env} {sys : PoolSystem H} (henv : env.Withdraws host args sys.now)
    {q : WithdrawalRequests H} {tasks : List (Receipt H)}
    (hcommits : sys.state.withdraw host env.arriving args =
      .ok (.promise (sys.state.withQueue q) tasks)) (gas : ℕ) :
    ∃ ev sys', (platform host).Step sys ev sys' ∧ ev.execution.context = env ∧
      ev.execution.task = .call host.currentAccountId (.withdraw args) 0 gas ∧
      sys'.state = sys.state.withQueue q ∧ sys'.now = env.epochHeight ∧
      sys'.chains = sys.chains ++ [⟨tasks, none, [ev.execution]⟩] := by
  let e : PoolExecution H := ⟨env, .call host.currentAccountId (.withdraw args) 0 gas, none,
    sys.state, sys.state.withQueue q, .committed (.promise tasks) []⟩
  have hfires : (platform host).Fires sys (Chain.single e.task) e :=
    { before_eq := rfl
      input_eq := rfl
      tasks_eq := ⟨[], rfl⟩
      legal := ⟨by simp [e, platform, Receipt.call, Action.isCall], henv.has_gas, by
        show callMethod host (env.forCall 0 none) sys.state _ = _
        rw [← henv.deposit_eq]
        simp only [callMethod, bind_eq_ok, require_eq_ok]
        exact ⟨(), .inr henv.deposit_eq, hcommits⟩⟩
      clock_le := henv.now_le }
  have haccepts : (platform host).accepts e.context e.task = true := by
    simp [e, platform, Receipt.call, henv.external, henv.deposit_eq]
  refine ⟨_, _, .enter e hfires haccepts ⟨_, _, rfl⟩, rfl, rfl, rfl, rfl, ?_⟩
  simp [e, Chain.resume, Chain.single, Execution.spawned]

/-- A receipt that runs elsewhere ends with whatever result. -/
theorem answer_step (env : Env) {sys : PoolSystem H} {chains : List (PoolChain H)} {t : Receipt H}
    {rest : List (Receipt H)} {trace : List (PoolExecution H)}
    (hchains : sys.chains = chains ++ [⟨t :: rest, none, trace⟩])
    (haway : (platform host).isLocal t = false) (hnow : sys.now ≤ env.epochHeight)
    (r : PromiseResult) :
    ∃ ev sys', (platform host).Step sys ev sys' ∧ ev.execution.task = t ∧
      ev.execution.verdict = .answered r ∧ sys'.state = sys.state ∧
      sys'.now = env.epochHeight ∧
      sys'.chains = chains ++ [⟨rest, some r, ev.execution :: trace⟩] := by
  let e : PoolExecution H := ⟨env.inner host, t, none, sys.state, sys.state, .answered r⟩
  have hfires : (platform host).Fires sys ⟨t :: rest, none, trace⟩ e :=
    { before_eq := rfl
      input_eq := rfl
      tasks_eq := ⟨rest, rfl⟩
      legal := ⟨haway, rfl⟩
      clock_le := hnow }
  exact ⟨_, _, .resume e _ chains [] hchains hfires (decide_eq_true rfl), rfl, rfl, rfl, rfl, rfl⟩

/-- A callback that goes through ends its chain. -/
theorem callback_step (env : Env) {sys : PoolSystem H} {chains : List (PoolChain H)}
    {m : Method H} {gas : ℕ} {trace : List (PoolExecution H)} {r : PromiseResult}
    {s' : LiquidStakingToken H}
    (hchains : sys.chains =
      chains ++ [⟨[.call host.currentAccountId m 0 gas], some r, trace⟩])
    (hcommits : callMethod host ((env.inner host).forCall 0 (some r)) sys.state m =
      .ok (.value s' .empty)) (hnow : sys.now ≤ env.epochHeight) :
    ∃ ev sys', (platform host).Step sys ev sys' ∧ sys'.state = s' ∧
      ev.execution.task = .call host.currentAccountId m 0 gas ∧
      ev.execution.verdict = .committed (.value .empty) [] := by
  let e : PoolExecution H := ⟨env.inner host, .call host.currentAccountId m 0 gas, some r,
    sys.state, s', .committed (.value .empty) []⟩
  have hfires : (platform host).Fires sys ⟨[e.task], some r, trace⟩ e :=
    { before_eq := rfl
      input_eq := rfl
      tasks_eq := ⟨[], rfl⟩
      legal := ⟨by simp [e, platform, Receipt.call, Action.isCall], rfl, hcommits⟩
      clock_le := hnow }
  exact ⟨_, _, .resume e _ chains [] hchains hfires (decide_eq_true rfl), rfl, rfl, rfl⟩

/-- What the settlement of a native payment finds in the books.

The tracker covers the claim since the books are solvent; this is where the
bound on external wNEAR deliveries comes from. -/
theorem Deployment.native_books {messages : Set UnstakeMessage}
    (hinj : Set.InjOn host.hash messages) (run : d.Reaches events sys)
    (hgood : ∀ ev ∈ events, Orderly messages ev)
    (hroom : events.countP (settlesExternally host) ≤ d.env.accountBalance)
    (hnative : args.withdrawTokens = .native) (hargs : args ∈ messages) {t : Tranche}
    (hlocks : locksAt sys.state.withdrawalRequests (host.hash args) = [t]) :
    lockedTranche sys.state.withdrawalRequests (host.hash args) = .ok t ∧
      t.withdrawalAmount ≤ sys.state.statistics.latestTotalBalance ∧
      t.withdrawalAmount ≤ sys.state.statistics.totalPendingWithdrawals := by
  have hlocked := lockedTranche_eq_ok.mpr
    (show (locksAt _ (host.hash args)).head? = some t by rw [hlocks]; rfl)
  have htracked := d.tracked_of_locked hinj run hgood hlocks
  have hresidual : t.wnearResidual = 0 := ((d.covered hinj run hgood).locked
    (by rw [hlocks]; exact List.mem_singleton.mpr rfl)).native args hargs hnative rfl
  exact ⟨hlocked, by omega, ((d.queueSound run).settle hlocked).1⟩

omit [DecidableEq H] in
/-- A run without forced releases is orderly for its messages and one more. -/
theorem orderly_insert (args : UnstakeMessage) (hforce : ∀ ev ∈ events, Unforced ev) :
    ∀ ev ∈ events, Orderly (insert args (withdrawn events)) ev := by
  intro ev hev
  obtain ⟨hunforced, hwithdraws⟩ := orderly_withdrawn hforce ev hev
  exact ⟨hunforced, fun m hm => Set.mem_insert_of_mem _ (hwithdraws m hm)⟩

omit [DecidableEq H] in
/-- A withdrawal and what runs elsewhere for it release nothing by hand. -/
theorem orderly_delivery (hforce : ∀ ev ∈ events, Unforced ev) {withdrawal delivery : PoolEvent H}
    {gas : ℕ}
    (htask : withdrawal.execution.task = .call host.currentAccountId (.withdraw args) 0 gas)
    (hdelivery : Unforced delivery) (hother : ∀ m, ¬delivery.execution.task.Withdraws m) :
    ∀ ev ∈ delivery :: withdrawal :: events, Orderly (insert args (withdrawn events)) ev := by
  intro ev hev
  rcases List.mem_cons.mp hev with rfl | hev
  · exact ⟨hdelivery, fun m hm => absurd hm (hother m)⟩
  rcases List.mem_cons.mp hev with rfl | hev
  · constructor
    · simp [Unforced, htask, Receipt.call, Receipt.releasesByHand]
    · rintro m ⟨deposit, gas', hactions⟩
      rw [htask] at hactions
      cases hactions
      exact Set.mem_insert _ _
  · exact orderly_insert args hforce ev hev

/-- **What is listed can be claimed.**  Without forced releases, with different
hashes for the messages withdrawn for and no more external wNEAR deliveries than
the pool was created with yoctoNEAR: anybody can withdraw for a native message
that is listed and not in delivery.  The receiver is paid exactly what was
claimable, and whichever way the payment ends, with `r`, the settlement commits
and leaves nothing locked.  If the payment succeeded, nothing is claimable any
more and the amount has left the books; if not, all is as before.  Other hashes
are not touched.

The three events are steps of the platform that can be taken from this state,
one after the other, so the theorem says that the claim can be made, not only
what it would do. -/
theorem Deployment.claim_payable (run : d.Reaches events sys)
    (hforce : ∀ ev ∈ events, Unforced ev)
    (hinj : Set.InjOn host.hash (insert args (withdrawn events)))
    (hroom : events.countP (settlesExternally host) ≤ d.env.accountBalance)
    (hnative : args.withdrawTokens = .native) {env : Env}
    (henv : env.Withdraws host args sys.now)
    (hlisted : host.hash args ∈ availableHashes sys.state.withdrawalRequests env.epochHeight)
    (hfree : locksAt sys.state.withdrawalRequests (host.hash args) = []) (gas : ℕ)
    (r : PromiseResult) :
    ∃ withdrawal payment settlement sys',
      (platform host).Run sys [settlement, payment, withdrawal] sys' ∧
      withdrawal.execution.context = env ∧
      withdrawal.execution.task = .call host.currentAccountId (.withdraw args) 0 gas ∧
      payment.execution.task = .pay args.receiverId
        (claimable sys.state.withdrawalRequests env.epochHeight (host.hash args)) ∧
      payment.execution.verdict = .answered r ∧
      settlement.execution.verdict = .committed (.value .empty) [] ∧
      locksAt sys'.state.withdrawalRequests (host.hash args) = [] ∧
      (∀ k, k ≠ host.hash args →
        tranchesAt sys'.state.withdrawalRequests k = tranchesAt sys.state.withdrawalRequests k) ∧
      if resultOk r then
        claimable sys'.state.withdrawalRequests env.epochHeight (host.hash args) = 0 ∧
        sys'.state.statistics.totalPendingWithdrawals +
            claimable sys.state.withdrawalRequests env.epochHeight (host.hash args) =
          sys.state.statistics.totalPendingWithdrawals ∧
        sys'.state.statistics.latestTotalBalance +
            claimable sys.state.withdrawalRequests env.epochHeight (host.hash args) =
          sys.state.statistics.latestTotalBalance
      else
        claimable sys'.state.withdrawalRequests env.epochHeight (host.hash args) =
          claimable sys.state.withdrawalRequests env.epochHeight (host.hash args) ∧
        sys'.state.statistics = sys.state.statistics := by
  -- The call sweeps and locks; then the payment is answered with `r`; then the
  -- callback settles.
  obtain ⟨amount, q, hpos, hsweep⟩ := d.sweeps run hforce hlisted hfree
  obtain ⟨t, rfl, hswept⟩ := amountOfMaturedTranches_swept hsweep hpos
  obtain ⟨withdrawal, sys₁, hstep₁, hcontext, htask, hstate₁, hnow₁, hchains₁⟩ :=
    withdrawal_step henv
      (LiquidStakingToken.withdraw_native hnative henv.unpaused henv.enough_gas hsweep hpos) gas
  obtain ⟨payment, sys₂, hstep₂, hpay, hanswered, hstate₂, hnow₂, hchains₂⟩ := answer_step env
    hchains₁ (by simp [platform, Receipt.pay, Action.isCall]) hnow₁.le r
  -- The books are sound after the two steps, so the settlement finds what it
  -- subtracts.
  have hgood : ∀ ev ∈ payment :: withdrawal :: events,
      Orderly (insert args (withdrawn events)) ev :=
    orderly_delivery hforce htask (by simp [Unforced, hpay, Receipt.pay, Receipt.releasesByHand])
      (by simp [Receipt.Withdraws, hpay, Receipt.pay])
  have hqueue : sys₂.state.withdrawalRequests = q := by rw [hstate₂, hstate₁]; rfl
  have hquiet : settlesExternally host withdrawal = false ∧
      settlesExternally host payment = false := by
    constructor
    · simp only [settlesExternally, htask, Receipt.call]
      split <;> simp_all
    · simp only [settlesExternally, hpay, Receipt.pay]
      split <;> simp_all
  have hroom' : (payment :: withdrawal :: events).countP (settlesExternally host) ≤
      d.env.accountBalance := by
    rw [List.countP_cons_of_neg (by simp [hquiet.2]), List.countP_cons_of_neg (by simp [hquiet.1])]
    exact hroom
  obtain ⟨hlocked, htracked, hpending⟩ := d.native_books hinj ((run.step hstep₁).step hstep₂)
    hgood hroom' hnative (Set.mem_insert _ _) (hqueue ▸ hswept.locks_eq)
  obtain ⟨s', hcommits, hafter⟩ := LiquidStakingToken.onWithdrawNative_eq (r := r)
    (show (env.inner host).predecessorAccountId = host.currentAccountId from rfl) hlocked
    htracked hpending
  have hcall : callMethod host ((env.inner host).forCall 0 (some r)) sys₂.state
      (.onWithdrawNative (host.hash args) t.withdrawalAmount) = .ok (.value s' .empty) := by
    simp only [callMethod, bind_eq_ok, require_eq_ok]
    exact ⟨(), .inr rfl, hcommits⟩
  obtain ⟨settlement, sys', hstep₃, rfl, -, hsettled⟩ :=
    callback_step env hchains₂ hcall hnow₂.le
  refine ⟨withdrawal, payment, settlement, sys', ((Platform.Run.start.step hstep₁).step
    hstep₂).step hstep₃, hcontext, htask, hswept.amount_eq ▸ hpay, hanswered, hsettled, ?_⟩
  rw [hqueue] at hafter
  have hbooks : sys₂.state.statistics = sys.state.statistics := by rw [hstate₂, hstate₁]; rfl
  rw [hbooks] at hafter
  by_cases hok : resultOk r = true
  · simp only [if_pos hok] at hafter ⊢
    obtain ⟨hafter, hpending', hlatest⟩ := hafter
    have hgone := hafter ▸ hswept.removed
    rw [← hswept.amount_eq, hgone.claimable_eq]
    exact ⟨hgone.locks_eq, hgone.others, rfl, hpending', hlatest⟩
  · simp only [if_neg hok] at hafter ⊢
    obtain ⟨hafter, hsame⟩ := hafter
    have hback := hafter ▸ hswept.released
    rw [← hswept.amount_eq, hback.claimable_eq]
    exact ⟨hback.locks_eq, hback.others, by simp, hsame⟩

/-- The 40 that the treasury unstaked for `bob` are paid when the cooldown is
over. -/
theorem Deployment.claim_payable_sample :
    ∃ newer sys', (platform sampleHost).Run (samplePool.played (sampleUnstake "native") rfl).2
        newer sys' ∧ (∃ payment ∈ newer, payment.execution.task = .pay "bob" 40) ∧
      claimable sys'.state.withdrawalRequests 4 ⟨"bob", .native⟩ = 0 := by
  have hclaimable : claimable (samplePool.played
      (sampleUnstake "native") rfl).2.state.withdrawalRequests 4 ⟨"bob", .native⟩ = 40 := by
    decide +kernel
  have henv : (sampleEnv 60 1040 4 "bob" 0).Withdraws sampleHost ⟨"bob", .native⟩
      (samplePool.played (sampleUnstake "native") rfl).2.now :=
    ⟨by decide, rfl, by decide +kernel, rfl, rfl, by decide +kernel⟩
  obtain ⟨withdrawal, payment, settlement, sys', hrun, -, -, hpay, -, -, -, -, hafter⟩ :=
    samplePool.claim_payable (samplePool.played_reaches (sampleUnstake "native") rfl)
      (by decide +kernel) (fun _ _ _ _ h => h) (by decide +kernel) (by rfl) henv
      (by decide +kernel) (by decide +kernel) 0 (.successful .empty)
  exact ⟨_, sys', hrun, ⟨payment, by simp, hclaimable ▸ hpay⟩, hafter.1⟩

end Reaches

end LiquidStaking
