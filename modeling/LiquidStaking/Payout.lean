import LiquidStaking.Solvency

/-!
# Every unstaked yoctoNEAR is paid once

The pieces of `LiquidStaking.Delivery` and `LiquidStaking.Solvency` put together
for one hash.  Every delivery in flight holds the one lock there is under its
hash, so there is at most one of them; its callback finds the tranche it locked;
the amounts under the hash add up; and the tracker covers what a settlement
takes out of it, so that a settlement with a readable result does not panic.
-/

namespace LiquidStaking

open Checked PromiseChain

section Callbacks

variable {H : Type} [DecidableEq H] {host : Host H} {env : Env} {s : LiquidStakingToken H}
  {a : Attempt} {r : PromiseResult}

/-- A result the settlement callback can read: any result of a native payment
and of a plain transfer, and a `U128` reported by `ft_transfer_call`. -/
def Receipt.reads (t : Receipt H) (r : PromiseResult) : Bool :=
  match t.actions, r with
  | [.call (.onWithdrawWnear _ _ _ _ true) _ _], .successful v =>
      decide (v.length ≤ maxResultLength) && v.u128.isSome
  | [.call (.onWithdrawWnear _ _ _ _ false) _ _], .successful v => decide (v.length ≤ 0)
  | _, _ => true

omit [DecidableEq H] in
/-- What a readable result of a wNEAR delivery looks like. -/
theorem Receipt.reads_wnear {receiver : AccountId} {hash : H}
    {amountToSend cost storageToPay deposit gas : ℕ} {isCall : Bool}
    (h : (Receipt.call receiver (.onWithdrawWnear hash amountToSend cost storageToPay isCall)
      deposit gas).reads r = true) (v : Payload) (hr : r = .successful v) :
    if isCall then v.length ≤ maxResultLength ∧ v.u128.isSome = true else v.length ≤ 0 := by
  subst hr
  cases isCall with
  | true =>
      simp only [Receipt.reads, Receipt.call, Bool.and_eq_true, decide_eq_true_eq] at h
      simpa using h
  | false => simpa [Receipt.reads, Receipt.call] using h

/-- The only tranche locked under a hash is part of every total. -/
theorem WithdrawalRequests.le_total_of_locked {q : WithdrawalRequests H} {hash : H} {t : Tranche}
    (f : Tranche → ℕ) (h : WithdrawalRequests.locksAt q hash = [t]) :
    f t ≤ WithdrawalRequests.total f q := by
  have htotal := (WithdrawalRequests.settled_effect (f := f) q hash).total_eq
  simp only [h, List.map_cons, List.map_nil, List.sum_cons, List.sum_nil] at htotal
  omega

/-- The books of a native settlement are lowered without an underflow, if they
cover the claim. -/
theorem LiquidStakingToken.settleNative_commits {hash : H} {t : Tranche}
    (hlocked : WithdrawalRequests.lockedTranche s.withdrawalRequests hash = .ok t)
    (htracked : t.withdrawalAmount ≤ s.statistics.latestTotalBalance)
    (hpending : t.withdrawalAmount ≤ s.statistics.totalPendingWithdrawals) :
    ∃ s', s.settleNative hash t.withdrawalAmount = .ok s' := by
  simp only [LiquidStakingToken.settleNative, hlocked, ok_bind, bind_eq_ok, require_eq_ok,
    LiquidStakingToken.decreaseTotalBalance_eq_ok,
    LiquidStakingToken.decreasePendingWithdrawals_eq_ok]
  exact ⟨_, (), trivial, _, ⟨htracked, rfl⟩, hpending, rfl⟩

/-- So the callback commits, whatever the payment's result. -/
theorem LiquidStakingToken.onWithdrawNative_commits
    (hself : env.predecessorAccountId = host.currentAccountId)
    (hlocked : WithdrawalRequests.lockedTranche s.withdrawalRequests (a.hash host) =
      .ok a.tranche)
    (htracked : a.tranche.withdrawalAmount ≤ s.statistics.latestTotalBalance)
    (hpending : a.tranche.withdrawalAmount ≤ s.statistics.totalPendingWithdrawals) :
    ∃ o, s.onWithdrawNative host (env.forCall 0 (some r)) (a.hash host)
      a.tranche.withdrawalAmount = .ok o := by
  obtain ⟨s₁, hsettled⟩ := LiquidStakingToken.settleNative_commits hlocked htracked hpending
  simp only [LiquidStakingToken.onWithdrawNative, Env.requirePrivate, bind_eq_ok, require_eq_ok,
    promiseSucceeded_forCall]
  by_cases hok : resultOk r = true
  · rw [onlyIf_pos hok]
    exact ⟨_, (), hself, s₁, hsettled, rfl⟩
  · rw [onlyIf_neg hok]
    exact ⟨_, (), hself, s, rfl, rfl⟩

/-- A readable result says what was consumed. -/
theorem consumedAmount_reads (env : Env) (amountToSend : ℕ) {isCall : Bool}
    (hreads : ∀ v, r = .successful v →
      if isCall then v.length ≤ maxResultLength ∧ v.u128.isSome = true else v.length ≤ 0) :
    ∃ consumed, LiquidStakingToken.consumedAmount (env.forCall 0 (some r)) amountToSend isCall =
      .ok consumed := by
  unfold LiquidStakingToken.consumedAmount Env.promiseResultChecked
  cases r with
  | failed => cases isCall <;> exact ⟨_, rfl⟩
  | successful v =>
      have hv := hreads v rfl
      cases isCall with
      | true =>
          rw [if_pos rfl] at hv
          obtain ⟨used, hused⟩ := Option.isSome_iff_exists.mp hv.2
          exact ⟨some (min used amountToSend), by simp [Env.forCall, hv.1, hused]⟩
      | false =>
          rw [if_neg (by simp)] at hv
          exact ⟨some amountToSend, by simp [Env.forCall, hv]⟩

/-- The books of a wNEAR settlement are lowered without an underflow, if they
cover the claim and what was spent. -/
theorem LiquidStakingToken.modifyStateAfterWithdraw_commits {hash : H} {t : Tranche}
    {n cost consumed storageToPay : ℕ}
    (hlocked : WithdrawalRequests.lockedTranche s.withdrawalRequests hash = .ok t)
    (hclaimed : NearToken.satAdd consumed storageToPay ≤ t.withdrawalAmount)
    (htracked : NearToken.satAdd cost storageToPay ≤ s.statistics.latestTotalBalance)
    (hpending : t.withdrawalAmount ≤ s.statistics.totalPendingWithdrawals) :
    ∃ s', s.modifyStateAfterWithdraw hash n cost consumed storageToPay = .ok s' := by
  have hspends : ∀ q : WithdrawalRequests H, ∃ s',
      ((s.withQueue q).decreasePendingWithdrawals (NearToken.satAdd consumed storageToPay) >>=
        fun s₁ => onlyIf (0 < NearToken.satAdd cost storageToPay)
          (s₁.decreaseTotalBalance (NearToken.satAdd cost storageToPay)) s₁) = .ok s' := by
    intro q
    rw [LiquidStakingToken.decreasePendingWithdrawals_eq_ok.mpr
      ⟨hclaimed.trans (by simpa using hpending), rfl⟩, ok_bind]
    unfold onlyIf
    split_ifs
    · exact ⟨_, LiquidStakingToken.decreaseTotalBalance_eq_ok.mpr ⟨htracked, rfl⟩⟩
    · exact ⟨_, rfl⟩
  simp only [LiquidStakingToken.modifyStateAfterWithdraw, hlocked, ok_bind]
  rw [expect_eq_ok.mpr (checkedSub_eq_some.mpr ⟨hclaimed, rfl⟩), ok_bind]
  exact hspends _

/-- So this callback commits as well, on every result it can read.

A delivery spends at most the claim less its residual, and a yoctoNEAR. -/
theorem LiquidStakingToken.onWithdrawWnear_commits
    (hself : env.predecessorAccountId = host.currentAccountId) (hfits : a.Fits host)
    (hreads : ∀ v, r = .successful v →
      if a.isCall host then v.length ≤ maxResultLength ∧ v.u128.isSome = true else v.length ≤ 0)
    (hlocked : WithdrawalRequests.lockedTranche s.withdrawalRequests (a.hash host) =
      .ok a.tranche)
    (hbounded : a.tranche.withdrawalAmount < 2 ^ 128)
    (htracked : a.tranche.withdrawalAmount + 1 ≤
      s.statistics.latestTotalBalance + a.tranche.wnearResidual)
    (hpending : a.tranche.withdrawalAmount ≤ s.statistics.totalPendingWithdrawals) :
    ∃ o, s.onWithdrawWnear host (env.forCall 0 (some r)) (a.hash host) a.amountToSend
      (a.cost host) a.storageToPay (a.isCall host) = .ok o := by
  obtain ⟨settled, hconsumed⟩ := consumedAmount_reads env a.amountToSend hreads
  have hdelivery := consumedAmount_eq_ok hconsumed
  simp only [LiquidStakingToken.onWithdrawWnear, Env.requirePrivate, bind_eq_ok, require_eq_ok]
  cases settled with
  | none => exact ⟨_, (), hself, (), rfl, none, hconsumed, rfl⟩
  | some consumed =>
      have hdelivered := hdelivery.satAdd_eq hfits hbounded
      have hle := (hdelivery.delivered_eq a.storageToPay).2
      have hamount := hfits.amount_eq
      have hspent := Attempt.spent_le hfits
      have hclaimed : NearToken.satAdd consumed a.storageToPay ≤ a.tranche.withdrawalAmount := by
        omega
      have hcovered : NearToken.satAdd (a.cost host) a.storageToPay ≤
          s.statistics.latestTotalBalance := by
        split_ifs at hspent <;> omega
      obtain ⟨s₁, hmodified⟩ := s.modifyStateAfterWithdraw_commits (n := a.amountToSend)
        hlocked hclaimed hcovered hpending
      refine ⟨.value (s₁.withQueue (WithdrawalRequests.releaseLock s₁.withdrawalRequests
        (a.hash host)).1) .empty, (), hself, (), rfl, some consumed, hconsumed, ?_⟩
      simp only [hmodified, ok_bind]
      rfl

end Callbacks

section Reaches

variable {H : Type} [DecidableEq H] {host : Host H} {d : Deployment host}
  {events : List (PoolEvent H)} {sys : PoolSystem H} {c : PoolChain H} {hash : H}
  {messages : Set UnstakeMessage}

/-- A chain with a settlement callback under `hash` ahead is a delivery, and the
only tranche locked there is its own.

There is at most one lock, and it counts the deliveries in flight. -/
theorem Deployment.delivery_locks (run : d.Reaches events sys)
    (hforce : ∀ ev ∈ events, Unforced ev) (hmem : c ∈ sys.chains)
    (hsettles : c.tasks.any (Receipt.settles hash) = true) :
    ∃ p a, Describes host d.wnearId c p ∧ p.attempt = some a ∧ a.hash host = hash ∧
      WithdrawalRequests.locksAt sys.state.withdrawalRequests hash = [a.tranche] := by
  obtain ⟨p, hp⟩ := (d.phased run).described c hmem
  rw [hp.tasks_eq, Phase.any_settles] at hsettles
  cases ha : p.attempt with
  | none => simp [ha] at hsettles
  | some a =>
      rw [ha] at hsettles
      obtain rfl := of_decide_eq_true hsettles
      exact ⟨p, a, hp, ha, rfl, d.locksAt_eq run hforce hmem hp ha⟩

/-- At most one delivery is in flight for a hash. -/
theorem Deployment.countP_settles_le (run : d.Reaches events sys)
    (hforce : ∀ ev ∈ events, Unforced ev) :
    sys.chains.countP (fun c => c.tasks.any (Receipt.settles hash)) ≤ 1 := by
  by_cases hnone : ∃ c ∈ sys.chains, c.tasks.any (Receipt.settles hash) = true
  · obtain ⟨c₀, hmem₀, hsettles₀⟩ := hnone
    obtain ⟨p₀, a₀, -, -, -, hlocks⟩ := d.delivery_locks run hforce hmem₀ hsettles₀
    have hcount := d.count_locksAt run hforce hash a₀.tranche
    have hsame : sys.chains.countP (fun c => c.tasks.any (Receipt.settles hash)) ≤
        sys.chains.countP (delivers host hash a₀.tranche) := by
      refine List.countP_mono_left fun c hmem hsettles => ?_
      obtain ⟨p, a, hp, ha, -, hown⟩ := d.delivery_locks run hforce hmem hsettles
      have htranche : a.tranche = a₀.tranche := (List.cons.inj (hown.symm.trans hlocks)).1
      simp [delivers, hsettles, lockedBy, hp.attempt_eq a ha, htranche]
    rw [hlocks, List.count_singleton_self] at hcount
    omega
  · push Not at hnone
    rw [List.countP_eq_zero.mpr hnone]
    exact Nat.zero_le 1

/-- A tranche is locked while its delivery is unsettled, or its settlement
panicked. -/
theorem Deployment.mem_locksAt_iff (run : d.Reaches events sys)
    (hforce : ∀ ev ∈ events, Unforced ev) {t : Tranche} :
    t ∈ WithdrawalRequests.locksAt sys.state.withdrawalRequests hash ↔
      (∃ c ∈ sys.chains, delivers host hash t c = true) ∨
        ∃ ev ∈ events, settlementPanicked host hash t ev = true := by
  have hcount := d.count_locksAt run hforce hash t
  rw [← List.count_pos_iff, ← List.countP_pos_iff, ← List.countP_pos_iff]
  omega

/-- The tracker covers what a locked tranche may still cost.

This is solvency, with everything but the locked tranche dropped from what is
owed. -/
theorem Deployment.tracked_of_locked (hinj : Set.InjOn host.hash messages)
    (run : d.Reaches events sys) (hgood : ∀ ev ∈ events, Orderly messages ev) {t : Tranche}
    (hlocks : WithdrawalRequests.locksAt sys.state.withdrawalRequests hash = [t]) :
    d.env.accountBalance + t.withdrawalAmount ≤ sys.state.statistics.latestTotalBalance +
      t.wnearResidual + events.countP (settlesExternally host) := by
  have hsolvent := d.solvent hinj run hgood
  have hsplit := WithdrawalRequests.total_sub_residual (q := sys.state.withdrawalRequests)
    fun hash l mem => (d.covered hinj run hgood hash l mem).residual_le
  have hpart : t.withdrawalAmount - t.wnearResidual ≤ _ := WithdrawalRequests.le_total_of_locked
    (fun t => t.withdrawalAmount - t.wnearResidual) hlocks
  have hregistered : (0 : ℤ) ≤
      host.storageBalanceMin * sys.state.token.registrations d.keepers := by
    exact_mod_cast Nat.zero_le _
  unfold slack owed at hsolvent
  omega

/-- **A settlement commits** on every result it can read, as long as the initial
liquid balance pays for one more delivery. -/
theorem Deployment.settlement_commits (hinj : Set.InjOn host.hash messages)
    (run : d.Reaches events sys) (hgood : ∀ ev ∈ events, Orderly messages ev)
    (hroom : events.countP (settlesExternally host) < d.env.accountBalance)
    (hmem : c ∈ sys.chains) {t : Receipt H} {rest : List (Receipt H)}
    (htasks : c.tasks = t :: rest) (hsettles : t.settles hash = true) {r : PromiseResult}
    (hinput : c.input = some r) (hreads : t.reads r = true) {env : Env}
    (hself : env.predecessorAccountId = host.currentAccountId) :
    ∃ o, (platform host).execute env c.input t sys.state = .ok o := by
  have hforce := fun ev hev => (hgood ev hev).unforced
  obtain ⟨p, a, hp, ha, -, hlocks⟩ := d.delivery_locks run hforce hmem
    (show c.tasks.any (Receipt.settles hash) = true by
      rw [htasks, List.any_cons, hsettles, Bool.true_or])
  have hlocks' := d.locksAt_eq run hforce hmem hp ha
  have hlocked := WithdrawalRequests.lockedTranche_eq_ok.mpr
    (show (WithdrawalRequests.locksAt _ (a.hash host)).head? = some a.tranche by rw [hlocks']; rfl)
  have hqueue := d.queueSound run
  -- Every subtraction of the callback is covered: by the queue, by the pending
  -- withdrawals, or by the tracker.
  have hbounded := (hqueue.own_tranche hlocks' hlocked).2
  have hpending := (hqueue.settle hlocked).1
  have htracked := d.tracked_of_locked hinj run hgood hlocks'
  have hcovered := (d.covered hinj run hgood).locked
    (show a.tranche ∈ WithdrawalRequests.locksAt _ (a.hash host) by rw [hlocks']; simp)
  have hfirst := hp.tasks_eq.symm.trans htasks
  have hread := hp.input_eq.symm.trans hinput
  rw [hinput]
  cases p with
  | deliveredNative a' r' =>
      obtain rfl := Option.some.inj ha
      obtain ⟨rfl, -⟩ := List.cons.inj hfirst
      have hnone := hcovered.native a'.args (d.attempt_mem run hgood hmem hp rfl) hp.valid rfl
      obtain ⟨o, ho⟩ := LiquidStakingToken.onWithdrawNative_commits (r := r) hself hlocked
        (by omega) hpending
      exact ⟨o, ho⟩
  | deliveredWnear a' r' =>
      obtain rfl := Option.some.inj ha
      obtain ⟨rfl, -⟩ := List.cons.inj hfirst
      obtain ⟨o, ho⟩ := LiquidStakingToken.onWithdrawWnear_commits (r := r) hself hp.valid.2
        (Receipt.reads_wnear hreads) hlocked hbounded (by omega) hpending
      exact ⟨o, ho⟩
  | deliveringNative | deliveringWnear => cases hread
  | _ => cases ha

/-- **Each unstaked yoctoNEAR is paid once.**  Without forced releases: at most
one delivery is in flight for a hash, and a tranche is locked while its delivery
is unsettled or its settlement panicked; a delivery finds the tranche it locked;
what was appended is queued or was delivered; and, while the initial liquid
balance exceeds the number of external wNEAR deliveries, a settlement callback
whose turn it is commits on every result it can read.

A result that a wNEAR settlement cannot read makes it panic after the wNEAR may
have been sent; the tranche then stays locked, so it is not paid a second time
unless an admin releases it.  The last part is about any environment in which
the pool calls itself, whatever its gas and balances. -/
theorem Deployment.paid_once (run : d.Reaches events sys)
    (hforce : ∀ ev ∈ events, Unforced ev) (hash : H) :
    (sys.chains.countP (fun c => c.tasks.any (Receipt.settles hash)) ≤ 1 ∧
      ∀ t, t ∈ WithdrawalRequests.locksAt sys.state.withdrawalRequests hash ↔
        (∃ c ∈ sys.chains, delivers host hash t c = true) ∨
          ∃ ev ∈ events, settlementPanicked host hash t ev = true) ∧
    (∀ c ∈ sys.chains, c.tasks.any (Receipt.settles hash) = true →
      ∃ t, lockedBy host c = some t ∧
        WithdrawalRequests.lockedTranche sys.state.withdrawalRequests hash = .ok t) ∧
    queuedUnder hash sys.state.withdrawalRequests + (events.map (deliveredUnder hash)).sum =
      (events.map (appendedUnder hash)).sum ∧
    (Set.InjOn host.hash (withdrawn events) →
      events.countP (settlesExternally host) < d.env.accountBalance →
      ∀ c ∈ sys.chains, ∀ t rest r env, c.tasks = t :: rest → t.settles hash = true →
        c.input = some r → t.reads r = true →
        env.predecessorAccountId = host.currentAccountId →
        ∃ o, (platform host).execute env c.input t sys.state = .ok o) := by
  refine ⟨⟨d.countP_settles_le run hforce, fun t => d.mem_locksAt_iff run hforce⟩, ?_,
    d.queued_add_delivered run hforce hash, ?_⟩
  · intro c hmem hsettles
    obtain ⟨p, a, hp, ha, -, hlocks⟩ := d.delivery_locks run hforce hmem hsettles
    refine ⟨a.tranche, by rw [lockedBy, hp.attempt_eq a ha]; rfl, ?_⟩
    rw [WithdrawalRequests.lockedTranche_eq_ok, hlocks]
    rfl
  · intro hinj hroom c hmem t rest r env htasks hsettles hinput hreads hself
    exact d.settlement_commits hinj run (orderly_withdrawn hforce) hroom hmem htasks
      hsettles hinput hreads hself

/-- 40 yoctoNEAR were appended, and delivered. -/
theorem Deployment.paid_once_sample :
    ((samplePool.played samplePayout rfl).1.map
        (deliveredUnder (⟨"bob", .wnear false none none none⟩ : UnstakeMessage))).sum = 40 ∧
      ((samplePool.played samplePayout rfl).1.map
        (appendedUnder (⟨"bob", .wnear false none none none⟩ : UnstakeMessage))).sum = 40 := by
  have hpaid := (samplePool.paid_once (samplePool.played_reaches samplePayout rfl)
    (by decide +kernel) ⟨"bob", .wnear false none none none⟩).2.2.1
  have happended : ((samplePool.played samplePayout rfl).1.map
      (appendedUnder (⟨"bob", .wnear false none none none⟩ : UnstakeMessage))).sum = 40 := by
    decide +kernel
  have hqueued : queuedUnder (⟨"bob", .wnear false none none none⟩ : UnstakeMessage)
      (samplePool.played samplePayout rfl).2.state.withdrawalRequests = 0 := by
    decide +kernel
  rw [hqueued, happended, zero_add] at hpaid
  exact ⟨hpaid, happended⟩

end Reaches

end LiquidStaking
