import LiquidStaking.NearCustody
import LiquidStaking.Rollback

/-!
# No stake is stranded

`Whereabouts` says where the value of a stake is once its chain is done, if the
callbacks that are to settle it run to their end.  Here that is derived from
what those callbacks need of the outside and of the books.

* They get their gas, and the sums they make stay within their words
  (`SumsFit`).  Nothing else can stop them: the LST of the stake are still on
  the pool's account when they are handed over or burned, whatever other chains
  did meanwhile (`Deployment.escrow_kept`).
* What is sent back arrives (`RefundArrives`): then the sender is paid
  (`PaidBack`).

A stake may still end on the pool's own account.  The code looks at the
registration of the receiver before it hands the LST over, and keeps them where
it is gone; and the LST that were taken back from a receiver are put on the
pool's account again when they could not be unstaked.
`Deployment.stake_left_on_pool` is a run of the first kind.
-/

namespace LiquidStaking

open Checked PromiseChain

section Definitions

variable {H : Type}

/-- NEAR that goes back to a sender, or is wrapped again for one, does not
arrive. -/
def refundFails (e : PoolExecution H) : Bool :=
  match e.verdict with
  | .answered r => e.task.givesBack && !resultOk r
  | _ => false

/-- NEAR that goes back to a sender, or is wrapped again for one, arrives. -/
def RefundArrives (e : PoolExecution H) : Prop := refundFails e = false

instance : DecidablePred (RefundArrives (H := H)) := fun _ =>
  inferInstanceAs (Decidable (_ = _))

/-- What arrives has succeeded. -/
theorem RefundArrives.ok {e : PoolExecution H} {r : PromiseResult} (h : RefundArrives e)
    (answer : e.verdict = .answered r) (back : e.task.givesBack = true) : resultOk r = true := by
  simpa [RefundArrives, refundFails, answer, back] using h

variable [DecidableEq H] (host : Host H)

/-- The sync and the quote of a stake of unwrapped NEAR stay within their words.

It is what the code computes, as a test of success; that the stake is too small
for a quote is no panic and counts as success. -/
def quotes (env : Env) (s : LiquidStakingToken H) (senderId : AccountId) (amount : ℕ)
    (args : StakeMessage) : Bool :=
  (s.syncRewardsInternal env none >>= fun out =>
    out.1.stakeAndDeposit host env senderId args amount .wnear).isOk

/-- What the callbacks of a stake add up fits its word, and what they take off
the books is there.

The second is a real condition: the books may have been lowered by other chains
since the stake was minted. -/
def SumsFit (e : PoolExecution H) : Prop :=
  match e.task.actions with
  | [.call (.onNearWithdraw senderId amount args) _ _] =>
      amount ≤ e.before.statistics.latestTotalBalance ∧
        (inputFailed e = false → quotes host e.context e.before senderId amount args = true)
  | [.call (.restakeOrRefund _ depositAmount _ _ _ depositToken) _ _] =>
      depositToken = .wnear → inputFailed e = true →
        depositAmount ≤ e.before.statistics.latestTotalBalance
  | [.call (.onRestakeOrRefund senderId stakeAmount lstTokens args depositToken) _ _] =>
      (inputFailed e = true →
        MintedStake.Covered host ⟨senderId, args, stakeAmount, lstTokens, depositToken⟩ e.before) ∧
      (inputFailed e = false → e.before.HolderRoom)
  | _ => True

instance (s : LiquidStakingToken H) : Decidable s.HolderRoom :=
  inferInstanceAs (Decidable (_ < _))

instance : DecidablePred (SumsFit host) := fun e => by
  unfold SumsFit
  split <;> infer_instance

end Definitions

/-! ## The callbacks run to their end

One lemma for each callback that settles a stake: with what `SumsFit` says of
it, the code commits. -/

section Callbacks

variable {H : Type} [DecidableEq H] {host : Host H} {env : Env} {s : LiquidStakingToken H}
  {r : PromiseResult}

omit [DecidableEq H] in
/-- `on_near_withdraw`: the stake is quoted or refused, or booked out again. -/
theorem onNearWithdraw_runs {senderId : AccountId} {amount : ℕ} {args : StakeMessage}
    (hself : env.predecessorAccountId = host.currentAccountId)
    (hbooked : amount ≤ s.statistics.latestTotalBalance)
    (hquotes : resultOk r = true → quotes host env s senderId amount args = true) :
    ∃ o, s.onNearWithdraw host (env.forCall 0 (some r)) senderId amount args = .ok o := by
  have hprivate : (env.forCall 0 (some r)).requirePrivate host.currentAccountId = .ok () :=
    require_eq_ok.mpr hself
  unfold LiquidStakingToken.onNearWithdraw
  rw [hprivate, ok_bind, promiseSucceeded_forCall]
  cases hok : resultOk r with
  | false =>
      have htakes : s.decreaseTotalBalance amount = .ok (s.subBalance amount) :=
        LiquidStakingToken.decreaseTotalBalance_eq_ok.mpr ⟨hbooked, rfl⟩
      rw [if_neg Bool.false_ne_true, htakes]
      exact ⟨_, rfl⟩
  | true =>
      obtain ⟨quoted, hquoted⟩ : ∃ quoted, (s.syncRewardsInternal env none >>= fun out =>
          out.1.stakeAndDeposit host env senderId args amount .wnear) = .ok quoted := by
        have hisOk := hquotes hok
        unfold quotes at hisOk
        generalize (s.syncRewardsInternal env none >>= _) = x at hisOk ⊢
        cases x with
        | ok quoted => exact ⟨quoted, rfl⟩
        | error => cases hisOk
      obtain ⟨⟨s₁, result⟩, hsync, hstakes⟩ := bind_eq_ok.mp hquoted
      have hsync' : s.syncRewardsInternal (env.forCall 0 (some r)) none = .ok (s₁, result) := hsync
      have hstakes' : s₁.stakeAndDeposit host (env.forCall 0 (some r)) senderId args amount
          .wnear = .ok quoted := hstakes
      rw [if_pos rfl, hsync', ok_bind]
      dsimp only
      rw [hstakes', ok_bind]
      cases quoted with
      | ok promise => exact ⟨_, rfl⟩
      | error =>
          -- The sync has not lowered the tracker, so the deposit can still be
          -- taken off.
          have hkept := (LiquidStakingToken.syncRewardsInternal_eq_ok hsync).tracked_eq
          have htakes : s₁.decreaseTotalBalance amount = .ok (s₁.subBalance amount) :=
            LiquidStakingToken.decreaseTotalBalance_eq_ok.mpr ⟨by omega, rfl⟩
          unfold LiquidStakingToken.refundBookedWnear
          rw [htakes]
          exact ⟨_, rfl⟩

/-- `restake_or_refund`: the stake goes on, or its wNEAR is booked out again. -/
theorem restakeOrRefund_runs {o : StakeOrder}
    (hself : env.predecessorAccountId = host.currentAccountId)
    (hwrapped : resultOk r = false → o.depositToken = .wnear ∧
      o.depositAmount ≤ s.statistics.latestTotalBalance) :
    ∃ out, (platform host).execute env (some r) (o.restakeCall host) s = .ok out := by
  cases hok : resultOk r with
  | true => exact ⟨_, restakeOrRefund_ok hself hok⟩
  | false =>
      obtain ⟨htoken, hbooked⟩ := hwrapped hok
      have hprivate : (env.forCall 0 (some r)).requirePrivate host.currentAccountId = .ok () :=
        require_eq_ok.mpr hself
      have htakes : s.decreaseTotalBalance o.depositAmount = .ok (s.subBalance o.depositAmount) :=
        LiquidStakingToken.decreaseTotalBalance_eq_ok.mpr ⟨hbooked, rfl⟩
      have hcalls : (platform host).execute env (some r) (o.restakeCall host) s =
          s.restakeOrRefund host (env.forCall 0 (some r)) o := rfl
      unfold LiquidStakingToken.restakeOrRefund LiquidStakingToken.refundBookedWnear at hcalls
      rw [hcalls, hprivate, ok_bind, promiseSucceeded_forCall, hok, if_neg Bool.false_ne_true,
        htoken]
      dsimp only
      rw [htakes]
      exact ⟨_, rfl⟩

omit [DecidableEq H] in
/-- What leaves an account leaves room for it elsewhere. -/
theorem debit_add_lt (hbalanced : s.token.Balanced) (hsupply : s.token.totalSupply < 2 ^ 128)
    {a b : AccountId} {n : ℕ} (hn : n ≤ s.token.ftBalanceOf a) :
    (s.debit a n).token.ftBalanceOf b + n < 2 ^ 128 ∧
      (s.debit a n).token.totalSupply + n < 2 ^ 128 := by
  have hheld : (s.debit a n).token.ftBalanceOf b ≤ (s.debit a n).token.totalSupply :=
    (hbalanced.burn hn).ftBalanceOf_le b
  have hburned : (s.debit a n).token.totalSupply + n = s.token.totalSupply :=
    Nat.sub_add_cancel (hn.trans (hbalanced.ftBalanceOf_le a))
  omega

omit [DecidableEq H] in
/-- An account that gives LST away is not counted for the first time. -/
theorem debit_holderRoom (hroom : s.HolderRoom) (a : AccountId) (n : ℕ) :
    (s.debit a n).HolderRoom := by
  have hcount : (s.debit a n).statistics.numDelegators ≤ s.statistics.numDelegators := by
    show LiquidStakingToken.recount s.statistics.numDelegators (s.isZeroBalance a)
      (decide ((s.token.burn a n).ftBalanceOf a = 0)) ≤ s.statistics.numDelegators
    unfold LiquidStakingToken.isZeroBalance
    rw [FungibleToken.ftBalanceOf_burn_self]
    by_cases hzero : s.token.ftBalanceOf a = 0
    · simp [hzero, LiquidStakingToken.recount]
    · by_cases hleft : s.token.ftBalanceOf a - n = 0 <;>
        simp [hzero, hleft, LiquidStakingToken.recount]
  unfold LiquidStakingToken.HolderRoom at hroom ⊢
  omega

/-- `on_restake_or_refund` after a validator action that succeeded: the LST are
handed over, or kept for a receiver that is gone. -/
theorem onRestakeOrRefund_hands {m : MintedStake}
    (hself : env.predecessorAccountId = host.currentAccountId) (hok : resultOk r = true)
    (hsound : s.token.Sound [host.currentAccountId]) (hsupply : s.token.totalSupply < 2 ^ 128)
    (hescrow : m.lstTokens ≤ s.token.ftBalanceOf host.currentAccountId) (hroom : s.HolderRoom) :
    ∃ o, (platform host).execute env (some r) (m.settleCall host) s = .ok o := by
  have hprivate : (env.forCall 0 (some r)).requirePrivate host.currentAccountId = .ok () :=
    require_eq_ok.mpr hself
  have hcalls : (platform host).execute env (some r) (m.settleCall host) s =
      s.onRestakeOrRefund host (env.forCall 0 (some r)) m.senderId m.stakeAmount m.lstTokens
        m.args m.depositToken := rfl
  unfold LiquidStakingToken.onRestakeOrRefund at hcalls
  rw [hcalls, hprivate, ok_bind, promiseSucceeded_forCall, hok, if_pos rfl]
  cases hregistered : s.isRegistered host m.args.receiverId with
  | false =>
      rw [if_neg Bool.false_ne_true]
      exact ⟨_, rfl⟩
  | true =>
      have hreceiver : (s.debit host.currentAccountId m.lstTokens).token.isRegistered
          m.args.receiverId = true := by
        show (s.token.burn host.currentAccountId m.lstTokens).isRegistered m.args.receiverId = true
        rw [FungibleToken.isRegistered_burn, LiquidStakingToken.isRegistered_imp hregistered,
          Bool.or_true]
      have hfits := debit_add_lt hsound.balanced hsupply (b := m.args.receiverId) hescrow
      have hdeposit := LiquidStakingToken.internalDeposit_eq_ok.mpr
        ⟨hreceiver, hfits.1, hfits.2, fun _ => debit_holderRoom hroom _ _, rfl⟩
      have htransfer : s.internalTransfer host.currentAccountId m.args.receiverId m.lstTokens =
          .ok _ := LiquidStakingToken.internalTransfer_eq_ok.mpr
            ⟨_, internalWithdraw_escrow hsound hescrow, hdeposit⟩
      rw [if_pos rfl, htransfer, ok_bind]
      cases m.args.msg <;> exact ⟨_, rfl⟩

omit [DecidableEq H] in
/-- `refund_wnear_deposit` only reports. -/
theorem refundWnearDeposit_runs (amount : ℕ)
    (hself : env.predecessorAccountId = host.currentAccountId) :
    ∃ o, s.refundWnearDeposit host (env.forCall 0 (some r)) amount = .ok o := by
  have hprivate : (env.forCall 0 (some r)).requirePrivate host.currentAccountId = .ok () :=
    require_eq_ok.mpr hself
  unfold LiquidStakingToken.refundWnearDeposit
  rw [hprivate, ok_bind]
  split_ifs <;> exact ⟨_, rfl⟩

end Callbacks

/-! ## Runs -/

section Reaches

variable {H : Type} [DecidableEq H] {host : Host H} {d : Deployment host}
  {events : List (PoolEvent H)} {sys : PoolSystem H} {c : PoolChain H} {e : PoolExecution H}
  {Good : PoolEvent H → Prop} {p : Phase H} {r : PromiseResult}

/-- With gas, a callback that panics has hit an error of the code. -/
theorem error_of_panicked (hfires : (platform host).Fires sys c e)
    (hverdict : e.verdict = .panicked) (hgas : e.context.gasExhausted = false) :
    ∃ msg, (platform host).execute e.context e.input e.task e.before = .error msg := by
  have hlegal := hfires.legal
  simp only [Platform.Legal, hverdict] at hlegal
  obtain ⟨-, -, hexhausted | herror⟩ := hlegal
  · exact absurd (hgas.symm.trans hexhausted) Bool.false_ne_true
  · exact herror

/-- The receipt that runs, by the phase of its chain. -/
theorem Describes.head_eq (now : Describes host d.wnearId c p)
    (turn : d.Turn Good events sys c e) :
    (∃ rest, p.tasks host d.wnearId = e.task :: rest) ∧ e.input = p.input := by
  obtain ⟨rest, hhead⟩ := turn.fires.tasks_eq
  exact ⟨⟨rest, now.tasks_eq.symm.trans hhead⟩, turn.fires.input_eq.trans now.input_eq⟩

/-- `on_near_withdraw` runs.

Without the NEAR nothing is quoted, and the deposit leaves the tracker. -/
theorem Deployment.unwrapped_runs (turn : d.Turn Good events sys c e) {senderId : AccountId}
    {amount : ℕ} {args : StakeMessage}
    (now : Describes host d.wnearId c (.unwrapped senderId amount args r))
    (self : e.context.predecessorAccountId = host.currentAccountId) (hfits : SumsFit host e) :
    ∃ o, (platform host).execute e.context e.input e.task e.before = .ok o := by
  obtain ⟨⟨rest, htasks⟩, hread⟩ := now.head_eq turn
  obtain ⟨htask, -⟩ := List.cons.inj htasks
  simp only [SumsFit, ← htask, Receipt.call, inputFailed, hread, Phase.input] at hfits
  obtain ⟨o, hruns⟩ := onNearWithdraw_runs (r := r) self hfits.1 fun hok =>
    hfits.2 (by rw [hok]; rfl)
  rw [← htask, hread]
  exact ⟨o, hruns⟩

/-- `restake_or_refund` runs, unless the batch of a native stake failed: then it
panics, and the host gives the deposit back. -/
theorem Deployment.batched_runs (turn : d.Turn Good events sys c e) {o : StakeOrder}
    (now : Describes host d.wnearId c (.batched o r))
    (self : e.context.predecessorAccountId = host.currentAccountId) (hfits : SumsFit host e)
    (hmay : mayPanic e = false) :
    ∃ out, (platform host).execute e.context e.input e.task e.before = .ok out := by
  obtain ⟨⟨rest, htasks⟩, hread⟩ := now.head_eq turn
  obtain ⟨htask, -⟩ := List.cons.inj htasks
  simp only [SumsFit, ← htask, StakeOrder.restakeCall, Receipt.call, inputFailed, hread,
    Phase.input] at hfits
  simp only [mayPanic, ← htask, StakeOrder.restakeCall, Receipt.call, inputFailed, hread,
    Phase.input, decide_eq_false_iff_not] at hmay
  have hwnear : resultOk r = false → o.depositToken = .wnear := by
    intro hno
    cases htoken : o.depositToken with
    | native => exact absurd ⟨htoken, by rw [hno]; rfl⟩ hmay
    | wnear => rfl
  obtain ⟨out, hruns⟩ := restakeOrRefund_runs (s := e.before) (o := o) (r := r) self fun hno =>
    ⟨hwnear hno, hfits (hwnear hno) (by rw [hno]; rfl)⟩
  rw [← htask, hread]
  exact ⟨out, hruns⟩

/-- `on_restake_or_refund` runs.

The LST that it hands over or burns are still on the pool's account: they are
the escrow of its chain. -/
theorem Deployment.restaked_runs (turn : d.Turn UnstakeRuns events sys c e) {m : MintedStake}
    (now : Describes host d.wnearId c (.restaked m r))
    (self : e.context.predecessorAccountId = host.currentAccountId) (hfits : SumsFit host e) :
    ∃ o, (platform host).execute e.context e.input e.task e.before = .ok o := by
  obtain ⟨⟨rest, htasks⟩, hread⟩ := now.head_eq turn
  obtain ⟨htask, -⟩ := List.cons.inj htasks
  simp only [SumsFit, ← htask, MintedStake.settleCall, Receipt.call, inputFailed, hread,
    Phase.input] at hfits
  have hsound := d.turn_sound turn
  have hescrow := d.escrow_kept turn turn.good now
  rw [← htask, hread]
  cases hok : resultOk r with
  | true =>
      have hsupply := d.supply_lt turn.run turn.good
      rw [← turn.fires.before_eq] at hsupply
      obtain ⟨o, hruns⟩ := onRestakeOrRefund_hands self hok hsound hsupply hescrow
        (hfits.2 (by rw [hok]; rfl))
      exact ⟨o, hruns⟩
  | false =>
      exact ⟨_, onRestakeOrRefund_refunds self hok hsound hescrow (hfits.1 (by rw [hok]; rfl))⟩

/-- A receipt that is to settle something, and has its gas and its sums, runs.

All others are those that may panic. -/
theorem Deployment.mayPanic_of_panicked (turn : d.Turn UnstakeRuns events sys c e)
    (hgas : mayPanic e = false → e.context.gasExhausted = false) (hfits : SumsFit host e)
    (now : Describes host d.wnearId c p) (here : p.place host = .here)
    (self : e.context.predecessorAccountId = host.currentAccountId)
    (verdict : e.verdict = .panicked) : mayPanic e = true := by
  by_contra hmay
  rw [Bool.not_eq_true] at hmay
  have hstops : ∀ o, (platform host).execute e.context e.input e.task e.before ≠ .ok o := by
    obtain ⟨msg, herror⟩ := error_of_panicked turn.fires verdict (hgas hmay)
    intro o hruns
    cases hruns.symm.trans herror
  obtain ⟨⟨rest, htasks⟩, hread⟩ := now.head_eq turn
  cases p with
  | unwrapped senderId amount args r =>
      obtain ⟨o, hruns⟩ := d.unwrapped_runs turn now self hfits
      exact hstops o hruns
  | batched o r =>
      obtain ⟨out, hruns⟩ := d.batched_runs turn now self hfits hmay
      exact hstops out hruns
  | restaked m r =>
      obtain ⟨o, hruns⟩ := d.restaked_runs turn now self hfits
      exact hstops o hruns
  | rewrapped amount r =>
      obtain ⟨htask, -⟩ := List.cons.inj htasks
      obtain ⟨o, hruns⟩ := refundWnearDeposit_runs (s := e.before) (r := r) amount self
      refine hstops o ?_
      rw [← htask, hread]
      exact hruns
  | unstaked u k r =>
      exact turn.now.not_panicked now turn.fires self (d.turn_sound turn)
        (turn.fires.before_eq ▸ d.queueSound turn.run) verdict
  | batching o refundTo =>
      obtain ⟨htask, -⟩ := List.cons.inj htasks
      rw [mayPanic, ← htask] at hmay
      cases htoken : o.depositToken <;> cases hstorage : o.args.isStorageDeposit <;>
        simp [StakeOrder.batch, htoken, hstorage] at hmay
  | continuing k r =>
      cases k with
      | finish => cases htasks
      | resolve | notify =>
          obtain ⟨htask, -⟩ := List.cons.inj htasks
          rw [mayPanic, ← htask] at hmay
          cases hmay
  | sending | deliveredNative | deliveredWnear | pinged =>
      obtain ⟨htask, -⟩ := List.cons.inj htasks
      rw [mayPanic, ← htask] at hmay
      cases hmay
  | _ => cases here

/-- **What a stake's callback needs is enough**: with its gas, and on books on
which its sums fit, it runs to its end.

The LST that it hands over or burns need no condition of their own.  They are
the escrow of its chain, and the escrow is kept. -/
theorem Deployment.settlesStake_turn (turn : d.Turn UnstakeRuns events sys c e)
    (hgas : mayPanic e = false → e.context.gasExhausted = false) (hfits : SumsFit host e) :
    SettlesStake e := by
  unfold SettlesStake
  cases d.transition turn with
  | entered m p side deposit gas fresh task_eq deposit_eq external entry next verdict =>
      obtain ⟨ret, hverdict⟩ := verdict
      rw [hverdict]
      trivial
  | advanced p p' side now self advance next verdict =>
      obtain ⟨ret, hverdict⟩ := verdict
      rw [hverdict]
      trivial
  | answered p r now away verdict =>
      rw [verdict]
      trivial
  | panicked p now here self verdict =>
      rw [verdict]
      exact d.mayPanic_of_panicked turn hgas hfits now here self verdict

/-- So every stake's callback so far has run to its end, if it had what it
needs. -/
theorem Deployment.settlesStake (run : d.Reaches events sys)
    (hunstake : ∀ ev ∈ events, UnstakeRuns ev) :
    ∀ c ∈ sys.chains, ∀ e ∈ c.trace, (mayPanic e = false → e.context.gasExhausted = false) →
      SumsFit host e → SettlesStake e := by
  have hevents : ∀ ev ∈ events, (mayPanic ev.execution = false →
      ev.execution.context.gasExhausted = false) → SumsFit host ev.execution →
        SettlesStake ev.execution :=
    run.forall_event (Q := fun ev => (mayPanic ev.execution = false →
      ev.execution.context.gasExhausted = false) → SumsFit host ev.execution →
        SettlesStake ev.execution) (fun turn => d.settlesStake_turn turn) hunstake
  exact Platform.Run.forall_trace (by simp [Deployment.genesis]) run hevents

end Reaches

end LiquidStaking
