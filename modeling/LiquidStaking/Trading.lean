import LiquidStaking.Backing
import Mathlib.Algebra.Order.Field.Rat
import Mathlib.Data.Rat.Cast.Order
import Mathlib.Tactic.NormNum

/-!
# Trading against the pool

A coalition stakes and unstakes, one chain after the other, while no reward
comes in, no validator action fails and nobody else gives LST away.  Every
conversion rounds, and each at a rate that the previous rounding has already
moved; what bounds them all together are two quantities of the state:

* `outlay` — the NEAR at stake and the NEAR in the queue.  A trade adds to it
  what it stakes, and nothing else does.
* the rate, which no trade lowers: a chain on its own mints its quote in the
  state the quote was made in.

At the end the LST of everybody else are still there, and at the rate of the end
they are backed by at least the stake of the beginning.  So the queue grew by at
most what was staked (`trading_gains_nothing`).
-/

namespace LiquidStaking

open Checked PromiseChain ShareRate

section Definitions

variable {H : Type} [DecidableEq H] (host : Host H)

/-- A call by which somebody of the coalition stakes or unstakes.

Staking wNEAR comes in as a transfer of wNEAR to the pool, and unstaking as a
transfer call of LST to it. -/
def IsTrade (coalition : Set AccountId) (e : PoolExecution H) : Prop :=
  match e.task.actions with
  | [.call (.stake _) _ _] => e.context.predecessorAccountId ∈ coalition
  | [.call (.ftOnTransfer senderId _ _) _ _] => senderId ∈ coalition
  | [.call (.ftTransferCall receiverId _ _ _) _ _] =>
      receiverId = host.currentAccountId ∧ e.context.predecessorAccountId ∈ coalition
  | _ => False

/-- No validator action fails, and no reward is recognized.

Both would move the rate for reasons that are no trade's. -/
structure Quiet (e : PoolExecution H) : Prop where
  validator : validatorFails ⟨Chain.single e.task, e⟩ = false
  epoch_eq : e.after.statistics.lastEpochSynced = e.before.statistics.lastEpochSynced

instance : DecidablePred (Quiet (H := H)) := fun _ =>
  decidable_of_iff (_ ∧ _) ⟨fun h => ⟨h.1, h.2⟩, fun h => ⟨h.validator, h.epoch_eq⟩⟩

/-- The stake an execution mints. -/
def stakeMinted (e : PoolExecution H) : ℕ :=
  match e.verdict, e.task.mints with
  | .committed _ _, some (stakeAmount, _) => stakeAmount
  | _, _ => 0

/-- One trade: a call of the coalition, and its chain to the end.

Nobody outside the coalition ends up with less LST; that is all that is asked of
the others. -/
inductive Trade (coalition : Set AccountId) (s : LiquidStakingToken H) (now : ℕ) :
    List (PoolExecution H) → LiquidStakingToken H → ℕ → Prop
  /-- The call commits, its chain runs to its end, and both are quiet. -/
  | intro (e : PoolExecution H) (es : List (PoolExecution H)) (s' : LiquidStakingToken H)
      (now' : ℕ) (fires : (platform host).Fires ⟨s, [], now⟩ (Chain.single e.task) e)
      (accepted : (platform host).accepts e.context e.task = true)
      (commits : ∃ ret detached, e.verdict = .committed ret detached)
      (trade : IsTrade host coalition e)
      (completes : (platform host).Completes e.after e.context.epochHeight
        ((Chain.single e.task).resume e) es s' now')
      (quiet : ∀ e' ∈ e :: es, Quiet e')
      (idle : ∀ a ∉ coalition, s.token.ftBalanceOf a ≤ s'.token.ftBalanceOf a) :
      Trade coalition s now (e :: es) s' now'

/-- A sequence of trades, each complete before the next begins.

They may take any number of epochs, and stake and unstake in any order. -/
inductive Trades (coalition : Set AccountId) : LiquidStakingToken H → ℕ →
    List (PoolExecution H) → LiquidStakingToken H → ℕ → Prop
  /-- No trade. -/
  | nil (s : LiquidStakingToken H) (now : ℕ) : Trades coalition s now [] s now
  /-- One trade, and then the others. -/
  | cons {s s₁ s' : LiquidStakingToken H} {now now₁ now' : ℕ} {es es' : List (PoolExecution H)}
      (trade : Trade host coalition s now es s₁ now₁)
      (rest : Trades coalition s₁ now₁ es' s' now') :
      Trades coalition s now (es ++ es') s' now'

variable {host}

/-- The NEAR at stake, and the NEAR in the queue.

A trade that unstakes moves NEAR from the first into the second. -/
def LiquidStakingToken.outlay (s : LiquidStakingToken H) : ℕ :=
  s.statistics.totalStakedAmount +
    WithdrawalRequests.total Tranche.withdrawalAmount s.withdrawalRequests

/-- The NEAR an unstake has taken out of the stake and not queued yet.

It is queued by the callback, one receipt after the burn. -/
def Phase.unqueued : Phase H → ℕ
  | .unstaking u _ _ _ | .unstaked u _ _ => u.nearAmount
  | _ => 0

/-- The stake about to be minted. -/
def Phase.staking (p : Phase H) : ℕ := (p.minting.map Prod.fst).getD 0

/-- The chain may still mint.

Up to the mint the supply of a trade does not fall, and afterwards it does not
rise. -/
def Phase.early : Phase H → Bool
  | .unwrapping .. | .unwrapped .. | .batching .. => true
  | _ => false

/-- A chain of a trade, on its own in state `s`.

A stake about to be minted was quoted in this very state, since nobody else ran
in between. -/
structure Phase.Trading (s : LiquidStakingToken H) (p : Phase H) : Prop where
  attempt : p.attempt = none
  succeeded : p.validatorFailed = false
  quoted : ∀ o refundTo, p = .batching o refundTo → Quoted s o

end Definitions

/-! ## Each step of a trade -/

section Steps

variable {H : Type} {host : Host H} {env : Env} {s s' : LiquidStakingToken H}

variable [DecidableEq H]

omit [DecidableEq H] in
/-- An unstake takes out of the stake what it owes.

It owes the NEAR its LST are worth, rounded down. -/
theorem Unstakes.outlay_burn {message : UnstakeMessage} {s₁ : LiquidStakingToken H}
    {u : UnstakeOrder H} (h : Unstakes host env s message s₁ u) :
    (u.burn host s₁).outlay + u.nearAmount = s₁.outlay := by
  unfold LiquidStakingToken.outlay
  have hle := h.near_le
  simp only [UnstakeOrder.burn_statistics_totalStakedAmount,
    UnstakeOrder.burn_withdrawalRequests]
  omega

/-- What is appended to the queue is what it grows by. -/
theorem outlay_append {q : WithdrawalRequests H} {e amount : ℕ} {hash : H}
    (h : WithdrawalRequests.appendRequest s.withdrawalRequests e hash amount = .ok q) :
    (s.withQueue q).outlay = s.outlay + amount := by
  have htotal := (WithdrawalRequests.appendRequest_effect Tranches.additive_withdrawalAmount
    (fun t _ hzero => hzero) h).total_eq
  unfold LiquidStakingToken.outlay
  simp only [Tranche.new] at htotal
  simp only [LiquidStakingToken.withQueue_statistics,
    LiquidStakingToken.withQueue_withdrawalRequests]
  omega

/-- **What a receipt of a trade does to the outlay**: it stakes, or moves NEAR
from the stake into the queue.

A stake that failed would leave the outlay again, but in a trade no validator
action fails. -/
theorem Advance.outlay_le {p p' : Phase H} {side : List (Receipt H)}
    (h : Advance host env s p s' p' side) (hp : p.Trading s)
    (hquiet : s'.statistics.lastEpochSynced = s.statistics.lastEpochSynced) :
    s'.outlay + p'.unqueued ≤ s.outlay + p.unqueued + p.staking := by
  have hfailed := hp.succeeded
  have hattempt := hp.attempt
  cases h with
  | unwrapQuoted ok s₁ result o synced | unwrapRejected ok s₁ result synced =>
      obtain rfl := synced.eq_of_quiet hquiet
      exact le_rfl
  | @minted o =>
      show s.statistics.totalStakedAmount + o.stakeAmount + _ + 0 ≤ _ + 0 + o.stakeAmount
      unfold LiquidStakingToken.outlay
      simp only [StakeOrder.mint_withdrawalRequests]
      omega
  | @mintedRegistering o =>
      show s.statistics.totalStakedAmount + o.stakeAmount + _ + 0 ≤ _ + 0 + o.stakeAmount
      unfold LiquidStakingToken.outlay
      simp only [StakeOrder.mint_withdrawalRequests,
        LiquidStakingToken.registerIfNew_withdrawalRequests]
      omega
  -- In a trade no validator action fails.
  | rolledBack failed | undone failed =>
      rw [Phase.validatorFailed, failed] at hfailed
      cases hfailed
  | refused message _ t used burned resolved s₁ u _ _ unstakes =>
      have hsame := unstakes.synced_eq hquiet
      subst hsame
      exact (unstakes.outlay_burn).le
  | unstakeRequested message _ s₁ u _ _ unstakes =>
      have hsame := unstakes.synced_eq hquiet
      subst hsame
      exact (unstakes.outlay_burn).le
  | queued ok q appended => exact (outlay_append appended).le
  | paidNative | unpaidNative | paidWnear | unpaidWnear => cases hattempt
  | _ => exact Nat.le_add_right _ _

/-- Until the mint the supply does not fall. -/
theorem Advance.le_totalSupply {p p' : Phase H} {side : List (Receipt H)}
    (h : Advance host env s p s' p' side) (hearly : p.early = true) :
    s.token.totalSupply ≤ s'.token.totalSupply := by
  cases h with
  | unwrapQuoted ok s₁ result o synced | unwrapRejected ok s₁ result synced =>
      exact synced.totalSupply_le
  | minted => exact Nat.le_add_right _ _
  | @mintedRegistering o =>
      refine (registerIfNew_totalSupply s o.args.receiverId).ge.trans ?_
      exact Nat.le_add_right _ _
  | unwrapFailed => exact le_rfl
  | _ => cases hearly

/-- After the mint the supply does not rise, and nothing is minted any more. -/
theorem Advance.totalSupply_le {p p' : Phase H} {side : List (Receipt H)}
    (h : Advance host env s p s' p' side) (hp : p.Trading s) (hlate : p.early = false)
    (hescrow : s.token.Balanced)
    (hquiet : s'.statistics.lastEpochSynced = s.statistics.lastEpochSynced) :
    s'.token.totalSupply ≤ s.token.totalSupply ∧ p'.early = false := by
  have hfailed := hp.succeeded
  cases h with
  | unwrapFailed | unwrapQuoted | unwrapRejected | minted | mintedRegistering => cases hlate
  | @rolledBack m _ failed | undone failed =>
      rw [Phase.validatorFailed, failed] at hfailed
      cases hfailed
  | handedOver ok registered escrow | handedOverCall ok registered escrow =>
      refine ⟨(Nat.sub_add_cancel ?_).le, rfl⟩
      exact escrow.trans (hescrow.ftBalanceOf_le _)
  | nothingRefused message _ t used burned resolved | resolved t used burned resolved =>
      exact ⟨resolved.totalSupply_le, rfl⟩
  | refused message _ t used burned resolved s₁ u _ _ unstakes =>
      have hsame := unstakes.synced_eq hquiet
      subst hsame
      exact ⟨(Nat.sub_le _ _).trans resolved.totalSupply_le, rfl⟩
  | unstakeRequested message _ s₁ u _ _ unstakes =>
      have hsame := unstakes.synced_eq hquiet
      subst hsame
      exact ⟨Nat.sub_le _ _, rfl⟩
  | _ => exact ⟨le_rfl, rfl⟩

omit [DecidableEq H] in
/-- A stake minted where it was quoted buys at most its worth.

The quote is rounded down, in favour of those who hold LST already. -/
theorem Quoted.worth_le {o : StakeOrder} (h : Quoted s o) :
    s.statistics.totalStakedAmount * o.lstTokens ≤ o.stakeAmount * s.token.totalSupply ∨
      s.token.totalSupply = 0 := by
  rcases Nat.eq_zero_or_pos s.token.totalSupply with hnone | hsupply
  · exact .inr hnone
  rcases Nat.eq_zero_or_pos s.statistics.totalStakedAmount with hempty | hstake
  · left
    rw [hempty, zero_mul]
    exact Nat.zero_le _
  · exact .inl ((h.mint_iff hsupply hstake).mpr le_rfl)

/-- **No receipt of a trade lowers the rate.**

A mint is `Quoted.worth_le`, and a burn is rounded down likewise.  What is
burned for a sender who is gone raises the rate. -/
theorem Advance.rateLe_of_trading {p p' : Phase H} {side : List (Receipt H)}
    (h : Advance host env s p s' p' side) (hp : p.Trading s)
    (hsound : s.token.Sound [host.currentAccountId])
    (hsupply : 0 < s.token.totalSupply) : s.holdings.RateLe s'.holdings := by
  by_cases hbatch : ∃ o refundTo, p = .batching o refundTo
  · obtain ⟨o, refundTo, rfl⟩ := hbatch
    rcases (hp.quoted o refundTo rfl).worth_le with hworth | hnone
    · exact h.minted_rateLe_iff.mpr hworth
    · omega
  · push Not at hbatch
    exact h.rateLe hp.succeeded hbatch hsound.balanced
      (hsound.registered _ (List.mem_singleton.mpr rfl)) hsupply

/-- The chain of a trade stays one. -/
theorem Advance.trading {p p' : Phase H} {side : List (Receipt H)}
    (h : Advance host env s p s' p' side) : p'.Trading s' := by
  cases h with
  | unwrapQuoted ok s₁ result o synced quoted =>
      refine ⟨rfl, rfl, fun o' refundTo heq => ?_⟩
      obtain ⟨rfl, -⟩ := Phase.batching.inj heq
      exact quoted
  | @rolledBack m r => cases m.depositToken <;> exact ⟨rfl, rfl, fun _ _ heq => nomatch heq⟩
  | _ => exact ⟨rfl, rfl, fun _ _ heq => nomatch heq⟩

omit [DecidableEq H] in
/-- Where a receipt ends without a commit, the chain goes on in the same state. -/
theorem Phase.Trading.settle {p : Phase H} {r : PromiseResult} (h : p.Trading s)
    (hr : (p.settle r).validatorFailed = false) : (p.settle r).Trading s := by
  refine ⟨?_, hr, fun o refundTo heq => ?_⟩
  · have hnone := h.attempt
    cases p <;> first | rfl | cases hnone
  · cases p <;> cases heq

omit [DecidableEq H] in
/-- An answer or a panic takes nothing more out of the stake. -/
theorem Phase.unqueued_settle_le (p : Phase H) (r : PromiseResult) :
    (p.settle r).unqueued ≤ p.unqueued := by
  cases p <;> first | exact le_rfl | exact Nat.zero_le _

omit [DecidableEq H] in
/-- Once a chain cannot mint any more, no answer changes that. -/
theorem Phase.early_settle {p : Phase H} (r : PromiseResult) (h : p.early = false) :
    (p.settle r).early = false := by
  cases p <;> first | rfl | cases h

end Steps

/-! ## A whole chain, and a sequence of them -/

section Chains

variable {H : Type} [DecidableEq H] {host : Host H} {s s' : LiquidStakingToken H}
  {now now' : ℕ} {c : PoolChain H} {p : Phase H} {es : List (PoolExecution H)}

/-- What a stretch of a chain does that begins in phase `p` of state `s` and
stakes `staked`.

The supply is bounded only when nothing is minted any more. -/
structure Traded (host : Host H) (p : Phase H) (s s' : LiquidStakingToken H) (staked : ℕ) :
    Prop where
  wnearId_eq : s'.wnearId = s.wnearId
  sound : s'.token.Sound [host.currentAccountId]
  outlay_le : s'.outlay ≤ s.outlay + p.unqueued + staked
  supply_le : p.early = false → s'.token.totalSupply ≤ s.token.totalSupply
  rateLe : 0 < s.token.totalSupply → 0 < s'.token.totalSupply → s.holdings.RateLe s'.holdings

/-- What a receipt mints is what its phase was about to mint. -/
theorem Describes.stakeMinted_eq {wnear : AccountId} {e : PoolExecution H}
    {ret : Return H} {side : List (Receipt H)} (hnow : Describes host wnear c p)
    (htasks : ∃ rest, c.tasks = e.task :: rest) (hverdict : e.verdict = .committed ret side) :
    stakeMinted e = p.staking := by
  obtain ⟨rest, htasks⟩ := htasks
  have hmints := Phase.mints_eq (hnow.tasks_eq.symm.trans htasks)
  unfold stakeMinted Phase.staking
  rw [hverdict, hmints]
  cases p.minting <;> rfl

/-- A receipt that commits, and what follows it.

This is the step of the induction over a chain. -/
theorem Traded.advance {env : Env} {s₁ : LiquidStakingToken H} {p' : Phase H}
    {side : List (Receipt H)} {staked : ℕ} (h : Traded host p' s₁ s' staked)
    (hadvance : Advance host env s p s₁ p' side) (hp : p.Trading s)
    (hsound : s.token.Sound [host.currentAccountId])
    (hquiet : s₁.statistics.lastEpochSynced = s.statistics.lastEpochSynced) :
    Traded host p s s' (p.staking + staked) where
  wnearId_eq := h.wnearId_eq.trans hadvance.accounts_eq.1
  sound := h.sound
  outlay_le := by
    have hnow := hadvance.outlay_le hp hquiet
    have hlater := h.outlay_le
    omega
  supply_le hlate := by
    obtain ⟨hsupply, hlate'⟩ := hadvance.totalSupply_le hp hlate hsound.balanced hquiet
    exact (h.supply_le hlate').trans hsupply
  rateLe hsupply hsupply' := by
    -- In between there is LST: what was there before the mint, or what is left
    -- in the end.
    have hbetween : 0 < s₁.token.totalSupply := by
      cases hearly : p.early with
      | true => exact Nat.lt_of_lt_of_le hsupply (hadvance.le_totalSupply hearly)
      | false =>
          obtain ⟨-, hlate'⟩ := hadvance.totalSupply_le hp hearly hsound.balanced hquiet
          exact Nat.lt_of_lt_of_le hsupply' (h.supply_le hlate')
    exact (hadvance.rateLe_of_trading hp hsound hsupply).trans (h.rateLe hbetween hsupply')
      (Nat.zero_le _) hbetween (Nat.zero_le _)

omit [DecidableEq H] in
/-- A receipt that panics or runs elsewhere, and what follows it.

The state is the same, and the phase has no more to queue than before. -/
theorem Traded.settle {r : PromiseResult} {staked : ℕ}
    (h : Traded host (p.settle r) s s' staked) : Traded host p s s' staked where
  wnearId_eq := h.wnearId_eq
  sound := h.sound
  outlay_le := by
    have hsettle := p.unqueued_settle_le r
    have hlater := h.outlay_le
    omega
  supply_le hlate := h.supply_le (Phase.early_settle r hlate)
  rateLe := h.rateLe

omit [DecidableEq H] in
/-- A phase whose next receipt runs here has no validator action to wait for. -/
theorem Phase.settle_failed_succeeded (h : p.place host = .here) :
    (p.settle .failed).validatorFailed = false := by
  cases p <;> first | rfl | cases h

/-- An answer that is no failure of a validator action. -/
theorem Describes.settle_succeeded {wnear : AccountId} {e : PoolExecution H} {r : PromiseResult}
    (hnow : Describes host wnear c p) (htasks : ∃ rest, c.tasks = e.task :: rest)
    (hverdict : e.verdict = .answered r) (hquiet : Quiet e) :
    (p.settle r).validatorFailed = false := by
  obtain ⟨rest, htasks⟩ := htasks
  cases p with
  | restaking m amount key | unstaking u amount key k =>
      obtain ⟨htask, -⟩ := List.cons.inj (htasks.symm.trans hnow.tasks_eq)
      have hok := hquiet.validator
      simp only [validatorFails, hverdict, htask] at hok
      exact hok
  | _ => rfl

/-- **A chain of a trade**, to its end.

By induction over the receipts of the chain: what committed is `Traded.advance`,
and everything else `Traded.settle`. -/
theorem traded_of_completes (h : (platform host).Completes s now c es s' now')
    (hwnear : s.wnearId ≠ host.currentAccountId) (hnow : Describes host s.wnearId c p)
    (hp : p.Trading s) (hsound : s.token.Sound [host.currentAccountId])
    (hquiet : ∀ e ∈ es, Quiet e) : Traded host p s s' (es.map stakeMinted).sum := by
  -- On the receipts of the chain, with the phase it is in now.
  induction h generalizing p with
  | done => exact ⟨rfl, hsound, by omega, fun _ => le_rfl, fun _ _ => .refl _⟩
  | @fire s s' now now' c e es fires resumed rest ih =>
      have hbefore := fires.before_eq
      have hself : e.context.predecessorAccountId = host.currentAccountId := by
        simpa [platform] using resumed
      have hquietNow := hquiet e List.mem_cons_self
      have hquietRest := fun e' he' => hquiet e' (List.mem_cons_of_mem _ he')
      rw [List.map_cons, List.sum_cons]
      cases transition_of_inFlight hwnear hnow fires hself with
      | entered m p' side deposit gas fresh task_eq deposit_eq external =>
          exact absurd hself external
      | advanced p₀ p' side now₀ self advance next verdict =>
          obtain rfl := hnow.unique now₀
          obtain ⟨ret, hverdict⟩ := verdict
          dsimp only at hbefore
          rw [hbefore] at advance
          have hstill := advance.accounts_eq.1
          rw [hnow.stakeMinted_eq fires.tasks_eq hverdict]
          refine Traded.advance (ih (hstill ▸ hwnear) (hstill ▸ next) advance.trading
            (advance.sound hsound) hquietRest) advance hp hsound ?_
          rw [hquietNow.epoch_eq, hbefore]
      | panicked p₀ now₀ here self verdict same next =>
          obtain rfl := hnow.unique now₀
          have hsame : e.after = s := same.trans hbefore
          have hnone : stakeMinted e = 0 := by simp [stakeMinted, verdict]
          rw [hnone, Nat.zero_add]
          rw [hsame] at ih
          exact (ih hwnear next (hp.settle (Phase.settle_failed_succeeded here)) hsound
            hquietRest).settle
      | answered p₀ r now₀ away verdict same next =>
          obtain rfl := hnow.unique now₀
          have hsame : e.after = s := same.trans hbefore
          have hnone : stakeMinted e = 0 := by simp [stakeMinted, verdict]
          rw [hnone, Nat.zero_add]
          rw [hsame] at ih
          exact (ih hwnear next (hp.settle (hnow.settle_succeeded fires.tasks_eq verdict
            hquietNow)) hsound hquietRest).settle

/-- A call of a trade neither moves NEAR nor the rate. -/
theorem Entry.trade {e : PoolExecution H} {m : Method H} {side : List (Receipt H)}
    {deposit gas : ℕ} {coalition : Set AccountId}
    (h : Entry host e.context e.before m e.after p side)
    (htask : e.task.actions = [.call m deposit gas]) (htrade : IsTrade host coalition e)
    (hquiet : Quiet e) :
    e.after.outlay = e.before.outlay ∧ e.after.holdings = e.before.holdings ∧
      p.Trading e.after ∧ p.unqueued = 0 := by
  have hepoch := hquiet.epoch_eq
  unfold IsTrade at htrade
  rw [htask] at htrade
  generalize e.before = s, e.after = s' at h hepoch
  cases h with
  | stake args s₁ result o synced quoted =>
      obtain rfl := synced.eq_of_quiet hepoch
      refine ⟨rfl, rfl, ⟨rfl, rfl, fun o' refundTo heq => ?_⟩, rfl⟩
      obtain ⟨rfl, -⟩ := Phase.batching.inj heq
      exact quoted
  | book | transferCall => exact ⟨rfl, rfl, ⟨rfl, rfl, fun _ _ heq => nomatch heq⟩, rfl⟩
  | _ => exact htrade.elim

variable {coalition : Set AccountId}

/-- **One trade** adds at most its stake to the outlay, and leaves the rate at
least as high.

Its call quotes or burns, and its chain does the rest. -/
theorem Trade.traded (h : Trade host coalition s now es s' now')
    (hwnear : s.wnearId ≠ host.currentAccountId)
    (hsound : s.token.Sound [host.currentAccountId]) :
    s'.wnearId = s.wnearId ∧ s'.token.Sound [host.currentAccountId] ∧
      s'.outlay ≤ s.outlay + (es.map stakeMinted).sum ∧
      (0 < s.token.totalSupply → 0 < s'.token.totalSupply → s.holdings.RateLe s'.holdings) := by
  cases h with
  | intro e es s' now' fires accepted commits trade completes quiet =>
      have hbefore : e.before = s := fires.before_eq
      have hquiet := quiet e List.mem_cons_self
      have hrest := fun e' he' => quiet e' (List.mem_cons_of_mem _ he')
      cases transition_of_fresh rfl fires accepted commits with
      | entered m p side deposit gas fresh task_eq deposit_eq external entry next verdict =>
          obtain ⟨houtlay, hholdings, htrading, howed⟩ := entry.trade task_eq trade hquiet
          have hstill := entry.accounts_eq.1
          have hsound₁ : e.after.token.Sound [host.currentAccountId] := entry.sound
            (fun hpool => absurd (List.mem_singleton.mp hpool) external) (hbefore.symm ▸ hsound)
          rw [hbefore] at houtlay hholdings hstill
          obtain ⟨hwnear', hsound', hout, -, hrate⟩ := traded_of_completes completes
            (hstill.symm ▸ hwnear) (hstill.symm ▸ next) htrading hsound₁ hrest
          -- The call quotes, and the batch mints later.
          have hnone : stakeMinted e = 0 := by
            obtain ⟨ret, hverdict⟩ := verdict
            simp [stakeMinted, hverdict, entry.mints_eq task_eq]
          refine ⟨hwnear'.trans hstill, hsound', ?_, fun hsupply hsupply' => ?_⟩
          · rw [List.map_cons, List.sum_cons]
            omega
          · have hsame : e.after.token.totalSupply = s.token.totalSupply :=
              congrArg Holdings.shares hholdings
            rw [← hholdings]
            exact hrate (hsame ▸ hsupply) hsupply'
      | advanced p p' side now₀ self =>
          have hext := accepts_eq_true accepted
          obtain ⟨m, deposit, gas, -, -, hexternal, -⟩ := hext
          exact absurd self hexternal
      | panicked p now₀ here self =>
          obtain ⟨m, deposit, gas, -, -, hexternal, -⟩ := accepts_eq_true accepted
          exact absurd self hexternal
      | answered p r now₀ away verdict =>
          obtain ⟨ret, detached, hverdict⟩ := commits
          rw [hverdict] at verdict
          cases verdict

omit [DecidableEq H] in
/-- Whoever is no part of the coalition holds at least as much as in `s₀`, where
the coalition held nothing: so the supply is at least as large.

The supply is the sum over all accounts, and each account is one or the other. -/
theorem totalSupply_le_of_idle {s₀ : LiquidStakingToken H} (hbalanced₀ : s₀.token.Balanced)
    (hbalanced : s.token.Balanced) (hnone : ∀ a ∈ coalition, s₀.token.ftBalanceOf a = 0)
    (hkept : ∀ a ∉ coalition, s₀.token.ftBalanceOf a ≤ s.token.ftBalanceOf a) :
    s₀.token.totalSupply ≤ s.token.totalSupply := by
  refine hbalanced₀.totalSupply_le hbalanced fun a => ?_
  by_cases ha : a ∈ coalition
  · rw [hnone a ha]
    exact Nat.zero_le _
  · exact hkept a ha

/-- **A sequence of trades** that set out from `s₀`.

The supply of `s₀` keeps every later supply positive, so the rates of
consecutive trades can be compared. -/
theorem Trades.traded {s₀ : LiquidStakingToken H} (h : Trades host coalition s now es s' now')
    (hwnear : s.wnearId ≠ host.currentAccountId)
    (hsound : s.token.Sound [host.currentAccountId]) (hbalanced₀ : s₀.token.Balanced)
    (hsupply₀ : 0 < s₀.token.totalSupply)
    (hnone : ∀ a ∈ coalition, s₀.token.ftBalanceOf a = 0)
    (hkept : ∀ a ∉ coalition, s₀.token.ftBalanceOf a ≤ s.token.ftBalanceOf a) :
    s'.outlay ≤ s.outlay + (es.map stakeMinted).sum ∧ s.holdings.RateLe s'.holdings ∧
      s₀.token.totalSupply ≤ s'.token.totalSupply := by
  induction h with
  | nil s now =>
      exact ⟨Nat.le_add_right _ _, .refl _,
        totalSupply_le_of_idle hbalanced₀ hsound.balanced hnone hkept⟩
  | @cons s s₁ s' now now₁ now' es es' trade rest ih =>
      have hkept₁ : ∀ a ∉ coalition, s₀.token.ftBalanceOf a ≤ s₁.token.ftBalanceOf a := by
        cases trade with
        | intro e es s' now' _ _ _ _ _ _ idle => exact fun a ha => (hkept a ha).trans (idle a ha)
      obtain ⟨hstill, hsound₁, hout₁, hrate₁⟩ := trade.traded hwnear hsound
      obtain ⟨hout, hrate, hsupply⟩ := ih (hstill.symm ▸ hwnear) hsound₁ hkept₁
      have hbefore := totalSupply_le_of_idle hbalanced₀ hsound.balanced hnone hkept
      have hbetween := totalSupply_le_of_idle hbalanced₀ hsound₁.balanced hnone hkept₁
      refine ⟨?_, ?_, hsupply⟩
      · rw [List.map_append, List.sum_append]
        omega
      · exact (hrate₁ (by omega) (by omega)).trans hrate (Nat.zero_le _)
          (Nat.lt_of_lt_of_le hsupply₀ hbetween) (Nat.zero_le _)

/-- **Trades are a stretch of a run**, whatever other chains wait meanwhile.

So what is said of trades is said of reachable systems. -/
theorem Trades.reaches {d : Deployment host} {events : List (PoolEvent H)} {sys : PoolSystem H}
    (run : d.Reaches events sys) (h : Trades host coalition sys.state sys.now es s' now') :
    ∃ events' chains, d.Reaches (events' ++ events) ⟨s', chains, now'⟩ ∧
      events'.map Event.execution = es.reverse := by
  generalize hs : sys.state = s, hnow : sys.now = now at h
  induction h generalizing events sys with
  | nil s now =>
      subst hs hnow
      exact ⟨[], _, run, rfl⟩
  | @cons s s₁ s' now now₁ now' es es' trade rest ih =>
      cases trade with
      | intro e es s₁ now₁ fires accepted commits _ completes =>
          have hstep := run.step (.enter e (fires.of_eq hs hnow) accepted commits)
          obtain ⟨events₁, chains₁, hrun₁, hevents₁⟩ := completes.run hstep
          obtain ⟨events₂, chains₂, hrun₂, hevents₂⟩ := ih hrun₁ rfl rfl
          refine ⟨events₂ ++ (events₁ ++ [⟨Chain.single e.task, e⟩]), chains₂, ?_, ?_⟩
          · simpa only [List.append_assoc, List.singleton_append] using hrun₂
          · simp only [List.map_append, hevents₁, hevents₂, List.map_cons, List.map_nil,
              List.reverse_append, List.reverse_cons]

end Chains

/-! ## One stake, and several -/

section Stakes

variable {H : Type} [DecidableEq H] {host : Host H} {env : Env} {s s' : LiquidStakingToken H}

/-- Stakes one after the other, each quoted in the state that the one before
left.

Between a stake and the next the holdings stay as they are, whatever else
changes. -/
inductive StakesInParts (host : Host H) : LiquidStakingToken H → List StakeOrder →
    LiquidStakingToken H → Prop
  /-- No stake. -/
  | nil (s : LiquidStakingToken H) : StakesInParts host s [] s
  /-- A stake is quoted and minted, and the next one finds the holdings that it
  left. -/
  | cons {env : Env} {s s₁ t s' : LiquidStakingToken H} {o : StakeOrder}
      {refundTo : Option AccountId} {p : Phase H} {side : List (Receipt H)} {os : List StakeOrder}
      (quoted : Quoted s o) (minted : Advance host env s (.batching o refundTo) s₁ p side)
      (idle : t.holdings = s₁.holdings) (rest : StakesInParts host t os s') :
      StakesInParts host s (o :: os) s'

/-- What a mint does to the holdings. -/
theorem Advance.minted_holdings {o : StakeOrder} {refundTo : Option AccountId} {p : Phase H}
    {side : List (Receipt H)} (h : Advance host env s (.batching o refundTo) s' p side) :
    s'.holdings = ⟨s.statistics.totalStakedAmount + o.stakeAmount,
      s.token.totalSupply + o.lstTokens⟩ := by
  cases h with
  | minted => rfl
  | mintedRegistering =>
      rw [← registerIfNew_totalSupply s o.args.receiverId]
      rfl

/-- All parts together, and the rate they leave.

By induction over the parts; a part that was quoted where it is minted keeps the
rate. -/
theorem StakesInParts.holdings_eq {os : List StakeOrder} (h : StakesInParts host s os s')
    (hsupply : 0 < s.token.totalSupply) :
    s'.holdings = ⟨s.statistics.totalStakedAmount + (os.map (·.stakeAmount)).sum,
        s.token.totalSupply + (os.map (·.lstTokens)).sum⟩ ∧
      s.holdings.RateLe s'.holdings := by
  induction h with
  | nil => exact ⟨rfl, .refl _⟩
  | @cons env s s₁ t s' o refundTo p side os quoted minted idle rest ih =>
      have hstep := idle.trans minted.minted_holdings
      have hstake : t.statistics.totalStakedAmount =
          s.statistics.totalStakedAmount + o.stakeAmount := congrArg Holdings.assets hstep
      have hlst : t.token.totalSupply = s.token.totalSupply + o.lstTokens :=
        congrArg Holdings.shares hstep
      obtain ⟨hrest, hrate⟩ := ih (by omega)
      refine ⟨?_, ?_⟩
      · rw [hrest, hstake, hlst]
        simp only [List.map_cons, List.sum_cons, Nat.add_assoc]
      · rw [idle] at hrate
        rcases quoted.worth_le with hworth | hnone
        · refine (minted.minted_rateLe_iff.mpr hworth).trans hrate (Nat.zero_le _) ?_
            (Nat.zero_le _)
          rw [minted.minted_holdings]
          show 0 < s.token.totalSupply + o.lstTokens
          omega
        · omega

/-- **Several stakes** mint at most what one stake of all their NEAR would.

The rate at the end is at least the rate of the beginning, so the parts together
got no better price than that one. -/
theorem StakesInParts.lst_le {os : List StakeOrder} (h : StakesInParts host s os s')
    (hsupply : 0 < s.token.totalSupply) (hstake : 0 < s.statistics.totalStakedAmount) :
    (os.map (·.lstTokens)).sum ≤ s.lstFor (os.map (·.stakeAmount)).sum := by
  obtain ⟨hholdings, hrate⟩ := h.holdings_eq hsupply
  rw [hholdings] at hrate
  have hquote : s.lstFor (os.map (·.stakeAmount)).sum =
      (os.map (·.stakeAmount)).sum * s.token.totalSupply / s.statistics.totalStakedAmount :=
    if_neg (by omega)
  rw [hquote, le_floor_iff hstake]
  exact Holdings.rateLe_deposit_iff.mp hrate

/-- **A round trip** through the pool: the stake is given back, up to the price
of one LST and one yoctoNEAR.

The first rounding costs less than one LST, the second less than one yoctoNEAR.
Neither is ever in favour of the one who trades. -/
theorem Quoted.round_trip {env' : Env} {s₁ t t₁ : LiquidStakingToken H} {o : StakeOrder}
    {refundTo : Option AccountId} {p : Phase H} {side : List (Receipt H)}
    {message : UnstakeMessage} {u : UnstakeOrder H} (quoted : Quoted s o)
    (minted : Advance host env s (.batching o refundTo) s₁ p side)
    (idle : t.holdings = s₁.holdings) (unstakes : Unstakes host env' t message t₁ u)
    (hquiet : t₁.statistics.lastEpochSynced = t.statistics.lastEpochSynced)
    (hall : u.lstAmount = o.lstTokens) (hsupply : 0 < s.token.totalSupply)
    (hstake : 0 < s.statistics.totalStakedAmount) :
    (o.stakeAmount : ℚ) - s.statistics.totalStakedAmount / s.token.totalSupply - 1 <
        u.nearAmount ∧ u.nearAmount ≤ o.stakeAmount := by
  have hsame := unstakes.synced_eq hquiet
  subst hsame
  have hholdings := idle.trans minted.minted_holdings
  have hnewStake : t₁.statistics.totalStakedAmount =
      s.statistics.totalStakedAmount + o.stakeAmount := congrArg Holdings.assets hholdings
  have hnewSupply : t₁.token.totalSupply = s.token.totalSupply + o.lstTokens :=
    congrArg Holdings.shares hholdings
  have hlst : o.lstTokens =
      o.stakeAmount * s.token.totalSupply / s.statistics.totalStakedAmount :=
    quoted.lst_eq.trans (if_neg (by omega))
  have hnear : u.nearAmount = o.lstTokens * (s.statistics.totalStakedAmount + o.stakeAmount) /
      (s.token.totalSupply + o.lstTokens) := by
    rw [unstakes.near_eq, LiquidStakingToken.nearFor, hall, hnewStake, hnewSupply]
  have hshares : (0 : ℚ) < s.token.totalSupply := by exact_mod_cast hsupply
  have hnew : (0 : ℚ) < s.token.totalSupply + o.lstTokens := by positivity
  -- The stake is a deposit, and its LST are worth it, up to one LST.
  let pool : Holdings ℚ := ⟨s.statistics.totalStakedAmount, s.token.totalSupply⟩
  let worth : ℚ := (pool.deposit o.stakeAmount o.lstTokens).worth o.lstTokens
  have hle : worth ≤ o.stakeAmount := by
    have hbought := Nat.mul_div_le (o.stakeAmount * s.token.totalSupply)
      s.statistics.totalStakedAmount
    rw [← hlst] at hbought
    have hcast : (s.statistics.totalStakedAmount : ℚ) * o.lstTokens ≤
        o.stakeAmount * s.token.totalSupply := by exact_mod_cast hbought
    exact worth_deposit_le (p := pool) hnew hcast
  have hlt : (o.stakeAmount : ℚ) - s.statistics.totalStakedAmount / s.token.totalSupply <
      worth := by
    have hshort := Nat.lt_mul_div_succ (o.stakeAmount * s.token.totalSupply) hstake
    rw [← hlst] at hshort
    have hcast : (o.stakeAmount : ℚ) * s.token.totalSupply <
        s.statistics.totalStakedAmount * (o.lstTokens + 1) := by exact_mod_cast hshort
    exact lt_worth_deposit (p := pool) (Nat.cast_nonneg _) hshares (Nat.cast_nonneg _) hcast
  -- What is paid is that worth, rounded down.
  have hpaid : (u.nearAmount : ℚ) ≤ worth := by
    have hfloor := Nat.div_mul_le_self
      (o.lstTokens * (s.statistics.totalStakedAmount + o.stakeAmount))
      (s.token.totalSupply + o.lstTokens)
    rw [← hnear] at hfloor
    refine (le_div_iff₀ hnew).mpr ?_
    show (u.nearAmount : ℚ) * (s.token.totalSupply + o.lstTokens) ≤
      o.lstTokens * (s.statistics.totalStakedAmount + o.stakeAmount)
    exact_mod_cast hfloor
  have hkept : worth < u.nearAmount + 1 := by
    have hceil := Nat.lt_mul_div_succ
      (o.lstTokens * (s.statistics.totalStakedAmount + o.stakeAmount))
      (show 0 < s.token.totalSupply + o.lstTokens by omega)
    rw [← hnear, Nat.mul_comm (s.token.totalSupply + o.lstTokens)] at hceil
    refine (div_lt_iff₀ hnew).mpr ?_
    show (o.lstTokens : ℚ) * (s.statistics.totalStakedAmount + o.stakeAmount) <
      (u.nearAmount + 1) * (s.token.totalSupply + o.lstTokens)
    exact_mod_cast hceil
  constructor
  · linarith
  · exact_mod_cast hpaid.trans hle

/-- **Nobody gains by trading against the pool.** From a state whose stake
covers its supply, the NEAR that a sequence of trades by a coalition without LST
puts into the queue is at most what the trades staked, whether or not the
coalition keeps LST in the end; a stake unstaked at once comes back up to the
price of one LST and one yoctoNEAR; and several stakes mint at most what one
would.

For the first part, the outlay grows by at most what is staked.  At the end the
stake still backs the LST of those who did not trade, at a rate at least as high
as in the beginning; so it has not shrunk, and what the outlay gained bounds
what the queue gained. -/
theorem trading_gains_nothing (hwnear : s.wnearId ≠ host.currentAccountId)
    (hsound : s.token.Sound [host.currentAccountId]) (hsupply : 0 < s.token.totalSupply)
    (hbacked : s.token.totalSupply ≤ s.statistics.totalStakedAmount) :
    (∀ coalition now es s' now', Trades host coalition s now es s' now' →
      (∀ a ∈ coalition, s.token.ftBalanceOf a = 0) →
      WithdrawalRequests.total Tranche.withdrawalAmount s'.withdrawalRequests ≤
        WithdrawalRequests.total Tranche.withdrawalAmount s.withdrawalRequests +
          (es.map stakeMinted).sum) ∧
    (∀ env env' o refundTo s₁ p side t message t₁ u, Quoted s o →
      Advance host env s (.batching o refundTo) s₁ p side → t.holdings = s₁.holdings →
      Unstakes host env' t message t₁ u →
      t₁.statistics.lastEpochSynced = t.statistics.lastEpochSynced → u.lstAmount = o.lstTokens →
      (o.stakeAmount : ℚ) - s.statistics.totalStakedAmount / s.token.totalSupply - 1 <
          u.nearAmount ∧ u.nearAmount ≤ o.stakeAmount) ∧
    ∀ os s' lst, StakesInParts host s os s' →
      s.nearToLst (os.map (·.stakeAmount)).sum = .ok lst → (os.map (·.lstTokens)).sum ≤ lst := by
  have hstake : 0 < s.statistics.totalStakedAmount := Nat.lt_of_lt_of_le hsupply hbacked
  refine ⟨?_, ?_, ?_⟩
  · intro coalition now es s' now' htrades hnone
    obtain ⟨hout, hrate, hgrown⟩ := htrades.traded hwnear hsound hsound.balanced hsupply hnone
      fun _ _ => le_rfl
    -- As many LST as before, at a rate at least as high: at least as much
    -- stake.
    have hkept : s.statistics.totalStakedAmount ≤ s'.statistics.totalStakedAmount := by
      refine le_of_mul_le_mul_right ?_ hsupply
      exact (Nat.mul_le_mul_left _ hgrown).trans hrate
    unfold LiquidStakingToken.outlay at hout
    omega
  · intro env env' o refundTo s₁ p side t message t₁ u quoted minted idle unstakes hquiet hall
    exact quoted.round_trip minted idle unstakes hquiet hall hsupply hstake
  · intro os s' lst hparts hquote
    rw [LiquidStakingToken.nearToLst_eq_ok hquote]
    exact hparts.lst_le hsupply hstake

end Stakes

/-! ## A stake and an unstake -/

section Sample

/-- A stake of 150 for 100 LST of the treasury, and `alice` without LST. -/
private def sampleMarket : LiquidStakingToken UnstakeMessage :=
  { token := ⟨(∅ : Store AccountId ℕ).insert "alice" 0 |>.insert "pool" 0
      |>.insert "treasury" 100, 100⟩
    withdrawalRequests := ∅
    ownerId := "owner"
    wnearId := "wnear"
    treasuryId := "treasury"
    validatorPublicKey := "key"
    statistics := ⟨200, 150, 0, 0, 0, 1⟩ }

/-- A call of `alice`, and its chain while every answer is a success.

The chain has the system to itself. -/
private def sampleTrade (s : LiquidStakingToken UnstakeMessage) (m : Method UnstakeMessage)
    (deposit receipts : ℕ) :
    PoolExecution UnstakeMessage ×
      Option (List (PoolExecution UnstakeMessage) × LiquidStakingToken UnstakeMessage × ℕ) :=
  let e := (platform sampleHost).fireLocal ⟨s, [], 0⟩ (sampleEnv 150 50 0 "alice" deposit) none
    (.call "pool" m deposit 0)
  (e, (platform sampleHost).solo e.after 0 ((Chain.single e.task).resume e)
    (List.replicate receipts (sampleEnv 150 50 0 "pool" 0, .successful .empty)))

/-- The stake of 10 and the unstake of the 6 LST it buys. -/
private def sampleStaked := (sampleTrade sampleMarket
  (.stake ⟨"alice", none, none, false, none, none⟩) 10 4)

/-- The second of the two trades, from where the first ended. -/
private def sampleUnstaked := sampleTrade (sampleStaked.2.get rfl).2.1
  (.ftTransferCall "pool" 6 none "native") oneYocto 4

/-- Whoever has no account has nothing to give away. -/
private theorem sample_idle {s s' : LiquidStakingToken UnstakeMessage}
    (h : ∀ a ∈ s.token.accounts.keys, a = "alice" ∨
      s.token.ftBalanceOf a ≤ s'.token.ftBalanceOf a) :
    ∀ a ∉ ({"alice"} : Set AccountId), s.token.ftBalanceOf a ≤ s'.token.ftBalanceOf a := by
  intro a ha
  by_cases hmem : a ∈ s.token.accounts.keys
  · exact (h a hmem).resolve_left ha
  · have hnone : s.token.ftBalanceOf a = 0 := by
      unfold FungibleToken.ftBalanceOf
      rw [AList.lookup_eq_none.mpr hmem]
      rfl
    rw [hnone]
    exact Nat.zero_le _

/-- The stake is a trade. -/
private theorem sampleStaked_trade : Trade sampleHost {"alice"} sampleMarket 0
    (sampleStaked.1 :: (sampleStaked.2.get rfl).1) (sampleStaked.2.get rfl).2.1 0 := by
  exact .intro _ _ _ _ ⟨rfl, rfl, ⟨[], rfl⟩, ⟨rfl, rfl, rfl⟩, le_rfl⟩ rfl
    ⟨_, _, rfl⟩ rfl (Platform.solo_completes (Option.some_get (x := sampleStaked.2) rfl).symm)
    (by decide +kernel) (sample_idle (by decide +kernel))

/-- The unstake is a trade. -/
private theorem sampleUnstaked_trade : Trade sampleHost {"alice"} (sampleStaked.2.get rfl).2.1 0
    (sampleUnstaked.1 :: (sampleUnstaked.2.get rfl).1) (sampleUnstaked.2.get rfl).2.1 0 := by
  exact .intro _ _ _ _ ⟨rfl, rfl, ⟨[], rfl⟩, ⟨rfl, rfl, rfl⟩, le_rfl⟩ rfl
    ⟨_, _, rfl⟩ ⟨rfl, rfl⟩
    (Platform.solo_completes (Option.some_get (x := sampleUnstaked.2) rfl).symm)
    (by decide +kernel) (sample_idle (by decide +kernel))

/-- The stake of 10 puts 9 into the queue, and one stays with the treasury. -/
theorem trading_gains_nothing_sample :
    WithdrawalRequests.total Tranche.withdrawalAmount
        (sampleUnstaked.2.get rfl).2.1.withdrawalRequests = 9 ∧
      (sampleUnstaked.2.get rfl).2.1.statistics.totalStakedAmount = 151 ∧ 9 ≤ 10 := by
  refine ⟨by decide +kernel, by decide +kernel, ?_⟩
  have hwnear : sampleMarket.wnearId ≠ sampleHost.currentAccountId := by decide
  have hgained := (trading_gains_nothing hwnear
    ⟨rfl, List.forall_mem_singleton.mpr rfl⟩ (by decide) (by decide)).1
    {"alice"} 0 _ _ 0 (.cons sampleStaked_trade (.cons sampleUnstaked_trade (.nil _ _)))
    (fun a ha => by rw [Set.mem_singleton_iff.mp ha]; decide +kernel)
  exact hgained

end Sample

end LiquidStaking
