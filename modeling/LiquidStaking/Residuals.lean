import LiquidStaking.Delivery
import LiquidStaking.Returned

/-!
# Residuals are there

What a partial delivery brought back stays on the pool's wNEAR account until the
next attempt, as the residual of its tranche.  The account also pays the refunds
of wNEAR stakes, so a stake that reports more than it left would take somebody's
residual.

Two things that lie on the account besides the residuals of free tranches are
accounted for by the chains in flight.

* A delivery holds the residual of its tranche until wNEAR has answered, and
  then what came back (`Phase.deliveryHeld`).
* A stake holds what it left on the account until it is done, and then exactly
  that is taken back (`stakeHeld`), by `Deployment.Held.returned_eq`.
-/

namespace LiquidStaking

open Checked PromiseChain

section Definitions

variable {H : Type}

/-- The residuals of the free tranches. -/
def freeResidual (s : LiquidStakingToken H) : ℕ :=
  WithdrawalRequests.totalFree Tranche.wnearResidual s.withdrawalRequests

/-- The wNEAR on the pool's account that a delivery holds.

A transfer call that failed is written off, so nothing is expected back from it. -/
def Phase.deliveryHeld (host : Host H) : Phase H → ℕ
  | .deliveringNative a | .deliveredNative a _ | .deliveringWnear a => a.tranche.wnearResidual
  | .deliveredWnear a r =>
      match r, a.isCall host with
      | .successful v, true => a.amountToSend - v.u128.getD 0
      | .failed, false => a.tranche.wnearResidual
      | _, _ => 0
  | _ => 0

/-- The wNEAR on the pool's account that a stake in flight left there.

When it is done, the resolver of the transfer takes over. -/
def stakeHeld (wnear : AccountId) (c : PoolChain H) : ℤ :=
  match stakedWnear wnear c with
  | some amount => if c.tasks.isEmpty then 0 else wnearLeft wnear amount c
  | none => 0

/-- No callback of a wNEAR stake panics.

A panic would hand the resolver a failure, which it reads as all of the wNEAR
being unused. -/
def StakeCommits (wnear : AccountId) (ev : PoolEvent H) : Prop :=
  (stakedWnear wnear ev.chain).isSome = true → callbackPanicked ev.execution = false

instance (wnear : AccountId) (ev : PoolEvent H) : Decidable (StakeCommits wnear ev) :=
  inferInstanceAs (Decidable ((stakedWnear wnear ev.chain).isSome = true →
    callbackPanicked ev.execution = false))

end Definitions

/-! ## Residuals and deliveries -/

section Steps

variable {H : Type} [DecidableEq H] {host : Host H} {env : Env} {s s' : LiquidStakingToken H}
  {p p' : Phase H} {side : List (Receipt H)}

omit [DecidableEq H] in
/-- With the same queue there are the same residuals. -/
theorem freeResidual_eq (h : s'.withdrawalRequests = s.withdrawalRequests) :
    freeResidual s' = freeResidual s := by rw [freeResidual, freeResidual, h]

/-- The locked tranche of a withdrawal takes its residual along. -/
theorem freeResidual_lock {q : WithdrawalRequests H} {a : Attempt}
    (hswept : WithdrawalRequests.amountOfMaturedTranches s.withdrawalRequests env.epochHeight
      (a.hash host) = .ok (a.tranche.withdrawalAmount, q)) (hpos : 0 < a.tranche.withdrawalAmount)
    (hlocked : WithdrawalRequests.locksAt q (a.hash host) = [a.tranche]) :
    freeResidual (s.withQueue q) + a.tranche.wnearResidual = freeResidual s := by
  obtain ⟨-, t, -, heffect⟩ := WithdrawalRequests.amountOfMaturedTranches_effect hswept hpos
  have hresidual := heffect Tranches.additive_wnearResidual
  have hperm := hresidual.locks
  rw [hlocked] at hperm
  obtain rfl : a.tranche = t := by simpa using hperm
  exact hresidual.totalFree_eq

/-- A call from outside leaves the residuals alone, or locks the tranche it
delivers. -/
theorem Entry.freeResidual_eq {m : Method H} (h : Entry host env s m s' p side)
    (hforce : ∀ hash, m ≠ .forceReleaseLock hash) :
    freeResidual s' + p.deliveryHeld host = freeResidual s := by
  cases h with
  | withdrawNative a q native swept pos locked | withdrawWnear a q wrapped swept pos locked =>
      exact freeResidual_lock swept pos locked
  | forceRelease hash => exact absurd rfl (hforce hash)
  | stake args s₁ result o synced | pingIdle result s₁ synced | ping reward s₁ synced
  | setFee feeBps s₁ result admin yocto capped synced =>
      exact LiquidStaking.freeResidual_eq synced.queue_eq.1
  | setKey key s₁ result admin yocto synced =>
      exact LiquidStaking.freeResidual_eq synced.queue_eq.1
  | _ => rfl

/-- What is appended has no residual. -/
theorem freeResidual_append {q : WithdrawalRequests H} {hash : H} {amount : ℕ}
    (hfits : WithdrawalRequests.AllAt (fun _ t => t.wnearResidual ≤ t.withdrawalAmount)
      s.withdrawalRequests)
    (happend : WithdrawalRequests.appendRequest s.withdrawalRequests env.epochHeight hash amount =
      .ok q) : freeResidual (s.withQueue q) = freeResidual s := by
  have heffect := WithdrawalRequests.appendRequest_effect Tranches.additive_wnearResidual
    (fun t mem hzero => ?_) happend
  · exact heffect.totalFree_eq
  · obtain ⟨l, hl, hget⟩ := List.mem_filterMap.mp mem
    have hle := hfits hash l hl
    unfold Lock.get at hget
    split at hget
    · cases hget
    · obtain rfl := Option.some.inj hget
      omega

/-- A released lock gives the residual back. -/
theorem freeResidual_release (hqueue : QueueSound s) {a : Attempt}
    (hlocked : WithdrawalRequests.locksAt s.withdrawalRequests (a.hash host) = [a.tranche]) :
    freeResidual (s.withQueue (WithdrawalRequests.releaseLock s.withdrawalRequests
      (a.hash host)).1) = freeResidual s + a.tranche.wnearResidual := by
  obtain ⟨gain, heffect, rfl⟩ :=
    hqueue.oneLock.released_effect (f := Tranche.wnearResidual) (a.hash host)
  have hfree := heffect.totalFree_eq
  rw [hlocked] at hfree
  simpa [freeResidual] using hfree

omit [DecidableEq H] in
/-- What came back from a delivery is what it holds. -/
theorem Delivery.left_le {a : Attempt} {r : PromiseResult} {consumed : ℕ}
    (h : Delivery a.amountToSend (a.isCall host) r (some consumed)) :
    a.amountToSend - consumed ≤ (Phase.deliveredWnear a r : Phase H).deliveryHeld host := by
  unfold Phase.deliveryHeld
  generalize hconsumed : some consumed = x at h
  cases h with
  | sent v plain | writtenOff call =>
      obtain rfl := Option.some.inj hconsumed
      simp
  | reported v used call short parsed =>
      obtain rfl := Option.some.inj hconsumed
      simp only [call, parsed, Option.getD_some]
      omega
  | returned => cases hconsumed

/-- **A callback frees no residual** beyond what its delivery holds.

A settlement writes back what it reads from the result, and that is what wNEAR
has given back. -/
theorem Advance.freeResidual_le (h : Advance host env s p s' p' side) (hqueue : QueueSound s)
    (hfits : WithdrawalRequests.AllAt (fun _ t => t.wnearResidual ≤ t.withdrawalAmount)
      s.withdrawalRequests)
    (hlocked : ∀ a, p.attempt = some a →
      WithdrawalRequests.locksAt s.withdrawalRequests (a.hash host) = [a.tranche]) :
    freeResidual s' + p'.deliveryHeld host ≤ freeResidual s + p.deliveryHeld host := by
  cases h with
  | unwrapQuoted ok s₁ result o synced | unwrapRejected ok s₁ result synced =>
      exact (freeResidual_eq synced.queue_eq.1).le
  | refused message _ t used burned _ s₁ u _ _ unstakes
  | unstakeRequested message _ s₁ u _ _ unstakes =>
      obtain ⟨result, synced⟩ := unstakes.synced
      exact (freeResidual_eq (s := s) synced.queue_eq.1).le
  | queued ok q appended => exact (freeResidual_append hfits appended).le
  | @paidNative a r ok t locked =>
      have heffect := WithdrawalRequests.settled_effect (f := Tranche.wnearResidual)
        s.withdrawalRequests (a.hash host)
      exact le_add_right heffect.totalFree_eq.le
  | @unpaidNative a r failed => exact (freeResidual_release hqueue (hlocked a rfl)).le
  | @paidWnear a r consumed delivery t locked delivered delivered_eq claimed q q_eq =>
      -- The residual that stays is what wNEAR has given back, and the delivery
      -- held at least as much.
      have hleft := delivery.left_le
      split_ifs at q_eq with hzero
      · rw [q_eq]
        have heffect := WithdrawalRequests.settled_effect (f := Tranche.wnearResidual)
          s.withdrawalRequests (a.hash host)
        exact le_add_right heffect.totalFree_eq.le
      · rw [q_eq]
        have heffect := WithdrawalRequests.shrunk_effect (f := Tranche.wnearResidual)
          { t with
            withdrawalAmount := t.withdrawalAmount - delivered
            wnearResidual := a.amountToSend - consumed
            storageWasPaid := t.storageWasPaid || decide (0 < a.storageToPay) }
          (hqueue.oneLock.locksAt_eq locked)
        exact le_trans heffect.totalFree_eq.le (Nat.add_le_add_left hleft _)
  | @unpaidWnear a r delivery =>
      have hheld : (Phase.deliveredWnear a r : Phase H).deliveryHeld host =
          a.tranche.wnearResidual := by
        generalize hnone : (none : Option ℕ) = x at delivery
        cases delivery with
        | returned plain => simp [Phase.deliveryHeld, plain]
        | _ => cases hnone
      rw [hheld]
      exact (freeResidual_release hqueue (hlocked a rfl)).le
  | @rolledBack m => cases m.depositToken <;> exact le_refl _
  | _ => exact le_refl _

end Steps

/-! ## What the receipts of a delivery do on wNEAR -/

section Receipts

variable {H : Type} {host : Host H} {wnear : AccountId} {a : Attempt} {r : PromiseResult}

/-- An action that wNEAR has no balance to move for. -/
theorem Receipt.wnearGain_of_free {t : Receipt H} (hcall : t.callAmount = none)
    (hcost : t.wnearCost = 0) : t.wnearGain r = 0 := by
  unfold Receipt.wnearGain
  rw [hcall, hcost]
  cases r <;> rfl

/-- A delivery takes at most the residual off the account; what it wraps comes
on top. -/
theorem Attempt.batch_cost (wnear : AccountId) (hfits : a.Fits host) :
    (a.batch host wnear).wnearCost ≤ a.tranche.wnearResidual := by
  have hresidual := hfits.residual_le
  have hwrap : a.amountToNearDeposit = a.amountToSend - a.tranche.wnearResidual := rfl
  have hpays : ∀ b : Prop, [Decidable b] → (((if b then [Action.call (.storageDeposit
      (some a.args.receiverId) none) a.storageToPay storageDepositGas] else [] :
        List (Action H))).map Action.wnearCost).sum = 0 := fun b _ => by split_ifs <;> rfl
  have hwraps : (((if 0 < a.amountToNearDeposit then [Action.call .nearDeposit
      a.amountToNearDeposit nearDepositGas] else [] : List (Action H))).map
        Action.wnearCost).sum = -(a.amountToNearDeposit : ℤ) := by
    split_ifs with hpos
    · simp [Action.wnearCost]
    · rw [Nat.eq_zero_of_not_pos hpos]
      rfl
  unfold Receipt.wnearCost Attempt.batch LiquidStakingToken.deliveryActions
  simp only [List.map_append, List.sum_append, hpays, hwraps]
  cases a.isSelf host with
  | true =>
      simp only [if_true, List.map_nil, List.sum_nil]
      omega
  | false =>
      cases a.msg <;>
        simp only [Bool.false_eq_true, if_false, List.map_cons, List.map_nil, List.sum_cons,
          List.sum_nil, Action.wnearCost] <;>
        omega

/-- A delivery ends with a transfer call, or with none. -/
theorem Attempt.batch_callAmount (wnear : AccountId) :
    (a.batch host wnear).callAmount = if a.isCall host then some a.amountToSend else none := by
  unfold Receipt.callAmount Attempt.batch LiquidStakingToken.deliveryActions Attempt.isCall
  cases a.isSelf host with
  | true =>
      simp only [if_true, Bool.true_eq_false, and_false, if_false, List.append_nil, Bool.not_true,
        Bool.false_and, Bool.false_eq_true]
      split_ifs <;> rfl
  | false => cases a.msg <;> simp

/-- **What wNEAR answers to a delivery** leaves on the account what the delivery
holds.

The answer to a transfer call says what was used; the rest is back on the
account by then. -/
theorem Attempt.held_le_gain (wnear : AccountId) (hfits : a.Fits host) :
    ((Phase.deliveredWnear a r : Phase H).deliveryHeld host : ℤ) ≤
      a.tranche.wnearResidual + (a.batch host wnear).wnearGain r := by
  have hcost := a.batch_cost wnear hfits
  have hcall : (a.batch host wnear).callAmount =
      if a.isCall host then some a.amountToSend else none :=
    a.batch_callAmount wnear
  cases hcalls : a.isCall host with
  | true =>
      rw [hcalls, if_pos rfl] at hcall
      cases r <;> simp only [Phase.deliveryHeld, Receipt.wnearGain, hcalls, hcall] <;> omega
  | false =>
      rw [hcalls, if_neg (by simp)] at hcall
      cases r <;> simp only [Phase.deliveryHeld, Receipt.wnearGain, hcalls, hcall] <;> omega

end Receipts

/-! ## Runs -/

section Reaches

variable {H : Type} [DecidableEq H] {host : Host H} {d : Deployment host}
  {events : List (PoolEvent H)} {sys : PoolSystem H} {c : PoolChain H} {e : PoolExecution H}
  {p : Phase H} {r : PromiseResult} {w : WnearAccount H}

/-- Only stakes unwrap. -/
theorem Deployment.staked_of_unwrapping (run : d.Reaches events sys) :
    ∀ c ∈ sys.chains, ∀ p, Describes host d.wnearId c p →
      (∃ senderId amount args, p = .unwrapping senderId amount args) →
        (stakedWnear d.wnearId c).isSome = true := by
  have hgood : ∀ ev ∈ events, (fun _ : PoolEvent H => True) ev := fun _ _ => trivial
  refine d.forall_phase ?_ ?_ ?_ ?_ ?_ run hgood
  · rintro c receiver n - ⟨senderId, amount, args, h⟩
    cases h
  · rintro events s c e s₀ s₁ m p side turn fresh ⟨deposit, gas, htask⟩ rfl after entry
      ⟨senderId, amount, args, rfl⟩
    have hwnear := (d.phased turn.run).wnearId_eq
    rw [← turn.fires.before_eq] at hwnear
    generalize e.before = s₀ at entry hwnear
    cases entry with
    | book senderId amount msg args fromWnear room =>
        have htrace : (c.resume e).trace = [e] := by rw [Chain.resume_trace, fresh]; rfl
        unfold stakedWnear
        rw [htrace]
        simp [transferTaken, htask, fromWnear, hwnear]
  · rintro events s c e s₀ s₁ p p' side turn hnow - - - - advance ⟨senderId, amount, args, h⟩
    cases advance with
    | @rolledBack m => cases htoken : m.depositToken <;> rw [htoken] at h <;> cases h
    | _ => cases h
  · rintro events s c e p turn hnow - - - ⟨senderId, amount, args, h⟩
    cases p <;> cases h
  · rintro events s c e p r turn hnow - - - ⟨senderId, amount, args, h⟩
    cases p <;> cases h

/-- The chains of a run in which no stake callback panics. -/
theorem Deployment.callbacksCommit (run : d.Reaches events sys)
    (hcommit : ∀ ev ∈ events, StakeCommits d.wnearId ev) :
    ∀ c ∈ sys.chains, (stakedWnear d.wnearId c).isSome = true → CallbacksCommit c := by
  refine run.forall_chain (by simp [Deployment.genesis]) ?_ hcommit
  intro events s c e turn ih
  refine ⟨fun hstaked e' hmem => ?_, fun c' hspawned _ e' hmem => ?_⟩
  · rw [Chain.resume_trace] at hmem
    cases turn.origin with
    | fresh eq accepted commits =>
        obtain ⟨ret, detached, hverdict⟩ := commits
        rw [eq] at hmem
        obtain rfl := List.mem_singleton.mp hmem
        simp [callbackPanicked, hverdict]
    | inFlight mem resumed =>
        have hself : e.context.predecessorAccountId = host.currentAccountId := by
          simpa [platform] using resumed
        rw [stakedWnear_resume hself d.wnear_ne] at hstaked
        rcases List.mem_cons.mp hmem with rfl | hold
        · exact turn.now hstaked
        · exact ih c mem hstaked e' hold
  · rw [Execution.spawned_trace hspawned] at hmem
    cases hmem

/-- What the second part of the account asks of the events: no lock is released
by hand, wNEAR answers like a token ledger, and no callback of a stake panics. -/
structure KeepsResiduals (wnear : AccountId) (ev : PoolEvent H) : Prop where
  /-- A lock released by hand could be delivered again, with the same residual. -/
  unforced : Unforced ev
  /-- The contract takes an answer with a value for a failure. -/
  void : AnswersVoid wnear ev
  commits : StakeCommits wnear ev

/-- A stake books what it takes over, so that it is a `u128`. -/
theorem Deployment.staked_lt (run : d.Reaches events sys) :
    ∀ c ∈ sys.chains, ∀ amount, stakedWnear d.wnearId c = some amount → amount < 2 ^ 128 := by
  have htaken : ∀ ev ∈ events, ∀ amount,
      transferTaken d.wnearId ev.execution = some amount → amount < 2 ^ 128 := by
    refine run.forall_event (Q := fun ev => ∀ amount,
      transferTaken d.wnearId ev.execution = some amount → amount < 2 ^ 128) ?_
      fun _ _ => trivial
    intro events s c e (turn : d.Turn (fun _ => True) events s c e) amount htaken
    have hexternal : e.context.predecessorAccountId ≠ host.currentAccountId := fun hself => by
      rw [transferTaken_eq_none hself d.wnear_ne] at htaken
      cases htaken
    cases d.transition turn with
    | entered m p side deposit gas fresh task_eq deposit_eq external entry =>
        unfold transferTaken at htaken
        rw [task_eq] at htaken
        generalize e.after = s₁ at entry
        cases entry with
        | book senderId n msg args fromWnear room =>
            obtain ⟨-, hsame⟩ := Option.ite_none_right_eq_some.mp htaken
            obtain rfl := Option.some.inj hsame
            omega
        | _ => cases htaken
    | advanced p p' side now self => exact absurd self hexternal
    | panicked p now here self => exact absurd self hexternal
    | answered p r now => exact absurd (now.self turn.origin) hexternal
  have htraces := run.forall_trace (Q := fun e => ∀ amount,
    transferTaken d.wnearId e = some amount → amount < 2 ^ 128)
    (by simp [Deployment.genesis]) htaken
  intro c hmem amount hstaked
  obtain ⟨e, hlast, he⟩ := Option.bind_eq_some_iff.mp hstaked
  exact htraces c hmem e (List.mem_of_getLast? hlast) amount he

/-- **What a stake holds** is what it left, and is taken back when it is done. -/
theorem stakeHeld_eq {wnear : AccountId} {amount : ℕ} (hnow : Describes host wnear c p)
    (hreturns : Returns wnear c p) (hstaked : stakedWnear wnear c = some amount)
    (hroom : amount < 2 ^ 128) (hcommit : CallbacksCommit c) :
    stakeHeld wnear c + (takenBackBy wnear c).getD 0 = wnearLeft wnear amount c := by
  have hreturning := hreturns amount hstaked hcommit
  unfold stakeHeld takenBackBy
  rw [hstaked]
  by_cases hdone : c.tasks = []
  · have htasks := hnow.tasks_eq.symm.trans hdone
    rw [hdone]
    cases p with
    | continuing k r =>
        cases k with
        | finish =>
            obtain ⟨n, rfl, hle, -, hleft⟩ := hreturning
            have hinput : c.input = some (.successful (.ofU128 n)) := hnow.input_eq
            have hunused : FungibleToken.unusedAmount c.input amount = n := by
              rw [hinput, FungibleToken.unusedAmount_ofU128 (hle.trans_lt hroom)]
              exact Nat.min_eq_right hle
            simp only [List.isEmpty_nil, if_true, Option.map_some, hunused, Option.getD_some]
            omega
        | resolve | notify => cases htasks
    | _ => cases htasks
  · rw [List.isEmpty_eq_false_iff.mpr hdone]
    simp

omit [DecidableEq H] in
/-- A chain that is no wNEAR stake holds nothing as one. -/
theorem stakeHeld_of_none {wnear : AccountId} (h : stakedWnear wnear c = none) :
    stakeHeld wnear c = 0 ∧ (takenBackBy wnear c).getD 0 = 0 := by
  unfold stakeHeld takenBackBy
  rw [h]
  refine ⟨rfl, ?_⟩
  split_ifs <;> rfl

/-- A stake that goes on: one execution changes what it holds by what wNEAR
answered. -/
theorem Deployment.stakeHeld_resume
    (turn : d.Turn (KeepsResiduals d.wnearId) events sys c e)
    (hself : e.context.predecessorAccountId = host.currentAccountId)
    {amount : ℕ} (hstaked : stakedWnear d.wnearId c = some amount) (hmem : c ∈ sys.chains) :
    stakeHeld d.wnearId (c.resume e) + (takenBackBy d.wnearId (c.resume e)).getD 0 =
      stakeHeld d.wnearId c + answerGain d.wnearId e := by
  obtain ⟨sys', run', hmem', hgood'⟩ := turn.next
  have hstaked' : stakedWnear d.wnearId (c.resume e) = some amount := by
    rw [stakedWnear_resume hself d.wnear_ne, hstaked]
  obtain ⟨p, hnow⟩ := (d.phased turn.run).described c hmem
  obtain ⟨p', hnext⟩ := (d.phased run').described _ hmem'
  have hcommit := d.callbacksCommit run' (fun ev hev => (hgood' ev hev).commits) _ hmem'
    (by rw [hstaked']; rfl)
  have hbefore := stakeHeld_eq hnow
    (d.returns turn.run (fun ev hev => (turn.good ev hev).void) c hmem p hnow) hstaked
    (d.staked_lt turn.run c hmem amount hstaked) hcommit.of_resume.1
  have hafter := stakeHeld_eq hnext
    (d.returns run' (fun ev hev => (hgood' ev hev).void) _ hmem' p' hnext) hstaked'
    (d.staked_lt run' _ hmem' amount hstaked') hcommit
  obtain ⟨rest, htasks⟩ := turn.fires.tasks_eq
  have hnone : takenBackBy d.wnearId c = none := by
    unfold takenBackBy
    rw [htasks]
    rfl
  have hleft : wnearLeft d.wnearId amount (c.resume e) =
      wnearLeft d.wnearId amount c + answerGain d.wnearId e := by
    simp only [wnearLeft, Chain.resume_trace, List.map_cons, List.sum_cons]
    omega
  rw [hnone, Option.getD_none] at hbefore
  omega

omit [DecidableEq H] in
/-- wNEAR moves nothing for a receipt without token actions. -/
theorem answerGain_of_free {wnear : AccountId} (hcall : e.task.callAmount = none)
    (hcost : e.task.wnearCost = 0) : answerGain wnear e = 0 := by
  unfold answerGain
  cases e.verdict with
  | answered r => simp only [Receipt.wnearGain_of_free hcall hcost, ite_self]
  | committed | panicked => rfl

omit [DecidableEq H] in
/-- A stake delivers nothing. -/
theorem Phase.Returning.deliveryHeld_eq {amount back : ℕ} {failed : Bool} {left : ℤ}
    (h : p.Returning amount failed back left) (host : Host H) (r : PromiseResult) :
    p.deliveryHeld host = 0 ∧ (p.settle r).deliveryHeld host = 0 := by
  cases p with
  | deliveringNative | deliveredNative | deliveringWnear | deliveredWnear => exact h.elim
  | _ => exact ⟨rfl, rfl⟩

omit [DecidableEq H] in
/-- A panic here never adds to what a delivery holds. -/
theorem Phase.deliveryHeld_panicked (hhere : p.place host = .here) :
    (p.settle .failed).deliveryHeld host ≤ p.deliveryHeld host := by
  cases p <;> first | exact Nat.zero_le _ | cases hhere

/-- **An answer to a chain that is no stake** covers what its delivery holds
afterwards. -/
theorem Describes.held_le_gain {rest : List (Receipt H)} (hnow : Describes host d.wnearId c p)
    (htasks : c.tasks = e.task :: rest) (haway : p.place host = .away)
    (hverdict : e.verdict = .answered r)
    (hunwraps : ¬∃ senderId amount args, p = .unwrapping senderId amount args) :
    ((p.settle r).deliveryHeld host : ℤ) ≤ p.deliveryHeld host + answerGain d.wnearId e := by
  have hhead := htasks.symm.trans hnow.tasks_eq
  have hfree : e.task.callAmount = none → e.task.wnearCost = 0 →
      ((p.settle r).deliveryHeld host ≤ p.deliveryHeld host) →
        ((p.settle r).deliveryHeld host : ℤ) ≤ p.deliveryHeld host + answerGain d.wnearId e := by
    intro hcall hcost hle
    rw [answerGain_of_free hcall hcost]
    omega
  cases p with
  | deliveringWnear a =>
      obtain ⟨htask, -⟩ := List.cons.inj hhead
      have hgain : answerGain d.wnearId e = (a.batch host d.wnearId).wnearGain r := by
        simp only [answerGain, hverdict, htask]
        exact if_pos rfl
      rw [hgain]
      exact a.held_le_gain d.wnearId hnow.valid.2
  | unwrapping senderId amount args => exact absurd ⟨senderId, amount, args, rfl⟩ hunwraps
  | rewrapping n =>
      obtain ⟨htask, -⟩ := List.cons.inj hhead
      have hgain : 0 ≤ answerGain d.wnearId e := by
        simp only [answerGain, hverdict, htask, Receipt.call, Receipt.wnearGain,
          Receipt.callAmount, Receipt.wnearCost]
        cases r <;> simp [Action.wnearCost]
      simpa [Phase.settle, Phase.deliveryHeld] using hgain
  | continuing k r' => cases k <;> cases haway
  | sending | restaking | unstaking | deliveringNative | pinging | paying | stopping | addingKey =>
      obtain ⟨htask, -⟩ := List.cons.inj hhead
      refine hfree ?_ ?_ (le_refl _) <;> rw [htask] <;> rfl
  | _ => cases haway

/-- The wNEAR on the pool's account that a chain in flight accounts for. -/
def wnearHeld (host : Host H) (wnear : AccountId) (c : PoolChain H) : ℤ :=
  (carried host (Phase.deliveryHeld host) c : ℕ) + stakeHeld wnear c

/-- **One turn**: what becomes free and what its chain holds come out of what
was there and of what the event brought to the account.

By the kind of the chain: a stake, a delivery, or neither; each has its own
lemma above. -/
theorem Deployment.freeResidual_turn (turn : d.Turn (KeepsResiduals d.wnearId) events sys c e) :
    freeResidual e.after + wnearHeld host d.wnearId (c.resume e) ≤
      freeResidual e.before + wnearHeld host d.wnearId c + wnearFlow d.wnearId ⟨c, e⟩ := by
  unfold wnearHeld wnearFlow
  dsimp only
  have hbefore := turn.fires.before_eq
  -- The stakes: what is taken back is what a stake held.
  have hstakes : e.context.predecessorAccountId = host.currentAccountId → c ∈ sys.chains →
      stakeHeld d.wnearId (c.resume e) + (takenBackBy d.wnearId (c.resume e)).getD 0 =
        stakeHeld d.wnearId c +
          if (stakedWnear d.wnearId c).isSome then answerGain d.wnearId e else 0 := by
    intro hself hmem
    cases hstaked : stakedWnear d.wnearId c with
    | none =>
        have hnone := (stakedWnear_resume hself d.wnear_ne).trans hstaked
        rw [(stakeHeld_of_none hstaked).1, (stakeHeld_of_none hnone).1, (stakeHeld_of_none hnone).2]
        rfl
    | some amount => exact d.stakeHeld_resume turn hself hstaked hmem
  cases d.transition turn with
  | entered m p side deposit gas fresh task_eq deposit_eq external entry next verdict spawned =>
      obtain ⟨ret, hverdict⟩ := verdict
      have hanswered : ∀ r, e.verdict ≠ .answered r := fun r h => by rw [hverdict] at h; cases h
      obtain ⟨-, -, hgain⟩ := quiet_of_local d.wnearId hanswered
      have htrace : (c.resume e).trace = [e] := by rw [Chain.resume_trace, fresh]; rfl
      have hstaked : stakedWnear d.wnearId (c.resume e) = transferTaken d.wnearId e := by
        unfold stakedWnear
        rw [htrace]
        rfl
      have hnone : stakedWnear d.wnearId c = none := by rw [fresh]; rfl
      have hheld : stakeHeld d.wnearId (c.resume e) +
          (takenBackBy d.wnearId (c.resume e)).getD 0 = (transferTaken d.wnearId e).getD 0 := by
        cases htaken : transferTaken d.wnearId e with
        | none =>
            rw [(stakeHeld_of_none (hstaked.trans htaken)).1,
              (stakeHeld_of_none (hstaked.trans htaken)).2]
            rfl
        | some amount =>
            obtain ⟨sys', run', hmem', hgood'⟩ := turn.next
            have hreturns := d.returns run' (fun ev hev => (hgood' ev hev).void) _ hmem' p next
            rw [stakeHeld_eq next hreturns (hstaked.trans htaken)
              (d.staked_lt run' _ hmem' amount (hstaked.trans htaken))
              (d.callbacksCommit run' (fun ev hev => (hgood' ev hev).commits) _ hmem'
                (by rw [hstaked, htaken]; rfl))]
            unfold wnearLeft
            rw [htrace]
            simp [hgain]
      have hfree := entry.freeResidual_eq fun hash hforced => by
        have hunforced := turn.now.unforced
        simp only [Unforced, Receipt.releasesByHand, task_eq, hforced] at hunforced
        cases hunforced
      rw [next.carried_eq, fresh, carried_call _ task_eq, ← fresh, (stakeHeld_of_none hnone).1,
        hgain]
      omega
  | advanced p p' side now self advance next verdict spawned =>
      have hmem := now.mem turn.origin
      obtain ⟨ret, hverdict⟩ := verdict
      have hanswered : ∀ r, e.verdict ≠ .answered r := fun r h => by rw [hverdict] at h; cases h
      obtain ⟨-, -, hgain⟩ := quiet_of_local d.wnearId hanswered
      have hforce : ∀ ev ∈ events, Unforced ev := fun ev hev => (turn.good ev hev).unforced
      have hfree := advance.freeResidual_le (hbefore ▸ d.queueSound turn.run)
        (hbefore ▸ d.residual_le turn.run hforce)
        (fun a ha => hbefore ▸ d.locksAt_eq turn.run hforce hmem now ha)
      have hheld := hstakes self hmem
      rw [hgain, ite_self] at hheld
      rw [now.carried_eq, next.carried_eq, transferTaken_eq_none self d.wnear_ne, hgain]
      simp only [Option.getD_none]
      omega
  | panicked p now here self verdict same next spawned =>
      have hanswered : ∀ r, e.verdict ≠ .answered r := fun r h => by rw [verdict] at h; cases h
      obtain ⟨-, -, hgain⟩ := quiet_of_local d.wnearId hanswered
      have hheld := hstakes self (now.mem turn.origin)
      have hdelivery := Phase.deliveryHeld_panicked here
      rw [hgain, ite_self] at hheld
      rw [now.carried_eq, next.carried_eq, same, transferTaken_eq_none self d.wnear_ne, hgain]
      simp only [Option.getD_none]
      omega
  | answered p r now away verdict same next spawned =>
      have hmem := now.mem turn.origin
      have hself := now.self turn.origin
      have hheld := hstakes hself hmem
      obtain ⟨rest, htasks⟩ := turn.fires.tasks_eq
      rw [now.carried_eq, next.carried_eq, same, transferTaken_eq_none hself d.wnear_ne]
      simp only [Option.getD_none]
      -- The answer goes to the stake, or to the delivery of a chain that is
      -- none.
      cases hstaked : stakedWnear d.wnearId c with
      | some amount =>
          have hreturning := d.returns turn.run (fun ev hev => (turn.good ev hev).void) c hmem p now
            amount hstaked (d.callbacksCommit turn.run (fun ev hev => (turn.good ev hev).commits) c
              hmem (by rw [hstaked]; rfl))
          obtain ⟨hbefore', hafter⟩ := hreturning.deliveryHeld_eq host r
          rw [hstaked, Option.isSome_some, if_pos rfl] at hheld
          omega
      | none =>
          have hunwraps : ¬∃ senderId amount args, p = .unwrapping senderId amount args := by
            intro hunwraps
            have hsome := d.staked_of_unwrapping turn.run c hmem p now hunwraps
            rw [hstaked] at hsome
            cases hsome
          have hdelivery := now.held_le_gain htasks away verdict hunwraps
          rw [hstaked] at hheld
          simp only [Option.isSome_none, Bool.false_eq_true, if_false] at hheld
          omega

/-- **The account of a run**: what the events brought covers the residuals of
the free tranches and what the chains in flight hold. -/
theorem Deployment.residuals_le (run : d.Reaches events sys)
    (hgood : ∀ ev ∈ events, KeepsResiduals d.wnearId ev) :
    freeResidual sys.state + (sys.chains.map (wnearHeld host d.wnearId)).sum ≤
      (events.map (wnearFlow d.wnearId)).sum := by
  have hnone : ∀ c : PoolChain H, c.trace = [] → stakeHeld d.wnearId c = 0 := by
    intro c htrace
    refine (stakeHeld_of_none ?_).1
    unfold stakedWnear
    rw [htrace]
    rfl
  have hspawned : ∀ {events : List (PoolEvent H)} {sys : PoolSystem H} {c : PoolChain H}
      {e : PoolExecution H}, d.Turn (KeepsResiduals d.wnearId) events sys c e →
        (e.spawned.map fun c => -wnearHeld host d.wnearId c).sum = 0 := by
    intro events sys c e turn
    refine List.sum_eq_zero fun n hn => ?_
    obtain ⟨c', hc', rfl⟩ := List.mem_map.mp hn
    obtain ⟨receiver, amount, hpay⟩ := (d.transition turn).describes.2 c' hc'
    rw [wnearHeld, hpay.carried_eq, hnone c' (Execution.spawned_trace hc')]
    rfl
  -- The rule bounds a potential from above, so all terms are negated.
  have hledger := run.potential_le (Φ := fun s => -(freeResidual s : ℤ))
    (w := fun c => -wnearHeld host d.wnearId c) (g := wnearFlow d.wnearId)
    (fun haccepts => by
      rw [wnearHeld, carried_single _ haccepts, hnone _ rfl]
      rfl)
    (fun turn _ => by
      have hturn := d.freeResidual_turn turn
      rw [hspawned turn]
      omega)
    hgood
  have hinitial : freeResidual d.state = 0 := by
    unfold freeResidual
    rw [d.initial.queue_eq]
    rfl
  have hneg : (sys.chains.map fun c => -wnearHeld host d.wnearId c).sum =
      -(sys.chains.map (wnearHeld host d.wnearId)).sum := by
    rw [List.sum_neg, List.map_map]
    rfl
  simp only [Platform.Run.ledger, Deployment.genesis, List.map_nil, List.sum_nil, hneg,
    hinitial] at hledger
  omega

omit [DecidableEq H] in
/-- What is left of a stake is no debt. -/
theorem Phase.Returning.left_nonneg {amount back : ℕ} {failed : Bool} {left : ℤ}
    (h : p.Returning amount failed back left) : 0 ≤ left := by
  cases p with
  | unwrapping =>
      obtain ⟨-, -, -, rfl⟩ := h
      exact Int.natCast_nonneg _
  | unwrapped =>
      obtain ⟨-, -, -, rfl⟩ := h
      split_ifs <;> omega
  | batching | batched | restaking | restaked =>
      obtain ⟨-, -, -, -, rfl⟩ := h
      exact le_refl _
  | rewrapping | sending | unstaking | unstaked =>
      obtain ⟨-, -, -, rfl⟩ := h
      exact le_refl _
  | rewrapped =>
      obtain ⟨-, -, -, rfl⟩ := h
      exact Int.natCast_nonneg _
  | continuing k r =>
      cases k with
      | finish =>
          obtain ⟨n, -, -, -, rfl⟩ := h
          exact Int.natCast_nonneg _
      | notify =>
          obtain ⟨-, -, rfl⟩ := h
          exact le_refl _
      | resolve => exact h.elim
  | _ => exact h.elim

/-- What a stake in flight holds is what it is going to return. -/
theorem Deployment.stakeHeld_nonneg (run : d.Reaches events sys)
    (hgood : ∀ ev ∈ events, KeepsResiduals d.wnearId ev) (hmem : c ∈ sys.chains) :
    0 ≤ stakeHeld d.wnearId c := by
  cases hstaked : stakedWnear d.wnearId c with
  | none => rw [(stakeHeld_of_none hstaked).1]
  | some amount =>
      obtain ⟨p, hnow⟩ := (d.phased run).described c hmem
      have hreturning := d.returns run (fun ev hev => (hgood ev hev).void) c hmem p hnow amount
        hstaked (d.callbacksCommit run (fun ev hev => (hgood ev hev).commits) c hmem
          (by rw [hstaked]; rfl))
      unfold stakeHeld
      rw [hstaked]
      dsimp only
      split_ifs
      · exact le_refl _
      · exact hreturning.left_nonneg

omit [DecidableEq H] in
/-- The minting batch takes no wNEAR. -/
theorem StakeOrder.batch_cost (o : StakeOrder) (refundTo : Option AccountId) :
    (o.batch host refundTo : Receipt H).wnearCost = 0 := by
  unfold Receipt.wnearCost StakeOrder.batch
  cases o.depositToken <;> cases o.args.isStorageDeposit <;> rfl

/-- What a chain waits to send is on the account for it. -/
theorem Deployment.headCost_le (run : d.Reaches events sys)
    (hgood : ∀ ev ∈ events, KeepsResiduals d.wnearId ev) :
    ∀ c ∈ sys.chains, headCost c ≤ wnearHeld host d.wnearId c := by
  intro c hmem
  obtain ⟨p, hnow⟩ := (d.phased run).described c hmem
  have hstake := d.stakeHeld_nonneg run hgood hmem
  have hheld : wnearHeld host d.wnearId c = p.deliveryHeld host + stakeHeld d.wnearId c := by
    rw [wnearHeld, hnow.carried_eq]
  have hhead : headCost c = (p.tasks host d.wnearId).head?.elim 0 fun t => max t.wnearCost 0 := by
    rw [headCost, hnow.tasks_eq]
  have hzero : headCost c = 0 → headCost c ≤ wnearHeld host d.wnearId c := by
    intro h
    omega
  cases p with
  | deliveringWnear a =>
      have hcost := a.batch_cost d.wnearId hnow.valid.2
      have hcost' : headCost c = max (a.batch host d.wnearId).wnearCost 0 := hhead
      have hheld' : (Phase.deliveringWnear a : Phase H).deliveryHeld host =
        a.tranche.wnearResidual := rfl
      omega
  | unwrapping senderId amount args =>
      -- Only a transfer of wNEAR to the pool leads to an unwrapping, and it has
      -- brought the wNEAR.
      have hsome := d.staked_of_unwrapping run c hmem _ hnow ⟨senderId, amount, args, rfl⟩
      obtain ⟨n, hstaked⟩ := Option.isSome_iff_exists.mp hsome
      obtain ⟨rfl, -, -, hleft⟩ := d.returns run (fun ev hev => (hgood ev hev).void) c hmem _ hnow n
        hstaked (d.callbacksCommit run (fun ev hev => (hgood ev hev).commits) c hmem hsome)
      have hcost : headCost c = amount := by
        rw [hhead]
        simp [Phase.tasks, Receipt.call, Receipt.wnearCost, Action.wnearCost]
      have hamount : stakeHeld d.wnearId c = amount := by
        unfold stakeHeld
        rw [hstaked, hnow.tasks_eq]
        exact hleft
      omega
  | rewrapping n =>
      refine hzero (hhead.trans ?_)
      simp [Phase.tasks, Receipt.call, Receipt.wnearCost, Action.wnearCost]
  | batching o refundTo =>
      refine hzero (hhead.trans ?_)
      simp [Phase.tasks, o.batch_cost]
  | continuing k r =>
      refine hzero (hhead.trans ?_)
      cases k <;> rfl
  | _ => exact hzero hhead

/-- **Refunds never touch residuals.**  A wNEAR stake all of whose callbacks
commit returns exactly what it left on the pool's account or put back on it: the
deposit if the unwrap failed, and otherwise what was wrapped again, if anything.
As long as no callback of a stake panics and no lock is released by hand, the
account covers the residuals of all free tranches.

The wNEAR contract is not modelled by its code: `Held` asks of it what NEP-141
says of a token ledger, that its methods return nothing but the transfer calls,
and that a resolver takes back at most what is reported unused.  What locked
tranches hold is with their deliveries, on their way or on the account. -/
theorem Deployment.Held.residuals_covered (h : d.Held events sys w) :
    (∀ c ∈ sys.chains, ∀ amount, stakedWnear d.wnearId c = some amount → c.tasks = [] →
      CallbacksCommit c →
        c.input = some (.successful (.ofU128 (wnearReturned amount c))) ∧
          (wnearReturned amount c : ℤ) = wnearLeft d.wnearId amount c) ∧
      ((∀ ev ∈ events, Unforced ev) → (∀ ev ∈ events, StakeCommits d.wnearId ev) →
        WithdrawalRequests.totalFree Tranche.wnearResidual sys.state.withdrawalRequests ≤
          w.balance) := by
  refine ⟨fun c hmem amount hstaked hdone hcommit => h.returned_eq hmem hstaked hdone hcommit,
    fun hforce hcommits => ?_⟩
  have hgood : ∀ ev ∈ events, KeepsResiduals d.wnearId ev := fun ev hev =>
    ⟨hforce ev hev, h.answersVoid ev hev, hcommits ev hev⟩
  have hresiduals := d.residuals_le h.reaches hgood
  have hflow := h.flow_le
  have hcalls := h.callsWait.sum_le
  have hheads : (sys.chains.map headCost).sum ≤
      (sys.chains.map (wnearHeld host d.wnearId)).sum :=
    List.sum_le_sum (d.headCost_le h.reaches hgood)
  have hfree : freeResidual sys.state = WithdrawalRequests.totalFree Tranche.wnearResidual
    sys.state.withdrawalRequests := rfl
  unfold WnearAccount.free at hflow
  omega

/-! ### A sample run -/

private def sampleCaller : UnstakeMessage := ⟨"bob", .wnear false (some "spend") none none⟩

private def sampleCallerHost : Host UnstakeMessage :=
  { sampleHost with parseUnstakeMessage := fun _ => some sampleCaller }

private def sampleCallerPool : Deployment sampleCallerHost where
  env := samplePool.env
  ownerId := "owner"
  wnearId := "wnear"
  treasuryId := "treasury"
  validatorPublicKey := "key"
  state := samplePool.state
  created := rfl
  wnear_ne := by decide

/-- `bob` uses 30 of 40 yoctoNEAR; then `alice` stakes 5 wNEAR, and the unwrap
fails. -/
private def sampleResidual : List (HeldMove UnstakeMessage) :=
  let env := sampleEnv 60 1010 5 "pool" 0
  let batch : Receipt UnstakeMessage := ⟨"wnear", [.call .nearDeposit 40 nearDepositGas,
    .call (.ftTransferCall "bob" 40 none "spend") oneYocto ftTransferCallGasMin], none⟩
  (sampleUnstake "").map .run ++
    [.run (.enter (sampleEnv 60 1040 4 "bob" 0) (.call "pool" (.withdraw sampleCaller) 0 0)),
      .act (.call batch), .run (.answer 1 env (.successful (.ofU128 30))), .run (.fire 1 env),
      .act (.receive 5),
      .run (.enter (sampleEnv 60 1010 5 "wnear" 0)
        (.call "pool" (.ftOnTransfer "alice" 5 "") 0 0)),
      .run (.answer 2 env .failed), .run (.fire 2 env), .act (.resolve 5)]

/-- The stake returns its 5 wNEAR, and the other 10 on the account are the
residual of `bob`. -/
theorem Deployment.residuals_covered_sample :
    (∃ c ∈ (sampleCallerPool.held 0 sampleResidual rfl).2.1.chains,
      stakedWnear "wnear" c = some 5 ∧ c.input = some (.successful (.ofU128 5))) ∧
      10 ≤ (sampleCallerPool.held 0 sampleResidual rfl).2.2.balance := by
  obtain ⟨hreturned, hcovered⟩ :=
    (sampleCallerPool.held_run 0 sampleResidual rfl).residuals_covered
  have hstake : ∃ c ∈ (sampleCallerPool.held 0 sampleResidual rfl).2.1.chains,
      stakedWnear "wnear" c = some 5 ∧ c.tasks = [] ∧
        (∀ e ∈ c.trace, callbackPanicked e = false) ∧ wnearReturned 5 c = 5 := by
    decide +kernel
  obtain ⟨c, hmem, hstaked, hdone, hcommit, hfive⟩ := hstake
  refine ⟨⟨c, hmem, hstaked, ?_⟩, ?_⟩
  · rw [(hreturned c hmem 5 hstaked hdone hcommit).1, hfive]
  · have hresidual : WithdrawalRequests.totalFree Tranche.wnearResidual
        (sampleCallerPool.held 0 sampleResidual rfl).2.1.state.withdrawalRequests = 10 := by
      decide +kernel
    rw [← hresidual]
    exact hcovered (by decide +kernel) (by decide +kernel)

end Reaches

end LiquidStaking
