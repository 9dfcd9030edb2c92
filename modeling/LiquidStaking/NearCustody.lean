import LiquidStaking.Claimable
import LiquidStaking.Whereabouts

/-!
# NEAR custody

NEAR goes from the pool to another account in the receipts that run there: as a
payment, or as the deposit attached to a call of the wNEAR contract.  `Due`
lists what such a receipt can be, each time with the call that asked for it: a
matured claim paid or wrapped for the receiver of its message, a native stake
paid back to its sender after the validator action failed, a wNEAR stake
unwrapped, or wrapped again when it was given up, and the change of a storage
call.  `Deployment.near_custody` says that there is nothing else, whatever the
chains of a run do in between.

* `Claims` — the withdrawal behind a claim, and that everything it locked had
  matured.
* `GivesUp` — the callback that gave a stake up, and what it took back for it.
* `Phase.PaysFor` — the invariant.  It follows a chain from the call that
  started it: what its phase may still pay out is bounded by what that call
  brought.

A wrapped claim carries one yoctoNEAR more than the claim, which wNEAR asks for
with a transfer.
-/

namespace LiquidStaking

open PromiseChain

section Definitions

variable {H : Type}

/-- The receipt is a payment, or wraps NEAR. -/
def Receipt.givesBack (t : Receipt H) : Bool :=
  match t.actions with
  | [.transfer _] | [.call .nearDeposit _ _] => true
  | _ => false

/-- Nothing in the trace has given NEAR back. -/
def NothingBack (trace : List (PoolExecution H)) : Prop :=
  ∀ e ∈ trace, e.task.givesBack = false

variable (host : Host H) (wnear : AccountId)

/-- The execution is the call that asks for the stake, and comes from the wNEAR
contract if wNEAR is to be staked. -/
structure Asks (e : PoolExecution H) (q : StakeRequest) : Prop where
  requests : Requests host e q
  source : q.token = .wnear → e.context.predecessorAccountId = wnear

/-- The execution gives up the stake `q`, of which `amount` goes back. -/
inductive GivesUp (q : StakeRequest) (amount : ℕ) (e : PoolExecution H) : Prop
  /-- The unwrapped NEAR is not accepted for a stake, and is booked out again. -/
  | rejected (wrapped : q.token = .wnear) (amount_eq : amount = q.deposit)
      (task : e.task = .call host.currentAccountId
        (.onNearWithdraw q.senderId q.deposit q.args) 0 (stakeGas q.args))
      (booked : e.after.statistics.latestTotalBalance + amount =
        e.before.statistics.latestTotalBalance + rewardIn e.context 0 e.before e.after)
  /-- The batch that was to mint has failed. -/
  | unminted (wrapped : q.token = .wnear) (amount_eq : amount = q.deposit) (o : StakeOrder)
      (task : e.task = o.restakeCall host)
      (order : q = ⟨o.senderId, o.depositAmount, o.args, o.depositToken⟩)
      (failed : ∃ r, e.input = some r ∧ resultOk r = false)
      (booked : e.after.statistics.latestTotalBalance + amount =
        e.before.statistics.latestTotalBalance)
  /-- The validator action has failed: the minted LST are burned again, and the
  stake is taken off the books. -/
  | rolledBack (m : MintedStake) (amount_eq : amount = m.stakeAmount)
      (task : e.task = m.settleCall host)
      (stake : q = ⟨m.senderId, q.deposit, m.args, m.depositToken⟩)
      (failed : ∃ r, e.input = some r ∧ resultOk r = false)
      (burned : e.after.token.totalSupply + m.lstTokens = e.before.token.totalSupply)
      (unstaked : e.after.statistics.totalStakedAmount + amount =
        e.before.statistics.totalStakedAmount)

/-- The chain consists of a withdrawal for the message of the attempt, which
took everything that had matured for it and locked it as the attempt's tranche. -/
structure Claims [DecidableEq H] (a : Attempt) (trace : List (PoolExecution H))
    (e₀ : PoolExecution H) : Prop where
  trace_eq : trace = [e₀]
  withdraws : e₀.task.Withdraws a.args
  /-- What is paid out can be claimed when the withdrawal runs … -/
  amount_eq : a.tranche.withdrawalAmount =
    WithdrawalRequests.claimable e₀.before.withdrawalRequests e₀.context.epochHeight (a.hash host)
  /-- … which is only what has matured by then. -/
  matured : a.tranche.isMatured e₀.context.epochHeight = true
  locked : WithdrawalRequests.locksAt e₀.after.withdrawalRequests (a.hash host) = [a.tranche]

variable [DecidableEq H]

/-- What a chain started by `e₀` may still give back, by its phase.

The phases that pay nothing any more have no condition. -/
def Phase.PaysFor (e₀ : PoolExecution H) (trace : List (PoolExecution H)) : Phase H → Prop
  | .unwrapping senderId amount args | .unwrapped senderId amount args _ =>
      Asks host wnear e₀ ⟨senderId, amount, args, .wnear⟩ ∧ NothingBack trace
  | .batching o _ | .batched o _ =>
      Asks host wnear e₀ ⟨o.senderId, o.depositAmount, o.args, o.depositToken⟩ ∧
        o.stakeAmount ≤ o.depositAmount ∧ NothingBack trace
  | .restaking m _ _ | .restaked m _ =>
      ∃ deposit, Asks host wnear e₀ ⟨m.senderId, deposit, m.args, m.depositToken⟩ ∧
        m.stakeAmount ≤ deposit ∧ NothingBack trace
  | .rewrapping amount =>
      ∃ q, Asks host wnear e₀ q ∧ q.token = .wnear ∧ amount ≤ q.deposit ∧ NothingBack trace ∧
        ∃ e, trace.head? = some e ∧ GivesUp host q amount e
  | .paying receiver amount =>
      ∃ q, Asks host wnear e₀ q ∧ q.token = .native ∧ receiver = q.senderId ∧
        amount ≤ q.deposit ∧ NothingBack trace ∧
          ∃ e, trace.head? = some e ∧ GivesUp host q amount e
  | .deliveringNative a | .deliveringWnear a => Claims host a trace e₀
  | _ => True

/-- The payment was started on the side by a call of its receiver, as the change
of what the call attached or as the price of a registration given up; or it is
the change of a registration that the pool paid for itself. -/
inductive Change (receiver : AccountId) (amount : ℕ) (e : PoolExecution H) : Prop
  /-- The change of a `storage_deposit`, or all that was attached. -/
  | deposit (accountId : Option AccountId) (registrationOnly : Option Bool) (deposit gas : ℕ)
      (task : e.task.actions = [.call (.storageDeposit accountId registrationOnly) deposit gas])
      (caller : receiver = e.context.predecessorAccountId)
      (attached : amount ≤ e.context.attachedDeposit)
  /-- The price of the registration, with the yoctoNEAR that was attached. -/
  | unregister (force : Option Bool) (deposit gas : ℕ)
      (task : e.task.actions = [.call (.storageUnregister force) deposit gas])
      (caller : receiver = e.context.predecessorAccountId)
      (price : amount = host.storageBalanceMin + 1)
  /-- What a batch attached for a registration, or its change. -/
  | pool (own : receiver = host.currentAccountId) (price : amount ≤ ftStorageDeposit)

/-- What a receipt with NEAR is due for, given the events before it.

Each constructor names the receipt exactly, with its receiver and its amount,
and the call that it is due for. -/
inductive Due (older : List (PoolEvent H)) (c : PoolChain H) (t : Receipt H) : Prop
  /-- A matured claim is paid to the receiver of its message. -/
  | claim (a : Attempt) (e₀ : PoolExecution H) (claims : Claims host a c.trace e₀)
      (native : a.args.withdrawTokens = .native)
      (task : t = .pay a.args.receiverId a.tranche.withdrawalAmount)
  /-- A matured claim is wrapped and sent on, with a yocto for the transfer;
  what the pool has kept of it as wNEAR is not wrapped again. -/
  | wrappedClaim (a : Attempt) (e₀ : PoolExecution H) (claims : Claims host a c.trace e₀)
      (wrapped : a.args.withdrawTokens ≠ .native) (task : t = a.batch host wnear)
      (bounded : t.carries + a.tranche.wnearResidual ≤ a.tranche.withdrawalAmount + oneYocto)
  /-- A native stake whose validator action failed is paid back to its sender. -/
  | refund (q : StakeRequest) (e₀ : PoolExecution H) (first : c.trace.getLast? = some e₀)
      (asks : Asks host wnear e₀ q) (native : q.token = .native) (amount : ℕ)
      (task : t = .pay q.senderId amount) (bounded : amount ≤ q.deposit)
      (once : NothingBack c.trace) (e : PoolExecution H) (last : c.trace.head? = some e)
      (givesUp : GivesUp host q amount e)
  /-- A wNEAR stake is unwrapped; the yocto is what wNEAR asks for with it. -/
  | unwrap (q : StakeRequest) (e₀ : PoolExecution H) (first : c.trace.getLast? = some e₀)
      (asks : Asks host wnear e₀ q) (wrapped : q.token = .wnear)
      (task : t = .call wnear (.nearWithdraw q.deposit) oneYocto nearWithdrawGas)
  /-- A wNEAR stake that was given up is wrapped again. -/
  | rewrap (q : StakeRequest) (e₀ : PoolExecution H) (first : c.trace.getLast? = some e₀)
      (asks : Asks host wnear e₀ q) (wrapped : q.token = .wnear) (amount : ℕ)
      (task : t = .call wnear .nearDeposit amount nearDepositGas) (bounded : amount ≤ q.deposit)
      (once : NothingBack c.trace) (e : PoolExecution H) (last : c.trace.head? = some e)
      (givesUp : GivesUp host q amount e)
  /-- What a storage call leaves over is sent to its caller, or to the pool. -/
  | change (call : PoolEvent H) (earlier : call ∈ older) (spawned : c ∈ call.execution.spawned)
      (receiver : AccountId) (amount : ℕ) (task : t = .pay receiver amount)
      (change : Change host receiver amount call.execution)

end Definitions

/-! ## One receipt -/

section Steps

variable {H : Type} {host : Host H} {wnear : AccountId} {p p' : Phase H}
  {trace : List (PoolExecution H)} {e e₀ : PoolExecution H} {t : Receipt H}
  {rest : List (Receipt H)}

/-- One more execution that gives nothing back. -/
theorem NothingBack.cons (h : NothingBack trace) (he : e.task.givesBack = false) :
    NothingBack (e :: trace) := List.forall_mem_cons.mpr ⟨he, h⟩

/-- The phases that give NEAR back next. -/
def Phase.givesBack : Phase H → Bool
  | .paying _ _ | .rewrapping _ | .deliveringNative _ | .deliveringWnear _ => true
  | _ => false

/-- In the other phases the next receipt gives nothing back. -/
theorem Phase.givesBack_head (hp : p.givesBack = false)
    (h : p.tasks host wnear = t :: rest) : t.givesBack = false := by
  cases p with
  | continuing k r =>
      cases k with
      | finish => cases h
      | resolve | notify => obtain ⟨rfl, -⟩ := List.cons.inj h; rfl
  | batching o refundTo =>
      obtain ⟨rfl, -⟩ := List.cons.inj h
      unfold Receipt.givesBack StakeOrder.batch
      cases o.depositToken <;> cases o.args.isStorageDeposit <;> rfl
  | paying | rewrapping | deliveringNative | deliveringWnear => cases hp
  | _ => obtain ⟨rfl, -⟩ := List.cons.inj h; rfl

variable [DecidableEq H]

/-- What comes after the receipt of another place, or after a panic, pays for
what the phase before it does. -/
theorem Phase.PaysFor.settle (h : p.PaysFor host wnear e₀ trace)
    (hhead : p.tasks host wnear = e.task :: rest) (r : PromiseResult) :
    (p.settle r).PaysFor host wnear e₀ (e :: trace) := by
  cases p with
  | unwrapping => exact ⟨h.1, h.2.cons (Phase.givesBack_head rfl hhead)⟩
  | batching => exact ⟨h.1, h.2.1, h.2.2.cons (Phase.givesBack_head rfl hhead)⟩
  | restaking m amount key =>
      obtain ⟨deposit, hasks, hle, hback⟩ := h
      exact ⟨deposit, hasks, hle, hback.cons (Phase.givesBack_head rfl hhead)⟩
  | _ => trivial

/-- What a callback goes on with is paid for by the same call; a stake that it
gives up, it has taken back.

The cases with an argument are the three that give a stake up: each takes the
amount off the books in the same receipt that schedules the payment. -/
theorem Phase.PaysFor.advance {side : List (Receipt H)}
    (h : p.PaysFor host wnear e₀ trace) (hhead : p.tasks host wnear = e.task :: rest)
    (hread : e.input = p.input)
    (hadvance : Advance host e.context e.before p e.after p' side) :
    p'.PaysFor host wnear e₀ (e :: trace) := by
  -- Until the deposit goes back nothing else has gone back.
  have hback : NothingBack trace → p.givesBack = false → NothingBack (e :: trace) :=
    fun hnone hp => hnone.cons (Phase.givesBack_head hp hhead)
  generalize hbefore : e.before = s, hafter : e.after = s' at hadvance
  cases hadvance with
  | unwrapQuoted ok s₁ result o synced quoted sender_eq args_eq deposit_eq wrapped =>
      refine ⟨?_, ?_, hback h.2 rfl⟩
      · rw [sender_eq, args_eq, deposit_eq, wrapped]
        exact h.1
      · rw [quoted.deposit_eq]
        exact Nat.le_add_right _ _
  | @unwrapRejected senderId amount args r ok s₁ result synced covered =>
      obtain ⟨htask, -⟩ := List.cons.inj hhead
      refine ⟨_, h.1, rfl, le_rfl, hback h.2 rfl, e, rfl, .rejected rfl rfl htask.symm ?_⟩
      rw [hbefore, hafter]
      exact (Nat.sub_add_cancel covered).trans synced.tracked_eq
  | minted | mintedRegistering => exact ⟨h.1, h.2.1, hback h.2.2 rfl⟩
  | restake => exact ⟨_, h.1, h.2.1, hback h.2.2 rfl⟩
  | @restakeRefund o r failed wrapped covered =>
      obtain ⟨htask, -⟩ := List.cons.inj hhead
      refine ⟨_, h.1, wrapped, le_rfl, hback h.2.2 rfl, e, rfl,
        .unminted wrapped rfl o htask.symm rfl ⟨r, hread, failed⟩ ?_⟩
      rw [hbefore, hafter]
      exact Nat.sub_add_cancel covered
  | @rolledBack m r failed escrow supply staked tracked =>
      obtain ⟨deposit, hasks, hle, hnone⟩ := h
      obtain ⟨htask, -⟩ := List.cons.inj hhead
      have hnext := hback hnone rfl
      have hgivesUp : GivesUp host ⟨m.senderId, deposit, m.args, m.depositToken⟩
          m.stakeAmount e := by
        refine .rolledBack m rfl htask.symm rfl ⟨r, hread, failed⟩ ?_ ?_
        · rw [hbefore, hafter]
          exact Nat.sub_add_cancel supply
        · rw [hbefore, hafter]
          exact Nat.sub_add_cancel staked
      cases htoken : m.depositToken with
      | native => exact ⟨_, hasks, htoken, rfl, hle, hnext, e, rfl, hgivesUp⟩
      | wnear => exact ⟨_, hasks, htoken, hle, hnext, e, rfl, hgivesUp⟩
  | _ => trivial

/-- The withdrawal of an attempt claims its tranche. -/
theorem claims_of_swept {a : Attempt} {deposit gas : ℕ} {q : WithdrawalRequests H}
    (htask : e.task.actions = [.call (.withdraw a.args) deposit gas])
    (hswept : WithdrawalRequests.amountOfMaturedTranches e.before.withdrawalRequests
      e.context.epochHeight (a.hash host) = .ok (a.tranche.withdrawalAmount, q))
    (hpos : 0 < a.tranche.withdrawalAmount) (hafter : e.after.withdrawalRequests = q)
    (hlocked : WithdrawalRequests.locksAt q (a.hash host) = [a.tranche]) :
    Claims host a [e] e := by
  obtain ⟨t, -, hsweep⟩ := WithdrawalRequests.amountOfMaturedTranches_swept hswept hpos
  obtain rfl : t = a.tranche := (List.cons.inj (hsweep.locks_eq.symm.trans hlocked)).1
  exact ⟨rfl, ⟨deposit, gas, htask⟩, hsweep.amount_eq, hsweep.matured, hafter ▸ hlocked⟩

omit [DecidableEq H] in
/-- A detached payment goes to the account it names. -/
theorem mem_detachedPay {receiver : AccountId} {amount : ℕ}
    (h : t ∈ (detachedPay receiver amount : List (Receipt H))) : t = .pay receiver amount := by
  unfold detachedPay at h
  split at h
  · cases h
  · exact List.mem_singleton.mp h

/-- A call that commits leaves change to its caller only. -/
theorem Entry.change {m : Method H} {side : List (Receipt H)} {deposit gas : ℕ}
    (h : Entry host e.context e.before m e.after p side)
    (htask : e.task.actions = [.call m deposit gas]) (hmem : t ∈ side) :
    ∃ receiver amount, t = .pay receiver amount ∧ Change host receiver amount e := by
  generalize e.before = s, e.after = s' at h
  cases h with
  | storageKnown accountId registrationOnly =>
      exact ⟨_, _, mem_detachedPay hmem, .deposit accountId registrationOnly deposit gas htask rfl
        le_rfl⟩
  | storageNew accountId registrationOnly =>
      exact ⟨_, _, mem_detachedPay hmem, .deposit accountId registrationOnly deposit gas htask rfl
        (Nat.sub_le _ _)⟩
  | unregister force =>
      exact ⟨_, _, mem_detachedPay hmem, .unregister force deposit gas htask rfl rfl⟩
  | _ => cases hmem

/-- A callback leaves change to the pool only. -/
theorem Advance.change {env : Env} {s s' : LiquidStakingToken H} {side : List (Receipt H)}
    (h : Advance host env s p s' p' side) (hmem : t ∈ side) :
    ∃ receiver amount, t = .pay receiver amount ∧ Change host receiver amount e := by
  cases h with
  | mintedRegistering =>
      refine ⟨_, _, mem_detachedPay hmem, .pool rfl ?_⟩
      split
      · exact le_rfl
      · exact Nat.sub_le _ _
  | _ => cases hmem

end Steps

/-! ## Runs -/

section Reaches

variable {H : Type} [DecidableEq H] {host : Host H} {d : Deployment host}
  {events : List (PoolEvent H)} {sys : PoolSystem H} {c : PoolChain H} {e : PoolExecution H}

/-- A call from outside comes with the deposit it names. -/
theorem Deployment.attached_eq {Good : PoolEvent H → Prop} {m : Method H} {deposit gas : ℕ}
    (turn : d.Turn Good events sys c e) (hfresh : c = Chain.single e.task)
    (htask : e.task.actions = [.call m deposit gas]) : e.context.attachedDeposit = deposit := by
  cases turn.origin with
  | fresh eq accepted commits =>
      obtain ⟨m', deposit', gas', hactions, -, -, hattached⟩ := accepts_eq_true accepted
      obtain ⟨-, rfl, -⟩ := Action.call.inj (List.cons.inj (htask.symm.trans hactions)).1
      exact hattached
  | inFlight mem resumed =>
      obtain ⟨p, hp⟩ := (d.phased turn.run).described c mem
      have hone := hp.carried_eq fun _ => 1
      rw [hfresh, carried_call _ htask] at hone
      cases hone

/-- What a chain may still give back is paid for by the call that started it. -/
theorem Deployment.paysFor (run : d.Reaches events sys) :
    ∀ c ∈ sys.chains, ∀ p, Describes host d.wnearId c p → ∀ e₀ m deposit gas,
      c.trace.getLast? = some e₀ → e₀.task.actions = [.call m deposit gas] →
        p.PaysFor host d.wnearId e₀ c.trace := by
  refine d.forall_started (K := fun e₀ trace p => p.PaysFor host d.wnearId e₀ trace) ?_ ?_ ?_ ?_
    run fun _ _ => trivial
  · intro events s c e s₀ s₁ m p side deposit gas turn htask next verdict fresh before after entry
    -- A call that stakes gives nothing back itself.
    have hback : m ≠ .nearDeposit → NothingBack [e] := by
      intro hne
      refine List.forall_mem_singleton.mpr ?_
      unfold Receipt.givesBack
      rw [htask]
      cases m <;> first | rfl | exact absurd rfl hne
    cases entry with
    | stake args _ result o synced quoted sender_eq args_eq deposit_eq native =>
        refine ⟨⟨?_, fun h => by rw [native] at h; cases h⟩, ?_, hback (by simp)⟩
        · rw [sender_eq, args_eq, deposit_eq, native]
          exact .native args gas (d.attached_eq turn fresh htask ▸ htask)
        · rw [quoted.deposit_eq]
          exact Nat.le_add_right _ _
    | book senderId amount msg args fromWnear =>
        obtain ⟨ret, hverdict⟩ := verdict
        have hsource : e.context.predecessorAccountId = e.before.wnearId := before ▸ fromWnear
        have hparsed := d.book_parsed turn fresh htask hsource next hverdict
        refine ⟨⟨.wrapped senderId amount msg args deposit gas htask hparsed, fun _ => ?_⟩,
          hback (by simp)⟩
        rw [hsource, turn.fires.before_eq, (d.phased turn.run).wnearId_eq]
    | withdrawNative a q native swept pos locked =>
        exact claims_of_swept htask (before ▸ swept) pos (after ▸ rfl) locked
    | withdrawWnear a q wrapped swept pos locked fits =>
        exact claims_of_swept htask (before ▸ swept) pos (after ▸ rfl) locked
    | _ => trivial
  · intro events s c e e₀ s₀ s₁ p p' side turn now hpays verdict before after advance
    obtain ⟨rest, htasks⟩ := turn.fires.tasks_eq
    subst before after
    exact hpays.advance (now.tasks_eq.symm.trans htasks)
      (turn.fires.input_eq.trans now.input_eq) advance
  · intro events s c e e₀ p turn now hpays here verdict same
    obtain ⟨rest, htasks⟩ := turn.fires.tasks_eq
    exact hpays.settle (now.tasks_eq.symm.trans htasks) _
  · intro events s c e e₀ p r turn now hpays away verdict same
    obtain ⟨rest, htasks⟩ := turn.fires.tasks_eq
    exact hpays.settle (now.tasks_eq.symm.trans htasks) _

/-- A chain was started by a call, or it is a payment on the side, before or
after it ran. -/
theorem Deployment.started_or_side (run : d.Reaches events sys) :
    ∀ c ∈ sys.chains, ∀ p, Describes host d.wnearId c p →
      (∃ e₀ m deposit gas, c.trace.getLast? = some e₀ ∧
        e₀.task.actions = [.call m deposit gas]) ∨
      (c.trace = [] ∧ ∃ receiver amount, p = .paying receiver amount) ∨
      ∃ r, p = .continuing .finish r := by
  -- What started a chain stays at the end of its trace.
  have hstays : ∀ {c : PoolChain H} {e : PoolExecution H},
      (∃ e₀ m deposit gas, c.trace.getLast? = some e₀ ∧
        e₀.task.actions = [.call m deposit gas]) →
      ∃ e₀ m deposit gas, (c.resume e).trace.getLast? = some e₀ ∧
        e₀.task.actions = [.call m deposit gas] := by
    rintro c e ⟨e₀, m, deposit, gas, hlast, htask⟩
    refine ⟨e₀, m, deposit, gas, ?_, htask⟩
    obtain ⟨e', trace, htrace⟩ := List.exists_cons_of_ne_nil
      (show c.trace ≠ [] from fun h => by rw [h] at hlast; cases hlast)
    rw [Chain.resume_trace, htrace, List.getLast?_cons_cons, ← htrace, hlast]
  refine d.forall_phase ?_ ?_ ?_ ?_ ?_ run fun _ _ => trivial
  · exact fun c receiver amount htrace => .inr (.inl ⟨htrace, receiver, amount, rfl⟩)
  · rintro events s c e s₀ s₁ m p side turn fresh ⟨deposit, gas, htask⟩ before after entry
    refine .inl ⟨e, m, deposit, gas, ?_, htask⟩
    rw [Chain.resume_trace, fresh]
    rfl
  · intro events s c e s₀ s₁ p p' side turn now hp verdict before after advance
    rcases hp with hstarted | ⟨-, receiver, amount, rfl⟩ | ⟨r, rfl⟩
    · exact .inl (hstays hstarted)
    · cases advance
    · cases advance
  · intro events s c e p turn now hp here verdict
    rcases hp with hstarted | ⟨-, receiver, amount, rfl⟩ | ⟨r, rfl⟩
    · exact .inl (hstays hstarted)
    · exact .inr (.inr ⟨_, rfl⟩)
    · exact .inr (.inr ⟨_, rfl⟩)
  · intro events s c e p r turn now hp away verdict
    rcases hp with hstarted | ⟨-, receiver, amount, rfl⟩ | ⟨r, rfl⟩
    · exact .inl (hstays hstarted)
    · exact .inr (.inr ⟨_, rfl⟩)
    · exact .inr (.inr ⟨_, rfl⟩)

omit [DecidableEq H] in
/-- What a wNEAR delivery takes along is what its tranche has left in NEAR, and
the yocto of the transfer. -/
theorem Attempt.outlay_le {a : Attempt} (hfits : a.Fits host) :
    a.outlay host + a.tranche.wnearResidual ≤ a.tranche.withdrawalAmount + oneYocto := by
  have hamount := hfits.amount_eq
  have hresidual := hfits.residual_le
  unfold Attempt.outlay Attempt.amountToNearDeposit
  split <;> omega

/-- A payment on the side is the change of a call. -/
theorem Deployment.change (run : d.Reaches events sys) :
    ∀ ev ∈ events, ∀ c ∈ ev.execution.spawned, ∃ receiver amount,
      c = Chain.single (.pay receiver amount) ∧ Change host receiver amount ev.execution := by
  refine run.forall_event (Q := fun ev => ∀ c ∈ ev.execution.spawned, ∃ receiver amount,
    c = Chain.single (.pay receiver amount) ∧ Change host receiver amount ev.execution) ?_
    fun _ _ => trivial
  intro events s c e (turn : d.Turn (fun _ => True) _ _ _ _) c' hspawned
  cases d.transition turn with
  | entered m p side deposit gas fresh task_eq deposit_eq external entry next verdict spawned =>
      rw [show _ = _ from spawned] at hspawned
      obtain ⟨t, hmem, rfl⟩ := List.mem_map.mp hspawned
      obtain ⟨receiver, amount, rfl, hchange⟩ := entry.change task_eq hmem
      exact ⟨receiver, amount, rfl, hchange⟩
  | advanced p p' side now self advance next verdict spawned =>
      rw [show _ = _ from spawned] at hspawned
      obtain ⟨t, hmem, rfl⟩ := List.mem_map.mp hspawned
      obtain ⟨receiver, amount, rfl, hchange⟩ := advance.change (e := e) hmem
      exact ⟨receiver, amount, rfl, hchange⟩
  | panicked p now here self verdict same next spawned
  | answered p r now away verdict same next spawned =>
      rw [show _ = _ from spawned] at hspawned
      cases hspawned

/-- **NEAR custody.**  Whenever a receipt with NEAR runs elsewhere, that NEAR is
due.

* To the receiver of a claim goes what was claimable for its message, all of it
  matured, when the withdrawal ran; or the same goes to the wNEAR contract, less
  what the pool has kept of the claim as wNEAR, and with one yoctoNEAR for the
  transfer.
* To the sender of a native stake goes at most its deposit, and only after the
  validator action failed and the callback burned the minted LST and took the
  stake off the books.
* To the wNEAR contract goes one yoctoNEAR to unwrap a stake, and at most the
  deposit of one that a callback gave up.
* To the caller of a storage call, or to the pool, goes the change of that call. -/
theorem Deployment.near_custody (run : d.Reaches events sys) :
    ∀ ev older, ev :: older <:+ events → ∀ r, ev.execution.verdict = .answered r →
      0 < ev.execution.task.carries → Due host d.wnearId older ev.chain ev.execution.task := by
  refine run.forall_suffix (Q := fun ev older => ∀ r, ev.execution.verdict = .answered r →
    0 < ev.execution.task.carries → Due host d.wnearId older ev.chain ev.execution.task) ?_
    fun _ _ => trivial
  intro events s c e (turn : d.Turn (fun _ => True) _ _ _ _) r hverdict hcarries
  obtain ⟨rest, htasks⟩ := turn.fires.tasks_eq
  cases d.transition turn with
  | entered m p side deposit gas fresh task_eq deposit_eq external entry next verdict =>
      obtain ⟨ret, verdict⟩ := verdict
      cases hverdict.symm.trans verdict
  | advanced p p' side now self advance next verdict =>
      obtain ⟨ret, verdict⟩ := verdict
      cases hverdict.symm.trans verdict
  | panicked p now here self verdict => cases hverdict.symm.trans verdict
  | answered p r' now away verdict same next =>
      have hmem := now.mem turn.origin
      have hhead := now.tasks_eq.symm.trans htasks
      rcases d.started_or_side turn.run c hmem p now with
        ⟨e₀, m, deposit, gas, hlast, htask⟩ | ⟨htrace, receiver, amount, rfl⟩ | ⟨r₀, rfl⟩
      · have hpays := d.paysFor turn.run c hmem p now e₀ m deposit gas hlast htask
        cases p with
        | unwrapping senderId amount args =>
            obtain ⟨hpay, -⟩ := List.cons.inj hhead
            exact .unwrap _ e₀ hlast hpays.1 rfl hpay.symm
        | rewrapping amount =>
            obtain ⟨hpay, -⟩ := List.cons.inj hhead
            obtain ⟨q, hasks, hwrapped, hle, honce, e', hlast', hgivesUp⟩ := hpays
            exact .rewrap q e₀ hlast hasks hwrapped amount hpay.symm hle honce e' hlast' hgivesUp
        | paying receiver amount =>
            obtain ⟨hpay, -⟩ := List.cons.inj hhead
            obtain ⟨q, hasks, hnative, rfl, hle, honce, e', hlast', hgivesUp⟩ := hpays
            exact .refund q e₀ hlast hasks hnative amount hpay.symm hle honce e' hlast' hgivesUp
        | deliveringNative a =>
            obtain ⟨hpay, -⟩ := List.cons.inj hhead
            exact .claim a e₀ hpays now.valid hpay.symm
        | deliveringWnear a =>
            obtain ⟨hpay, -⟩ := List.cons.inj hhead
            refine .wrappedClaim a e₀ hpays now.valid.1 hpay.symm ?_
            dsimp only
            rw [← hpay, Attempt.batch_carries _ now.valid.2]
            exact Attempt.outlay_le now.valid.2
        | continuing k r => cases k <;> cases away
        | sending | restaking | unstaking | pinging | stopping | addingKey =>
            -- These receipts take no NEAR along.
            obtain ⟨hpay, -⟩ := List.cons.inj hhead
            have hzero : e.task.carries = 0 := by rw [← hpay]; rfl
            dsimp only at hcarries
            omega
        | _ => cases away
      · obtain ⟨call, hcall, hspawned⟩ := turn.run.spawned_by (by simp [Deployment.genesis]) c hmem
          htrace
        obtain ⟨receiver', amount', rfl, hchange⟩ := d.change turn.run call hcall c hspawned
        obtain ⟨hpay, -⟩ := List.cons.inj htasks
        exact .change call hcall hspawned receiver' amount' hpay.symm hchange
      · cases away

/-- `bob` is paid 40 yoctoNEAR for the unstake of the treasury. -/
theorem Deployment.near_custody_sample :
    ∃ ev ∈ (samplePool.played (sampleUnstake "native" ++
        sampleWithdrawal ⟨"bob", .native⟩ (.successful .empty)) rfl).1,
      ev.execution.task = .pay "bob" 40 ∧
        ∃ older, Due sampleHost "wnear" older ev.chain ev.execution.task := by
  have hreaches := samplePool.played_reaches (sampleUnstake "native" ++
    sampleWithdrawal ⟨"bob", .native⟩ (.successful .empty)) rfl
  obtain ⟨ev, hev, htask⟩ : ∃ ev ∈ (samplePool.played (sampleUnstake "native" ++
      sampleWithdrawal ⟨"bob", .native⟩ (.successful .empty)) rfl).1,
      ev.execution.task = .pay "bob" 40 := by decide +kernel
  obtain ⟨newer, older, hevents⟩ := List.append_of_mem hev
  -- A payment runs elsewhere, so that it was answered.
  have hlegal : (platform sampleHost).Legal ev.execution :=
    hreaches.forall_event (Q := fun ev => (platform sampleHost).Legal ev.execution)
      (fun (turn : samplePool.Turn (fun _ => True) _ _ _ _) => turn.fires.legal)
      (fun _ _ => trivial) ev hev
  obtain ⟨r, hverdict⟩ : ∃ r, ev.execution.verdict = .answered r := by
    have haway : (platform sampleHost).isLocal ev.execution.task = false := by
      rw [htask]
      decide
    cases hverdict : ev.execution.verdict with
    | answered r => exact ⟨r, rfl⟩
    | committed | panicked => simp [Platform.Legal, hverdict, haway] at hlegal
  have hdue := samplePool.near_custody hreaches ev older ⟨newer, hevents.symm⟩ r hverdict
    (by rw [htask]; decide)
  exact ⟨ev, hev, htask, older, hdue⟩

end Reaches

end LiquidStaking
