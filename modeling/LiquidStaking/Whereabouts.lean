import LiquidStaking.TransferCalls

/-!
# Where a settled stake is

A stake runs through up to nine receipts: the unwrap of its wNEAR, the minting
batch, the validator action, the notification of the receiver, and the unstake
of what the receiver refused.  Each can fail, and other chains run in between,
so what a stake has done is summed over its own executions.  `StakeStage` says
for each phase what that is by now.

When the chain is done its value is in one place per unit
(`Deployment.stake_whereabouts`).  Either its LST is gone again and the deposit
is sent back (`SentBack`), or its LST is with the receiver, or unstaked into the
queue under the hash of the refund message, or left on the pool's own account
(`Placed`).  The last is so only if the receiver had unregistered before the LST
was to be handed over, or if the validator action of the refund failed.
-/

namespace LiquidStaking

open Checked Movements PromiseChain

section Definitions

variable {H : Type}

/-- The fee LST that an execution mints. -/
def feeOf (e : PoolExecution H) : ℕ :=
  e.before.feeMinted (rewardIn e.context (excludedBy e.task) e.before e.after)

/-- What a trace has done to the LST ledger: apart from the fees, the receiver
holds `kept` more, and the pool `held`.

The treasury, the receiver and the pool may be the same account; the parts then
add up. -/
structure Holds (treasury receiver pool : AccountId) (kept held : ℕ)
    (trace : List (PoolExecution H)) : Prop where
  balance_eq : ∀ a, (trace.map fun e => (e.after.token.ftBalanceOf a : ℤ) -
      e.before.token.ftBalanceOf a).sum =
    (if a = treasury then (trace.map feeOf).sum else 0 : ℕ) +
      (if a = receiver then kept else 0 : ℕ) + (if a = pool then held else 0 : ℕ)
  supply_eq : (trace.map fun e => (e.after.token.totalSupply : ℤ) -
    e.before.token.totalSupply).sum = (trace.map feeOf).sum + kept + held

/-- The execution leaves the queue alone. -/
structure KeepsQueue (e : PoolExecution H) : Prop where
  queue : e.after.withdrawalRequests = e.before.withdrawalRequests
  pending : e.after.statistics.totalPendingWithdrawals =
    e.before.statistics.totalPendingWithdrawals

/-- No execution of the trace touches the queue. -/
def Unqueued (trace : List (PoolExecution H)) : Prop := ∀ e ∈ trace, KeepsQueue e

/-- The execution appends `near` to the queue. -/
structure Appends [DecidableEq H] (hash : H) (near : ℕ) (e : PoolExecution H) : Prop where
  queue : WithdrawalRequests.appendRequest e.before.withdrawalRequests e.context.epochHeight hash
    near = .ok e.after.withdrawalRequests
  pending : e.after.statistics.totalPendingWithdrawals =
    e.before.statistics.totalPendingWithdrawals + near

/-- One execution of the trace appends `near` to the queue, the others leave it
alone. -/
def QueuedOnce [DecidableEq H] (hash : H) (near : ℕ) (trace : List (PoolExecution H)) : Prop :=
  ∃ newer e older, trace = newer ++ e :: older ∧ Appends hash near e ∧ Unqueued (newer ++ older)

/-- A stake, as it was asked for. -/
structure StakeRequest where
  senderId : AccountId
  deposit : ℕ
  args : StakeMessage
  token : DepositToken
  deriving DecidableEq, Repr

/-- The registration price that a stake sets aside. -/
def StakeRequest.price (q : StakeRequest) : ℕ :=
  if q.args.isStorageDeposit then ftStorageDeposit else 0

/-- The receipt that this one waited for did not end well. -/
def inputFailed (e : PoolExecution H) : Bool :=
  match e.input with
  | some r => !resultOk r
  | none => false

/-- The receipt may panic without a stake being lost: the minting batch,
`on_ft_on_transfer`, and the callback of a native batch that has panicked.

After each of them the value of the stake is where it was, or the protocol sends
it back. -/
def mayPanic (e : PoolExecution H) : Bool :=
  match e.task.actions with
  | [.call (.onNearWithdraw ..) _ _] | [.call (.onRestakeOrRefund ..) _ _]
  | [.call (.refundWnearDeposit _) _ _] | [.call (.onUnstake ..) _ _] => false
  | [.call (.restakeOrRefund _ _ _ _ _ token) _ _] =>
      decide (token = .native ∧ inputFailed e = true)
  | _ => true

/-- The callbacks of a stake that are to settle it run to their end.

A callback that is cut off leaves the value where its receipts have brought it;
`LiquidStaking.StakeEnds` says what it takes for them not to be cut off. -/
def SettlesStake (e : PoolExecution H) : Prop :=
  match e.verdict with
  | .panicked => mayPanic e = true
  | _ => True

instance : DecidablePred (SettlesStake (H := H)) := fun e => by
  unfold SettlesStake
  split <;> infer_instance

variable (host : Host H) (wnear : AccountId) (q : StakeRequest)

/-- The execution is the call that asks for the stake. -/
inductive Requests (e : PoolExecution H) : StakeRequest → Prop
  /-- `stake`, with NEAR attached. -/
  | native (args : StakeMessage) (gas : ℕ)
      (task : e.task.actions = [.call (.stake args) e.context.attachedDeposit gas]) :
      Requests e ⟨e.context.predecessorAccountId, e.context.attachedDeposit, args, .native⟩
  /-- `ft_on_transfer`, with a message that asks for a stake. -/
  | wrapped (senderId : AccountId) (amount : ℕ) (msg : String) (args : StakeMessage)
      (deposit gas : ℕ)
      (task : e.task.actions = [.call (.ftOnTransfer senderId amount msg) deposit gas])
      (parsed : host.parseStakeMessage msg = some args) :
      Requests e ⟨senderId, amount, args, .wnear⟩

/-- The quote of a stake: its deposit split, its LST at the rate right after its
sync. -/
structure OrderOf (o : StakeOrder) (trace : List (PoolExecution H)) : Prop where
  sender_eq : o.senderId = q.senderId
  args_eq : o.args = q.args
  token_eq : o.depositToken = q.token
  deposit_eq : o.depositAmount = q.deposit
  split : o.stakeAmount + q.price = q.deposit
  lst_pos : 0 < o.lstTokens
  priced : ∃ e ∈ trace, o.lstTokens = e.after.lstFor o.stakeAmount

/-- What is to be sent back: the whole deposit when nothing was minted, the
stake when the minted LST was burned again because the validator action failed. -/
inductive Owed (trace : List (PoolExecution H)) : ℕ → Prop
  /-- Nothing was minted. -/
  | deposit : Owed trace q.deposit
  /-- `on_restake_or_refund` found a failed validator action. -/
  | stake (o : StakeOrder) (order : OrderOf q o trace) (e : PoolExecution H) (mem : e ∈ trace)
      (task : e.task = o.toMintedStake.settleCall host)
      (failed : ∃ r, e.input = some r ∧ resultOk r = false) : Owed trace o.stakeAmount

/-- How the value of a stake is sent back, and what its chain then reports;
`back` is where the host refunds a native deposit to. -/
inductive SentBack (back : Option AccountId) (trace : List (PoolExecution H)) :
    ℕ → PromiseResult → Prop
  /-- The wNEAR was not unwrapped, and the chain reports all of it as unused. -/
  | neverUnwrapped (wrapped : q.token = .wnear) (e : PoolExecution H) (mem : e ∈ trace)
      (task : e.task = .call wnear (.nearWithdraw q.deposit) oneYocto nearWithdrawGas)
      (r : PromiseResult) (answer : e.verdict = .answered r) (failed : resultOk r = false) :
      SentBack back trace q.deposit (.successful (.ofU128 q.deposit))
  /-- The NEAR was wrapped again; the chain reports it as unused if that
  succeeded. -/
  | rewrapped (wrapped : q.token = .wnear) (n : ℕ) (owed : Owed host q trace n)
      (e : PoolExecution H) (mem : e ∈ trace)
      (task : e.task = .call wnear .nearDeposit n nearDepositGas) (r : PromiseResult)
      (answer : e.verdict = .answered r) :
      SentBack back trace n (.successful (.ofU128 (if resultOk r then n else 0)))
  /-- NEAR was transferred to the sender. -/
  | transferred (native : q.token = .native) (n : ℕ) (owed : Owed host q trace n)
      (e : PoolExecution H) (mem : e ∈ trace) (task : e.task = .pay q.senderId n)
      (r : PromiseResult) (answer : e.verdict = .answered r) : SentBack back trace n r
  /-- The batch panicked, and what it carried goes back from there. -/
  | bounced (native : q.token = .native) (e : PoolExecution H) (mem : e ∈ trace)
      (panicked : e.verdict = .panicked) (carries : e.task.carries = q.deposit)
      (refundTo : e.task.refundTo = back) : SentBack back trace q.deposit .failed

/-- What a stake has done as long as it has not touched the queue. -/
structure SoFar (treasury : AccountId) (kept held : ℕ) (trace : List (PoolExecution H)) :
    Prop where
  holds : Holds treasury q.args.receiverId host.currentAccountId kept held trace
  unqueued : Unqueued trace

/-- The unstake of what the receiver of `o` refused, at the rate right after its
sync. -/
structure TakenBack (o : StakeOrder) (u : UnstakeOrder H) (trace : List (PoolExecution H)) :
    Prop where
  le : u.lstAmount ≤ o.lstTokens
  lst_pos : 0 < u.lstAmount
  near_pos : 0 < u.nearAmount
  message : ∃ message, q.args.refundMessage = some message ∧ u.hash = host.hash message
  trigger : u.trigger = .refundByContract
  priced : ∃ e ∈ trace, ∃ s₁, e.after = u.burn host s₁ ∧ u.nearAmount = s₁.nearFor u.lstAmount

/-- Why LST of a stake lie on the pool's own account: all of them, since their
receiver was not registered any more when it was to get them; or those that it
had refused, since the validator action failed that was to unstake them. -/
inductive Stranded (o : StakeOrder) (trace : List (PoolExecution H)) : ℕ → Prop
  /-- There was nobody to hand the LST over to. -/
  | unregistered (e : PoolExecution H) (mem : e ∈ trace)
      (task : e.task = o.toMintedStake.settleCall host)
      (gone : e.before.isRegistered host q.args.receiverId = false) : Stranded o trace o.lstTokens
  /-- The LST that were taken back could not be unstaked. -/
  | refundFailed (u : UnstakeOrder H) (taken : TakenBack host q o u trace) (e : PoolExecution H)
      (mem : e ∈ trace)
      (task : e.task = LiquidStakingToken.onUnstakeCall host u.lstAmount u.nearAmount u.hash
        u.trigger)
      (failed : ∃ r, e.input = some r ∧ resultOk r = false) : Stranded o trace u.lstAmount

variable [DecidableEq H]

/-- What has become of the LST that were taken back. -/
inductive Unstaked (o : StakeOrder) (trace : List (PoolExecution H)) : ℕ → Prop
  /-- None were, or their unstake failed. -/
  | nothing (unqueued : Unqueued trace) : Unstaked o trace 0
  /-- Their NEAR is in the queue. -/
  | queued (u : UnstakeOrder H) (taken : TakenBack host q o u trace)
      (queued : QueuedOnce u.hash u.nearAmount trace) : Unstaked o trace u.lstAmount

/-- The LST of a stake, each in one place. -/
structure Placed (treasury : AccountId) (trace : List (PoolExecution H)) (o : StakeOrder)
    (kept held unstaked : ℕ) (r : PromiseResult) : Prop where
  order : OrderOf q o trace
  holds : Holds treasury q.args.receiverId host.currentAccountId kept held trace
  total : kept + held + unstaked = o.lstTokens
  unstaked : Unstaked host q o trace unstaked
  stranded : 0 < held → Stranded host q o trace held
  reported : r = .successful (.ofU128 0) ∨ r = .failed ∧ kept = o.lstTokens

/-- Where a settled stake is. -/
inductive StakeSettled (treasury : AccountId) (back : Option AccountId)
    (trace : List (PoolExecution H)) (r : PromiseResult) : Prop
  /-- It was sent back, and nothing of it remains. -/
  | sentBack (n : ℕ) (route : SentBack host wnear q back trace n r)
      (soFar : SoFar host q treasury 0 0 trace)
  /-- Its LST are accounted for. -/
  | placed (o : StakeOrder) (kept held unstaked : ℕ)
      (placed : Placed host q treasury trace o kept held unstaked r)

/-- Where the chain of a stake is, and what its executions have done by now. -/
inductive StakeStage (treasury : AccountId) (back : Option AccountId)
    (trace : List (PoolExecution H)) : Phase H → Prop
  /-- wNEAR has arrived. -/
  | unwrapping (wrapped : q.token = .wnear) (soFar : SoFar host q treasury 0 0 trace) :
      StakeStage treasury back trace (.unwrapping q.senderId q.deposit q.args)
  /-- The unwrap has a result. -/
  | unwrapped (wrapped : q.token = .wnear) (soFar : SoFar host q treasury 0 0 trace)
      (r : PromiseResult) (e : PoolExecution H) (mem : e ∈ trace)
      (task : e.task = .call wnear (.nearWithdraw q.deposit) oneYocto nearWithdrawGas)
      (answer : e.verdict = .answered r) :
      StakeStage treasury back trace (.unwrapped q.senderId q.deposit q.args r)
  /-- The stake is quoted. -/
  | batching (o : StakeOrder) (order : OrderOf q o trace)
      (soFar : SoFar host q treasury 0 0 trace) : StakeStage treasury back trace (.batching o back)
  /-- The batch panicked, and nothing is minted. -/
  | unminted (o : StakeOrder) (order : OrderOf q o trace) (soFar : SoFar host q treasury 0 0 trace)
      (e : PoolExecution H) (mem : e ∈ trace) (task : e.task = o.batch host back)
      (panicked : e.verdict = .panicked) :
      StakeStage treasury back trace (.batched o .failed)
  /-- The LST are on the pool's account. -/
  | minted (o : StakeOrder) (order : OrderOf q o trace)
      (soFar : SoFar host q treasury 0 o.lstTokens trace) :
      StakeStage treasury back trace (.batched o (.successful .empty))
  /-- The validator is asked. -/
  | restaking (o : StakeOrder) (order : OrderOf q o trace)
      (soFar : SoFar host q treasury 0 o.lstTokens trace) (amount : ℕ) (key : PublicKey) :
      StakeStage treasury back trace (.restaking o.toMintedStake amount key)
  /-- The validator action has a result. -/
  | restaked (o : StakeOrder) (order : OrderOf q o trace)
      (soFar : SoFar host q treasury 0 o.lstTokens trace) (r : PromiseResult) :
      StakeStage treasury back trace (.restaked o.toMintedStake r)
  /-- wNEAR is to be made of the NEAR again. -/
  | rewrapping (wrapped : q.token = .wnear) (n : ℕ) (owed : Owed host q trace n)
      (soFar : SoFar host q treasury 0 0 trace) : StakeStage treasury back trace (.rewrapping n)
  /-- The wrap has a result. -/
  | rewrapped (wrapped : q.token = .wnear) (n : ℕ) (owed : Owed host q trace n)
      (soFar : SoFar host q treasury 0 0 trace) (r : PromiseResult) (e : PoolExecution H)
      (mem : e ∈ trace) (task : e.task = .call wnear .nearDeposit n nearDepositGas)
      (answer : e.verdict = .answered r) : StakeStage treasury back trace (.rewrapped n r)
  /-- NEAR is on its way back. -/
  | paying (native : q.token = .native) (n : ℕ) (owed : Owed host q trace n)
      (soFar : SoFar host q treasury 0 0 trace) :
      StakeStage treasury back trace (.paying q.senderId n)
  /-- The receiver has the LST, and is asked. -/
  | sending (o : StakeOrder) (order : OrderOf q o trace)
      (soFar : SoFar host q treasury o.lstTokens 0 trace) (msg : String) (gas : ℕ) :
      StakeStage treasury back trace (.sending q.args.receiverId q.senderId o.lstTokens msg gas
        (.notify o.lstTokens q.args))
  /-- The receiver has answered. -/
  | notifying (o : StakeOrder) (order : OrderOf q o trace)
      (soFar : SoFar host q treasury o.lstTokens 0 trace) (r : PromiseResult) :
      StakeStage treasury back trace (.continuing (.notify o.lstTokens q.args) r)
  /-- What it refused is burned, and the validator is asked. -/
  | unstaking (o : StakeOrder) (order : OrderOf q o trace) (u : UnstakeOrder H)
      (taken : TakenBack host q o u trace)
      (soFar : SoFar host q treasury (o.lstTokens - u.lstAmount) 0 trace) (amount : ℕ)
      (key : PublicKey) : StakeStage treasury back trace (.unstaking u amount key .finish)
  /-- That validator action has a result. -/
  | unstaked (o : StakeOrder) (order : OrderOf q o trace) (u : UnstakeOrder H)
      (taken : TakenBack host q o u trace)
      (soFar : SoFar host q treasury (o.lstTokens - u.lstAmount) 0 trace) (r : PromiseResult) :
      StakeStage treasury back trace (.unstaked u .finish r)
  /-- Nothing is left to run. -/
  | done (r : PromiseResult) (settled : StakeSettled host wnear q treasury back trace r) :
      StakeStage treasury back trace (.continuing .finish r)

end Definitions

/-! ## One more execution -/

section Steps

variable {H : Type} {host : Host H} {q : StakeRequest} {treasury receiver pool : AccountId}
  {kept held kept' held' : ℕ} {e : PoolExecution H} {trace : List (PoolExecution H)}
  {o : StakeOrder} {u : UnstakeOrder H} {n : ℕ}

/-- What an execution does to the ledger adds up. -/
theorem Holds.cons {own : List (Movement AccountId)}
    (h : Holds treasury receiver pool kept held trace)
    (hmoves : Moves e.before e.after (.create treasury (feeOf e) :: own))
    (heffect : ∀ a, effect own a = (if a = receiver then (kept' : ℤ) - kept else 0) +
      (if a = pool then (held' : ℤ) - held else 0))
    (htotal : (created own : ℤ) - destroyed own = kept' + held' - kept - held) :
    Holds treasury receiver pool kept' held' (e :: trace) where
  balance_eq a := by
    have hlast := hmoves.balance a
    rw [effect_cons, Movement.effect_create, heffect a] at hlast
    rw [List.map_cons, List.sum_cons, h.balance_eq a, List.map_cons, List.sum_cons]
    split_ifs at hlast ⊢ <;> omega
  supply_eq := by
    have hlast := hmoves.supply
    simp only [destroyed_cons, Movement.destroys_create, created_cons,
      Movement.creates_create] at hlast
    rw [List.map_cons, List.sum_cons, h.supply_eq, List.map_cons, List.sum_cons]
    omega

/-- An execution that changes nothing. -/
theorem feeOf_eq_zero (h : e.after = e.before) : feeOf e = 0 := by
  unfold feeOf
  rw [rewardIn_eq_zero (by rw [h]), LiquidStakingToken.feeMinted_zero]

/-- An execution that changes nothing. -/
theorem KeepsQueue.of_same (h : e.after = e.before) : KeepsQueue e := ⟨by rw [h], by rw [h]⟩

/-- One more execution that leaves the queue alone. -/
theorem Unqueued.cons (h : Unqueued trace) (hlast : KeepsQueue e) : Unqueued (e :: trace) := by
  intro e' mem
  rcases List.mem_cons.mp mem with rfl | hold
  · exact hlast
  · exact h e' hold

/-- Nothing done, nothing changed. -/
theorem SoFar.same (h : SoFar host q treasury kept held trace) (hsame : e.after = e.before) :
    SoFar host q treasury kept held (e :: trace) where
  holds := by
    have hquiet : Moves e.before e.after [.create treasury (feeOf e)] := by
      rw [feeOf_eq_zero hsame]
      exact (Moves.quiet (congrArg _ hsame)).cons_zero rfl
    exact h.holds.cons hquiet (fun a => by simp) (by simp)
  unqueued := h.unqueued.cons (.of_same hsame)

/-- A quote stays the quote of its stake. -/
theorem OrderOf.cons (h : OrderOf q o trace) : OrderOf q o (e :: trace) :=
  { h with priced := h.priced.imp fun _ ⟨mem, eq⟩ => ⟨List.mem_cons_of_mem _ mem, eq⟩ }

/-- An unstake stays an unstake of its stake. -/
theorem TakenBack.cons (h : TakenBack host q o u trace) : TakenBack host q o u (e :: trace) :=
  { h with priced := h.priced.imp fun _ ⟨mem, eq⟩ => ⟨List.mem_cons_of_mem _ mem, eq⟩ }

/-- What is owed stays owed. -/
theorem Owed.cons (h : Owed host q trace n) : Owed host q (e :: trace) n := by
  cases h with
  | deposit => exact .deposit
  | stake o order e' mem task failed =>
      exact .stake o order.cons e' (List.mem_cons_of_mem _ mem) task failed

/-- What has been sent back stays sent back. -/
theorem SentBack.cons {wnear : AccountId} {r : PromiseResult}
    (h : SentBack host wnear q back trace n r) : SentBack host wnear q back (e :: trace) n r := by
  cases h with
  | neverUnwrapped wrapped e' mem task r answer failed =>
      exact .neverUnwrapped wrapped e' (List.mem_cons_of_mem _ mem) task r answer failed
  | rewrapped wrapped n owed e' mem task r answer =>
      exact .rewrapped wrapped n owed.cons e' (List.mem_cons_of_mem _ mem) task r answer
  | transferred native n owed e' mem task r answer =>
      exact .transferred native n owed.cons e' (List.mem_cons_of_mem _ mem) task r answer
  | bounced native e' mem panicked carries refundTo =>
      exact .bounced native e' (List.mem_cons_of_mem _ mem) panicked carries refundTo

variable [DecidableEq H] {env : Env} {s s' : LiquidStakingToken H} {p p' : Phase H}
  {side : List (Receipt H)} {wnear : AccountId} {rest : List (Receipt H)}

/-- Of the receipts of a stake only an `on_unstake` whose validator action
succeeded touches the queue. -/
theorem Advance.keepsQueue (h : Advance host env s p s' p' side) (hplain : p.attempt = none)
    (hunqueued : ∀ u k r, p = .unstaked u k r → resultOk r = false) :
    s'.withdrawalRequests = s.withdrawalRequests ∧
      s'.statistics.totalPendingWithdrawals = s.statistics.totalPendingWithdrawals := by
  cases h with
  | unwrapQuoted ok s₁ result o synced | unwrapRejected ok s₁ result synced =>
      exact ⟨synced.queue_eq.1, synced.queue_eq.2⟩
  | refused message message_eq t used burned resolved s₁ u lst_eq trigger_eq unstakes =>
      obtain ⟨result, synced⟩ := unstakes.synced
      exact ⟨synced.queue_eq.1, synced.queue_eq.2⟩
  | unstakeRequested message parsed s₁ u lst_eq trigger_eq unstakes =>
      obtain ⟨result, synced⟩ := unstakes.synced
      exact ⟨synced.queue_eq.1, synced.queue_eq.2⟩
  | queued ok =>
      rw [hunqueued _ _ _ rfl] at ok
      cases ok
  | paidNative | unpaidNative | paidWnear | unpaidWnear => cases hplain
  | _ => exact ⟨rfl, rfl⟩

omit [DecidableEq H] in
/-- A receipt of a stake before its `on_unstake`. -/
theorem SoFar.cons {own : List (Movement AccountId)} (h : SoFar host q treasury kept held trace)
    (kept' held' : ℕ) (hmoves : Moves e.before e.after (.create treasury (feeOf e) :: own))
    (hqueue : KeepsQueue e)
    (heffect : ∀ a, effect own a =
      (if a = q.args.receiverId then (kept' : ℤ) - kept else 0) +
        (if a = host.currentAccountId then (held' : ℤ) - held else 0))
    (htotal : (created own : ℤ) - destroyed own = kept' + held' - kept - held) :
    SoFar host q treasury kept' held' (e :: trace) :=
  ⟨h.holds.cons hmoves heffect htotal, h.unqueued.cons hqueue⟩

omit [DecidableEq H] in
/-- A receipt that moves no LST. -/
theorem SoFar.unmoved (h : SoFar host q treasury kept held trace)
    (hmoves : Moves e.before e.after [.create treasury (feeOf e)]) (hqueue : KeepsQueue e) :
    SoFar host q treasury kept held (e :: trace) :=
  h.cons kept held hmoves hqueue (fun a => by simp) (by simp)

omit [DecidableEq H] in
/-- The mint goes to the pool's account. -/
theorem SoFar.minted (h : SoFar host q treasury 0 0 trace)
    (hmoves : Moves e.before e.after
      [.create treasury (feeOf e), .create host.currentAccountId n]) (hqueue : KeepsQueue e) :
    SoFar host q treasury 0 n (e :: trace) :=
  h.cons 0 n hmoves hqueue (fun a => by simp) (by simp)

omit [DecidableEq H] in
/-- A rollback burns what was minted. -/
theorem SoFar.rolledBack (h : SoFar host q treasury 0 n trace)
    (hmoves : Moves e.before e.after
      [.create treasury (feeOf e), .destroy host.currentAccountId n]) (hqueue : KeepsQueue e) :
    SoFar host q treasury 0 0 (e :: trace) := by
  refine h.cons 0 0 hmoves hqueue (fun a => ?_) (by simp)
  rw [effect_cons, effect_nil, Movement.effect_destroy]
  split_ifs <;> omega

omit [DecidableEq H] in
/-- What was minted is handed over. -/
theorem SoFar.handedOver (h : SoFar host q treasury 0 n trace)
    (hmoves : Moves e.before e.after [.create treasury (feeOf e),
      .transfer host.currentAccountId q.args.receiverId n]) (hqueue : KeepsQueue e) :
    SoFar host q treasury n 0 (e :: trace) := by
  refine h.cons n 0 hmoves hqueue (fun a => ?_) (by simp)
  rw [effect_cons, effect_nil, Movement.effect_transfer]
  split_ifs <;> omega

omit [DecidableEq H] in
/-- A quote for the request, in the state its sync has left. -/
theorem OrderOf.of_quoted (hquoted : Quoted e.after o) (sender_eq : o.senderId = q.senderId)
    (args_eq : o.args = q.args) (deposit_eq : o.depositAmount = q.deposit)
    (token_eq : o.depositToken = q.token) : OrderOf q o (e :: trace) where
  sender_eq := sender_eq
  args_eq := args_eq
  token_eq := token_eq
  deposit_eq := deposit_eq
  split := by
    have hsplit := hquoted.deposit_eq
    rw [args_eq, deposit_eq] at hsplit
    exact hsplit.symm
  lst_pos := hquoted.lst_pos
  priced := ⟨e, List.mem_cons_self, hquoted.lst_eq⟩

/-- The receiver has all LST, and nothing is left to run. -/
theorem StakeStage.allKept {r : PromiseResult} (order : OrderOf q o trace)
    (soFar : SoFar host q treasury o.lstTokens 0 trace)
    (reported : r = .successful (.ofU128 0) ∨ r = .failed) :
    StakeStage host wnear q treasury back trace (.continuing .finish r) :=
  .done _ (.placed o o.lstTokens 0 0 ⟨order, soFar.holds, rfl, .nothing soFar.unqueued,
    fun h => absurd h (lt_irrefl 0), reported.imp_right (⟨·, rfl⟩)⟩)

/-- After the validator action: the LST are handed over, or stay with the pool,
or the stake is rolled back. -/
theorem StakeStage.advance_restaked {r : PromiseResult} (order : OrderOf q o trace)
    (soFar : SoFar host q treasury 0 o.lstTokens trace) (hkeeps : KeepsQueue e)
    (hinput : e.input = some r)
    (htasks : (Phase.restaked o.toMintedStake r).tasks host wnear = e.task :: rest)
    (hmoves : Moves e.before e.after
      (.create treasury (feeOf e) :: (Phase.restaked o.toMintedStake r).journal host e.before))
    (hadvance : Advance host e.context e.before (.restaked o.toMintedStake r) s' p' side) :
    StakeStage host wnear q treasury back (e :: trace) p' := by
  obtain ⟨htask, -⟩ := List.cons.inj htasks
  have hreceiver : o.args.receiverId = q.args.receiverId := by rw [order.args_eq]
  cases hadvance with
  -- The receiver unregistered meanwhile: the LST stay where they were minted.
  | keptOnPool ok gone =>
      simp only [Phase.journal, ok, gone, if_true, Bool.false_eq_true, if_false] at hmoves
      have hnext := soFar.unmoved hmoves hkeeps
      refine .done _ (.placed o 0 o.lstTokens 0 ⟨order.cons, hnext.holds, by omega,
        .nothing hnext.unqueued, fun _ => ?_, .inl rfl⟩)
      exact .unregistered e List.mem_cons_self htask.symm (hreceiver ▸ gone)
  | handedOver ok registered =>
      simp only [Phase.journal, ok, registered, if_true] at hmoves
      rw [hreceiver] at hmoves
      exact .allKept order.cons (soFar.handedOver hmoves hkeeps) (.inl rfl)
  | handedOverCall ok registered escrow msg =>
      simp only [Phase.journal, ok, registered, if_true] at hmoves
      rw [hreceiver] at hmoves
      have hstage : StakeStage host wnear q treasury back (e :: trace) _ :=
        .sending o order.cons (soFar.handedOver hmoves hkeeps) msg
          (calculateMinGas q.args.minGas true)
      rw [← order.args_eq, ← order.sender_eq] at hstage
      exact hstage
  | rolledBack failed escrow supply staked =>
      simp only [Phase.journal, failed, Bool.false_eq_true, if_false] at hmoves
      have hnext := soFar.rolledBack hmoves hkeeps
      have howed : Owed host q (e :: trace) o.stakeAmount :=
        .stake o order.cons e List.mem_cons_self htask.symm ⟨r, hinput, failed⟩
      cases htoken : o.depositToken with
      | native =>
          have hstage : StakeStage host wnear q treasury back (e :: trace) _ :=
            .paying (order.token_eq.symm.trans htoken) _ howed hnext
          rw [← order.sender_eq] at hstage
          exact hstage
      | wnear => exact .rewrapping (order.token_eq.symm.trans htoken) _ howed hnext

/-- After the receiver's answer: it keeps all LST, or what it did not use is
unstaked. -/
theorem StakeStage.advance_notifying {r : PromiseResult} (order : OrderOf q o trace)
    (soFar : SoFar host q treasury o.lstTokens 0 trace) (hkeeps : KeepsQueue e)
    (hpool : e.before.token.isRegistered host.currentAccountId = true)
    (hmoves : Moves e.before e.after (.create treasury (feeOf e) ::
      (Phase.continuing (.notify o.lstTokens q.args) r).journal host e.before))
    (hafter : e.after = s') (hadvance : Advance host e.context e.before
      (.continuing (.notify o.lstTokens q.args) r) s' p' side) :
    StakeStage host wnear q treasury back (e :: trace) p' := by
  cases hadvance with
  | acceptedAsIs noRefund =>
      simp only [Phase.journal, noRefund, Option.isSome_none, Bool.false_eq_true,
        if_false] at hmoves
      exact .allKept order.cons (soFar.unmoved hmoves hkeeps) (.inl rfl)
  | nothingRefused message message_eq t used burned resolved all =>
      have hnone : e.before.refundOf q.args.receiverId o.lstTokens r = 0 := by
        rw [← resolved.refund_eq hpool, Nat.sub_eq_zero_of_le all]
      simp only [Phase.journal, message_eq, Option.isSome_some, if_true, hnone] at hmoves
      have hnext := soFar.cons o.lstTokens 0 hmoves hkeeps (fun a => by simp) (by simp)
      exact .allKept order.cons hnext (.inl rfl)
  -- What the receiver did not use is burned at once, and its NEAR owed.
  | refused message message_eq t used burned resolved s₁ u lst_eq trigger_eq unstakes =>
      have hrefund := lst_eq.trans (resolved.refund_eq hpool)
      have hle : u.lstAmount ≤ o.lstTokens := lst_eq ▸ Nat.sub_le _ _
      simp only [Phase.journal, message_eq, Option.isSome_some, if_true, ← hrefund] at hmoves
      refine .unstaking o order.cons u ⟨hle, unstakes.lst_pos, unstakes.near_pos,
        ⟨message, message_eq, unstakes.hash_eq⟩, trigger_eq,
        ⟨e, List.mem_cons_self, s₁, hafter, unstakes.near_eq⟩⟩ ?_ _ _
      refine soFar.cons _ _ hmoves hkeeps (fun a => ?_) ?_
      · simp only [effect_cons, effect_nil, Movement.effect_transfer, Movement.effect_destroy]
        split_ifs <;> omega
      · simp only [created_cons, created_nil, destroyed_cons, destroyed_nil,
          Movement.creates_transfer, Movement.creates_destroy, Movement.destroys_transfer,
          Movement.destroys_destroy]
        omega

/-- After the validator action of the refund's unstake: its NEAR is queued, or
its LST are put back. -/
theorem StakeStage.advance_unstaked {r : PromiseResult} (order : OrderOf q o trace)
    (taken : TakenBack host q o u trace)
    (soFar : SoFar host q treasury (o.lstTokens - u.lstAmount) 0 trace)
    (hqueue : resultOk r = false → KeepsQueue e) (hinput : e.input = some r)
    (htasks : (Phase.unstaked u .finish r).tasks host wnear = e.task :: rest)
    (hmoves : Moves e.before e.after
      (.create treasury (feeOf e) :: (Phase.unstaked u .finish r).journal host e.before))
    (hafter : e.after = s')
    (hadvance : Advance host e.context e.before (.unstaked u .finish r) s' p' side) :
    StakeStage host wnear q treasury back (e :: trace) p' := by
  obtain ⟨htask, -⟩ := List.cons.inj htasks
  have hle := taken.le
  cases hadvance with
  | queued ok queue appended room =>
      simp only [Phase.journal, ok, if_true] at hmoves
      have hholds : Holds treasury q.args.receiverId host.currentAccountId
          (o.lstTokens - u.lstAmount) 0 (e :: trace) :=
        soFar.holds.cons hmoves (fun a => by simp) (by simp)
      refine .done _ (.placed o (o.lstTokens - u.lstAmount) 0 u.lstAmount ⟨order.cons, hholds,
        by omega, .queued u taken.cons ⟨[], e, trace, rfl, ⟨?_, ?_⟩, soFar.unqueued⟩,
        fun h => absurd h (lt_irrefl 0), .inl rfl⟩)
      · rw [hafter]
        exact appended
      · rw [hafter]
        rfl
  -- The unstake of the refund failed: its LST are minted back, to the pool's
  -- account and not to the receiver's.
  | undone failed bounded =>
      have hkeeps := hqueue failed
      simp only [Phase.journal, failed, Bool.false_eq_true, if_false] at hmoves
      have hnext := soFar.cons (o.lstTokens - u.lstAmount) u.lstAmount hmoves hkeeps
        (fun a => by simp) (by simp)
      rw [taken.trigger]
      exact .done _ (.placed o (o.lstTokens - u.lstAmount) u.lstAmount 0 ⟨order.cons,
        hnext.holds, by omega, .nothing hnext.unqueued,
        fun _ => .refundFailed u taken.cons e List.mem_cons_self htask.symm ⟨r, hinput, failed⟩,
        .inl rfl⟩)

/-- **A callback that commits** takes a stake to its next stage.

By cases on the stage; the journal of the callback says what it adds to the
ledger, and for all but the last callback the queue stays. -/
theorem StakeStage.advance (h : StakeStage host wnear q treasury back trace p)
    (hne : q.args.receiverId ≠ host.currentAccountId)
    (hback : q.token = .wnear → back = none)
    (hpool : e.before.token.isRegistered host.currentAccountId = true)
    (hinput : e.input = p.input) (htasks : p.tasks host wnear = e.task :: rest)
    (hmoves : Moves e.before e.after (.create treasury (feeOf e) :: p.journal host e.before))
    (hafter : e.after = s') (hadvance : Advance host e.context e.before p s' p' side) :
    StakeStage host wnear q treasury back (e :: trace) p' := by
  -- The queue changes only where an unstake or a withdrawal settles, so nearly
  -- every case below needs this.
  have hqueue : p.attempt = none → (∀ u k r, p = .unstaked u k r → resultOk r = false) →
      KeepsQueue e := fun hplain hunqueued =>
    have hkept := hadvance.keepsQueue hplain hunqueued
    ⟨hafter ▸ hkept.1, hafter ▸ hkept.2⟩
  cases h with
  | unwrapping | restaking | rewrapping | paying | unstaking => cases hadvance
  | unwrapped wrapped soFar r e' mem task answer =>
      have hnext := soFar.unmoved hmoves (hqueue rfl fun _ _ _ hp => by cases hp)
      cases hadvance with
      | unwrapFailed failed covered =>
          exact .done _ (.sentBack _ (.neverUnwrapped wrapped e' (List.mem_cons_of_mem _ mem) task r
            answer failed) hnext)
      | unwrapQuoted ok s₁ result o synced quoted sender_eq args_eq deposit_eq token_eq =>
          subst hafter
          have horder : OrderOf q o (e :: trace) := .of_quoted quoted sender_eq args_eq deposit_eq
            (token_eq.trans wrapped.symm)
          -- For wNEAR the batch has nobody to pay a rest to.
          obtain rfl := hback wrapped
          exact .batching o horder hnext
      | unwrapRejected ok s₁ result synced covered => exact .rewrapping wrapped _ .deposit hnext
  | batching o order soFar =>
      have hnext := soFar.minted hmoves (hqueue rfl fun _ _ _ hp => by cases hp)
      cases hadvance with
      | minted | mintedRegistering => exact .minted o order.cons hnext
  -- The batch panicked, so the next callback can only send the NEAR back.
  | unminted o order soFar e' mem task panicked =>
      have hnext := soFar.unmoved hmoves (hqueue rfl fun _ _ _ hp => by cases hp)
      cases hadvance with
      | restake ok => cases ok
      | restakeRefund failed wrapped covered =>
          rw [order.deposit_eq]
          exact .rewrapping (order.token_eq.symm.trans wrapped) _ .deposit hnext
  | minted o order soFar =>
      have hnext := soFar.unmoved hmoves (hqueue rfl fun _ _ _ hp => by cases hp)
      cases hadvance with
      | restake ok => exact .restaking o order.cons hnext _ _
      | restakeRefund failed => cases failed
  | restaked o order soFar r =>
      exact .advance_restaked order soFar (hqueue rfl fun _ _ _ hp => by cases hp) hinput htasks
        hmoves hadvance
  | rewrapped wrapped n owed soFar r e' mem task answer =>
      have hnext := soFar.unmoved hmoves (hqueue rfl fun _ _ _ hp => by cases hp)
      cases hadvance with
      | rewrapped =>
          exact .done _ (.sentBack n (.rewrapped wrapped n owed.cons e'
            (List.mem_cons_of_mem _ mem) task r answer) hnext)
  | sending o order soFar msg gas =>
      have hhere := hadvance.place_eq
      rw [Phase.place, if_neg hne] at hhere
      cases hhere
  | notifying o order soFar r =>
      exact .advance_notifying order soFar (hqueue rfl fun _ _ _ hp => by cases hp) hpool hmoves
        hafter hadvance
  | unstaked o order u taken soFar r =>
      refine .advance_unstaked order taken soFar (fun failed => ?_) hinput htasks hmoves hafter
        hadvance
      exact hqueue rfl fun _ _ _ hp => by
        cases hp
        exact failed
  | done r settled => cases hadvance

/-- **A callback that panics** is one that may, and leaves the value where it
is.

The next callback finds the failure, or the chain has ended. -/
theorem StakeStage.panicked (h : StakeStage host wnear q treasury back trace p)
    (hne : q.args.receiverId ≠ host.currentAccountId) (hruns : SettlesStake e)
    (hinput : e.input = p.input) (htasks : p.tasks host wnear = e.task :: rest)
    (hhere : p.place host = .here) (hverdict : e.verdict = .panicked)
    (hsame : e.after = e.before) :
    StakeStage host wnear q treasury back (e :: trace) (p.settle .failed) := by
  have hmay : mayPanic e = true := by
    unfold SettlesStake at hruns
    rw [hverdict] at hruns
    exact hruns
  -- A panic here is one of those that `mayPanic` allows: the batch, its
  -- callback after a failed native batch, or the callback of a notification.
  unfold mayPanic at hmay
  cases h with
  | unwrapping | restaking | rewrapping | paying | unstaking | done => cases hhere
  | unwrapped | restaked | rewrapped | unstaked =>
      obtain ⟨htask, -⟩ := List.cons.inj htasks
      rw [← htask] at hmay
      exact absurd hmay Bool.false_ne_true
  | batching o order soFar =>
      obtain ⟨htask, -⟩ := List.cons.inj htasks
      exact .unminted o order.cons (soFar.same hsame) e List.mem_cons_self htask.symm hverdict
  | unminted o order soFar e' mem task panicked =>
      obtain ⟨htask, -⟩ := List.cons.inj htasks
      rw [← htask] at hmay
      obtain ⟨htoken, -⟩ := of_decide_eq_true hmay
      have hnative := order.token_eq.symm.trans htoken
      -- The NEAR of the batch goes back by itself, as the batch is the receipt
      -- that panicked.
      have hcarries : e'.task.carries = q.deposit := by
        rw [task, o.batch_carries, StakeOrder.carried, htoken, order.args_eq]
        exact order.split
      have hrefundTo : e'.task.refundTo = back := by rw [task]; rfl
      exact .done _ (.sentBack _ (.bounced hnative e' (List.mem_cons_of_mem _ mem) panicked
        hcarries hrefundTo) (soFar.same hsame))
  | minted o order soFar =>
      obtain ⟨htask, -⟩ := List.cons.inj htasks
      rw [← htask] at hmay
      obtain ⟨-, hfailed⟩ := of_decide_eq_true hmay
      unfold inputFailed at hfailed
      rw [hinput] at hfailed
      cases hfailed
  | sending o order soFar msg gas =>
      rw [Phase.place, if_neg hne] at hhere
      cases hhere
  | notifying o order soFar r =>
      exact .allKept order.cons (soFar.same hsame) (.inr rfl)

/-- **An answer from elsewhere** decides where a stake goes next. -/
theorem StakeStage.answered (h : StakeStage host wnear q treasury back trace p) {r : PromiseResult}
    (htasks : p.tasks host wnear = e.task :: rest) (haway : p.place host = .away)
    (hverdict : e.verdict = .answered r) (hsame : e.after = e.before) :
    StakeStage host wnear q treasury back (e :: trace) (p.settle r) := by
  cases h with
  | unwrapped | batching | unminted | minted | restaked | rewrapped | notifying | unstaked
  | done => cases haway
  | unwrapping wrapped soFar =>
      obtain ⟨htask, -⟩ := List.cons.inj htasks
      exact .unwrapped wrapped (soFar.same hsame) r e List.mem_cons_self htask.symm hverdict
  | restaking o order soFar => exact .restaked o order.cons (soFar.same hsame) r
  | rewrapping wrapped n owed soFar =>
      obtain ⟨htask, -⟩ := List.cons.inj htasks
      exact .rewrapped wrapped n owed.cons (soFar.same hsame) r e List.mem_cons_self htask.symm
        hverdict
  | paying native n owed soFar =>
      obtain ⟨htask, -⟩ := List.cons.inj htasks
      exact .done r (.sentBack n (.transferred native n owed.cons e List.mem_cons_self htask.symm r
        hverdict) (soFar.same hsame))
  | sending o order soFar msg gas => exact .notifying o order.cons (soFar.same hsame) r
  | unstaking o order u taken soFar =>
      exact .unstaked o order.cons u taken.cons (soFar.same hsame) r

end Steps

/-! ## The ends exclude each other -/

section Exclusive

variable {H : Type} {treasury receiver pool : AccountId} {trace : List (PoolExecution H)}

/-- What a trace has done to the supply is one number. -/
theorem Holds.unique {kept held kept' held' : ℕ}
    (h : Holds treasury receiver pool kept held trace)
    (h' : Holds treasury receiver pool kept' held' trace) : kept + held = kept' + held' := by
  have hsupply := h.supply_eq.symm.trans h'.supply_eq
  omega

end Exclusive

/-! ## Runs -/

section Reaches

variable {H : Type} [DecidableEq H] {host : Host H} {d : Deployment host}
  {events : List (PoolEvent H)} {sys : PoolSystem H} {c : PoolChain H} {e : PoolExecution H}
  {Good : PoolEvent H → Prop} {p : Phase H}

/-- The message of a wNEAR stake is parsed as its chain has it. -/
theorem Deployment.book_parsed {senderId : AccountId} {amount deposit gas : ℕ} {msg : String}
    {args : StakeMessage} {ret : Return H} {side : List (Receipt H)}
    (turn : d.Turn Good events sys c e) (hfresh : c = Chain.single e.task)
    (htask : e.task.actions = [.call (.ftOnTransfer senderId amount msg) deposit gas])
    (hwnear : e.context.predecessorAccountId = e.before.wnearId)
    (hnext : Describes host d.wnearId (c.resume e) (.unwrapping senderId amount args))
    (hverdict : e.verdict = .committed ret side) : host.parseStakeMessage msg = some args := by
  have hlegal := turn.fires.legal
  simp only [Platform.Legal, hverdict] at hlegal
  obtain ⟨_, -, hmethod⟩ := bind_eq_ok.mp (execute_call htask hlegal.2.2)
  have hsource : (e.context.forCall deposit e.input).predecessorAccountId = e.before.wnearId :=
    hwnear
  simp only [LiquidStakingToken.ftOnTransfer, bind_eq_ok, hsource, if_true,
    LiquidStakingToken.handleStaking, pure_eq_ok, expect_eq_ok] at hmethod
  obtain ⟨_, -, args', hparsed, _, -, _, -, s₁, -, hout⟩ := hmethod
  have hret : ret = .promise _ := (congrArg Committed.ret hout).symm
  have htasks := hnext.tasks_eq
  rw [Chain.resume_tasks, Execution.next, hverdict, hret, hfresh] at htasks
  have hsecond := (List.cons.inj (List.cons.inj htasks).2).1
  have hmessage : args' = args := by
    have hactions := congrArg Receipt.actions hsecond
    simp only [Receipt.call, List.cons.injEq, Action.call.injEq, Method.onNearWithdraw.injEq,
      and_true, true_and] at hactions
    exact hactions.1
  rw [hparsed, hmessage]

end Reaches

end LiquidStaking
