import LiquidStaking.Escrow

/-!
# A user's unstake is all or nothing

The chain of an `ft_transfer_call` to the pool has three receipts when its
message is refused: the transfer, the `ft_on_transfer` that panics, the
resolver.  Otherwise there are five, with the validator action and `on_unstake`
in between.  `Stage` lists where such a chain can be, and what each of its
executions did.

Other chains run between its receipts, so what it changed is summed over its own
executions (`Chain.net`).  When it is done, either the LST are burned and one
amount went from the stake to the queue, or everything is as it was, apart from
the reward its sync recognized.  The resolver can tell the two apart because the
LST it is to return are still on the pool's account: that is the escrow of
`LiquidStaking.Escrow`.
-/

namespace LiquidStaking

open Checked PromiseChain

section Definitions

variable {H : Type} [DecidableEq H] (host : Host H) (sender : AccountId) (amount : ℕ) (msg : String)

/-- The transfer to the pool. -/
structure SentToPool (e : PoolExecution H) : Prop where
  /-- The token library refuses transfers to oneself. -/
  sender_ne : sender ≠ host.currentAccountId
  pos : 0 < amount
  le : amount ≤ e.before.token.ftBalanceOf sender
  after_eq : e.after = e.before.retokenBoth
    (e.before.token.move sender host.currentAccountId amount) sender host.currentAccountId

/-- The execution is that of the pool's `ft_on_transfer` for the transfer. -/
def AsksPool (e : PoolExecution H) : Prop :=
  ∃ gas, e.task = .call host.currentAccountId (.ftOnTransfer sender amount msg) 0 gas

/-- The pool's `ft_on_transfer` burned the LST and started `u`, after a sync to
`s₁`. -/
structure BurnedFor (message : UnstakeMessage) (s₁ : LiquidStakingToken H) (u : UnstakeOrder H)
    (e : PoolExecution H) : Prop where
  asked : AsksPool host sender amount msg e
  parsed : host.parseUnstakeMessage msg = some message
  lst_eq : u.lstAmount = amount
  unstakes : Unstakes host e.context e.before message s₁ u
  after_eq : e.after = u.burn host s₁

/-- The resolver returned the LST, or burned them because their sender is gone.

The index is what the resolver reports as used, which is everything when the LST
were burned. -/
inductive GaveBack (e : PoolExecution H) : PromiseResult → Prop
  /-- The sender has its LST again. -/
  | returned (le : amount ≤ e.before.token.ftBalanceOf host.currentAccountId)
      (after_eq : e.after = e.before.retokenBoth
        (e.before.token.move host.currentAccountId sender amount) sender host.currentAccountId) :
      GaveBack e (.successful (.ofU128 0))
  /-- The sender has unregistered meanwhile. -/
  | burned (gone : e.before.token.isRegistered sender = false)
      (le : amount ≤ e.before.token.ftBalanceOf host.currentAccountId)
      (supply : amount ≤ e.before.token.totalSupply)
      (after_eq : e.after = e.before.retokenBoth
        (e.before.token.burn host.currentAccountId amount) sender host.currentAccountId) :
      GaveBack e (.successful (.ofU128 amount))

/-- Where the chain of a user's unstake is, and what its executions did, newest
first.

The states before and after an execution are those of the contract at that time;
between two executions it may have changed. -/
inductive Stage : List (PoolExecution H) → Phase H → Prop
  /-- The LST are on the pool's account. -/
  | sent {e₀ : PoolExecution H} (gas : ℕ) (sent : SentToPool host sender amount e₀) :
      Stage [e₀] (.sending host.currentAccountId sender amount msg gas
        (.resolve sender host.currentAccountId amount))
  /-- The pool's `ft_on_transfer` panicked. -/
  | refused {e₀ e₁ : PoolExecution H} (sent : SentToPool host sender amount e₀)
      (asked : AsksPool host sender amount msg e₁) (same : e₁.after = e₁.before) :
      Stage [e₁, e₀] (.continuing (.resolve sender host.currentAccountId amount) .failed)
  /-- The LST are burned, and the validator is asked. -/
  | unstaking {e₀ e₁ : PoolExecution H} {message : UnstakeMessage} {s₁ : LiquidStakingToken H}
      {u : UnstakeOrder H} (stake : ℕ) (key : PublicKey) (sent : SentToPool host sender amount e₀)
      (burned : BurnedFor host sender amount msg message s₁ u e₁) :
      Stage [e₁, e₀] (.unstaking u stake key (.resolve sender host.currentAccountId amount))
  /-- The validator action has a result. -/
  | unstaked {e₀ e₁ e₂ : PoolExecution H} {message : UnstakeMessage} {s₁ : LiquidStakingToken H}
      {u : UnstakeOrder H} (r : PromiseResult) (sent : SentToPool host sender amount e₀)
      (burned : BurnedFor host sender amount msg message s₁ u e₁) (same : e₂.after = e₂.before) :
      Stage [e₂, e₁, e₀] (.unstaked u (.resolve sender host.currentAccountId amount) r)
  /-- The NEAR is queued. -/
  | queued {e₀ e₁ e₂ e₃ : PoolExecution H} {message : UnstakeMessage}
      {s₁ : LiquidStakingToken H} {u : UnstakeOrder H} {q : WithdrawalRequests H}
      (sent : SentToPool host sender amount e₀)
      (burned : BurnedFor host sender amount msg message s₁ u e₁) (same : e₂.after = e₂.before)
      (appended : WithdrawalRequests.appendRequest e₃.before.withdrawalRequests
        e₃.context.epochHeight u.hash u.nearAmount = .ok q)
      (after_eq : e₃.after = (e₃.before.withQueue q).addPending u.nearAmount) :
      Stage [e₃, e₂, e₁, e₀] (.continuing (.resolve sender host.currentAccountId amount)
        (.successful (.ofU128 0)))
  /-- The LST are minted again. -/
  | undone {e₀ e₁ e₂ e₃ : PoolExecution H} {message : UnstakeMessage}
      {s₁ : LiquidStakingToken H} {u : UnstakeOrder H} (sent : SentToPool host sender amount e₀)
      (burned : BurnedFor host sender amount msg message s₁ u e₁) (same : e₂.after = e₂.before)
      (after_eq : e₃.after = u.undo host e₃.before) :
      Stage [e₃, e₂, e₁, e₀] (.continuing (.resolve sender host.currentAccountId amount)
        (.successful (.ofU128 amount)))
  /-- The resolver had nothing to return. -/
  | settled {e₄ : PoolExecution H} {trace : List (PoolExecution H)}
      (before : Stage trace (.continuing (.resolve sender host.currentAccountId amount)
        (.successful (.ofU128 0)))) (same : e₄.after = e₄.before) :
      Stage (e₄ :: trace) (.continuing .finish (.successful (.ofU128 amount)))
  /-- The resolver returned all of it. -/
  | givenBack {e : PoolExecution H} {trace : List (PoolExecution H)} {r result : PromiseResult}
      (before : Stage trace (.continuing (.resolve sender host.currentAccountId amount) r))
      (refused : r = .failed ∨ r = .successful (.ofU128 amount))
      (back : GaveBack host sender amount e result) :
      Stage (e :: trace) (.continuing .finish result)

/-- The chain's sync took the state from `s₀` to `s₁`.  It is the sync of the
chain's second execution, the pool's `ft_on_transfer`: this burns at the rate of
`s₁`, or it panics, and then its sync is taken back as well. -/
def SyncedIn (c : PoolChain H) (s₀ s₁ : LiquidStakingToken H) : Prop :=
  ∃ newer e e₀, c.trace = newer ++ [e, e₀] ∧ AsksPool host sender amount msg e ∧
    e.before = s₀ ∧ ((e.after = s₀ ∧ s₁ = s₀) ∨
      ∃ message u, BurnedFor host sender amount msg message s₁ u e)

/-- The LST are burned, and their NEAR went from the stake to the queue.

All amounts are those of the executions of the chain itself, with the change
that its sync made taken apart. -/
structure UnstakeDone (message : UnstakeMessage) (s₀ s₁ : LiquidStakingToken H)
    (c : PoolChain H) : Prop where
  /-- The unstake is worth something. -/
  near_pos : 0 < s₁.nearFor amount
  /-- The stake is lowered by what the LST are worth right after the sync. -/
  staked_eq : c.net (fun s => s.statistics.totalStakedAmount) =
    s₁.statistics.totalStakedAmount - s₀.statistics.totalStakedAmount - s₁.nearFor amount
  /-- The same amount is pending. -/
  pending_eq : c.net (fun s => s.statistics.totalPendingWithdrawals) = s₁.nearFor amount
  /-- One execution appends under the message's hash, the others leave the queue
  alone. -/
  queue_eq : ∃ newer e older, c.trace = newer ++ e :: older ∧
    WithdrawalRequests.appendRequest e.before.withdrawalRequests e.context.epochHeight
      (host.hash message) (s₁.nearFor amount) = .ok e.after.withdrawalRequests ∧
    ∀ e' ∈ newer ++ older, e'.after.withdrawalRequests = e'.before.withdrawalRequests
  /-- The LST are gone from the supply. -/
  supply_eq : c.net (fun s => s.token.totalSupply) =
    s₁.token.totalSupply - s₀.token.totalSupply - amount
  /-- They are gone from their sender, and nobody else is touched. -/
  balance_eq : ∀ a, c.net (fun s => s.token.ftBalanceOf a) =
    s₁.token.ftBalanceOf a - s₀.token.ftBalanceOf a - if a = sender then amount else 0
  /-- The resolver reports all of them as used. -/
  reported : c.input = some (.successful (.ofU128 amount))

/-- Apart from the sync everything is as it was, with the LST back, or burned
because their sender is gone. -/
structure UnstakeUndone (s₀ s₁ : LiquidStakingToken H) (c : PoolChain H) : Prop where
  /-- The stake is what the sync has left. -/
  staked_eq : c.net (fun s => s.statistics.totalStakedAmount) =
    s₁.statistics.totalStakedAmount - s₀.statistics.totalStakedAmount
  /-- Nothing is pending. -/
  pending_eq : c.net (fun s => s.statistics.totalPendingWithdrawals) = 0
  /-- No execution touched the queue. -/
  queue_eq : ∀ e ∈ c.trace, e.after.withdrawalRequests = e.before.withdrawalRequests
  /-- The LST are with their sender again, or the sender had unregistered. -/
  returned :
    (c.net (fun s => s.token.totalSupply) = s₁.token.totalSupply - s₀.token.totalSupply ∧
      (∀ a, c.net (fun s => s.token.ftBalanceOf a) =
        s₁.token.ftBalanceOf a - s₀.token.ftBalanceOf a) ∧
      c.input = some (.successful (.ofU128 0))) ∨
    (∃ e older, c.trace = e :: older ∧ e.before.token.isRegistered sender = false) ∧
      c.net (fun s => s.token.totalSupply) =
        s₁.token.totalSupply - s₀.token.totalSupply - amount ∧
      (∀ a, c.net (fun s => s.token.ftBalanceOf a) =
        s₁.token.ftBalanceOf a - s₀.token.ftBalanceOf a - if a = sender then amount else 0) ∧
      c.input = some (.successful (.ofU128 amount))

end Definitions

/-! ## What the executions of such a chain change -/

section Deltas

variable {H : Type} {host : Host H} {sender : AccountId} {amount : ℕ}
  {msg : String} {message : UnstakeMessage} {s₁ : LiquidStakingToken H} {u : UnstakeOrder H}
  {e : PoolExecution H} {r : PromiseResult}

/-- A move, account by account. -/
theorem ftBalanceOf_move_sub {t : FungibleToken} {a b : AccountId} {n : ℕ}
    (h : n ≤ t.ftBalanceOf a) (c : AccountId) :
    ((t.move a b n).ftBalanceOf c : ℤ) - t.ftBalanceOf c =
      (if c = b then n else 0 : ℕ) - (if c = a then n else 0 : ℕ) := by
  rw [FungibleToken.ftBalanceOf_move _ _ _ _ _ h]
  split_ifs <;> subst_vars <;> first | omega | contradiction

/-- A burn, account by account. -/
theorem ftBalanceOf_burn_sub {t : FungibleToken} {a : AccountId} {n : ℕ}
    (h : n ≤ t.ftBalanceOf a) (c : AccountId) :
    ((t.burn a n).ftBalanceOf c : ℤ) - t.ftBalanceOf c = -(if c = a then n else 0 : ℕ) := by
  rw [FungibleToken.ftBalanceOf_burn]
  split_ifs <;> subst_vars <;> omega

/-- A mint, account by account. -/
theorem ftBalanceOf_mint_sub {t : FungibleToken} {a : AccountId} {n : ℕ} (c : AccountId) :
    ((t.mint a n).ftBalanceOf c : ℤ) - t.ftBalanceOf c = (if c = a then n else 0 : ℕ) := by
  rw [FungibleToken.ftBalanceOf_mint]
  split_ifs <;> subst_vars <;> omega

/-- The transfer, account by account. -/
theorem SentToPool.balance_eq (h : SentToPool host sender amount e) (a : AccountId) :
    (e.after.token.ftBalanceOf a : ℤ) - e.before.token.ftBalanceOf a =
      (if a = host.currentAccountId then amount else 0 : ℕ) -
        (if a = sender then amount else 0 : ℕ) := by
  rw [h.after_eq]
  exact ftBalanceOf_move_sub h.le a

/-- The burn, account by account. -/
theorem BurnedFor.balance_eq (h : BurnedFor host sender amount msg message s₁ u e) (a : AccountId) :
    (e.after.token.ftBalanceOf a : ℤ) =
      s₁.token.ftBalanceOf a - (if a = host.currentAccountId then amount else 0 : ℕ) := by
  have hle := h.unstakes.lst_le
  rw [h.after_eq, ← h.lst_eq]
  have hburned := ftBalanceOf_burn_sub hle a
  have htoken : (u.burn host s₁).token = s₁.token.burn host.currentAccountId u.lstAmount := rfl
  rw [htoken]
  omega

/-- The burn, for the supply. -/
theorem BurnedFor.supply_eq (h : BurnedFor host sender amount msg message s₁ u e) :
    (e.after.token.totalSupply : ℤ) = s₁.token.totalSupply - amount := by
  have hle := h.unstakes.supply_le
  rw [h.after_eq, ← h.lst_eq]
  have hburned : (u.burn host s₁).token.totalSupply = s₁.token.totalSupply - u.lstAmount := rfl
  omega

/-- The burn, for the stake. -/
theorem BurnedFor.staked_eq (h : BurnedFor host sender amount msg message s₁ u e) :
    (e.after.statistics.totalStakedAmount : ℤ) =
      s₁.statistics.totalStakedAmount - u.nearAmount := by
  have hle := h.unstakes.near_le
  rw [h.after_eq]
  have hburned : (u.burn host s₁).statistics.totalStakedAmount =
    s₁.statistics.totalStakedAmount - u.nearAmount := rfl
  omega

/-- A burn leaves the counter of the queue alone, and the sync before it does. -/
theorem BurnedFor.queue_eq (h : BurnedFor host sender amount msg message s₁ u e) :
    e.after.statistics.totalPendingWithdrawals = e.before.statistics.totalPendingWithdrawals ∧
      e.after.withdrawalRequests = e.before.withdrawalRequests := by
  obtain ⟨result, synced⟩ := h.unstakes.synced
  rw [h.after_eq]
  exact ⟨synced.queue_eq.2, synced.queue_eq.1⟩

/-- A chain that burned was synced in the same execution. -/
theorem BurnedFor.syncedIn {c : PoolChain H} {e₀ : PoolExecution H}
    (h : BurnedFor host sender amount msg message s₁ u e) (newer : List (PoolExecution H))
    (htrace : c.trace = newer ++ [e, e₀]) : SyncedIn host sender amount msg c e.before s₁ :=
  ⟨newer, e, e₀, htrace, h.asked, rfl, .inr ⟨message, u, h⟩⟩

/-- What the resolver changes: nothing but the ledger of the LST. -/
theorem GaveBack.same (h : GaveBack host sender amount e r) :
    e.after.statistics.totalStakedAmount = e.before.statistics.totalStakedAmount ∧
      e.after.statistics.totalPendingWithdrawals = e.before.statistics.totalPendingWithdrawals ∧
      e.after.withdrawalRequests = e.before.withdrawalRequests := by
  cases h with
  | returned le after_eq | burned gone le supply after_eq =>
      rw [after_eq]
      exact ⟨rfl, rfl, rfl⟩

end Deltas

/-! ## The two ends of such a chain -/

section Settled

variable {H : Type} [DecidableEq H] {host : Host H} {sender : AccountId} {amount : ℕ}
  {msg : String} {message : UnstakeMessage} {s₁ : LiquidStakingToken H} {u : UnstakeOrder H}
  {c : PoolChain H} {r : PromiseResult}

omit [DecidableEq H] in
/-- A reported number can be read back. -/
theorem ofU128_inj {m n : ℕ}
    (h : (PromiseResult.successful (Payload.ofU128 m) : PromiseResult) =
      .successful (Payload.ofU128 n)) : m = n :=
  Option.some.inj (congrArg Payload.u128 (PromiseResult.successful.inj h))

/-- A chain that queued its unstake.

Five executions, of which two change the ledger of the LST, and one the queue. -/
theorem unstakeDone_of_queued {e₀ e₁ e₂ e₃ e₄ : PoolExecution H} {q : WithdrawalRequests H}
    (htrace : c.trace = [e₄, e₃, e₂, e₁, e₀])
    (hinput : c.input = some (.successful (.ofU128 amount)))
    (sent : SentToPool host sender amount e₀)
    (burned : BurnedFor host sender amount msg message s₁ u e₁) (same₂ : e₂.after = e₂.before)
    (appended : WithdrawalRequests.appendRequest e₃.before.withdrawalRequests
      e₃.context.epochHeight u.hash u.nearAmount = .ok q)
    (after_eq : e₃.after = (e₃.before.withQueue q).addPending u.nearAmount)
    (same₄ : e₄.after = e₄.before) :
    UnstakeDone host sender amount message e₁.before s₁ c := by
  have hnear : u.nearAmount = s₁.nearFor amount := by
    rw [burned.unstakes.near_eq, burned.lst_eq]
  have hnet : ∀ f : LiquidStakingToken H → ℤ, c.net f =
      (f e₃.after - f e₃.before) + (f e₁.after - f e₁.before) + (f e₀.after - f e₀.before) := by
    intro f
    simp only [Chain.net, htrace, List.map_cons, List.map_nil, List.sum_cons, List.sum_nil, same₂,
      same₄]
    omega
  refine ⟨hnear ▸ burned.unstakes.near_pos, ?_, ?_, ?_, ?_, ?_, hinput⟩
  · have hstaked := burned.staked_eq
    rw [hnet, after_eq, sent.after_eq, ← hnear]
    simp only [LiquidStakingToken.addPending_statistics_totalStakedAmount,
      LiquidStakingToken.withQueue_statistics,
      LiquidStakingToken.retokenBoth_statistics_totalStakedAmount]
    omega
  · have hpending := burned.queue_eq.1
    rw [hnet, after_eq, sent.after_eq, ← hnear]
    simp only [LiquidStakingToken.addPending_statistics_totalPendingWithdrawals,
      LiquidStakingToken.withQueue_statistics,
      LiquidStakingToken.retokenBoth_statistics_totalPendingWithdrawals]
    omega
  · refine ⟨[e₄], e₃, [e₂, e₁, e₀], htrace, ?_, ?_⟩
    · rw [after_eq, ← burned.unstakes.hash_eq, ← hnear]
      exact appended
    · intro e' hmem
      simp only [List.cons_append, List.nil_append, List.mem_cons, List.not_mem_nil, or_false]
        at hmem
      rcases hmem with rfl | rfl | rfl | rfl
      · rw [same₄]
      · rw [same₂]
      · exact burned.queue_eq.2
      · rw [sent.after_eq]
        rfl
  · have hsupply := burned.supply_eq
    rw [hnet, after_eq, sent.after_eq]
    simp only [LiquidStakingToken.addPending_token, LiquidStakingToken.withQueue_token,
      LiquidStakingToken.retokenBoth_token, FungibleToken.move_totalSupply]
    omega
  · intro a
    have hsent := sent.balance_eq a
    have hburned := burned.balance_eq a
    rw [hnet, after_eq]
    simp only [LiquidStakingToken.addPending_token, LiquidStakingToken.withQueue_token]
    omega

omit [DecidableEq H] in
/-- A chain whose LST the resolver gave back, when its other executions changed
nothing but what the sync did, and left the LST with the pool. -/
theorem unstakeUndone_of_givenBack {e : PoolExecution H} {trace : List (PoolExecution H)}
    {s₀ : LiquidStakingToken H} (htrace : c.trace = e :: trace) (hinput : c.input = some r)
    (back : GaveBack host sender amount e r)
    (hstaked : (trace.map fun e => (e.after.statistics.totalStakedAmount : ℤ) -
      e.before.statistics.totalStakedAmount).sum =
        s₁.statistics.totalStakedAmount - s₀.statistics.totalStakedAmount)
    (hpending : (trace.map fun e => (e.after.statistics.totalPendingWithdrawals : ℤ) -
      e.before.statistics.totalPendingWithdrawals).sum = 0)
    (hqueue : ∀ e ∈ trace, e.after.withdrawalRequests = e.before.withdrawalRequests)
    (hsupply : (trace.map fun e => (e.after.token.totalSupply : ℤ) -
      e.before.token.totalSupply).sum = s₁.token.totalSupply - s₀.token.totalSupply)
    (hbalance : ∀ a, (trace.map fun e => (e.after.token.ftBalanceOf a : ℤ) -
      e.before.token.ftBalanceOf a).sum = s₁.token.ftBalanceOf a - s₀.token.ftBalanceOf a +
        (if a = host.currentAccountId then amount else 0 : ℕ) -
          (if a = sender then amount else 0 : ℕ)) :
    UnstakeUndone sender amount s₀ s₁ c := by
  -- What the chain did before, and then the resolver.
  have hnet : ∀ f : LiquidStakingToken H → ℤ, c.net f =
      (f e.after - f e.before) + (trace.map fun e => f e.after - f e.before).sum := by
    intro f
    rw [Chain.net, htrace, List.map_cons, List.sum_cons]
  obtain ⟨hsame, hsame', hsame''⟩ := back.same
  refine ⟨?_, ?_, ?_, ?_⟩
  · rw [hnet, hstaked, hsame]
    omega
  · rw [hnet, hpending, hsame']
    omega
  · intro e' hmem
    rw [htrace] at hmem
    rcases List.mem_cons.mp hmem with rfl | hold
    · exact hsame''
    · exact hqueue e' hold
  · cases back with
    | returned le after_eq =>
        refine .inl ⟨?_, fun a => ?_, hinput⟩
        · rw [hnet, hsupply, after_eq]
          simp only [LiquidStakingToken.retokenBoth_token, FungibleToken.move_totalSupply]
          omega
        · have hmove := ftBalanceOf_move_sub (b := sender) le a
          rw [hnet, hbalance, after_eq]
          simp only [LiquidStakingToken.retokenBoth_token]
          omega
    | burned gone le supply after_eq =>
        refine .inr ⟨⟨e, trace, htrace, gone⟩, ?_, fun a => ?_, hinput⟩
        · rw [hnet, hsupply, after_eq]
          simp only [LiquidStakingToken.retokenBoth_token, FungibleToken.burn_totalSupply]
          omega
        · have hburn := ftBalanceOf_burn_sub le a
          rw [hnet, hbalance, after_eq]
          simp only [LiquidStakingToken.retokenBoth_token]
          split_ifs at * <;> omega

/-- Both ways of giving back, from where the resolver starts. -/
theorem Stage.undone_of_refused {e : PoolExecution H} {trace : List (PoolExecution H)}
    {r₀ : PromiseResult} (htrace : c.trace = e :: trace) (hinput : c.input = some r)
    (stage : Stage host sender amount msg trace
      (.continuing (.resolve sender host.currentAccountId amount) r₀))
    (hrefused : r₀ = .failed ∨ r₀ = .successful (.ofU128 amount))
    (back : GaveBack host sender amount e r) :
    ∃ s₀ s₁, SyncedIn host sender amount msg c s₀ s₁ ∧
      UnstakeUndone sender amount s₀ s₁ c := by
  cases stage with
  -- The pool's own call has panicked, and with it the sync.
  | @refused e₀ e₁ sent asked same =>
      refine ⟨e₁.before, e₁.before, ⟨[e], e₁, e₀, htrace, asked, rfl, .inl ⟨same, rfl⟩⟩, ?_⟩
      refine unstakeUndone_of_givenBack htrace hinput back ?_ ?_ ?_ ?_ fun a => ?_
      · simp [same, sent.after_eq]
      · simp [same, sent.after_eq]
      · intro e' hmem
        rcases List.mem_pair.mp hmem with rfl | rfl
        · rw [same]
        · rw [sent.after_eq]
          rfl
      · simp [same, sent.after_eq]
      · have hsent := sent.balance_eq a
        simp only [List.map_cons, List.map_nil, List.sum_cons, List.sum_nil, same]
        omega
  -- The validator action has failed: what the burn took out, `on_unstake` has
  -- put back.
  | @undone e₀ e₁ e₂ e₃ message s₁ u sent burned same after_eq =>
      refine ⟨e₁.before, s₁, burned.syncedIn [e, e₃, e₂] htrace, ?_⟩
      refine unstakeUndone_of_givenBack htrace hinput back ?_ ?_ ?_ ?_ fun a => ?_
      · have hstaked := burned.staked_eq
        simp only [List.map_cons, List.map_nil, List.sum_cons, List.sum_nil, same, after_eq,
          sent.after_eq, UnstakeOrder.undo_statistics_totalStakedAmount,
          LiquidStakingToken.retokenBoth_statistics_totalStakedAmount]
        omega
      · have hpending := burned.queue_eq.1
        simp only [List.map_cons, List.map_nil, List.sum_cons, List.sum_nil, same, after_eq,
          sent.after_eq, hpending, UnstakeOrder.undo_statistics_totalPendingWithdrawals,
          LiquidStakingToken.retokenBoth_statistics_totalPendingWithdrawals]
        omega
      · intro e' hmem
        simp only [List.mem_cons, List.not_mem_nil, or_false] at hmem
        rcases hmem with rfl | rfl | rfl | rfl
        · rw [after_eq]
          rfl
        · rw [same]
        · exact burned.queue_eq.2
        · rw [sent.after_eq]
          rfl
      · have hsupply := burned.supply_eq
        have hlst := burned.lst_eq
        simp only [List.map_cons, List.map_nil, List.sum_cons, List.sum_nil, same, after_eq,
          sent.after_eq, UnstakeOrder.undo_token, LiquidStakingToken.retokenBoth_token,
          FungibleToken.mint_totalSupply, FungibleToken.move_totalSupply]
        omega
      · have hsent := sent.balance_eq a
        have hburned := burned.balance_eq a
        have hminted := ftBalanceOf_mint_sub (t := e₃.before.token)
          (a := host.currentAccountId) (n := u.lstAmount) a
        rw [burned.lst_eq] at hminted
        simp only [List.map_cons, List.map_nil, List.sum_cons, List.sum_nil, same, after_eq,
          UnstakeOrder.undo_token, burned.lst_eq]
        omega
  | queued sent =>
      rcases hrefused with h | h
      · cases h
      · -- A queued unstake reports zero, and more than that was sent.
        exact absurd (ofU128_inj h) sent.pos.ne

/-- **A chain that is done** went through or was undone, and not both.

The two exclude each other since the pending total has changed in the one and
not in the other. -/
theorem Stage.all_or_nothing (htrace : Stage host sender amount msg c.trace (.continuing .finish r))
    (hinput : c.input = some r) :
    ∃ s₀ s₁, SyncedIn host sender amount msg c s₀ s₁ ∧ Xor
      (∃ message, host.parseUnstakeMessage msg = some message ∧
        UnstakeDone host sender amount message s₀ s₁ c)
      (UnstakeUndone sender amount s₀ s₁ c) := by
  have hexclusive : ∀ {message s₀ s₁}, UnstakeDone host sender amount message s₀ s₁ c →
      UnstakeUndone sender amount s₀ s₁ c → False := by
    intro message s₀ s₁ hdone hundone
    have hpos := hdone.near_pos
    have hpending := hdone.pending_eq.symm.trans hundone.pending_eq
    omega
  generalize htr : c.trace = trace at htrace
  cases htrace with
  | @settled e₄ trace before same₄ =>
      generalize hzero : PromiseResult.successful (Payload.ofU128 0) = r₀ at before
      cases before with
      | refused => cases hzero
      | undone sent => exact absurd (ofU128_inj hzero) sent.pos.ne
      | @queued e₀ e₁ e₂ e₃ message s₁ u q sent burned same₂ appended after_eq =>
          have hdone := unstakeDone_of_queued htr hinput sent burned same₂ appended after_eq same₄
          exact ⟨e₁.before, s₁, burned.syncedIn [e₄, e₃, e₂] htr,
            .inl ⟨⟨message, burned.parsed, hdone⟩, fun hundone => hexclusive hdone hundone⟩⟩
  | givenBack before refused back =>
      obtain ⟨s₀, s₁, hsynced, hundone⟩ := Stage.undone_of_refused htr hinput before refused back
      exact ⟨s₀, s₁, hsynced, .inr ⟨hundone, fun ⟨_, _, hdone⟩ => hexclusive hdone hundone⟩⟩

end Settled

/-! ## From one stage to the next -/

section Stages

variable {H : Type} [DecidableEq H] {host : Host H} {sender : AccountId} {amount : ℕ}
  {msg : String} {e : PoolExecution H} {trace : List (PoolExecution H)} {p p' : Phase H}
  {s' : LiquidStakingToken H} {side : List (Receipt H)}

omit [DecidableEq H] in
/-- LST refused in full are given back in full. -/
theorem gaveBack_of_resolved {t : FungibleToken} {used burned : ℕ}
    (hresolved : FungibleToken.Resolved amount amount sender host.currentAccountId e.before.token
      t used burned)
    (hheld : amount ≤ e.before.token.ftBalanceOf host.currentAccountId) (hpos : 0 < amount)
    (hbalanced : e.before.token.Balanced)
    (hafter : e.after = e.before.retokenBoth t sender host.currentAccountId) :
    GaveBack host sender amount e (.successful (.ofU128 used)) := by
  cases hresolved with
  | kept none => omega
  | returned refund refund_eq pos registered =>
      obtain rfl : refund = amount := by omega
      rw [Nat.sub_self]
      exact .returned hheld hafter
  | burned _ refund_eq pos gone =>
      obtain rfl : burned = amount := by omega
      exact .burned gone hheld (hheld.trans (hbalanced.ftBalanceOf_le _)) hafter

/-- A callback that commits.

By cases on the stage; the phase of the stage determines which callback it is. -/
theorem Stage.advance {wnear : AccountId} {rest : List (Receipt H)}
    (hstage : Stage host sender amount msg trace p) (hvalid : p.Valid host)
    (htasks : p.tasks host wnear = e.task :: rest)
    (hheld : p.escrow host ≤ e.before.token.ftBalanceOf host.currentAccountId)
    (hbalanced : e.before.token.Balanced) (hafter : e.after = s')
    (hadvance : Advance host e.context e.before p s' p' side) :
    Stage host sender amount msg (e :: trace) p' := by
  cases hstage with
  | sent gas sent =>
      cases hadvance with
      | unstakeRequested message parsed s₁ u lst_eq trigger_eq unstakes =>
          have hasked : AsksPool host sender amount msg e :=
            ⟨gas, (List.cons.inj htasks).1.symm⟩
          exact .unstaking _ _ sent ⟨hasked, parsed, lst_eq, unstakes, hafter⟩
  | refused sent asked same =>
      simp only [Phase.escrow, Continuation.escrow, if_true] at hheld
      cases hadvance with
      | resolved t used burned resolved =>
          exact .givenBack (.refused sent asked same) (.inl rfl)
            (gaveBack_of_resolved resolved hheld sent.pos hbalanced hafter)
  | unstaked r sent burned same =>
      cases hadvance with
      | queued ok q appended room => exact .queued sent burned same appended hafter
      | undone failed bounded =>
          rcases hvalid.trigger with ⟨htrigger, -⟩ | ⟨-, hk⟩
          · simp only [htrigger, burned.lst_eq]
            exact .undone sent burned same hafter
          · cases hk
  | @queued e₀ e₁ e₂ e₃ message s₁ u q sent burned same appended after_eq =>
      cases hadvance with
      | resolved t used burned' resolved =>
          have hnone : FungibleToken.unusedAmount
              (some (.successful (.ofU128 0) : PromiseResult)) amount = 0 :=
            FungibleToken.unusedAmount_ofU128_zero amount
          rw [hnone] at resolved
          cases resolved with
          | kept =>
              refine .settled (.queued sent burned same appended after_eq) ?_
              rw [hafter, LiquidStakingToken.retokenBoth_self]
          | returned refund refund_eq pos | burned refund refund_eq pos => omega
  | @undone e₀ e₁ e₂ e₃ message s₁ u sent burned same after_eq =>
      -- The callback has reported the whole amount as unused.
      have hall : FungibleToken.unusedAmount
          (some (.successful (.ofU128 amount) : PromiseResult)) amount = amount :=
        FungibleToken.unusedAmount_ofU128_self amount
      simp only [Phase.escrow, Continuation.escrow, if_true, hall] at hheld
      cases hadvance with
      | resolved t used burned' resolved =>
          rw [hall] at resolved
          exact .givenBack (.undone sent burned same after_eq) (.inr rfl)
            (gaveBack_of_resolved resolved hheld sent.pos hbalanced hafter)
  | unstaking => cases hadvance
  | settled => cases hadvance
  | givenBack => cases hadvance

end Stages

/-! ## Runs -/

section Reaches

variable {H : Type} [DecidableEq H] {host : Host H} {d : Deployment host}
  {events : List (PoolEvent H)} {sys : PoolSystem H} {c : PoolChain H} {e : PoolExecution H}

omit [DecidableEq H] in
/-- A resolver with room for its result does not panic while the receiver holds
the unused LST. -/
theorem ftResolveTransfer_isOk {env : Env} {s : LiquidStakingToken H}
    {senderId receiverId : AccountId} {amount : ℕ} {r : PromiseResult} {keepers : List AccountId}
    (hself : env.predecessorAccountId = host.currentAccountId)
    (hinput : env.promiseResults = [r]) (hne : senderId ≠ receiverId)
    (hheld : FungibleToken.unusedAmount (some r) amount ≤ s.token.ftBalanceOf receiverId)
    (hsound : s.token.Sound keepers) (hsupply : s.token.totalSupply < 2 ^ 128)
    (hroom : s.statistics.numDelegators + 2 < 2 ^ 64) :
    ∃ o, s.ftResolveTransfer host env senderId receiverId amount = .ok o := by
  have hprivate : env.requirePrivate host.currentAccountId = .ok () := require_eq_ok.mpr hself
  have hhead : FungibleToken.unusedAmount env.promiseResults.head? amount =
      FungibleToken.unusedAmount (some r) amount := by rw [hinput]; rfl
  have htwo := hsound.balanced.add_le hne
  have htransfer : ∃ out, s.token.internalFtResolveTransfer env senderId receiverId amount =
      .ok out := by
    rcases Nat.eq_zero_or_pos (FungibleToken.unusedAmount (some r) amount) with hzero | hpos
    · refine ⟨(s.token, amount, 0), ?_⟩
      unfold FungibleToken.internalFtResolveTransfer
      simp [hhead, hzero]
    · cases hregistered : s.token.isRegistered senderId with
      | true => exact ⟨_, FungibleToken.internalFtResolveTransfer_returned hhead hpos hheld hne
          hregistered (by omega)⟩
      | false => exact ⟨_, FungibleToken.internalFtResolveTransfer_burned hhead hpos hheld hne
          hregistered (hheld.trans (hsound.balanced.ftBalanceOf_le _))⟩
  obtain ⟨⟨t, used, burned⟩, htransfer⟩ := htransfer
  unfold LiquidStakingToken.ftResolveTransfer LiquidStakingToken.resolveTransfer
  rw [hprivate, ok_bind, htransfer, ok_bind]
  dsimp only
  rw [LiquidStakingToken.updateBoth_ok _ _ _ hroom]
  exact ⟨_, rfl⟩

/-- The callbacks that must not be cut off. -/
def CallbacksRun (ev : PoolEvent H) : Prop := UnstakeRuns ev ∧ ResolverRuns ev

instance : DecidablePred (CallbacksRun (H := H)) := fun ev => by
  unfold CallbacksRun
  infer_instance

/-- Only what the pool scheduled panics in a run. -/
theorem Deployment.self_of_panicked {Good : PoolEvent H → Prop}
    (turn : d.Turn Good events sys c e) (hverdict : e.verdict = .panicked) :
    e.context.predecessorAccountId = host.currentAccountId := by
  cases turn.origin with
  | fresh eq accepted commits =>
      obtain ⟨ret, detached, hcommitted⟩ := commits
      rw [hverdict] at hcommitted
      cases hcommitted
  | inFlight mem resumed => simpa [platform] using resumed

/-- The resolver of a transfer to the pool runs to its end. -/
theorem Deployment.resolver_not_panicked {sender : AccountId} {amount : ℕ} {r : PromiseResult}
    (turn : d.Turn CallbacksRun events sys c e)
    (hnow : Describes host d.wnearId c
      (.continuing (.resolve sender host.currentAccountId amount) r)) :
    e.verdict ≠ .panicked := by
  intro hverdict
  have hunstake : ∀ ev ∈ events, UnstakeRuns ev := fun ev hev => (turn.good ev hev).1
  have hheld := d.escrow_le_of_mem turn.run hunstake (hnow.mem turn.origin) hnow
  simp only [Phase.escrow, Continuation.escrow, if_true] at hheld
  have hruns := turn.now.2
  obtain ⟨hbefore, hinput, ⟨rest, htasks⟩, hlegal, -⟩ := turn.fires
  obtain ⟨htask, -⟩ := List.cons.inj (htasks.symm.trans hnow.tasks_eq)
  rw [hnow.input_eq] at hinput
  simp only [ResolverRuns, htask, Receipt.call] at hruns
  obtain ⟨hgas, hroom⟩ := hruns
  have hself := d.self_of_panicked turn hverdict
  simp only [Platform.Legal, hverdict] at hlegal
  obtain ⟨-, -, hexhausted | ⟨msg, herror⟩⟩ := hlegal
  · exact absurd (hgas.symm.trans hexhausted) (by decide)
  · have hself' : (e.context.forCall 0 (some r)).predecessorAccountId = host.currentAccountId :=
      hself
    obtain ⟨o, hok⟩ := ftResolveTransfer_isOk hself' rfl hnow.valid.1 (hbefore ▸ hheld)
      (d.turn_sound turn) (hbefore ▸ d.supply_lt turn.run hunstake) hroom
    rw [htask, hinput] at herror
    cases hok.symm.trans herror

/-- The first execution of the chain transferred `amount` LST to the pool, to be
unstaked as `msg` says. -/
def StartedBy (host : Host H) (c : PoolChain H) (e₀ : PoolExecution H) (amount : ℕ)
    (msg : String) : Prop :=
  c.trace.getLast? = some e₀ ∧ ∃ memo deposit gas, e₀.task.actions =
    [.call (.ftTransferCall host.currentAccountId amount memo msg) deposit gas]

/-- Such a chain is in one of its stages.

By the rule for chains that a call has started; what the callbacks do is
`Stage.advance`, and what a panic or an answer does is said here. -/
theorem Deployment.stage (run : d.Reaches events sys)
    (hruns : ∀ ev ∈ events, CallbacksRun ev) :
    ∀ c ∈ sys.chains, ∀ p, Describes host d.wnearId c p → ∀ e₀ amount msg,
      StartedBy host c e₀ amount msg →
        Stage host e₀.context.predecessorAccountId amount msg c.trace p := by
  have hstages := d.forall_started (K := fun e₀ trace p => ∀ amount msg,
    (∃ memo deposit gas, e₀.task.actions =
      [.call (.ftTransferCall host.currentAccountId amount memo msg) deposit gas]) →
    Stage host e₀.context.predecessorAccountId amount msg trace p) ?_ ?_ ?_ ?_ run hruns
  · rintro c hc p hp e₀ amount msg ⟨hlast, memo, deposit, gas, htask⟩
    exact hstages c hc p hp e₀ _ deposit gas hlast htask amount msg ⟨memo, deposit, gas, htask⟩
  · rintro events s c e s₀ s₁ m p side deposit gas turn htask next verdict fresh before after entry
      amount msg ⟨memo, deposit', gas', htask'⟩
    rw [htask] at htask'
    obtain ⟨rfl, -⟩ := Action.call.inj (List.cons.inj htask').1
    cases entry with
    | transferCall _ _ _ _ moved =>
        obtain ⟨hne, hpos, -, -, hle, -⟩ := LiquidStakingToken.transferTokens_eq_ok moved
        subst before
        exact .sent 0 ⟨hne, hpos, hle, after⟩
  · intro events s c e e₀ s₀ s₁ p p' side turn now hstage verdict before after advance amount msg
      hcalls
    have hunstake : ∀ ev ∈ events, UnstakeRuns ev := fun ev hev => (turn.good ev hev).1
    have hheld := d.escrow_le_of_mem turn.run hunstake (now.mem turn.origin) now
    have hbalanced := (d.turn_sound turn).balanced
    rw [← turn.fires.before_eq] at hheld
    subst before
    obtain ⟨rest, hhead⟩ := turn.fires.tasks_eq
    exact (hstage amount msg hcalls).advance now.valid (now.tasks_eq.symm.trans hhead) hheld
      hbalanced after advance
  · intro events s c e e₀ p turn now hstage here verdict same amount msg hcalls
    have hstage := hstage amount msg hcalls
    have hself := d.self_of_panicked turn verdict
    generalize c.trace = trace at hstage
    cases hstage with
    | sent gas sent =>
        obtain ⟨rest, hhead⟩ := turn.fires.tasks_eq
        exact .refused sent ⟨gas, (List.cons.inj (hhead.symm.trans now.tasks_eq)).1⟩ same
    -- `on_unstake` has the gas reserved for it and cannot fail otherwise.
    | unstaked r sent burned same =>
        exact absurd verdict (turn.now.1.not_panicked now turn.fires hself (d.turn_sound turn)
          (turn.fires.before_eq ▸ d.queueSound turn.run))
    | refused | queued | undone => exact absurd verdict (d.resolver_not_panicked turn now)
    | unstaking | settled | givenBack => cases here
  · intro events s c e e₀ p r turn now hstage away verdict same amount msg hcalls
    have hstage := hstage amount msg hcalls
    generalize c.trace = trace at hstage
    cases hstage with
    | sent gas sent => simp [Phase.place] at away
    | unstaking stake key sent burned => exact .unstaked r sent burned same
    | refused | unstaked | queued | undone | settled | givenBack => cases away

/-- **A user's unstake is all or nothing.**  Once the chain of an
`ft_transfer_call` to the pool is done, its LST are burned and one amount, taken
at the rate right after its sync, went from the stake to the queue under the
message's hash; or, apart from that sync, nothing changed and the LST are back
with their sender, or burned because the sender is gone.  Never both, and the
resolver reports which.

`CallbacksRun` says that the resolver and `on_unstake` have the gas they need,
for all chains of the run: an `on_unstake` that is cut off elsewhere could leave
this chain without its LST.  Nothing is assumed of the validator, of the
message, or of what runs in between. -/
theorem Deployment.unstake_all_or_nothing (run : d.Reaches events sys)
    (hruns : ∀ ev ∈ events, CallbacksRun ev) (hmem : c ∈ sys.chains) (hdone : c.tasks = [])
    {e₀ : PoolExecution H} {amount : ℕ} {msg : String} (hstarted : StartedBy host c e₀ amount msg) :
    ∃ s₀ s₁, SyncedIn host e₀.context.predecessorAccountId amount msg c s₀ s₁ ∧ Xor
      (∃ message, host.parseUnstakeMessage msg = some message ∧
        UnstakeDone host e₀.context.predecessorAccountId amount message s₀ s₁ c)
      (UnstakeUndone e₀.context.predecessorAccountId amount s₀ s₁ c) := by
  obtain ⟨p, hnow⟩ := (d.phased run).described c hmem
  have hstage := d.stage run hruns c hmem p hnow e₀ amount msg hstarted
  have htasks := hnow.tasks_eq.symm.trans hdone
  generalize htrace : c.trace = trace at hstage
  cases hstage with
  | settled before same =>
      exact Stage.all_or_nothing (htrace ▸ .settled before same) hnow.input_eq
  | givenBack before refused back =>
      exact Stage.all_or_nothing (htrace ▸ .givenBack before refused back) hnow.input_eq
  | sent | refused | unstaking | unstaked | queued | undone => cases htasks

/-- The treasury unstakes 40 LST for `bob`, and the validator action succeeds. -/
theorem Deployment.unstake_all_or_nothing_sample :
    ∃ c ∈ (samplePool.played (sampleUnstake "native") rfl).2.chains, ∃ s₀ s₁,
      SyncedIn sampleHost "treasury" 40 "native" c s₀ s₁ ∧
        UnstakeDone sampleHost "treasury" 40 ⟨"bob", .native⟩ s₀ s₁ c := by
  have hne : (samplePool.played (sampleUnstake "native") rfl).2.chains ≠ [] := by
    decide +kernel
  have htasks : ∀ c ∈ (samplePool.played (sampleUnstake "native") rfl).2.chains,
      c.tasks = [] := by decide +kernel
  have hpending : ∀ c ∈ (samplePool.played (sampleUnstake "native") rfl).2.chains,
      c.net (fun s => (s.statistics.totalPendingWithdrawals : ℤ)) ≠ 0 := by decide +kernel
  have hmem := List.head_mem hne
  obtain ⟨s₀, s₁, hsynced, hone⟩ := samplePool.unstake_all_or_nothing
    (samplePool.played_reaches (sampleUnstake "native") rfl) (by decide +kernel) hmem
    (htasks _ hmem) ⟨rfl, none, oneYocto, 0, rfl⟩
  refine ⟨_, hmem, s₀, s₁, hsynced, ?_⟩
  rcases hone with ⟨⟨message, hparsed, hdone⟩, -⟩ | ⟨hundone, -⟩
  · obtain rfl := Option.some.inj hparsed
    exact hdone
  · exact absurd hundone.pending_eq (hpending _ hmem)

end Reaches

end LiquidStaking
