import LiquidStaking.Pending

/-!
# Locks and deliveries

A `withdraw` locks what has matured under the hash of its message, and the
settlement callback of the same chain releases the lock.  As long as no admin
releases locks by hand, the locked tranches are exactly those of the delivery
chains that are still in flight and of those whose settlement panicked
(`Deployment.count_locksAt`).  With one lock under each hash that means: at most
one delivery is in flight for a hash, and its callback finds the tranche it
locked.

The rest of the file follows the amounts: what was appended under a hash is
still queued there or was settled as delivered
(`Deployment.queued_add_delivered`).
-/

namespace LiquidStaking

open Checked PromiseChain

section Definitions

variable {H : Type} [DecidableEq H]

/-- The settlement callback of a delivery under `hash`.  There are two, one for
each token. -/
def Receipt.settles (hash : H) (t : Receipt H) : Bool :=
  match t.actions with
  | [.call (.onWithdrawNative h _) _ _] => decide (h = hash)
  | [.call (.onWithdrawWnear h _ _ _ _) _ _] => decide (h = hash)
  | _ => false

/-- The tranche a chain locked when it began. -/
def lockedBy (host : Host H) (c : PoolChain H) : Option Tranche :=
  (attemptOf host c.trace).map Attempt.tranche

/-- The chain is an unsettled delivery of `t` under `hash`.

Its settlement is still among its receipts, and its `withdraw` has locked `t`. -/
def delivers (host : Host H) (hash : H) (t : Tranche) (c : PoolChain H) : Bool :=
  c.tasks.any (Receipt.settles hash) && decide (lockedBy host c = some t)

/-- The event is a settlement of `t` under `hash` that panicked.

Its lock is undone by nobody: the tranche stays locked until an admin releases
it. -/
def settlementPanicked (host : Host H) (hash : H) (t : Tranche) (ev : PoolEvent H) : Bool :=
  match ev.execution.verdict with
  | .panicked => ev.execution.task.settles hash && decide (lockedBy host ev.chain = some t)
  | _ => false

/-- What a wNEAR settlement with result `r` counts as delivered: what was
consumed and the registration; everything, when a failed `ft_transfer_call` is
written off; nothing, when a plain transfer failed. -/
def wnearDelivered (amountToSend storageToPay : ℕ) (isCall : Bool) (r : PromiseResult) : ℕ :=
  match r with
  | .failed => if isCall then amountToSend + storageToPay else 0
  | .successful v =>
      (if isCall then min (v.u128.getD 0) amountToSend else amountToSend) + storageToPay

/-- What a settlement callback with this result counts as delivered under
`hash`. -/
def Receipt.delivered (hash : H) (t : Receipt H) (input : Option PromiseResult) : ℕ :=
  match t.actions, input with
  | [.call (.onWithdrawNative h amount) _ _], some r =>
      if h = hash ∧ resultOk r = true then amount else 0
  | [.call (.onWithdrawWnear h amountToSend _ storageToPay isCall) _ _], some r =>
      if h = hash then wnearDelivered amountToSend storageToPay isCall r else 0
  | _, _ => 0

/-- What an `on_unstake` with this result appends under `hash`. -/
def Receipt.appended (hash : H) (t : Receipt H) (input : Option PromiseResult) : ℕ :=
  match t.actions, input with
  | [.call (.onUnstake _ nearAmount h _) _ _], some r =>
      if h = hash ∧ resultOk r = true then nearAmount else 0
  | _, _ => 0

/-- What an event settles as delivered under `hash`. -/
def deliveredUnder (hash : H) (ev : PoolEvent H) : ℕ :=
  match ev.execution.verdict with
  | .committed _ _ => ev.execution.task.delivered hash ev.execution.input
  | _ => 0

/-- What an event appends under `hash`. -/
def appendedUnder (hash : H) (ev : PoolEvent H) : ℕ :=
  match ev.execution.verdict with
  | .committed _ _ => ev.execution.task.appended hash ev.execution.input
  | _ => 0

/-- What is queued under `hash`, locked or not. -/
def queuedUnder (hash : H) (q : WithdrawalRequests H) : ℕ :=
  Tranches.sum Tranche.withdrawalAmount (WithdrawalRequests.tranchesAt q hash)

/-- The receipt calls `force_release_lock`. -/
def Receipt.releasesByHand (t : Receipt H) : Bool :=
  match t.actions with
  | [.call (.forceReleaseLock _) _ _] => true
  | _ => false

/-- The event is not a call of `force_release_lock`.

A lock that is released while its delivery is in flight can be taken again, and
the same claim be paid twice. -/
abbrev Unforced (ev : PoolEvent H) : Prop := ev.execution.task.releasesByHand = false

end Definitions

section Phases

variable {H : Type} [DecidableEq H] {host : Host H} {wnear : AccountId} {hash : H}
  {c : PoolChain H} {p : Phase H} {k : H × Tranche}

/-- What a chain in phase `p` holds a lock on: one for its attempt, and zero for
everything else. -/
def Phase.holds (host : Host H) (p : Phase H) (k : H × Tranche) : ℤ :=
  match p.attempt with
  | some a => if a.hash host = k.1 ∧ a.tranche = k.2 then 1 else 0
  | none => 0

/-- The batch of a delivery is not its settlement. -/
theorem Attempt.batch_settles (a : Attempt) (wnear : AccountId) :
    (a.batch host wnear).settles hash = false := by
  unfold Receipt.settles Attempt.batch LiquidStakingToken.deliveryActions
  cases a.msg <;> split_ifs <;> rfl

/-- The settlement callback is in the tasks of a delivery only. -/
theorem Phase.any_settles (host : Host H) (wnear : AccountId) (p : Phase H) (hash : H) :
    (p.tasks host wnear).any (Receipt.settles hash) =
      match p.attempt with
      | some a => decide (a.hash host = hash)
      | none => false := by
  cases p with
  | continuing k r | sending receiver senderId amount msg gas k | unstaking u amount key k
  | unstaked u k r => cases k <;> rfl
  | batching o refundTo =>
      have hbatch : (o.batch host refundTo).settles hash = false := by
        unfold Receipt.settles StakeOrder.batch
        cases o.depositToken <;> cases o.args.isStorageDeposit <;> rfl
      simp only [Phase.tasks, List.any_cons, hbatch, List.any_nil, Phase.attempt]
      rfl
  | deliveringWnear a =>
      simp only [Phase.tasks, Phase.attempt, List.any_cons, a.batch_settles, List.any_nil]
      simp [Receipt.settles, LiquidStakingToken.onWithdrawWnearCall, Receipt.call]
  | deliveringNative a | deliveredNative a r | deliveredWnear a r =>
      simp [Phase.tasks, Phase.attempt, Receipt.settles, LiquidStakingToken.withdrawNative,
        LiquidStakingToken.onWithdrawWnearCall, Receipt.call, Receipt.pay]
  | _ => rfl

/-- A chain delivers what its phase holds a lock on. -/
theorem Describes.delivers_eq (h : Describes host wnear c p) (k : H × Tranche) :
    (if delivers host k.1 k.2 c then 1 else 0) = p.holds host k := by
  unfold delivers Phase.holds lockedBy
  rw [h.tasks_eq, Phase.any_settles]
  cases hattempt : p.attempt with
  | none => simp
  | some a => simp [h.attempt_eq a hattempt]

/-- The next receipt of a chain settles a delivery only in the two last phases
of one. -/
theorem Describes.settles_eq {t : Receipt H} {rest : List (Receipt H)}
    (h : Describes host wnear c p) (htasks : c.tasks = t :: rest) (hplace : p.place host = .here)
    (k : H × Tranche) :
    (if t.settles k.1 && decide (lockedBy host c = some k.2) then 1 else 0) = p.holds host k := by
  rw [h.tasks_eq] at htasks
  unfold Phase.holds lockedBy
  cases hattempt : p.attempt with
  | none =>
      have hany := p.any_settles host wnear k.1
      rw [hattempt, htasks, List.any_cons, Bool.or_eq_false_iff] at hany
      simp [hany.1]
  | some a =>
      rw [h.attempt_eq a hattempt]
      cases p with
      | deliveredNative a' r | deliveredWnear a' r =>
          obtain rfl := Option.some.inj hattempt
          obtain ⟨rfl, -⟩ := List.cons.inj htasks
          simp [Receipt.settles, LiquidStakingToken.onWithdrawWnearCall, Receipt.call]
      | deliveringNative | deliveringWnear => cases hplace
      | _ => cases hattempt

end Phases

/-! ## Locked tranches and the chains that hold them -/

section Locks

variable {H : Type} [DecidableEq H] {host : Host H} {wnear : AccountId} {env : Env}
  {s s' : LiquidStakingToken H} {hash : H}

/-- How often a tranche is locked under a hash. -/
def lockCount (s : LiquidStakingToken H) (k : H × Tranche) : ℤ :=
  (WithdrawalRequests.locksAt s.withdrawalRequests k.1).count k.2

/-- Another set of locks under one hash. -/
theorem lockCount_of_effect {t : LiquidStakingToken H} {f : Tranche → ℕ} {ls : List Tranche}
    {gain loss : ℕ}
    (h : WithdrawalRequests.Effect f s.withdrawalRequests t.withdrawalRequests hash ls gain loss)
    (k : H × Tranche) :
    lockCount t k = if hash = k.1 then (ls.count k.2 : ℤ) else lockCount s k := by
  unfold lockCount
  by_cases hk : hash = k.1
  · rw [if_pos hk, ← hk, h.locks.count_eq]
  · rw [if_neg hk, h.locksAt_of_ne (Ne.symm hk)]

/-- With the same queue the same tranches are locked. -/
theorem lockCount_of_eq (h : s'.withdrawalRequests = s.withdrawalRequests) :
    lockCount s' = lockCount s := by
  unfold lockCount
  rw [h]

/-- A lock on the attempt's tranche, taken or given back. -/
theorem lockCount_of_lock {t : LiquidStakingToken H} {f : Tranche → ℕ} {a : Attempt}
    {ls : List Tranche} {gain loss : ℕ}
    (hnone : WithdrawalRequests.locksAt s.withdrawalRequests (a.hash host) = ls)
    {ls' : List Tranche}
    (h : WithdrawalRequests.Effect f s.withdrawalRequests t.withdrawalRequests (a.hash host) ls'
      gain loss) (k : H × Tranche) :
    lockCount t k - lockCount s k =
      if a.hash host = k.1 then (ls'.count k.2 : ℤ) - ls.count k.2 else 0 := by
  rw [lockCount_of_effect h]
  split_ifs with hk
  · rw [← hnone, hk]
    rfl
  · exact sub_self _

/-- Calls from outside lock what their chain then holds.

Only `withdraw` locks, and its chain begins in a delivering phase. -/
theorem Entry.lockCount_eq {m : Method H} {p : Phase H} {side : List (Receipt H)}
    (hentry : Entry host env s m s' p side) (hforce : ∀ hash, m ≠ .forceReleaseLock hash)
    (k : H × Tranche) : lockCount s' k = lockCount s k + p.holds host k := by
  have hsame : s'.withdrawalRequests = s.withdrawalRequests → p.attempt = none →
      lockCount s' k = lockCount s k + p.holds host k := by
    intro hqueue hattempt
    rw [lockCount_of_eq hqueue, Phase.holds, hattempt, add_zero]
  cases hentry with
  | stake args s₁ result o synced => exact hsame synced.queue_eq.1 rfl
  | pingIdle result s₁ synced | ping reward s₁ synced => exact hsame synced.queue_eq.1 rfl
  | setFee feeBps s₁ result _ _ _ synced => exact hsame synced.queue_eq.1 rfl
  | setKey key s₁ result _ _ synced => exact hsame synced.queue_eq.1 rfl
  | withdrawNative a q native swept pos locked | withdrawWnear a q wrapped swept pos locked =>
      obtain ⟨hnone, t, -, heffect⟩ :=
        WithdrawalRequests.amountOfMaturedTranches_effect swept pos
      have hlocked : [t] = [a.tranche] :=
        (List.perm_singleton.mp (heffect Tranches.additive_withdrawalAmount).locks).symm.trans
          locked
      rw [hlocked] at heffect
      have hcount := lockCount_of_lock (t := s.withQueue q) hnone
        (heffect Tranches.additive_withdrawalAmount) k
      simp only [Phase.holds, Phase.attempt]
      by_cases hk : a.hash host = k.1 <;> by_cases ht : a.tranche = k.2 <;>
        simp [hk, ht] at hcount ⊢ <;> omega
  | forceRelease hash => exact absurd rfl (hforce hash)
  | _ => exact hsame rfl rfl

/-- A callback releases the lock its chain held.

With one lock under each hash, the tranche that it releases is the attempt's
own. -/
theorem Advance.lockCount_eq {p p' : Phase H} {side : List (Receipt H)}
    (hadvance : Advance host env s p s' p' side) (hone : WithdrawalRequests.OneLock
      s.withdrawalRequests)
    (hlocked : ∀ a, p.attempt = some a →
      WithdrawalRequests.locksAt s.withdrawalRequests (a.hash host) = [a.tranche])
    (k : H × Tranche) : lockCount s' k + p.holds host k = lockCount s k + p'.holds host k := by
  have hsame : s'.withdrawalRequests = s.withdrawalRequests → p.attempt = none →
      p'.attempt = none →
      lockCount s' k + p.holds host k = lockCount s k + p'.holds host k := by
    intro hqueue hattempt hattempt'
    rw [lockCount_of_eq hqueue, Phase.holds, Phase.holds, hattempt, hattempt']
  -- A settlement: the lock goes together with the attempt that held it.
  have hreleased : ∀ {a : Attempt} {gain : ℕ}, p.attempt = some a → p'.attempt = none →
      WithdrawalRequests.Effect Tranche.withdrawalAmount s.withdrawalRequests
        s'.withdrawalRequests (a.hash host) [] gain 0 →
      lockCount s' k + p.holds host k = lockCount s k + p'.holds host k := by
    intro a gain hattempt hattempt' heffect
    have hcount := lockCount_of_lock (hlocked a hattempt) heffect k
    simp only [Phase.holds, hattempt, hattempt']
    by_cases hk : a.hash host = k.1 <;> by_cases ht : a.tranche = k.2 <;>
      simp [hk, ht] at hcount ⊢ <;> omega
  cases hadvance with
  | unwrapQuoted ok s₁ result o synced => exact hsame synced.queue_eq.1 rfl rfl
  | unwrapRejected ok s₁ result synced => exact hsame synced.queue_eq.1 rfl rfl
  | refused message _ t used burned _ s₁ u _ _ unstakes =>
      obtain ⟨result, synced⟩ := unstakes.synced
      exact hsame synced.queue_eq.1 rfl rfl
  | unstakeRequested message _ s₁ u _ _ unstakes =>
      obtain ⟨result, synced⟩ := unstakes.synced
      exact hsame synced.queue_eq.1 rfl rfl
  | @queued u k' r ok q appended room =>
      have heffect := WithdrawalRequests.appendRequest_effect Tranches.additive_withdrawalAmount
        (fun t _ hzero => hzero) appended
      have hcount := lockCount_of_effect (t := (s.withQueue q).addPending u.nearAmount)
        heffect k
      rw [hcount]
      split_ifs with hk
      · rw [hk]
        rfl
      · rfl
  | paidNative => exact hreleased rfl rfl (WithdrawalRequests.settled_effect _ _)
  | unpaidNative | unpaidWnear =>
      obtain ⟨gain, heffect, -⟩ := hone.released_effect (f := Tranche.withdrawalAmount) _
      exact hreleased rfl rfl heffect
  | @paidWnear a r consumed delivery t locked delivered _ claimed q q_eq =>
      have heffect : ∃ gain, WithdrawalRequests.Effect Tranche.withdrawalAmount
          s.withdrawalRequests (WithdrawalRequests.releaseLock q (a.hash host)).1 (a.hash host)
          [] gain 0 := by
        subst q_eq
        split_ifs with hzero
        · exact ⟨_, WithdrawalRequests.settled_effect _ _⟩
        · exact ⟨_, WithdrawalRequests.shrunk_effect _ (hone.locksAt_eq locked)⟩
      obtain ⟨gain, heffect⟩ := heffect
      exact hreleased rfl rfl heffect
  | @rolledBack m r => exact hsame rfl rfl (by cases m.depositToken <;> rfl)
  | _ => exact hsame rfl rfl rfl

end Locks

section Reaches

variable {H : Type} [DecidableEq H] {host : Host H} {d : Deployment host}
  {events : List (PoolEvent H)} {sys : PoolSystem H} {c : PoolChain H} {e : PoolExecution H}

/-- The locks of the state, the deliveries in flight, and the panicked
settlements, as accounts over hashes and tranches. -/
def locksOwed (s : LiquidStakingToken H) : H × Tranche → ℤ := fun k => -lockCount s k

/-- The locks that a chain holds. -/
def locksHeld (host : Host H) (c : PoolChain H) : H × Tranche → ℤ := fun k =>
  if delivers host k.1 k.2 c then 1 else 0

/-- The locks that nobody will give back. -/
def locksLost (host : Host H) (ev : PoolEvent H) : H × Tranche → ℤ := fun k =>
  if settlementPanicked host k.1 k.2 ev then 1 else 0

/-- A receipt that commits loses no lock. -/
theorem locksLost_of_committed {ret : Return H} {detached : List (Receipt H)}
    (h : e.verdict = .committed ret detached) : locksLost host ⟨c, e⟩ = 0 := by
  funext k
  simp [locksLost, settlementPanicked, h]

/-- A turn that commits, panics or is answered moves no lock to where nobody
holds it.

This is the step of an account over runs, with the state, the chains and the
events so far as its three columns. -/
theorem Transition.locks_eq {wnear : AccountId} (htransition : Transition host wnear c e)
    (hforce : Unforced ⟨c, e⟩) (htasks : ∃ rest, c.tasks = e.task :: rest)
    (hone : WithdrawalRequests.OneLock e.before.withdrawalRequests)
    (hlocked : ∀ p a, Describes host wnear c p → p.attempt = some a →
      WithdrawalRequests.locksAt e.before.withdrawalRequests (a.hash host) = [a.tranche]) :
    locksOwed e.before + locksHeld host c = locksOwed e.after + locksHeld host (c.resume e) +
      (e.spawned.map (locksHeld host)).sum + locksLost host ⟨c, e⟩ := by
  have hpaid : ∀ {side : List (Receipt H)}, Paying side → e.spawned = side.map Chain.single →
      (e.spawned.map (locksHeld host)).sum = 0 := by
    intro side hpaying hspawned
    refine List.sum_eq_zero fun x hx => ?_
    obtain ⟨c', hc', rfl⟩ := List.mem_map.mp hx
    obtain ⟨receiver, amount, hpay⟩ := hpaying.describes wnear (hspawned ▸ hc')
    funext k
    exact hpay.delivers_eq k
  have hcarry : ∀ {c' : PoolChain H} {p : Phase H}, Describes host wnear c' p →
      locksHeld host c' = p.holds host := fun h => funext fun k => h.delivers_eq k
  cases htransition with
  | entered m p side deposit gas fresh task_eq deposit_eq external entry next verdict spawned =>
      obtain ⟨ret, verdict⟩ := verdict
      have hbefore : locksHeld host c = 0 := by
        funext k
        simp [locksHeld, delivers, lockedBy, attemptOf, fresh, Chain.single]
      rw [hpaid entry.paying spawned, locksLost_of_committed verdict, hcarry next, hbefore]
      funext k
      have hlock := entry.lockCount_eq (k := k) fun hash heq => by
        simp [Unforced, Receipt.releasesByHand, task_eq, heq] at hforce
      simp only [locksOwed, Pi.add_apply, Pi.zero_apply]
      omega
  | advanced p p' side now self advance next verdict spawned =>
      obtain ⟨ret, verdict⟩ := verdict
      rw [hpaid advance.paying spawned, locksLost_of_committed verdict, hcarry next, hcarry now]
      funext k
      have hlock := advance.lockCount_eq hone (hlocked p · now) k
      simp only [locksOwed, Pi.add_apply, Pi.zero_apply]
      omega
  | panicked p now here self verdict same next spawned =>
      obtain ⟨rest, htasks⟩ := htasks
      -- A settlement that panics leaves its lock in the queue, and no chain
      -- behind it.
      have hlost : locksLost host ⟨c, e⟩ = p.holds host := by
        funext k
        rw [← now.settles_eq htasks here k]
        simp only [locksLost, settlementPanicked, verdict]
      have hsettled : (p.settle .failed).holds host = 0 := by
        funext k
        cases p <;> first | rfl | cases here
      rw [spawned, same, hlost, hcarry next, hcarry now, hsettled]
      funext k
      simp only [List.map_nil, List.sum_nil, Pi.add_apply, Pi.zero_apply]
      omega
  | answered p r now away verdict same next spawned =>
      have hlost : locksLost host ⟨c, e⟩ = 0 := by
        funext k
        simp [locksLost, settlementPanicked, verdict]
      have hsettled : (p.settle r).holds host = p.holds host := by
        funext k
        cases p <;> first | rfl | cases away
      rw [spawned, same, hlost, hcarry next, hcarry now, hsettled]
      funext k
      simp only [List.map_nil, List.sum_nil, Pi.add_apply, Pi.zero_apply]
      omega

/-- The accounts add up to the number of locks. -/
theorem count_of_ledger {k : H × Tranche}
    (h : Platform.Run.ledger locksOwed (locksHeld host) (locksLost host) [] d.genesis =
      Platform.Run.ledger locksOwed (locksHeld host) (locksLost host) events sys) :
    (WithdrawalRequests.locksAt sys.state.withdrawalRequests k.1).count k.2 =
      sys.chains.countP (delivers host k.1 k.2) +
        events.countP (settlementPanicked host k.1 k.2) := by
  have hk := congrFun h k
  rw [Platform.Run.ledger_apply, Platform.Run.ledger_apply] at hk
  have hgenesis : locksOwed d.genesis.state k = 0 := by
    show -lockCount d.state k = 0
    simp [lockCount, d.initial.queue_eq, WithdrawalRequests.locksAt,
      WithdrawalRequests.tranchesAt]
  simp only [Platform.Run.ledger, hgenesis] at hk
  simp only [locksHeld, locksLost, Platform.Run.sum_indicator, Deployment.genesis,
    List.countP_nil, locksOwed, lockCount] at hk
  omega

/-- A delivery in flight finds its own tranche locked, and no other. -/
theorem locksAt_of_count {wnear : AccountId} {p : Phase H} {a : Attempt}
    (hcount : ∀ k : H × Tranche,
      (WithdrawalRequests.locksAt sys.state.withdrawalRequests k.1).count k.2 =
        sys.chains.countP (delivers host k.1 k.2) +
          events.countP (settlementPanicked host k.1 k.2))
    (hone : WithdrawalRequests.OneLock sys.state.withdrawalRequests) (hmem : c ∈ sys.chains)
    (hnow : Describes host wnear c p) (ha : p.attempt = some a) :
    WithdrawalRequests.locksAt sys.state.withdrawalRequests (a.hash host) = [a.tranche] := by
  have hdelivers : delivers host (a.hash host) a.tranche c = true := by
    by_contra hno
    have hholds := hnow.delivers_eq (a.hash host, a.tranche)
    simp [hno, Phase.holds, ha] at hholds
  have hpos : 0 < sys.chains.countP (delivers host (a.hash host) a.tranche) :=
    List.countP_pos_iff.mpr ⟨c, hmem, hdelivers⟩
  have hlocked : a.tranche ∈
      WithdrawalRequests.locksAt sys.state.withdrawalRequests (a.hash host) := by
    rw [← List.count_pos_iff]
    have := hcount (a.hash host, a.tranche)
    dsimp only at this
    omega
  have hlen := hone (a.hash host)
  cases hlocks : WithdrawalRequests.locksAt sys.state.withdrawalRequests (a.hash host) with
  | nil => simp [hlocks] at hlocked
  | cons t rest =>
      rw [hlocks, List.length_cons] at hlen
      have hrest : rest = [] := List.length_eq_zero_iff.mp (by omega)
      rw [hlocks, hrest, List.mem_singleton] at hlocked
      rw [hlocked, hrest]

/-- **Every lock has its holder**: as long as no lock is released by hand, a
tranche is locked as often as it is being delivered or its settlement panicked.

The account and the fact that there is one lock under each hash are proved in
one induction, as the step of either needs the other. -/
theorem Deployment.count_locksAt (run : d.Reaches events sys)
    (hforce : ∀ ev ∈ events, Unforced ev) (hash : H) (t : Tranche) :
    (WithdrawalRequests.locksAt sys.state.withdrawalRequests hash).count t =
      sys.chains.countP (delivers host hash t) +
        events.countP (settlementPanicked host hash t) := by
  refine count_of_ledger (d := d) (k := (hash, t)) (run.potential_eq ?_ ?_ hforce)
  · intro env t haccepts
    funext k
    simp [locksHeld, delivers, lockedBy, attemptOf, Chain.single]
  · intro events s c e turn ih
    have hbefore := turn.fires.before_eq
    have hone := (d.queueSound turn.run).oneLock
    refine (d.transition turn).locks_eq turn.now turn.fires.tasks_eq (hbefore ▸ hone) ?_
    intro p a hnow ha
    rw [hbefore]
    exact locksAt_of_count (fun k => count_of_ledger ih) hone (hnow.mem turn.origin) hnow ha

/-- The tranche of a delivery in flight is locked under its hash.

So its callback finds it, whatever has run in between. -/
theorem Deployment.locksAt_eq (run : d.Reaches events sys)
    (hforce : ∀ ev ∈ events, Unforced ev) {p : Phase H} {a : Attempt} (hmem : c ∈ sys.chains)
    (hnow : Describes host d.wnearId c p) (ha : p.attempt = some a) :
    WithdrawalRequests.locksAt sys.state.withdrawalRequests (a.hash host) = [a.tranche] :=
  locksAt_of_count (fun k => d.count_locksAt run hforce k.1 k.2) (d.queueSound run).oneLock hmem
    hnow ha

end Reaches

/-- A settlement that finds the lock of its own attempt finds the attempt's
tranche. -/
theorem QueueSound.own_tranche {H : Type} [DecidableEq H] {host : Host H}
    {s : LiquidStakingToken H} (h : QueueSound s) {a : Attempt} {t : Tranche}
    (hown : WithdrawalRequests.locksAt s.withdrawalRequests (a.hash host) = [a.tranche])
    (hlocked : WithdrawalRequests.lockedTranche s.withdrawalRequests (a.hash host) = .ok t) :
    t = a.tranche ∧ a.tranche.withdrawalAmount < 2 ^ 128 := by
  have hlocks := h.oneLock.locksAt_eq hlocked
  rw [hown] at hlocks
  obtain rfl := (List.cons.inj hlocks).1
  exact ⟨rfl, lt_of_le_of_lt (h.settle hlocked).1 h.bounded⟩

/-! ## The amounts under a hash -/

section Amounts

variable {H : Type} [DecidableEq H] {host : Host H} {env : Env} {s s' : LiquidStakingToken H}
  {hash : H} {k : H}

/-- What a settled wNEAR delivery counts. -/
theorem Delivery.delivered_eq {amountToSend consumed : ℕ} {isCall : Bool} {r : PromiseResult}
    (h : Delivery amountToSend isCall r (some consumed)) (storageToPay : ℕ) :
    wnearDelivered amountToSend storageToPay isCall r = consumed + storageToPay ∧
      consumed ≤ amountToSend := by
  generalize hconsumed : some consumed = c at h
  cases h with
  | sent v plain =>
      obtain rfl := Option.some.inj hconsumed
      simp [wnearDelivered, plain]
  | reported v used call short parsed =>
      obtain rfl := Option.some.inj hconsumed
      simp [wnearDelivered, call, parsed]
  | writtenOff call =>
      obtain rfl := Option.some.inj hconsumed
      simp [wnearDelivered, call]
  | returned => cases hconsumed

/-- A plain transfer that failed counts nothing. -/
theorem Delivery.delivered_eq_zero {amountToSend storageToPay : ℕ} {isCall : Bool}
    {r : PromiseResult} (h : Delivery amountToSend isCall r none) :
    wnearDelivered amountToSend storageToPay isCall r = 0 := by
  generalize hnone : (none : Option ℕ) = c at h
  cases h with
  | returned plain => simp [wnearDelivered, plain]
  | _ => cases hnone

omit [DecidableEq H] in
/-- Without saturation, the settlement takes out exactly what it counts. -/
theorem Delivery.satAdd_eq {a : Attempt} {r : PromiseResult} {consumed : ℕ}
    (h : Delivery a.amountToSend (a.isCall host) r (some consumed)) (hfits : a.Fits host)
    (hbounded : a.tranche.withdrawalAmount < 2 ^ 128) :
    NearToken.satAdd consumed a.storageToPay = consumed + a.storageToPay := by
  have hle := (h.delivered_eq a.storageToPay).2
  have hamount := hfits.amount_eq
  exact saturatingAdd_of_lt (by omega)

/-- The amounts under every hash after an operation under one of them. -/
theorem queuedUnder_of_effect {q q' : WithdrawalRequests H} {ls : List Tranche} {gain loss : ℕ}
    (h : WithdrawalRequests.Effect Tranche.withdrawalAmount q q' hash ls gain loss) (k : H) :
    queuedUnder k q' + (if hash = k then loss +
        ((WithdrawalRequests.locksAt q hash).map Tranche.withdrawalAmount).sum else 0) =
      queuedUnder k q + if hash = k then gain + (ls.map Tranche.withdrawalAmount).sum else 0 :=
  h.sum_at k

/-- A call from outside at most locks tranches or releases them: their sums
stay. -/
theorem Entry.sum_eq {m : Method H} {p : Phase H} {side : List (Receipt H)} {f : Tranche → ℕ}
    (hentry : Entry host env s m s' p side) (hf : Tranches.Additive f)
    (hone : WithdrawalRequests.OneLock s.withdrawalRequests) (k : H) :
    Tranches.sum f (WithdrawalRequests.tranchesAt s'.withdrawalRequests k) =
      Tranches.sum f (WithdrawalRequests.tranchesAt s.withdrawalRequests k) := by
  cases hentry with
  | stake args s₁ result o synced => rw [synced.queue_eq.1]
  | pingIdle result s₁ synced | ping reward s₁ synced => rw [synced.queue_eq.1]
  | setFee feeBps s₁ result _ _ _ synced =>
      rw [LiquidStakingToken.withFee_withdrawalRequests, synced.queue_eq.1]
  | setKey key s₁ result _ _ synced => rw [synced.queue_eq.1]; rfl
  | withdrawNative a q native swept pos | withdrawWnear a q wrapped swept pos =>
      obtain ⟨hnone, t, -, heffect⟩ :=
        WithdrawalRequests.amountOfMaturedTranches_effect swept pos
      simpa [hnone] using (heffect hf).sum_at k
  | forceRelease hash =>
      obtain ⟨gain, heffect, rfl⟩ := hone.released_effect (f := f) hash
      simpa using heffect.sum_at k
  | _ => rfl

/-- Only callbacks settle and append. -/
theorem Receipt.delivered_none (hash : H) (t : Receipt H) : t.delivered hash none = 0 := by
  unfold Receipt.delivered
  split <;> first | rfl | contradiction

/-- Nor does a receipt that waits for nothing append. -/
theorem Receipt.appended_none (hash : H) (t : Receipt H) : t.appended hash none = 0 := by
  unfold Receipt.appended
  split <;> first | rfl | contradiction

/-- A callback takes out of the queue what it counts as delivered, and puts in
what it appends.

The amount is read off the arguments of the callback; that the locked tranche is
worth as much is where the lock matters. -/
theorem Advance.queuedUnder_eq {wnear : AccountId} {p p' : Phase H} {side : List (Receipt H)}
    {t : Receipt H} {rest : List (Receipt H)} (hadvance : Advance host env s p s' p' side)
    (hvalid : p.Valid host) (htasks : p.tasks host wnear = t :: rest) (hqueue : QueueSound s)
    (hlocked : ∀ a, p.attempt = some a →
      WithdrawalRequests.locksAt s.withdrawalRequests (a.hash host) = [a.tranche]) (k : H) :
    queuedUnder k s'.withdrawalRequests + t.delivered k p.input =
      queuedUnder k s.withdrawalRequests + t.appended k p.input := by
  -- The case of most receipts.
  have hsame : s'.withdrawalRequests = s.withdrawalRequests → t.delivered k p.input = 0 →
      t.appended k p.input = 0 →
      queuedUnder k s'.withdrawalRequests + t.delivered k p.input =
        queuedUnder k s.withdrawalRequests + t.appended k p.input := by
    intro heq hdelivered happended
    rw [heq, hdelivered, happended]
  cases hadvance with
  | minted | mintedRegistering =>
      exact hsame rfl (Receipt.delivered_none k t) (Receipt.appended_none k t)
  | unstakeRequested message _ s₁ u _ _ unstakes =>
      obtain ⟨result, synced⟩ := unstakes.synced
      exact hsame synced.queue_eq.1 (Receipt.delivered_none k t) (Receipt.appended_none k t)
  | unwrapQuoted ok s₁ result o synced =>
      obtain ⟨rfl, -⟩ := List.cons.inj htasks
      exact hsame synced.queue_eq.1 rfl rfl
  | unwrapRejected ok s₁ result synced =>
      obtain ⟨rfl, -⟩ := List.cons.inj htasks
      exact hsame synced.queue_eq.1 rfl rfl
  | refused message _ t used burned _ s₁ u _ _ unstakes =>
      obtain ⟨rfl, -⟩ := List.cons.inj htasks
      obtain ⟨result, synced⟩ := unstakes.synced
      exact hsame synced.queue_eq.1 rfl rfl
  | @queued u k' r ok q appended room =>
      obtain ⟨rfl, -⟩ := List.cons.inj htasks
      have heffect := WithdrawalRequests.appendRequest_effect Tranches.additive_withdrawalAmount
        (fun t _ hzero => hzero) appended
      have hqueued := queuedUnder_of_effect heffect k
      show queuedUnder k q + 0 = _ + if u.hash = k ∧ resultOk r = true then u.nearAmount else 0
      simp only [ok, and_true, Tranche.new] at hqueued ⊢
      split_ifs at hqueued ⊢ <;> omega
  | @undone u k' r failed =>
      obtain ⟨rfl, -⟩ := List.cons.inj htasks
      refine hsame rfl rfl ?_
      show (if u.hash = k ∧ resultOk r = true then u.nearAmount else 0) = 0
      simp [failed]
  | @paidNative a r ok t locked amount_eq =>
      obtain ⟨rfl, -⟩ := List.cons.inj htasks
      have hqueued := queuedUnder_of_effect
        (WithdrawalRequests.settled_effect s.withdrawalRequests (a.hash host)) k
      rw [hlocked a rfl] at hqueued
      show _ + (if a.hash host = k ∧ resultOk r = true then a.tranche.withdrawalAmount else 0) =
        _ + 0
      simpa [ok] using hqueued
  | @unpaidNative a r failed =>
      obtain ⟨rfl, -⟩ := List.cons.inj htasks
      obtain ⟨gain, heffect, rfl⟩ :=
        hqueue.oneLock.released_effect (f := Tranche.withdrawalAmount) (a.hash host)
      have hqueued := queuedUnder_of_effect heffect k
      show _ + (if a.hash host = k ∧ resultOk r = true then a.tranche.withdrawalAmount else 0) =
        _ + 0
      simpa [failed] using hqueued
  | @unpaidWnear a r delivery =>
      obtain ⟨rfl, -⟩ := List.cons.inj htasks
      obtain ⟨gain, heffect, rfl⟩ :=
        hqueue.oneLock.released_effect (f := Tranche.withdrawalAmount) (a.hash host)
      have hqueued := queuedUnder_of_effect heffect k
      show _ + (if a.hash host = k then wnearDelivered a.amountToSend a.storageToPay
        (a.isCall host) r else 0) = _ + 0
      rw [delivery.delivered_eq_zero]
      simpa using hqueued
  | @paidWnear a r consumed delivery t locked delivered delivered_eq claimed q q_eq =>
      obtain ⟨rfl, -⟩ := List.cons.inj htasks
      -- The tranche that the callback finds locked is the one its attempt has
      -- swept.
      obtain ⟨htranche, hbounded⟩ := hqueue.own_tranche (hlocked a rfl) locked
      have hcount := delivery.delivered_eq a.storageToPay
      rw [delivery.satAdd_eq hvalid.2 hbounded, ← hcount.1] at delivered_eq
      show _ + (if a.hash host = k then wnearDelivered a.amountToSend a.storageToPay
        (a.isCall host) r else 0) = _ + 0
      rw [← delivered_eq]
      subst htranche
      -- A delivery in full removes the tranche, and any other shrinks it.
      have heffect : WithdrawalRequests.Effect Tranche.withdrawalAmount s.withdrawalRequests
          (WithdrawalRequests.releaseLock q (a.hash host)).1 (a.hash host) []
          (a.tranche.withdrawalAmount - delivered) 0 := by
        subst q_eq
        split_ifs with hzero
        · rw [hzero]
          exact WithdrawalRequests.settled_effect _ _
        · exact WithdrawalRequests.shrunk_effect _ (hlocked a rfl)
      have hqueued := queuedUnder_of_effect heffect k
      rw [hlocked a rfl] at hqueued
      simp only [List.map_cons, List.map_nil, List.sum_cons, List.sum_nil] at hqueued
      show queuedUnder k (WithdrawalRequests.releaseLock q (a.hash host)).1 + _ = _
      split_ifs at hqueued ⊢ <;> omega
  | @rolledBack m r =>
      obtain ⟨rfl, -⟩ := List.cons.inj htasks
      exact hsame rfl rfl rfl
  | _ =>
      obtain ⟨rfl, -⟩ := List.cons.inj htasks
      exact hsame rfl rfl rfl

end Amounts

section Reaches

variable {H : Type} [DecidableEq H] {host : Host H} {d : Deployment host}
  {events : List (PoolEvent H)} {sys : PoolSystem H} {c : PoolChain H} {e : PoolExecution H}

/-- **Nothing is lost and nothing is paid twice**: what was appended under a
hash is queued there or was settled as delivered.

Both sums are over all events of the run, so the equation holds after every
prefix of it as well. -/
theorem Deployment.queued_add_delivered (run : d.Reaches events sys)
    (hforce : ∀ ev ∈ events, Unforced ev) (hash : H) :
    queuedUnder hash sys.state.withdrawalRequests + (events.map (deliveredUnder hash)).sum =
      (events.map (appendedUnder hash)).sum := by
  have htally := run.tally_eq (fun s => queuedUnder hash s.withdrawalRequests)
    (appendedUnder hash) (deliveredUnder hash) ?_ hforce
  · have hgenesis : queuedUnder hash d.genesis.state.withdrawalRequests = 0 := by
      show queuedUnder hash d.state.withdrawalRequests = 0
      rw [d.initial.queue_eq]
      rfl
    omega
  · intro events s c e turn
    have hbefore := turn.fires.before_eq
    have hqueue := d.queueSound turn.run
    obtain ⟨rest, htasks⟩ := turn.fires.tasks_eq
    cases d.transition turn with
    | entered m p side deposit gas fresh task_eq deposit_eq external entry next verdict =>
        have hqueued : queuedUnder hash e.after.withdrawalRequests =
            queuedUnder hash e.before.withdrawalRequests :=
          entry.sum_eq Tranches.additive_withdrawalAmount (hbefore ▸ hqueue.oneLock) hash
        have hinput : e.input = none := by
          rw [turn.fires.input_eq, fresh]
          rfl
        obtain ⟨ret, verdict⟩ := verdict
        simp only [deliveredUnder, appendedUnder, verdict, hinput, Receipt.delivered_none,
          Receipt.appended_none, hqueued]
    | advanced p p' side now self advance next verdict =>
        have hqueued := advance.queuedUnder_eq now.valid (now.tasks_eq ▸ htasks)
          (hbefore ▸ hqueue) (fun a ha => hbefore ▸ d.locksAt_eq turn.run turn.good
            (now.mem turn.origin) now ha) hash
        rw [← now.input_eq, ← turn.fires.input_eq] at hqueued
        obtain ⟨ret, verdict⟩ := verdict
        simp only [deliveredUnder, appendedUnder, verdict]
        omega
    | panicked p now here self verdict same =>
        simp only [deliveredUnder, appendedUnder, verdict, same]
    | answered p r now away verdict same =>
        simp only [deliveredUnder, appendedUnder, verdict, same]

end Reaches

/-! ## What is left of a claim

A tranche may hold wNEAR that a partial delivery gave back.  It never holds more
than its amount, and it holds none under the hash of a native message: as long
as the messages of the run have different hashes, the two kinds do not meet. -/

section Covered

variable {H : Type} [DecidableEq H] {host : Host H} {env : Env} {s s' : LiquidStakingToken H}
  {hash : H} {messages : Set UnstakeMessage}

/-- The receipt asks for a withdrawal. -/
def Receipt.Withdraws (t : Receipt H) (args : UnstakeMessage) : Prop :=
  ∃ deposit gas, t.actions = [.call (.withdraw args) deposit gas]

/-- The messages withdrawn for in a run. -/
def withdrawn (events : List (PoolEvent H)) : Set UnstakeMessage :=
  {args | ∃ ev ∈ events, ev.execution.task.Withdraws args}

/-- The event releases no lock by hand, and withdraws for one of the messages. -/
structure Orderly (messages : Set UnstakeMessage) (ev : PoolEvent H) : Prop where
  unforced : Unforced ev
  withdraws : ∀ args, ev.execution.task.Withdraws args → args ∈ messages

/-- The residual of a tranche under `hash` fits its amount, and the messages. -/
structure Covered (host : Host H) (messages : Set UnstakeMessage) (hash : H) (t : Tranche) :
    Prop where
  residual_le : t.wnearResidual ≤ t.withdrawalAmount
  native : ∀ args ∈ messages, args.withdrawTokens = .native → host.hash args = hash →
    t.wnearResidual = 0

omit [DecidableEq H] in
theorem covered_closed (host : Host H) (messages : Set UnstakeMessage) (hash : H) :
    Tranches.Closed (Covered host messages hash) where
  zero := ⟨le_rfl, fun _ _ _ _ => rfl⟩
  new _ _ := ⟨Nat.zero_le _, fun _ _ _ _ => rfl⟩
  merge ha hb := ⟨Nat.add_le_add ha.residual_le hb.residual_le, fun args hmem hnative hhash => by
    show _ + _ = 0
    rw [ha.native args hmem hnative hhash, hb.native args hmem hnative hhash]⟩
  grow n ht := ⟨ht.residual_le.trans (Nat.le_add_right _ n), ht.native⟩

section AllAt

variable {P : H → Tranche → Prop}

/-- What appends and mergers keep, a call from outside keeps. -/
theorem Entry.allAt {m : Method H} {p : Phase H} {side : List (Receipt H)}
    (hentry : Entry host env s m s' p side) (hP : ∀ hash, Tranches.Closed (P hash))
    (h : WithdrawalRequests.AllAt P s.withdrawalRequests) :
    WithdrawalRequests.AllAt P s'.withdrawalRequests := by
  cases hentry with
  | stake args s₁ result o synced => exact synced.queue_eq.1 ▸ h
  | pingIdle result s₁ synced | ping reward s₁ synced => exact synced.queue_eq.1 ▸ h
  | setFee feeBps s₁ result _ _ _ synced => exact synced.queue_eq.1 ▸ h
  | setKey key s₁ result _ _ synced => exact synced.queue_eq.1 ▸ h
  | withdrawNative a q native swept pos | withdrawWnear a q wrapped swept pos =>
      exact h.sweep (hP _) swept pos
  | forceRelease hash => exact h.release hash
  | _ => exact h

/-- A callback keeps it as well, if the tranche of a partial delivery has it. -/
theorem Advance.allAt {p p' : Phase H} {side : List (Receipt H)}
    (hadvance : Advance host env s p s' p' side) (hP : ∀ hash, Tranches.Closed (P hash))
    (hwrite : ∀ a r consumed delivered t, p = .deliveredWnear a r →
      Delivery a.amountToSend (a.isCall host) r (some consumed) →
      WithdrawalRequests.lockedTranche s.withdrawalRequests (a.hash host) = .ok t →
      delivered = NearToken.satAdd consumed a.storageToPay → P (a.hash host) { t with
        withdrawalAmount := t.withdrawalAmount - delivered
        wnearResidual := a.amountToSend - consumed
        storageWasPaid := t.storageWasPaid || decide (0 < a.storageToPay) })
    (h : WithdrawalRequests.AllAt P s.withdrawalRequests) :
    WithdrawalRequests.AllAt P s'.withdrawalRequests := by
  cases hadvance with
  | unwrapQuoted ok s₁ result o synced => exact synced.queue_eq.1 ▸ h
  | unwrapRejected ok s₁ result synced => exact synced.queue_eq.1 ▸ h
  | refused message _ t used burned _ s₁ u _ _ unstakes =>
      obtain ⟨result, synced⟩ := unstakes.synced
      exact synced.queue_eq.1 ▸ h
  | unstakeRequested message _ s₁ u _ _ unstakes =>
      obtain ⟨result, synced⟩ := unstakes.synced
      exact synced.queue_eq.1 ▸ h
  | queued ok q appended => exact h.append (hP _) appended
  | paidNative => exact (h.remove _).release _
  | unpaidNative | unpaidWnear => exact h.release _
  | @paidWnear a r consumed delivery t locked delivered delivered_eq claimed q q_eq =>
      have hwritten : WithdrawalRequests.AllAt P q := by
        subst q_eq
        split_ifs with hzero
        · exact h.remove _
        · exact h.write (hwrite a r consumed delivered t rfl delivery locked delivered_eq)
      exact hwritten.release _
  | _ => exact h

end AllAt

/-- What a partial delivery leaves of its tranche is what came back. -/
theorem QueueSound.left_eq {a : Attempt} {r : PromiseResult} {consumed delivered : ℕ} {t : Tranche}
    (hqueue : QueueSound s) (hfits : a.Fits host)
    (hown : WithdrawalRequests.locksAt s.withdrawalRequests (a.hash host) = [a.tranche])
    (hlocked : WithdrawalRequests.lockedTranche s.withdrawalRequests (a.hash host) = .ok t)
    (hdelivery : Delivery a.amountToSend (a.isCall host) r (some consumed))
    (hdelivered : delivered = NearToken.satAdd consumed a.storageToPay) :
    t.withdrawalAmount - delivered = a.amountToSend - consumed := by
  obtain ⟨htranche, hbounded⟩ := hqueue.own_tranche hown hlocked
  rw [hdelivery.satAdd_eq hfits hbounded] at hdelivered
  have hamount := hfits.amount_eq
  rw [htranche]
  omega

/-- What a partial delivery writes back holds exactly what came back. -/
theorem Advance.covered {p p' : Phase H} {side : List (Receipt H)}
    (hadvance : Advance host env s p s' p' side) (hvalid : p.Valid host)
    (hinj : Set.InjOn host.hash messages) (hmessage : ∀ a, p.attempt = some a → a.args ∈ messages)
    (hqueue : QueueSound s)
    (hlocked : ∀ a, p.attempt = some a →
      WithdrawalRequests.locksAt s.withdrawalRequests (a.hash host) = [a.tranche])
    (h : WithdrawalRequests.AllAt (Covered host messages) s.withdrawalRequests) :
    WithdrawalRequests.AllAt (Covered host messages) s'.withdrawalRequests := by
  refine hadvance.allAt (covered_closed host messages) ?_ h
  rintro a r consumed delivered t rfl delivery locked delivered_eq
  have hleft := hqueue.left_eq hvalid.2 (hlocked a rfl) locked delivery delivered_eq
  refine ⟨hleft.ge, fun args hmem hnative hhash => ?_⟩
  exact absurd (hinj hmem (hmessage a rfl) hhash ▸ hnative) hvalid.1

/-- The message of an attempt is one that was withdrawn for. -/
theorem attemptOf_withdraws {trace : List (PoolExecution H)} {a : Attempt}
    (h : attemptOf host trace = some a) : ∃ e ∈ trace, e.task.Withdraws a.args := by
  unfold attemptOf at h
  split at h
  · next e hlast =>
      split at h
      · next args deposit gas htask =>
          obtain ⟨t, -, rfl⟩ := Option.map_eq_some_iff.mp h
          exact ⟨e, List.mem_of_getLast? hlast, deposit, gas, htask⟩
      · cases h
  · cases h

/-- The message of a delivery in flight is among those that were withdrawn for. -/
theorem Deployment.attempt_mem {d : Deployment host} {events : List (PoolEvent H)}
    {sys : PoolSystem H} (run : d.Reaches events sys) (hgood : ∀ ev ∈ events, Orderly messages ev)
    {c : PoolChain H} {p : Phase H} {wnear : AccountId} (hmem : c ∈ sys.chains)
    (hnow : Describes host wnear c p) {a : Attempt} (ha : p.attempt = some a) :
    a.args ∈ messages := by
  obtain ⟨e, he, hwithdraws⟩ := attemptOf_withdraws (hnow.attempt_eq a ha)
  exact run.forall_trace (Q := fun e => ∀ args, e.task.Withdraws args → args ∈ messages)
    (by simp [Deployment.genesis]) (fun ev hev => (hgood ev hev).withdraws) c hmem e he _
    hwithdraws

/-- Every tranche of every reachable queue is covered, in runs that are orderly
for some messages with different hashes. -/
theorem Deployment.covered {d : Deployment host} {events : List (PoolEvent H)}
    {sys : PoolSystem H} (hinj : Set.InjOn host.hash messages) (run : d.Reaches events sys)
    (hgood : ∀ ev ∈ events, Orderly messages ev) :
    WithdrawalRequests.AllAt (Covered host messages) sys.state.withdrawalRequests := by
  refine run.forall_state (I := fun s => WithdrawalRequests.AllAt (Covered host messages)
    s.withdrawalRequests) ?_ (fun turn ih => ?_) hgood
  · show WithdrawalRequests.AllAt (Covered host messages) d.state.withdrawalRequests
    rw [d.initial.queue_eq]
    exact WithdrawalRequests.allAt_empty
  · have hbefore := turn.fires.before_eq
    cases d.transition turn with
    | entered m p side deposit gas fresh task_eq deposit_eq external entry =>
        exact entry.allAt (covered_closed host messages) ih
    | advanced p p' side now self advance =>
        have hmem := now.mem turn.origin
        exact advance.covered now.valid hinj
          (fun a ha => d.attempt_mem turn.run turn.good hmem now ha)
          (hbefore ▸ d.queueSound turn.run)
          (fun a ha => hbefore ▸ d.locksAt_eq turn.run
            (fun ev hev => (turn.good ev hev).unforced) hmem now ha) ih
    | panicked p now here self verdict same => exact same ▸ ih
    | answered p r now away verdict same => exact same ▸ ih

/-- Residuals fit their tranches, whatever the messages. -/
theorem Deployment.residual_le {d : Deployment host} {events : List (PoolEvent H)}
    {sys : PoolSystem H} (run : d.Reaches events sys) (hforce : ∀ ev ∈ events, Unforced ev) :
    WithdrawalRequests.AllAt (fun _ t => t.wnearResidual ≤ t.withdrawalAmount)
      sys.state.withdrawalRequests := by
  refine run.forall_state (I := fun s => WithdrawalRequests.AllAt
    (fun _ t => t.wnearResidual ≤ t.withdrawalAmount) s.withdrawalRequests) ?_ (fun turn ih => ?_)
    hforce
  · show WithdrawalRequests.AllAt _ d.state.withdrawalRequests
    rw [d.initial.queue_eq]
    exact WithdrawalRequests.allAt_empty
  · have hbefore := turn.fires.before_eq
    cases d.transition turn with
    | entered m p side deposit gas fresh task_eq deposit_eq external entry =>
        exact entry.allAt (fun _ => Tranches.closed_residual_le) ih
    | advanced p p' side now self advance =>
        refine advance.allAt (fun _ => Tranches.closed_residual_le) ?_ ih
        rintro a r consumed delivered t rfl delivery locked delivered_eq
        exact ((hbefore ▸ d.queueSound turn.run : QueueSound _).left_eq now.valid.2
          (hbefore ▸ d.locksAt_eq turn.run turn.good (now.mem turn.origin) now rfl) locked delivery
          delivered_eq).ge
    | panicked p now here self verdict same => exact same ▸ ih
    | answered p r now away verdict same => exact same ▸ ih

omit [DecidableEq H] in
/-- A run without forced releases is orderly for the messages it withdraws for. -/
theorem orderly_withdrawn {events : List (PoolEvent H)} (hforce : ∀ ev ∈ events, Unforced ev) :
    ∀ ev ∈ events, Orderly (withdrawn events) ev := fun ev hev =>
  ⟨hforce ev hev, fun _ h => ⟨ev, hev, h⟩⟩

end Covered

end LiquidStaking
