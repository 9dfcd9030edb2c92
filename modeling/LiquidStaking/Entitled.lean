import LiquidStaking.Payout
import LiquidStaking.Rollback

/-!
# Nobody is paid more than was unstaked for them

The queue knows hashes only.  Here the amounts under a hash are traced back to
the unstakes whose message has that hash, as long as no other message of the run
shares it:

* what the queue holds, what was delivered and what is still on its way into the
  queue never exceed the NEAR that unstakes for the message took out of the
  stake;
* neither does the NEAR that native payments really brought to the receiver.  A
  payment that its settlement has not booked yet, or never will because the
  settlement panicked, is still covered by the tranche that was locked for it.
-/

namespace LiquidStaking

open Checked PromiseChain

section Definitions

variable {H : Type} (host : Host H)

/-- The message a receipt asks an unstake for. -/
def Receipt.names (t : Receipt H) : Option UnstakeMessage :=
  match t.actions with
  | [.call (.ftOnTransfer _ _ msg) _ _] => host.parseUnstakeMessage msg
  | [.call (.onFtOnTransfer _ args) _ _] => args.refundMessage
  | _ => none

/-- The NEAR that an event takes out of the stake for a message, its reward
apart.

A sync in the same receipt adds its reward to the stake, so the reward is added
before the difference is taken. -/
def unstakedFor (message : UnstakeMessage) (ev : PoolEvent H) : ℕ :=
  if ev.execution.task.names host = some message then
    ev.execution.before.statistics.totalStakedAmount + rewardOf ev -
      ev.execution.after.statistics.totalStakedAmount
  else 0

variable [DecidableEq H] (hash : H)

/-- The NEAR that a native payment under `hash` brings to its receiver. -/
def paidUnder (ev : PoolEvent H) : ℕ :=
  match ev.execution.verdict, ev.execution.task.actions with
  | .answered r, [.transfer amount] =>
      if resultOk r = true ∧ ev.chain.tasks.tail.any (Receipt.settles hash) = true then amount
      else 0
  | _, _ => 0

/-- The NEAR of a phase that is on its way into the queue. -/
def Phase.queueing (hash : H) : Phase H → ℕ
  | .unstaking u _ _ _ | .unstaked u _ _ => if u.hash = hash then u.nearAmount else 0
  | _ => 0

/-- The NEAR that a phase has paid and not settled.

It is between the payment and its settlement that the receiver has the NEAR and
the queue still owes it. -/
def Phase.paid : Phase H → ℕ
  | .deliveredNative a r =>
      if a.hash host = hash ∧ resultOk r = true then a.tranche.withdrawalAmount else 0
  | _ => 0

/-- The NEAR of a payment whose settlement panicked. -/
def stuckUnder (ev : PoolEvent H) : ℕ :=
  match ev.execution.verdict with
  | .panicked => carried host (Phase.paid host hash) ev.chain
  | _ => 0

/-- No other message that unstakes are asked for has the hash of this one.

It is asked for the messages that occur in the run, since the hash is arbitrary. -/
def Distinct (message : UnstakeMessage) (ev : PoolEvent H) : Prop :=
  ∀ m ∈ ev.execution.task.names host, host.hash m = host.hash message → m = message

end Definitions

/-! ## One receipt -/

section Steps

variable {H : Type} [DecidableEq H] {host : Host H} {env : Env} {s s' : LiquidStakingToken H}
  {wnear : AccountId} {p p' : Phase H} {side : List (Receipt H)} {t : Receipt H}
  {rest : List (Receipt H)} {hash : H} {message : UnstakeMessage}

/-- A call from outside puts nothing on its way into the queue. -/
theorem Entry.queueing_eq {m : Method H} (h : Entry host env s m s' p side) :
    p.queueing hash = 0 := by
  cases h <;> rfl

/-- **What goes into the queue was unstaked for it**: a callback takes it out of
the stake for a message, puts it on its way under the hash of that message, and
appends it. -/
theorem Advance.queueing_le (h : Advance host env s p s' p' side)
    (htasks : p.tasks host wnear = t :: rest)
    (hnames : ∀ m ∈ t.names host, host.hash m = host.hash message → m = message) :
    p'.queueing (host.hash message) + t.appended (host.hash message) p.input ≤
      p.queueing (host.hash message) +
        (if t.names host = some message then
          s.statistics.totalStakedAmount + rewardIn env (excludedBy t) s s' -
            s'.statistics.totalStakedAmount else 0) := by
  -- The two callbacks that start an unstake do so for the message they name.
  have hstarts : ∀ {u : UnstakeOrder H} {m : UnstakeMessage}, u.hash = host.hash m →
      t.names host = some m → excludedBy t = 0 → s'.statistics.totalStakedAmount + u.nearAmount =
        s.statistics.totalStakedAmount + rewardIn env 0 s s' →
      (if u.hash = host.hash message then u.nearAmount else 0) ≤
        if t.names host = some message then
          s.statistics.totalStakedAmount + rewardIn env (excludedBy t) s s' -
            s'.statistics.totalStakedAmount else 0 := by
    intro u m hhash hname hexcluded hbooks
    split_ifs with hsame hnamed
    · rw [hexcluded]
      omega
    · exact absurd (hname.trans (congrArg some (hnames m hname (hhash ▸ hsame)))) hnamed
    · exact Nat.zero_le _
    · exact le_rfl
  have hcalls : t.appended (host.hash message) none = 0 := Receipt.appended_none _ t
  cases h with
  | refused m message_eq _ _ _ _ s₁ u _ _ unstakes =>
      obtain ⟨rfl, -⟩ := List.cons.inj htasks
      exact (hstarts unstakes.hash_eq message_eq rfl unstakes.books_eq.1).trans
        (Nat.le_add_left _ _)
  | unstakeRequested m parsed s₁ u _ _ unstakes =>
      obtain ⟨rfl, -⟩ := List.cons.inj htasks
      exact (hstarts unstakes.hash_eq parsed rfl unstakes.books_eq.1).trans (Nat.le_add_left _ _)
  | @queued u k r ok =>
      obtain ⟨rfl, -⟩ := List.cons.inj htasks
      have happended : (LiquidStakingToken.onUnstakeCall host u.lstAmount u.nearAmount u.hash
          u.trigger).appended (host.hash message) (some r) =
            if u.hash = host.hash message then u.nearAmount else 0 := by
        simp [Receipt.appended, LiquidStakingToken.onUnstakeCall, Receipt.call, ok]
      show 0 + _ ≤ (if u.hash = host.hash message then u.nearAmount else 0) + _
      rw [show (Phase.unstaked u k r).input = some r from rfl, happended]
      omega
  | @undone u k r failed =>
      obtain ⟨rfl, -⟩ := List.cons.inj htasks
      have happended : (LiquidStakingToken.onUnstakeCall host u.lstAmount u.nearAmount u.hash
          u.trigger).appended (host.hash message) (some r) = 0 := by
        simp [Receipt.appended, LiquidStakingToken.onUnstakeCall, Receipt.call, failed]
      show 0 + _ ≤ _
      rw [show (Phase.unstaked u k r).input = some r from rfl, happended]
      exact Nat.zero_le _
  | minted | mintedRegistering =>
      show 0 + t.appended (host.hash message) none ≤ _
      rw [hcalls]
      exact Nat.zero_le _
  | @rolledBack m =>
      obtain ⟨rfl, -⟩ := List.cons.inj htasks
      cases m.depositToken <;> exact Nat.zero_le _
  | _ =>
      obtain ⟨rfl, -⟩ := List.cons.inj htasks
      exact Nat.zero_le _

/-- What a payment brings is paid and not settled. -/
theorem Describes.paidUnder_eq {c : PoolChain H} {e : PoolExecution H} {r : PromiseResult}
    (h : Describes host wnear c p) (hhead : c.tasks = e.task :: rest)
    (hverdict : e.verdict = .answered r) :
    paidUnder hash ⟨c, e⟩ = (p.settle r).paid host hash := by
  have htasks := h.tasks_eq.symm.trans hhead
  -- Only a plain transfer pays.
  have hother : (∀ amount, e.task.actions ≠ [.transfer amount]) → paidUnder hash ⟨c, e⟩ = 0 := by
    intro hne
    unfold paidUnder
    split
    · next amount _ hactions => exact absurd hactions (hne amount)
    · rfl
  cases p with
  | deliveringNative a =>
      obtain ⟨htask, hrest⟩ := List.cons.inj htasks
      have hsettles : ([Receipt.call host.currentAccountId (.onWithdrawNative (a.hash host)
          a.tranche.withdrawalAmount) 0 onWithdrawNativeGas] : List (Receipt H)).any
            (Receipt.settles hash) = decide (a.hash host = hash) := by
        simp [Receipt.settles, Receipt.call]
      simp only [paidUnder, hverdict, ← htask, Receipt.pay, hhead, List.tail_cons, ← hrest,
        hsettles, decide_eq_true_eq, Phase.settle, Phase.paid, and_comm]
  -- A refund is such a transfer, but nothing waits to settle it.
  | paying receiver amount =>
      obtain ⟨htask, hrest⟩ := List.cons.inj htasks
      simp only [paidUnder, hverdict, ← htask, Receipt.pay, hhead, List.tail_cons, ← hrest,
        List.any_nil, Phase.settle, Phase.paid, Bool.false_eq_true, and_false, if_false]
  | continuing k r' =>
      cases k with
      | finish => cases htasks
      | resolve | notify =>
          obtain ⟨htask, -⟩ := List.cons.inj htasks
          exact hother fun amount => by rw [← htask]; simp [Receipt.call]
  | batching o refundTo =>
      obtain ⟨htask, -⟩ := List.cons.inj htasks
      refine hother fun amount => ?_
      rw [← htask]
      unfold StakeOrder.batch
      cases o.depositToken <;> cases o.args.isStorageDeposit <;> simp
  | deliveringWnear a =>
      obtain ⟨htask, -⟩ := List.cons.inj htasks
      refine hother fun amount => ?_
      rw [← htask]
      unfold Attempt.batch LiquidStakingToken.deliveryActions
      cases a.msg <;> split_ifs <;> simp
  | _ =>
      obtain ⟨htask, -⟩ := List.cons.inj htasks
      exact hother fun amount => by
        rw [← htask]
        simp [Receipt.call, StakeOrder.restakeCall, MintedStake.settleCall,
          LiquidStakingToken.onUnstakeCall, LiquidStakingToken.onWithdrawWnearCall,
          LiquidStakingToken.onRestakeCall]

/-- A payment goes on its way elsewhere. -/
theorem Phase.paid_of_away (h : p.place host = .away) :
    p.paid host hash = 0 := by
  cases p with
  | deliveredNative => cases h
  | _ => rfl

end Steps

/-! ## Runs -/

/-- What a list sums up to, if only its elements of a kind count, and none more
than `n`. -/
theorem sum_map_le_countP {α : Type} {l : List α} {f : α → ℕ} {q : α → Bool} {n : ℕ}
    (h : ∀ x ∈ l, f x ≤ if q x then n else 0) : (l.map f).sum ≤ l.countP q * n := by
  induction l with
  | nil => simp
  | cons x l ih =>
      have hx := h x List.mem_cons_self
      have hl := ih fun y hy => h y (List.mem_cons_of_mem _ hy)
      rw [List.map_cons, List.sum_cons, List.countP_cons, add_mul]
      split_ifs at hx ⊢ <;> omega

section Reaches

variable {H : Type} [DecidableEq H] {host : Host H} {d : Deployment host}
  {events : List (PoolEvent H)} {sys : PoolSystem H} {hash : H}

/-- What goes into the queue under the hash of a message, and what is on its way
there, was taken out of the stake for it. -/
theorem Deployment.appended_le (run : d.Reaches events sys) {message : UnstakeMessage}
    (hdistinct : ∀ ev ∈ events, Distinct host message ev) :
    (events.map (appendedUnder (host.hash message))).sum +
        (sys.chains.map (carried host (Phase.queueing (host.hash message)))).sum ≤
      (events.map (unstakedFor host message)).sum := by
  have hflow := run.flow_le (w := carried host (Phase.queueing (host.hash message)))
    (v := fun _ => 0) (g := unstakedFor host message) (l := appendedUnder (host.hash message))
    (fun haccepts => ⟨carried_single _ haccepts, rfl⟩) ?_ rfl hdistinct
  · rw [List.sum_map_zero] at hflow
    omega
  intro events s c e turn
  obtain ⟨rest, htasks⟩ := turn.fires.tasks_eq
  rw [List.sum_map_zero]
  cases d.transition turn with
  | entered m p side deposit gas fresh task_eq deposit_eq external entry next verdict spawned =>
      have hinput : e.input = none := by
        rw [turn.fires.input_eq, fresh]
        rfl
      obtain ⟨ret, verdict⟩ := verdict
      rw [carried_spawned entry.paying spawned fun _ _ => rfl, next.carried_eq, entry.queueing_eq]
      simp only [appendedUnder, verdict, hinput, Receipt.appended_none]
      omega
  | advanced p p' side now self advance next verdict spawned =>
      have hstep := advance.queueing_le (now.tasks_eq.symm.trans htasks)
        (show ∀ m ∈ e.task.names host, host.hash m = host.hash message → m = message from turn.now)
      rw [← now.input_eq, ← turn.fires.input_eq] at hstep
      obtain ⟨ret, verdict⟩ := verdict
      rw [carried_spawned advance.paying spawned fun _ _ => rfl, next.carried_eq, now.carried_eq]
      simp only [appendedUnder, verdict]
      exact hstep
  | panicked p now here self verdict same next spawned =>
      rw [spawned, next.carried_eq, now.carried_eq]
      simp only [appendedUnder, verdict]
      cases p <;> simp [Phase.settle, Phase.queueing]
  | answered p r now away verdict same next spawned =>
      rw [spawned, next.carried_eq, now.carried_eq]
      simp only [appendedUnder, verdict]
      cases p <;> simp [Phase.settle, Phase.queueing]

/-- What a callback settles of a native payment counts as delivered. -/
theorem Describes.paid_le_delivered {c : PoolChain H} {e : PoolExecution H} {wnear : AccountId}
    {p : Phase H} {rest : List (Receipt H)} (h : Describes host wnear c p)
    (hash : H) (hhead : c.tasks = e.task :: rest) (hinput : e.input = c.input) :
    p.paid host hash ≤ e.task.delivered hash e.input := by
  have htasks := h.tasks_eq.symm.trans hhead
  rw [hinput, h.input_eq]
  cases p with
  | deliveredNative a r =>
      obtain ⟨htask, -⟩ := List.cons.inj htasks
      rw [← htask]
      exact le_rfl
  | _ => exact Nat.zero_le _

/-- What was paid has been delivered, waits for its settlement, or its
settlement panicked.

An account over runs in which a payment is the only thing that adds to the left
side. -/
theorem Deployment.paid_le (run : d.Reaches events sys) (hash : H) :
    (events.map (paidUnder hash)).sum ≤
      (sys.chains.map (carried host (Phase.paid host hash))).sum +
        (events.map fun ev => deliveredUnder hash ev + stuckUnder host hash ev).sum := by
  have hflow := run.flow_le (w := fun _ => 0) (v := carried host (Phase.paid host hash))
    (g := fun ev => deliveredUnder hash ev + stuckUnder host hash ev) (l := paidUnder hash)
    (fun haccepts => ⟨rfl, carried_single _ haccepts⟩) ?_ rfl (fun _ _ => trivial)
  · rw [List.sum_map_zero, Nat.zero_add] at hflow
    exact hflow
  intro events s c e (turn : d.Turn (fun _ => True) _ _ _ _)
  obtain ⟨rest, htasks⟩ := turn.fires.tasks_eq
  rw [List.sum_map_zero]
  cases d.transition turn with
  | entered m p side deposit gas fresh task_eq deposit_eq external entry next verdict spawned =>
      obtain ⟨ret, verdict⟩ := verdict
      have hzero : carried host (Phase.paid host hash) c = 0 := fresh ▸ carried_call _ task_eq
      rw [hzero]
      simp [paidUnder, verdict]
  | advanced p p' side now self advance next verdict spawned =>
      obtain ⟨ret, verdict⟩ := verdict
      have hdelivered := now.paid_le_delivered hash htasks turn.fires.input_eq
      rw [now.carried_eq]
      simp only [paidUnder, deliveredUnder, verdict]
      omega
  | panicked p now here self verdict same next spawned =>
      rw [now.carried_eq]
      simp only [paidUnder, stuckUnder, verdict, now.carried_eq]
      omega
  | answered p r now away verdict same next spawned =>
      rw [now.carried_eq, next.carried_eq, Phase.paid_of_away away,
        now.paidUnder_eq htasks verdict]
      omega

/-- A phase that has paid holds the lock it paid for. -/
theorem Describes.delivers_of_paid {c : PoolChain H} {wnear : AccountId} {p : Phase H}
    (h : Describes host wnear c p) (hpaid : p.paid host hash ≠ 0) :
    ∃ t, delivers host hash t c = true ∧ p.paid host hash = t.withdrawalAmount := by
  cases p with
  | deliveredNative a r =>
      simp only [Phase.paid, ne_eq, ite_eq_right_iff, not_forall] at hpaid ⊢
      obtain ⟨hcond, -⟩ := hpaid
      refine ⟨a.tranche, ?_, if_pos hcond⟩
      simp only [delivers, h.tasks_eq, Phase.any_settles, lockedBy, h.attempt_eq a rfl,
        Option.map_some, Phase.attempt, hcond.1, decide_true, Bool.and_self]
  | _ => exact absurd rfl hpaid

/-- A payment whose settlement panicked was made for the tranche that stays
locked. -/
theorem Deployment.panicked_of_stuck (run : d.Reaches events sys) (hash : H) :
    ∀ ev ∈ events, stuckUnder host hash ev ≠ 0 → ∃ t, settlementPanicked host hash t ev = true ∧
      stuckUnder host hash ev = t.withdrawalAmount := by
  refine run.forall_event (Q := fun ev => stuckUnder host hash ev ≠ 0 →
    ∃ t, settlementPanicked host hash t ev = true ∧
      stuckUnder host hash ev = t.withdrawalAmount) ?_ fun _ _ => trivial
  intro events s c e (turn : d.Turn (fun _ => True) _ _ _ _) hstuck
  obtain ⟨rest, htasks⟩ := turn.fires.tasks_eq
  cases d.transition turn with
  | panicked p now here self verdict same next spawned =>
      simp only [stuckUnder, verdict, now.carried_eq] at hstuck ⊢
      obtain ⟨t, hdelivers, hamount⟩ := now.delivers_of_paid hstuck
      refine ⟨t, ?_, hamount⟩
      simp only [delivers, Bool.and_eq_true] at hdelivers
      have hhead := now.tasks_eq.symm.trans htasks
      cases p with
      | deliveredNative a r =>
          obtain ⟨htask, -⟩ := List.cons.inj hhead
          simp only [now.tasks_eq, Phase.tasks, List.any_cons, List.any_nil, Bool.or_false]
            at hdelivers
          simp only [settlementPanicked, verdict, Bool.and_eq_true, ← htask]
          exact hdelivers
      | _ => exact absurd rfl hstuck
  | entered m p side deposit gas fresh task_eq deposit_eq external entry next verdict
  | advanced p p' side now self advance next verdict =>
      obtain ⟨ret, verdict⟩ := verdict
      simp only [stuckUnder, verdict] at hstuck
      exact absurd rfl hstuck
  | answered p r now away verdict =>
      simp only [stuckUnder, verdict] at hstuck
      exact absurd rfl hstuck

/-- What was paid and is not booked is queued all the same: the tranche is
locked for it.

At most one tranche is locked under the hash, so at most one payment is
unbooked. -/
theorem Deployment.unbooked_le (run : d.Reaches events sys) (hforce : ∀ ev ∈ events, Unforced ev)
    (hash : H) :
    (sys.chains.map (carried host (Phase.paid host hash))).sum +
        (events.map (stuckUnder host hash)).sum ≤
      queuedUnder hash sys.state.withdrawalRequests := by
  have hcount := d.count_locksAt run hforce hash
  have hone := (d.queueSound run).oneLock hash
  have hqueued : ((WithdrawalRequests.locksAt sys.state.withdrawalRequests hash).map
      Tranche.withdrawalAmount).sum ≤ queuedUnder hash sys.state.withdrawalRequests := by
    unfold queuedUnder
    rw [Tranches.sum_eq]
    exact Nat.le_add_left _ _
  refine le_trans ?_ hqueued
  -- Only the one tranche that is locked can be behind what a chain or a panic
  -- holds.
  have hchains : ∀ c ∈ sys.chains, carried host (Phase.paid host hash) c ≠ 0 → ∃ t,
      delivers host hash t c = true ∧
        carried host (Phase.paid host hash) c = t.withdrawalAmount := by
    intro c hc hpaid
    obtain ⟨p, hp⟩ := (d.phased run).described c hc
    rw [hp.carried_eq] at hpaid ⊢
    exact hp.delivers_of_paid hpaid
  have hevents := d.panicked_of_stuck run hash
  have hlocked : ∀ t, (0 < sys.chains.countP (delivers host hash t) ∨
      0 < events.countP (settlementPanicked host hash t)) →
        t ∈ WithdrawalRequests.locksAt sys.state.withdrawalRequests hash := by
    intro t ht
    have ht' := hcount t
    exact List.count_pos_iff.mp (by omega)
  generalize WithdrawalRequests.locksAt sys.state.withdrawalRequests hash = locks at *
  cases locks with
  | nil =>
      have hfree : (sys.chains.map (carried host (Phase.paid host hash))).sum = 0 ∧
          (events.map (stuckUnder host hash)).sum = 0 := by
        constructor <;> refine List.sum_eq_zero fun n hn => by_contra fun hne => ?_
        · obtain ⟨c, hc, rfl⟩ := List.mem_map.mp hn
          obtain ⟨t, hdelivers, -⟩ := hchains c hc hne
          cases hlocked t (.inl (List.countP_pos_iff.mpr ⟨c, hc, hdelivers⟩))
        · obtain ⟨ev, hev, rfl⟩ := List.mem_map.mp hn
          obtain ⟨t, hpanicked, -⟩ := hevents ev hev hne
          cases hlocked t (.inr (List.countP_pos_iff.mpr ⟨ev, hev, hpanicked⟩))
      omega
  | cons t rest =>
      obtain rfl : rest = [] := List.eq_nil_of_length_eq_zero (by simpa using hone)
      have hpaid := sum_map_le_countP (l := sys.chains) (q := delivers host hash t)
        (n := t.withdrawalAmount) (f := carried host (Phase.paid host hash)) fun c hc => by
          by_cases hzero : carried host (Phase.paid host hash) c = 0
          · rw [hzero]
            exact Nat.zero_le _
          · obtain ⟨t', hdelivers, hamount⟩ := hchains c hc hzero
            obtain rfl := List.mem_singleton.mp
              (hlocked t' (.inl (List.countP_pos_iff.mpr ⟨c, hc, hdelivers⟩)))
            rw [if_pos hdelivers, hamount]
      have hstuck := sum_map_le_countP (l := events) (q := settlementPanicked host hash t)
        (n := t.withdrawalAmount) (f := stuckUnder host hash) fun ev hev => by
          by_cases hzero : stuckUnder host hash ev = 0
          · rw [hzero]
            exact Nat.zero_le _
          · obtain ⟨t', hpanicked, hamount⟩ := hevents ev hev hzero
            obtain rfl := List.mem_singleton.mp
              (hlocked t' (.inr (List.countP_pos_iff.mpr ⟨ev, hev, hpanicked⟩)))
            rw [if_pos hpanicked, hamount]
      have hsplit := hcount t
      rw [List.count_singleton_self] at hsplit
      calc (sys.chains.map (carried host (Phase.paid host hash))).sum +
            (events.map (stuckUnder host hash)).sum
          ≤ sys.chains.countP (delivers host hash t) * t.withdrawalAmount +
              events.countP (settlementPanicked host hash t) * t.withdrawalAmount :=
            Nat.add_le_add hpaid hstuck
        _ = t.withdrawalAmount := by rw [← add_mul, ← hsplit, one_mul]
        _ = ([t].map Tranche.withdrawalAmount).sum := by simp

/-- **Nobody is paid more than was unstaked for them.**  Without forced
releases, and as long as no other message of the run has its hash: what is
queued for a message, what was delivered and what is on its way into the queue
come to at most the NEAR that unstakes for the message took out of the stake;
and so does the NEAR that native payments have really brought to its receiver.

The two halves differ in what they count.  The first is about the books, where a
settlement that panicked has delivered nothing; the second is about the payments
themselves, which were made all the same. -/
theorem Deployment.paid_le_unstaked (run : d.Reaches events sys)
    (hforce : ∀ ev ∈ events, Unforced ev) (message : UnstakeMessage)
    (hdistinct : ∀ ev ∈ events, Distinct host message ev) :
    queuedUnder (host.hash message) sys.state.withdrawalRequests +
        (events.map (deliveredUnder (host.hash message))).sum +
        (sys.chains.map (carried host (Phase.queueing (host.hash message)))).sum ≤
      (events.map (unstakedFor host message)).sum ∧
    (events.map (paidUnder (host.hash message))).sum ≤
      (events.map (unstakedFor host message)).sum := by
  have happended := d.appended_le run hdistinct
  have hdelivered := d.queued_add_delivered run hforce (host.hash message)
  have hpaid := d.paid_le run (host.hash message)
  have hunbooked := d.unbooked_le run hforce (host.hash message)
  rw [List.sum_map_add] at hpaid
  constructor <;> omega

/-- The treasury unstakes 40 for `bob`, and `bob` is paid 40. -/
theorem Deployment.paid_le_unstaked_sample :
    ((samplePool.played (sampleUnstake "native" ++
        sampleWithdrawal ⟨"bob", .native⟩ (.successful .empty)) rfl).1.map
          (paidUnder (⟨"bob", .native⟩ : UnstakeMessage))).sum = 40 ∧
      40 ≤ ((samplePool.played (sampleUnstake "native" ++
        sampleWithdrawal ⟨"bob", .native⟩ (.successful .empty)) rfl).1.map
          (unstakedFor sampleHost ⟨"bob", .native⟩)).sum := by
  have hpaid : ((samplePool.played (sampleUnstake "native" ++
      sampleWithdrawal ⟨"bob", .native⟩ (.successful .empty)) rfl).1.map
        (paidUnder (⟨"bob", .native⟩ : UnstakeMessage))).sum = 40 := by
    decide +kernel
  have hbound := (samplePool.paid_le_unstaked (samplePool.played_reaches (sampleUnstake "native" ++
    sampleWithdrawal ⟨"bob", .native⟩ (.successful .empty)) rfl) (by decide +kernel)
      ⟨"bob", .native⟩ fun ev _ m _ hm => hm).2
  exact ⟨hpaid, hpaid ▸ hbound⟩

end Reaches

end LiquidStaking
