import LiquidStaking.LiveBalance

/-!
# Funded runs

A run says nothing yet about the NEAR on the account.  `Funded` is a run
together with its `Funds`: an executed receipt brings its deposit along and
takes away what it sends, a failed payment comes back later, and anything else
that is credited is income.  A receipt that runs here sees the live balance, and
nothing can be sent that is not there.

Two facts carry what follows.

* `Funded.balance_eq` adds the turns up: the live balance, with what is on its
  way back or in transit and the rewards so far, is the tracked total and the
  income.
* A sync recognizes no more than what it sees beyond the tracked total
  (`Deployment.rewardOf_le`), and that difference is income.
-/

namespace LiquidStaking

open Checked PromiseChain

/-- The NEAR of the account: locked and liquid, on its way back, and the income
so far. -/
structure Funds where
  /-- Locked and liquid together, as a sync adds them. -/
  live : ℕ
  /-- What the host still has to send back. -/
  returning : ℕ
  /-- What came without a booking: rewards, gifts, and yoctoNEAR. -/
  income : ℕ
  deriving DecidableEq, Repr

namespace Funds

variable {H : Type} (host : Host H) (f : Funds) (ev : PoolEvent H)

/-- Some income arrives. -/
def credit (n : ℕ) : Funds := { f with live := f.live + n, income := f.income + n }

/-- Some of a failed payment is back. -/
def refund (n : ℕ) : Funds := { f with live := f.live + n, returning := f.returning - n }

/-- What an event does to the funds. -/
def after : Funds where
  live := f.live + arriving host ev - leaving ev
  returning := f.returning + refunded host ev
  income := f.income + earned host ev

/-- A receipt that runs here sees the live balance, with its own deposit. -/
def Sees : Prop :=
  match ev.execution.verdict with
  | .committed _ _ =>
      ev.execution.context.accountLockedBalance + ev.execution.context.accountBalance =
        f.live + arriving host ev
  | _ => True

instance : Decidable (f.Sees host ev) := by
  unfold Sees
  split <;> infer_instance

variable {host f ev} in
/-- A receipt that commits here saw the live balance. -/
theorem Sees.live_eq {ret : Return H} {side : List (Receipt H)} (h : f.Sees host ev)
    (hverdict : ev.execution.verdict = .committed ret side) :
    f.live + arriving host ev =
      ev.execution.context.accountLockedBalance + ev.execution.context.accountBalance := by
  unfold Sees at h
  rw [hverdict] at h
  exact h.symm

/-- The funds allow an event: nothing leaves that is not there, and the balance
is a `u128`. -/
structure Allows : Prop where
  sees : f.Sees host ev
  covered : leaving ev ≤ f.live + arriving host ev
  bounded : f.live + arriving host ev < 2 ^ 128

instance : Decidable (f.Allows host ev) :=
  decidable_of_iff (f.Sees host ev ∧ leaving ev ≤ f.live + arriving host ev ∧
    f.live + arriving host ev < 2 ^ 128) ⟨fun h => ⟨h.1, h.2.1, h.2.2⟩,
      fun h => ⟨h.sees, h.covered, h.bounded⟩⟩

end Funds

section Funded

variable {H : Type} [DecidableEq H] {host : Host H}

/-- A run from deployment, with its funds. -/
inductive Deployment.Funded (d : Deployment host) :
    List (PoolEvent H) → PoolSystem H → Funds → Prop
  /-- The account holds what it was deployed with. -/
  | deploy : d.Funded [] d.genesis ⟨d.env.accountLockedBalance + d.env.accountBalance, 0, 0⟩
  /-- Income may arrive at any time, and in any amount. -/
  | credit {events : List (PoolEvent H)} {sys : PoolSystem H} {f : Funds}
      (run : d.Funded events sys f) (n : ℕ) : d.Funded events sys (f.credit n)
  /-- So may a refund, up to what is on its way back. -/
  | refund {events : List (PoolEvent H)} {sys : PoolSystem H} {f : Funds}
      (run : d.Funded events sys f) (n : ℕ) (le : n ≤ f.returning) :
      d.Funded events sys (f.refund n)
  /-- A step that the funds allow. -/
  | step {events : List (PoolEvent H)} {sys sys' : PoolSystem H} {f : Funds} {ev : PoolEvent H}
      (run : d.Funded events sys f) (step : (platform host).Step sys ev sys')
      (allowed : f.Allows host ev) : d.Funded (ev :: events) sys' (f.after host ev)

/-- One move of a funded schedule. -/
inductive FundMove (H : Type) where
  | credit (n : ℕ)
  | refund (n : ℕ)
  | run (move : Platform.Move Env (Receipt H) Payload)

/-- Replay a funded schedule. -/
def replayFunded (host : Host H) (events : List (PoolEvent H)) (sys : PoolSystem H) (f : Funds) :
    List (FundMove H) → Option (List (PoolEvent H) × PoolSystem H × Funds)
  | [] => some (events, sys, f)
  | .credit n :: moves => replayFunded host events sys (f.credit n) moves
  | .refund n :: moves =>
      if n ≤ f.returning then replayFunded host events sys (f.refund n) moves else none
  | .run move :: moves =>
      match (platform host).replayStep sys move with
      | some (ev, sys') =>
          if f.Allows host ev then replayFunded host (ev :: events) sys' (f.after host ev) moves
          else none
      | none => none

/-- **A replayed schedule is a funded run.** -/
theorem replayFunded_funded {d : Deployment host} {events events' : List (PoolEvent H)}
    {sys sys' : PoolSystem H} {f f' : Funds} {moves : List (FundMove H)}
    (run : d.Funded events sys f)
    (h : replayFunded host events sys f moves = some (events', sys', f')) :
    d.Funded events' sys' f' := by
  induction moves generalizing events sys f with
  | nil =>
      obtain ⟨rfl, rfl, rfl⟩ := Option.some.inj h
      exact run
  | cons move moves ih =>
      cases move with
      | credit n => exact ih (run.credit n) h
      | refund n =>
          unfold replayFunded at h
          split_ifs at h with hle
          exact ih (run.refund n hle) h
      | run move =>
          unfold replayFunded at h
          split at h
          · next ev sys'' hstep =>
              split_ifs at h with hallowed
              exact ih (run.step (Platform.replayStep_step hstep) hallowed) h
          · cases h

/-- Replay a funded schedule from deployment. -/
def Deployment.fund (d : Deployment host) (moves : List (FundMove H)) :
    Option (List (PoolEvent H) × PoolSystem H × Funds) :=
  replayFunded host [] d.genesis ⟨d.env.accountLockedBalance + d.env.accountBalance, 0, 0⟩ moves

/-- The events, the system and the funds of a schedule that can be replayed. -/
def Deployment.funded (d : Deployment host) (moves : List (FundMove H))
    (h : (d.fund moves).isSome = true) : List (PoolEvent H) × PoolSystem H × Funds :=
  (d.fund moves).get h

/-- They are a funded run. -/
theorem Deployment.funded_run (d : Deployment host) (moves : List (FundMove H))
    (h : (d.fund moves).isSome = true) :
    d.Funded (d.funded moves h).1 (d.funded moves h).2.1 (d.funded moves h).2.2 :=
  replayFunded_funded .deploy (Option.some_get h).symm

end Funded

/-! ## The books of a funded run -/

section Books

variable {H : Type} [DecidableEq H] {host : Host H} {d : Deployment host}
  {events : List (PoolEvent H)} {sys : PoolSystem H} {c : PoolChain H} {e : PoolExecution H}
  {f : Funds} {Good : PoolEvent H → Prop}

/-- The tracked NEAR that is not on the account. -/
def inTransit (host : Host H) (sys : PoolSystem H) : ℕ :=
  (sys.chains.map (carried host (Phase.transit host))).sum

namespace Deployment.Funded

/-- A funded run is a run. -/
theorem reaches (h : d.Funded events sys f) : d.Reaches events sys := by
  induction h with
  | deploy => exact .start
  | credit run n ih => exact ih
  | refund run n le ih => exact ih
  | step run step allowed ih => exact ih.step step

/-- No event sends more than an account can hold. -/
theorem leaving_lt (h : d.Funded events sys f) : ∀ ev ∈ events, leaving ev < 2 ^ 128 := by
  induction h with
  | deploy => simp
  | credit run n ih => exact ih
  | refund run n le ih => exact ih
  | step run step allowed ih =>
      intro ev hev
      rcases List.mem_cons.mp hev with rfl | hold
      · exact lt_of_le_of_lt allowed.covered allowed.bounded
      · exact ih ev hold

/-- The funds of a run, added up. -/
theorem live_eq (h : d.Funded events sys f) :
    (f.live + f.returning - f.income : ℤ) = d.env.accountLockedBalance + d.env.accountBalance +
      (events.map fun ev => (arriving host ev - leaving ev + refunded host ev -
        earned host ev : ℤ)).sum := by
  induction h with
  | deploy => simp
  | credit run n ih =>
      rw [← ih]
      simp only [Funds.credit]
      omega
  | refund run n le ih =>
      rw [← ih]
      simp only [Funds.refund]
      omega
  | @step events sys sys' f ev run step allowed ih =>
      have hcovered := allowed.covered
      rw [List.map_cons, List.sum_cons]
      simp only [Funds.after]
      omega

end Deployment.Funded

omit [DecidableEq H] in
/-- A call from outside starts with a phase that fits, as far as its receipts
do. -/
theorem Entry.fits [DecidableEq H] {env : Env} {s s' : LiquidStakingToken H} {m : Method H}
    {p : Phase H} {side : List (Receipt H)} (h : Entry host env s m s' p side)
    (hlt : p.carries host < 2 ^ 128) : p.Fits host := by
  cases h with
  | stake args s₁ result o synced quoted sender_eq args_eq deposit_eq native =>
      simp [Phase.Fits, native]
  | withdrawWnear => exact hlt
  | _ => trivial

/-- A callback goes on with a phase that fits. -/
theorem Advance.fits {env : Env} {s s' : LiquidStakingToken H} {p p' : Phase H}
    {side : List (Receipt H)} (h : Advance host env s p s' p' side) : p'.Fits host := by
  cases h with
  | unwrapQuoted ok s₁ result o synced quoted sender_eq args_eq deposit_eq wnear =>
      simp [Phase.Fits, wnear]
  | @rolledBack m => cases m.depositToken <;> trivial
  | _ => trivial

omit [DecidableEq H] in
/-- So does a receipt that ends. -/
theorem Phase.Fits.settle {p : Phase H} (h : p.Fits host) (r : PromiseResult) :
    (p.settle r).Fits host := by
  cases p with
  | deliveringWnear a => exact h
  | _ => trivial

/-- The phases of a run fit. -/
theorem Deployment.fits (run : d.Reaches events sys)
    (hleaving : ∀ ev ∈ events, leaving ev < 2 ^ 128) :
    ∀ c ∈ sys.chains, ∀ p, Describes host d.wnearId c p → p.Fits host := by
  refine (d.invariant_turn (I := fun _ => True) (K := fun _ p => p.Fits host) trivial
    (fun _ _ _ _ => trivial) ?_ run hleaving).2
  intro events s c e turn _ ih
  refine ⟨trivial, fun p' hp' => ?_⟩
  cases d.transition turn with
  | entered m p side deposit gas fresh task_eq deposit_eq external entry next verdict spawned =>
      obtain rfl := hp'.unique next
      obtain ⟨ret, hverdict⟩ := verdict
      have hsent := leaving_entered fresh hverdict hp'.valid hp'.tasks_eq
      have hlt : leaving ⟨c, e⟩ < 2 ^ 128 := turn.now
      exact entry.fits (by omega)
  | advanced p p'' side now self advance next verdict spawned =>
      obtain rfl := hp'.unique next
      exact advance.fits
  | panicked p now here self verdict same next spawned =>
      obtain rfl := hp'.unique next
      exact (ih p now).settle _
  | answered p r now away verdict same next spawned =>
      obtain rfl := hp'.unique next
      exact (ih p now).settle _

/-- **The tracked total of a run**: what the events brought and took, beyond
what is in transit.

This is `Deployment.flow_eq` added up over the events; it holds for any run,
without funds. -/
theorem Deployment.tracked_eq (run : d.Reaches events sys)
    (hleaving : ∀ ev ∈ events, leaving ev < 2 ^ 128) :
    (d.env.accountLockedBalance + d.env.accountBalance : ℤ) =
      sys.state.statistics.latestTotalBalance - inTransit host sys +
        (events.map fun ev => (leaving ev + earned host ev - arriving host ev - refunded host ev -
          lost host ev - rewardOf ev : ℤ)).sum := by
  have hledger : (d.state.statistics.latestTotalBalance : ℤ) + 0 + 0 =
      sys.state.statistics.latestTotalBalance +
        (sys.chains.map fun c => -((carried host (Phase.transit host) c : ℕ) : ℤ)).sum +
        (events.map fun ev => (leaving ev + earned host ev - arriving host ev -
          refunded host ev - lost host ev - rewardOf ev : ℤ)).sum := by
    refine run.potential_eq (Φ := fun s => (s.statistics.latestTotalBalance : ℤ))
      (fun haccepts => ?_) ?_ hleaving
    · rw [carried_single _ haccepts]
      rfl
    · intro events s c e turn _
      have hflow := d.flow_eq turn fun p hp =>
        d.fits turn.run turn.good c (hp.mem turn.origin) p hp
      rw [Platform.Run.sum_neg_cast]
      omega
  rw [Platform.Run.sum_neg_cast, d.initial.balance_eq] at hledger
  unfold inTransit
  omega

/-- **The books of a funded run.**

What was recognized is both tracked and income, and what was lost is tracked but
gone; so the two are added to the NEAR on the left. -/
theorem Deployment.Funded.balance_eq (h : d.Funded events sys f) :
    f.live + f.returning + inTransit host sys + (events.map rewardOf).sum +
        (events.map (lost host)).sum =
      sys.state.statistics.latestTotalBalance + f.income := by
  have hlive := h.live_eq
  have htracked := d.tracked_eq h.reaches h.leaving_lt
  have hsum : (events.map fun ev => (arriving host ev - leaving ev + refunded host ev -
      earned host ev : ℤ)).sum + (events.map fun ev => (leaving ev + earned host ev -
        arriving host ev - refunded host ev - lost host ev - rewardOf ev : ℤ)).sum =
      -((events.map rewardOf).sum + (events.map (lost host)).sum : ℕ) := by
    clear h hlive htracked
    induction events with
    | nil => rfl
    | cons ev events ih =>
        simp only [List.map_cons, List.sum_cons]
        omega
  omega

/-! ## Rewards come out of income -/

omit [DecidableEq H] in
/-- A method that syncs leaves its deposit out, or keeps it as income. -/
theorem Entry.deposit_le [DecidableEq H] {env : Env} {s s' : LiquidStakingToken H} {m : Method H}
    {p : Phase H} {side : List (Receipt H)} (h : Entry host env s m s' p side) :
    rewardIn env (m.excludes env.attachedDeposit) s s' = 0 ∨
      env.attachedDeposit ≤ m.excludes env.attachedDeposit +
        if m.booksDeposit then 0 else env.attachedDeposit := by
  cases h with
  | storageKnown | storageNew | storageWithdraw | unregister | unregisterNone =>
      left
      exact rewardIn_eq_zero rfl
  | stake =>
      right
      exact Nat.le_add_right _ _
  | _ =>
      right
      exact Nat.le_add_left _ _

/-- A callback that syncs comes without a deposit. -/
theorem Advance.deposit_eq_zero {env : Env} {s s' : LiquidStakingToken H} {p p' : Phase H}
    {side : List (Receipt H)} (h : Advance host env s p s' p' side) :
    rewardIn env 0 s s' = 0 ∨ p.carries host = 0 := by
  cases h with
  | minted | mintedRegistering =>
      left
      exact rewardIn_eq_zero rfl
  | _ =>
      right
      rfl

/-- **What a sync recognizes** is live, or income of the same receipt.

This is where it matters that the receipt sees the live balance, and that the
deposit of a stake is excluded. -/
theorem Deployment.rewardOf_le (turn : d.Turn Good events sys c e) (hsees : f.Sees host ⟨c, e⟩) :
    rewardOf ⟨c, e⟩ = 0 ∨ rewardOf ⟨c, e⟩ + e.before.statistics.latestTotalBalance ≤
      f.live + earned host ⟨c, e⟩ := by
  -- The reward is what the receipt saw beyond the tracked total, so only its
  -- deposit matters.
  have hsaw : ∀ excluded, f.live + arriving host ⟨c, e⟩ = e.context.accountLockedBalance +
      e.context.accountBalance → arriving host ⟨c, e⟩ ≤ excluded + earned host ⟨c, e⟩ →
      rewardIn e.context excluded e.before e.after = 0 ∨
        rewardIn e.context excluded e.before e.after + e.before.statistics.latestTotalBalance ≤
          f.live + earned host ⟨c, e⟩ := by
    intro excluded hlive hle
    unfold rewardIn
    split_ifs
    · exact .inl rfl
    · omega
  obtain ⟨rest, hhead⟩ := turn.fires.tasks_eq
  have hread := turn.fires.input_eq
  have hreward : rewardOf ⟨c, e⟩ = rewardIn e.context (excludedBy e.task) e.before e.after := rfl
  rw [hreward]
  cases d.transition turn with
  | entered m p side deposit gas fresh task_eq deposit_eq external entry next verdict spawned =>
      obtain ⟨ret, hverdict⟩ := verdict
      obtain ⟨harriving, hearned, hexcluded, -⟩ := entered_flow host (c := c) task_eq
        (hread.trans (by rw [fresh]; rfl)) hverdict
      have hdeposit := entry.deposit_le
      rw [deposit_eq] at hdeposit
      rw [hexcluded]
      rcases hdeposit with hnone | hle
      · exact .inl hnone
      · exact hsaw _ (hsees.live_eq hverdict) (by rw [harriving, hearned]; exact hle)
  | advanced p p' side now self advance next verdict spawned =>
      obtain ⟨ret, hverdict⟩ := verdict
      obtain ⟨harriving, -, hexcluded, -⟩ := Phase.committed_flow advance
        now.valid now.tasks_eq now.input_eq hhead hread hverdict
      rw [hexcluded]
      rcases advance.deposit_eq_zero with hnone | hzero
      · exact .inl hnone
      · exact hsaw _ (hsees.live_eq hverdict) (by omega)
  | panicked p now here self verdict same | answered p r now away verdict same =>
      left
      rw [same]
      exact rewardIn_eq_zero rfl

/-- **Rewards come out of income.**

What a sync recognizes is what the live balance has beyond the tracked total,
and by `balance_eq` that is at most the income that was not recognized before. -/
theorem Deployment.Funded.rewards_le (h : d.Funded events sys f) :
    (events.map rewardOf).sum ≤ f.income := by
  induction h with
  | deploy => rfl
  | credit run n ih => exact Nat.le_add_right_of_le ih
  | refund run n le ih => exact ih
  | @step events sys sys' f ev run step allowed ih =>
      obtain ⟨c, e⟩ := ev
      have hbooks := run.balance_eq
      have hturn : d.Turn (fun _ => True) events sys c e :=
        ⟨run.reaches, fun _ _ => trivial, step.fires, step.origin, trivial⟩
      have hle := d.rewardOf_le hturn allowed.sees
      rw [hturn.fires.before_eq] at hle
      rw [List.map_cons, List.sum_cons]
      simp only [Funds.after]
      omega

/-- A chain that is done has nothing in transit. -/
theorem inTransit_eq_zero (run : d.Reaches events sys) (hdone : ∀ c ∈ sys.chains, c.tasks = []) :
    inTransit host sys = 0 := by
  refine List.sum_eq_zero fun n hn => ?_
  obtain ⟨c, hc, rfl⟩ := List.mem_map.mp hn
  obtain ⟨p, hp⟩ := (d.phased run).described c hc
  have htasks := hp.tasks_eq.symm.trans (hdone c hc)
  rw [hp.carried_eq]
  cases p <;> first | rfl | cases htasks

omit [DecidableEq H] in
/-- The callbacks that book a payment out. -/
def booksOut (t : Receipt H) : Bool :=
  match t.actions with
  | [.call (.onNearWithdraw _ _ _) _ _] | [.call (.onWithdrawNative _ _) _ _]
  | [.call (.onWithdrawWnear _ _ _ _ _) _ _] => true
  | _ => false

omit [DecidableEq H] in
/-- The callback of a stake that the pool sent itself. -/
def settlesOwnStake (host : Host H) (t : Receipt H) : Bool :=
  match t.actions with
  | [.call (.onRestakeOrRefund senderId _ _ _ _) _ _] => decide (senderId = host.currentAccountId)
  | _ => false

omit [DecidableEq H] in
/-- The receipt of the event panicked. -/
def panics (ev : PoolEvent H) : Bool :=
  match ev.execution.verdict with
  | .panicked => true
  | _ => false

omit [DecidableEq H] in
/-- The callbacks that book a payment out do not panic, and the pool is not the
sender of a wNEAR stake.

Such a panic would leave a payment in the tracked total after it was made. -/
structure BooksOut (host : Host H) (ev : PoolEvent H) : Prop where
  commits : booksOut ev.execution.task = true → panics ev = false
  foreign : settlesOwnStake host ev.execution.task = false

instance (ev : PoolEvent H) : Decidable (BooksOut host ev) :=
  decidable_of_iff ((booksOut ev.execution.task = true → panics ev = false) ∧
    settlesOwnStake host ev.execution.task = false) ⟨fun h => ⟨h.1, h.2⟩, fun h => ⟨h.1, h.2⟩⟩

omit [DecidableEq H] in
/-- Then nothing stays tracked that is gone. -/
theorem BooksOut.lost_eq_zero {ev : PoolEvent H} (h : BooksOut host ev) : lost host ev = 0 := by
  obtain ⟨hcommits, hforeign⟩ := h
  unfold booksOut panics at hcommits
  unfold settlesOwnStake at hforeign
  unfold lost
  split
  · next hactions =>
      simp only [hactions, decide_eq_false_iff_not] at hforeign
      simp [hforeign]
  · next hverdict _ hactions => simp [hverdict, hactions] at hcommits
  · next hverdict _ hactions => simp [hverdict, hactions] at hcommits
  · next hverdict _ hactions => simp [hverdict, hactions] at hcommits
  · rfl

/-- Nothing is in flight, and no refund is on its way. -/
structure Settled (sys : PoolSystem H) (f : Funds) : Prop where
  done : ∀ c ∈ sys.chains, c.tasks = []
  returned : f.returning = 0

/-- **Principal is never recognized as a reward.**  In every funded run the
rewards recognized so far are covered by the income so far; and once nothing is
in flight, what the account has beyond the tracked total is the income not yet
recognized.

The first part holds at any time and whatever panics: NEAR that is booked ahead,
in transit, or refunded by the host is never mistaken for a reward.  The rewards
are those that the syncs return (`Deployment.recognizes_iff`). -/
theorem Deployment.Funded.principal_kept (h : d.Funded events sys f) :
    (events.map rewardOf).sum ≤ f.income ∧
      (Settled sys f → (∀ ev ∈ events, BooksOut host ev) →
        f.live + (events.map rewardOf).sum =
          sys.state.statistics.latestTotalBalance + f.income) := by
  refine ⟨h.rewards_le, fun hsettled hbooks => ?_⟩
  have hbalance := h.balance_eq
  have hlost : (events.map (lost host)).sum = 0 := by
    refine List.sum_eq_zero fun n hn => ?_
    obtain ⟨ev, hev, rfl⟩ := List.mem_map.mp hn
    exact (hbooks ev hev).lost_eq_zero
  have htransit := inTransit_eq_zero h.reaches hsettled.done
  have hreturned := hsettled.returned
  omega

/-- `alice` stakes 10 for the treasury and pays for its registration once more;
then 50 are credited, and a ping in the next epoch recognizes them. -/
private def sampleUnneeded : List (FundMove UnstakeMessage) :=
  let deposit := 10 + ftStorageDeposit
  let env := sampleEnv 100 (1000 + deposit) 0 "pool" 0
  [.run (.enter (sampleEnv 100 (1000 + deposit) 0 "alice" deposit)
      (.call "pool" (.stake ⟨"treasury", none, none, true, none, none⟩) deposit 0)),
    .run (.fire 0 env), .run (.answer 1 env (.successful .empty)), .run (.fire 0 env),
    .run (.answer 0 env (.successful .empty)), .run (.fire 0 env), .credit 50,
    .run (.enter (sampleEnv 110 (1040 + deposit) 1 "bob" 0) (.call "pool" .ping 0 0)),
    .run (.answer 2 (sampleEnv 110 (1040 + deposit) 1 "pool" 0) (.successful .empty)),
    .run (.fire 2 (sampleEnv 110 (1040 + deposit) 1 "pool" 0))]

/-- In that run 50 are recognized, and nothing is left beyond the tracked total. -/
theorem Deployment.principal_kept_sample :
    ((samplePool.funded sampleUnneeded rfl).1.map rewardOf).sum ≤ 50 ∧
      (samplePool.funded sampleUnneeded rfl).2.2.live +
          ((samplePool.funded sampleUnneeded rfl).1.map rewardOf).sum =
        (samplePool.funded sampleUnneeded rfl).2.1.state.statistics.latestTotalBalance + 50 := by
  obtain ⟨hle, hsettled⟩ := (samplePool.funded_run sampleUnneeded rfl).principal_kept
  exact ⟨hle, hsettled ⟨by decide +kernel, by decide +kernel⟩ (by decide +kernel)⟩

/-! ## An unneeded registration -/

omit [DecidableEq H] in
/-- The minting batch of a stake paid for a registration that was there already. -/
def unneeded (ev : PoolEvent H) : Bool :=
  match ev.execution.verdict, ev.execution.task.actions with
  | .committed _ _, [.call (.storageDeposit (some receiverId) _) _ _,
      .call (.modifyStateBeforeStake _ _ _ _ _) _ _]
  | .committed _ _, [.transfer _, .call (.storageDeposit (some receiverId) _) _ _,
      .call (.modifyStateBeforeStake _ _ _ _ _) _ _] =>
      ev.execution.before.token.isRegistered receiverId
  | _, _ => false

omit [DecidableEq H] in
/-- The deposits for such registrations are beyond the tracked total, on top of
the income, or a sync has recognized them. -/
def Accrues (events : List (PoolEvent H)) (sys : PoolSystem H) (f : Funds) : Prop :=
  sys.state.statistics.latestTotalBalance + f.income +
      ftStorageDeposit * events.countP unneeded ≤ f.live + (events.map rewardOf).sum

instance (events : List (PoolEvent H)) (sys : PoolSystem H) (f : Funds) :
    Decidable (Accrues events sys f) := by
  unfold Accrues
  infer_instance

/-- **No unneeded deposit accrues.**  Once nothing is in flight, a run that took
such deposits has all of them in the tracked total: beyond it, and among the
rewards, there is nothing but income.

A sync recognizes only what is beyond the tracked total, so no later sync will
recognize them either. -/
theorem Deployment.Funded.unneeded_not_accrued (h : d.Funded events sys f)
    (hsettled : Settled sys f) (hunneeded : 0 < events.countP unneeded) :
    ¬Accrues events sys f ∧ f.live + (events.map rewardOf).sum ≤
      sys.state.statistics.latestTotalBalance + f.income := by
  have hbalance := h.balance_eq
  have htransit := inTransit_eq_zero h.reaches hsettled.done
  have hreturned := hsettled.returned
  have hincome : f.live + (events.map rewardOf).sum ≤
      sys.state.statistics.latestTotalBalance + f.income := by omega
  refine ⟨fun haccrues => ?_, hincome⟩
  have hdeposit : ftStorageDeposit ≤ ftStorageDeposit * events.countP unneeded :=
    Nat.le_mul_of_pos_right _ hunneeded
  have hpos : 0 < ftStorageDeposit := by decide
  unfold Accrues at haccrues
  omega

/-- In the sample run the deposit is tracked, and no sync will find it. -/
theorem Deployment.unneeded_not_accrued_sample :
    ¬Accrues (samplePool.funded sampleUnneeded rfl).1 (samplePool.funded sampleUnneeded rfl).2.1
      (samplePool.funded sampleUnneeded rfl).2.2 :=
  ((samplePool.funded_run sampleUnneeded rfl).unneeded_not_accrued
    ⟨by decide +kernel, by decide +kernel⟩ (by decide +kernel)).1

/-- The stake is minted with a deposit of `FT_STORAGE_DEPOSIT` for a registered
receiver, all its receipts succeed and nothing is in flight any more.  Only the
50 that were credited have been recognized, the live balance is the tracked
total, and of that the deposit is what neither the stake nor the initial 1000
account for. -/
theorem Deployment.unneeded_deposit_tracked :
    samplePool.Funded (samplePool.funded sampleUnneeded rfl).1
        (samplePool.funded sampleUnneeded rfl).2.1 (samplePool.funded sampleUnneeded rfl).2.2 ∧
      (∀ c ∈ (samplePool.funded sampleUnneeded rfl).2.1.chains, c.tasks = []) ∧
      (samplePool.funded sampleUnneeded rfl).1.countP unneeded = 1 ∧
      (samplePool.funded sampleUnneeded rfl).2.2 = ⟨1160 + ftStorageDeposit, 0, 50⟩ ∧
      (samplePool.funded sampleUnneeded rfl).2.1.state.statistics.latestTotalBalance =
        1160 + ftStorageDeposit ∧
      ((samplePool.funded sampleUnneeded rfl).1.map rewardOf).sum = 50 ∧
      slack sampleHost samplePool.keepers (samplePool.funded sampleUnneeded rfl).2.1.state =
        1000 + ftStorageDeposit ∧
      ¬Accrues (samplePool.funded sampleUnneeded rfl).1 (samplePool.funded sampleUnneeded rfl).2.1
        (samplePool.funded sampleUnneeded rfl).2.2 :=
  ⟨samplePool.funded_run sampleUnneeded rfl, by decide +kernel⟩

end Books

end LiquidStaking
