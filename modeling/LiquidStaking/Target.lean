import LiquidStaking.Rate

/-!
# The validator's target

A stake or an unstake changes `total_staked_amount` and then schedules a stake
action for the amount that results.  The last action scheduled is the one that
stays with the validator, if it succeeds.

What it was scheduled for is the stake at that moment.  Later mints schedule
actions of their own, and burns do so in the same receipt; but a rollback
changes the stake and schedules nothing.  So once nothing is in flight, the last
target misses exactly what was rolled back after it was scheduled
(`Deployment.target_follows_iff`).
-/

namespace LiquidStaking

open Checked PromiseChain

section Definitions

variable {H : Type}

/-- The amount of the stake action that a chain runs next. -/
def nextTarget (c : PoolChain H) : Option ℕ :=
  match c.tasks with
  | ⟨_, [.stake amount _], _⟩ :: _ => some amount
  | _ => none

/-- The amount of the stake action that an event schedules.

It is the first receipt of what the chain goes on with. -/
def targetOf (ev : PoolEvent H) : Option ℕ := nextTarget (ev.chain.resume ev.execution)

/-- The amount of the stake action that an event applies.

Whether the action then succeeds is in the verdict of the event. -/
def applied (ev : PoolEvent H) : Option ℕ :=
  match ev.execution.task.actions with
  | [.stake amount _] => some amount
  | _ => none

/-- What the rollback of a stake takes out of the stake.

A callback that panics takes nothing out. -/
def takenBack (ev : PoolEvent H) : ℕ :=
  match ev.execution.verdict, ev.execution.task.actions, ev.execution.input with
  | .committed _ _, [.call (.onRestakeOrRefund _ stakeAmount _ _ _) _ _], some r =>
      if resultOk r then 0 else stakeAmount
  | _, _, _ => 0

/-- What the rollback of an unstake puts back. -/
def putBack (ev : PoolEvent H) : ℕ :=
  match ev.execution.verdict, ev.execution.task.actions, ev.execution.input with
  | .committed _ _, [.call (.onUnstake _ nearAmount _ _) _ _], some r =>
      if resultOk r then 0 else nearAmount
  | _, _, _ => 0

/-- The receipt is `restake_or_refund`. -/
def Receipt.restakes (t : Receipt H) : Bool :=
  match t.actions with
  | [.call (.restakeOrRefund ..) _ _] => true
  | _ => false

/-- The receipt changes the validator. -/
def Receipt.setsKey (t : Receipt H) : Bool :=
  match t.actions with
  | [.call (.setValidatorPublicKey _) _ _] => true
  | _ => false

/-- No reward is recognized, the validator stays, and the receipt that schedules
the stake action of a stake gets the gas reserved for it.

A sync could change the stake and schedule nothing, and stake whose receipt runs
out of gas is not restaked. -/
structure Undisturbed (ev : PoolEvent H) : Prop where
  epoch_eq : ev.execution.after.statistics.lastEpochSynced =
    ev.execution.before.statistics.lastEpochSynced
  key : ev.execution.task.setsKey = false
  gas : ev.execution.task.restakes = true → ev.execution.context.gasExhausted = false

instance (ev : PoolEvent H) : Decidable (Undisturbed ev) :=
  decidable_of_iff (_ ∧ _ ∧ (_ → _)) ⟨fun h => ⟨h.1, h.2.1, h.2.2⟩,
    fun h => ⟨h.epoch_eq, h.key, h.gas⟩⟩

/-- The stake action a phase starts with.

`stopping` takes the whole stake from a validator that is to be replaced. -/
def Phase.target : Phase H → Option ℕ
  | .restaking _ amount _ | .unstaking _ amount _ _ | .pinging amount _ => some amount
  | .stopping _ => some 0
  | _ => none

/-- The stake a phase takes back with its next receipt. -/
def Phase.takes : Phase H → ℕ
  | .restaked m r => if resultOk r then 0 else m.stakeAmount
  | _ => 0

/-- The stake a phase puts back with its next receipt. -/
def Phase.puts : Phase H → ℕ
  | .unstaked u _ r => if resultOk r then 0 else u.nearAmount
  | _ => 0

/-- The chain restakes for `set_validator_public_key` or `ping`.

These are the chains that an undisturbed run does not have. -/
def Phase.pings : Phase H → Bool
  | .pinging .. | .pinged .. | .stopping .. => true
  | _ => false

end Definitions

/-! ## The phases -/

section Phases

variable {H : Type} [DecidableEq H] {host : Host H} {wnear : AccountId} {c : PoolChain H}
  {e : PoolExecution H} {p : Phase H}

/-- The next stake action, read off the phase. -/
theorem Describes.nextTarget_eq (h : Describes host wnear c p) : nextTarget c = p.target := by
  unfold nextTarget
  rw [h.tasks_eq]
  cases p with
  | continuing k r => cases k <;> rfl
  | batching o refundTo =>
      simp only [Phase.tasks, StakeOrder.batch, Phase.target]
      cases o.depositToken <;> cases o.args.isStorageDeposit <;> rfl
  | deliveringWnear a =>
      simp only [Phase.tasks, Attempt.batch, LiquidStakingToken.deliveryActions, Phase.target]
      cases a.msg <;> split_ifs <;> rfl
  | _ => rfl

omit [DecidableEq H] in
/-- However a receipt ends, no stake action comes next: its callback does. -/
theorem Phase.target_settle (r : PromiseResult) : (p.settle r).target = none := by
  cases p <;> rfl

/-- What a committed callback rolls back.

Both amounts are in the arguments of the callback, and the phase has them too. -/
theorem Describes.rolledBack_eq (h : Describes host wnear c p)
    (htasks : ∃ rest, c.tasks = e.task :: rest) (hinput : e.input = c.input) {ret : Return H}
    {side : List (Receipt H)} (hverdict : e.verdict = .committed ret side) :
    takenBack ⟨c, e⟩ = p.takes ∧ putBack ⟨c, e⟩ = p.puts := by
  obtain ⟨rest, htasks⟩ := htasks
  have htask := htasks.symm.trans h.tasks_eq
  have hread : e.input = p.input := hinput.trans h.input_eq
  unfold takenBack putBack
  dsimp only
  rw [hverdict, hread]
  cases p with
  | continuing k r =>
      cases k with
      | finish => cases htask
      | resolve | notify =>
          obtain ⟨htask, -⟩ := List.cons.inj htask
          rw [htask]
          exact ⟨rfl, rfl⟩
  | batching o refundTo =>
      obtain ⟨htask, -⟩ := List.cons.inj htask
      rw [htask]
      unfold StakeOrder.batch
      cases o.depositToken <;> cases o.args.isStorageDeposit <;> exact ⟨rfl, rfl⟩
  | deliveringWnear a =>
      obtain ⟨htask, -⟩ := List.cons.inj htask
      rw [htask]
      unfold Attempt.batch LiquidStakingToken.deliveryActions
      cases a.msg <;> split_ifs <;> exact ⟨rfl, rfl⟩
  | _ =>
      obtain ⟨htask, -⟩ := List.cons.inj htask
      rw [htask]
      exact ⟨rfl, rfl⟩

/-- Calls from outside roll nothing back. -/
theorem Entry.rolledBack_eq {m : Method H} {side : List (Receipt H)} {deposit gas : ℕ}
    (h : Entry host e.context e.before m e.after p side)
    (htask : e.task.actions = [.call m deposit gas]) :
    takenBack ⟨c, e⟩ = 0 ∧ putBack ⟨c, e⟩ = 0 := by
  unfold takenBack putBack
  dsimp only
  rw [htask]
  generalize e.before = s, e.after = s' at h
  cases h <;> cases e.verdict <;> exact ⟨rfl, rfl⟩

end Phases

/-! ## Each step -/

section Steps

variable {H : Type} [DecidableEq H] {host : Host H} {env : Env} {s s' : LiquidStakingToken H}
  {p p' : Phase H} {side : List (Receipt H)}

/-- A call from outside leaves the stake as it is, and may restake it. -/
theorem Entry.staked_eq {m : Method H} (h : Entry host env s m s' p side)
    (hquiet : s'.statistics.lastEpochSynced = s.statistics.lastEpochSynced) :
    s'.statistics.totalStakedAmount = s.statistics.totalStakedAmount ∧
      ∀ amount ∈ p.target, amount = s'.statistics.totalStakedAmount := by
  cases h with
  | stake args s₁ result o synced =>
      obtain rfl := synced.eq_of_quiet hquiet
      exact ⟨rfl, fun _ h => nomatch h⟩
  | pingIdle result s₁ synced =>
      obtain rfl := synced.eq_of_quiet hquiet
      exact ⟨rfl, fun _ h => nomatch h⟩
  | ping reward s₁ synced =>
      obtain rfl := synced.eq_of_quiet hquiet
      exact ⟨rfl, fun _ h => (Option.mem_some.mp h).symm⟩
  | setFee feeBps s₁ result _ _ _ synced =>
      obtain rfl := synced.eq_of_quiet hquiet
      exact ⟨rfl, fun _ h => nomatch h⟩
  | setKey key s₁ result _ _ synced =>
      obtain rfl := synced.eq_of_quiet hquiet
      exact ⟨rfl, fun _ h => (Option.mem_some.mp h).symm⟩
  | _ => exact ⟨rfl, fun _ h => nomatch h⟩

/-- **A callback** schedules a stake action for what it leaves, or mints, or
changes the stake by what it rolls back.

An unstake burns and schedules in one receipt.  A stake mints in its batch, and
schedules only in `restake_or_refund`. -/
theorem Advance.staked_eq (h : Advance host env s p s' p' side)
    (hquiet : s'.statistics.lastEpochSynced = s.statistics.lastEpochSynced)
    (hpings : p.pings = false) :
    p'.target = some s'.statistics.totalStakedAmount ∨
      p'.target = none ∧ ((∃ o, p' = .batched o (.successful .empty)) ∨
        s'.statistics.totalStakedAmount + p.takes =
          s.statistics.totalStakedAmount + p.puts) := by
  cases h with
  | unwrapQuoted ok s₁ result o synced =>
      obtain rfl := synced.eq_of_quiet hquiet
      exact .inr ⟨rfl, .inr rfl⟩
  | unwrapRejected ok s₁ result synced =>
      obtain rfl := synced.eq_of_quiet hquiet
      exact .inr ⟨rfl, .inr rfl⟩
  | minted | mintedRegistering => exact .inr ⟨rfl, .inl ⟨_, rfl⟩⟩
  | restake | refused | unstakeRequested => exact .inl rfl
  | keptOnPool ok | handedOver ok | handedOverCall ok =>
      refine .inr ⟨rfl, .inr ?_⟩
      simp [Phase.takes, Phase.puts, ok]
  | @rolledBack m r failed escrow supply staked =>
      refine .inr ⟨by cases m.depositToken <;> rfl, .inr ?_⟩
      simp only [Phase.takes, Phase.puts, failed, MintedStake.rollback_statistics_totalStakedAmount]
      simp only [Bool.false_eq_true, if_false]
      omega
  | queued ok => exact .inr ⟨rfl, .inr (by simp [Phase.takes, Phase.puts, ok])⟩
  | undone failed =>
      exact .inr ⟨rfl, .inr (by simp [Phase.takes, Phase.puts, failed])⟩
  | pinged | stop => cases hpings
  | _ => exact .inr ⟨rfl, .inr rfl⟩

end Steps

/-! ## Runs -/

section Reaches

variable {H : Type} [DecidableEq H] {host : Host H} {d : Deployment host}
  {events older newer : List (PoolEvent H)} {sys : PoolSystem H} {c : PoolChain H}
  {e : PoolExecution H} {ev : PoolEvent H}

/-- Without rewards, and with the validator as it is, nobody pings.

A ping that recognizes no reward returns at once.  So such a chain would have to
come from a call that the run does not have. -/
theorem Deployment.not_pings (run : d.Reaches events sys)
    (hgood : ∀ ev ∈ events, Undisturbed ev) :
    ∀ c ∈ sys.chains, ∀ p, Describes host d.wnearId c p → p.pings = false := by
  refine d.forall_phase (K := fun _ p => p.pings = false) (fun _ _ _ _ => rfl) ?_ ?_ ?_ ?_ run hgood
  · rintro events s c e s₀ s₁ m p side turn - ⟨deposit, gas, task⟩ before after entry
    have hquiet : s₁.statistics.lastEpochSynced = s₀.statistics.lastEpochSynced :=
      before ▸ after ▸ turn.now.epoch_eq
    have hkey := turn.now.key
    unfold Receipt.setsKey at hkey
    simp only [task] at hkey
    cases entry with
    | ping reward s₁ synced =>
        cases synced with
        | idle result none => exact absurd rfl (none reward)
        | reward reward feeLst pos _ _ _ _ _ _ _ fresh => exact absurd hquiet fresh
    | setKey => cases hkey
    | _ => rfl
  · intro events s c e s₀ s₁ p p' side turn now hp _ _ _ advance
    cases advance with
    | @rolledBack m r => cases m.depositToken <;> rfl
    | pinged | stop => cases hp
    | _ => rfl
  · intro events s c e p turn now hp here verdict
    cases p <;> first | rfl | cases hp
  · intro events s c e p r turn now hp away verdict
    cases p <;> first | rfl | cases hp

/-- The chain is about to run `restake_or_refund` for stake that was minted. -/
def Minted (host : Host H) (wnear : AccountId) (c : PoolChain H) : Prop :=
  ∃ o, Describes host wnear c (.batched o (.successful .empty))

/-- **One event of a run** schedules a stake action for the stake it leaves, or
mints, or changes the stake by what it rolls back.

Answers and panics do the last, with nothing rolled back. -/
theorem Deployment.staked_turn (turn : d.Turn Undisturbed events sys c e) :
    targetOf ⟨c, e⟩ = some e.after.statistics.totalStakedAmount ∨
      targetOf ⟨c, e⟩ = none ∧ (Minted host d.wnearId (c.resume e) ∨
        e.after.statistics.totalStakedAmount + takenBack ⟨c, e⟩ =
          e.before.statistics.totalStakedAmount + putBack ⟨c, e⟩) := by
  unfold targetOf
  dsimp only
  cases d.transition turn with
  | entered m p side deposit gas fresh task_eq deposit_eq external entry next =>
      obtain ⟨hsame, htarget⟩ := entry.staked_eq turn.now.epoch_eq
      obtain ⟨htaken, hput⟩ := entry.rolledBack_eq (c := c) task_eq
      rw [next.nextTarget_eq, htaken, hput]
      cases hp : p.target with
      | none => exact .inr ⟨rfl, .inr (by rw [hsame])⟩
      | some amount => exact .inl (congrArg some (htarget amount hp))
  | advanced p p' side now self advance next verdict =>
      obtain ⟨ret, hverdict⟩ := verdict
      obtain ⟨htaken, hput⟩ := now.rolledBack_eq turn.fires.tasks_eq turn.fires.input_eq hverdict
      rw [next.nextTarget_eq, htaken, hput]
      have hpings := d.not_pings turn.run turn.good c (now.mem turn.origin) p now
      rcases advance.staked_eq turn.now.epoch_eq hpings with htarget | ⟨hnone, ⟨o, rfl⟩ | hrolled⟩
      · exact .inl htarget
      · exact .inr ⟨hnone, .inl ⟨o, next⟩⟩
      · exact .inr ⟨hnone, .inr hrolled⟩
  | panicked p now here self verdict same next =>
      rw [next.nextTarget_eq, Phase.target_settle, same]
      exact .inr ⟨rfl, .inr (by simp [takenBack, putBack, verdict])⟩
  | answered p r now away verdict same next =>
      rw [next.nextTarget_eq, Phase.target_settle, same]
      exact .inr ⟨rfl, .inr (by simp [takenBack, putBack, verdict])⟩

/-- `restake_or_refund` after a batch that succeeded. -/
theorem restakeOrRefund_ok {env : Env} {s : LiquidStakingToken H} {o : StakeOrder}
    {r : PromiseResult} (hself : env.predecessorAccountId = host.currentAccountId)
    (hok : resultOk r = true) :
    (platform host).execute env (some r) (o.restakeCall host) s =
      .ok (Outcome.promise s [s.restakePromise host, o.toMintedStake.settleCall host]) := by
  have hprivate : (env.forCall 0 (some r)).requirePrivate host.currentAccountId = .ok () :=
    require_eq_ok.mpr hself
  have hread : (env.forCall 0 (some r)).promiseSucceeded = true :=
    (promiseSucceeded_forCall env 0 r).trans hok
  have hcalls : (platform host).execute env (some r) (o.restakeCall host) s =
      s.restakeOrRefund host (env.forCall 0 (some r)) o := rfl
  unfold LiquidStakingToken.restakeOrRefund at hcalls
  rw [hcalls, hprivate, ok_bind, hread, if_pos rfl]
  rfl

/-- Stake that was minted is restaked when its chain goes on.

The receipt reads no more than the result of the batch, and gets its gas. -/
theorem Deployment.minted_restakes (turn : d.Turn Undisturbed events sys c e)
    (hminted : Minted host d.wnearId c) : targetOf ⟨c, e⟩ ≠ none := by
  obtain ⟨o, hnow⟩ := hminted
  unfold targetOf
  dsimp only
  cases d.transition turn with
  | entered m p side deposit gas fresh =>
      have hinput := hnow.input_eq
      rw [fresh] at hinput
      cases hinput
  | advanced p p' side now self advance next =>
      obtain rfl := now.unique hnow
      rw [next.nextTarget_eq]
      generalize e.before = s, e.after = s' at advance
      cases advance with
      | restake => exact Option.some_ne_none _
      | restakeRefund failed => cases failed
  | panicked p now here self verdict same next =>
      exfalso
      obtain rfl := now.unique hnow
      obtain ⟨rest, htasks⟩ := turn.fires.tasks_eq
      obtain ⟨htask, -⟩ := List.cons.inj (htasks.symm.trans now.tasks_eq)
      have hread : e.input = some (.successful .empty) := turn.fires.input_eq.trans now.input_eq
      have hlegal := turn.fires.legal
      simp only [Platform.Legal, verdict] at hlegal
      -- It neither runs out of gas nor fails otherwise.
      rcases hlegal.2.2 with hgas | ⟨msg, herror⟩
      · have hroom := turn.now.gas (by rw [htask]; rfl)
        rw [show (platform host).exhausted e.context = e.context.gasExhausted from rfl] at hgas
        rw [hroom] at hgas
        cases hgas
      · rw [htask, hread, restakeOrRefund_ok self rfl] at herror
        cases herror
  | answered p r now away verdict same next =>
      obtain rfl := now.unique hnow
      cases away

/-- **The stake since the last target**: it moved by what was minted, and by
what was rolled back.

By induction over the run.  An event that schedules begins the count anew, and
every other event that does not mint adds what it rolls back. -/
theorem Deployment.staked_since (run : d.Reaches events sys)
    (hgood : ∀ ev ∈ events, Undisturbed ev) :
    ∀ newer ev older amount, events = newer ++ ev :: older → targetOf ev = some amount →
      (∀ ev' ∈ newer, targetOf ev' = none ∧
        ¬Minted host d.wnearId (ev'.chain.resume ev'.execution)) →
      sys.state.statistics.totalStakedAmount + (newer.map takenBack).sum =
        amount + (newer.map putBack).sum := by
  refine run.induction_turn (I := fun events sys => ∀ newer ev older amount,
    events = newer ++ ev :: older → targetOf ev = some amount →
      (∀ ev' ∈ newer, targetOf ev' = none ∧
        ¬Minted host d.wnearId (ev'.chain.resume ev'.execution)) →
      sys.state.statistics.totalStakedAmount + (newer.map takenBack).sum =
        amount + (newer.map putBack).sum) ?_ ?_ hgood
  · intro newer ev older amount hevents
    simp at hevents
  · intro events s s' c e turn ih step newer ev older amount hevents htarget hnewer
    rw [step.state_eq]
    cases newer with
    | nil =>
        obtain ⟨rfl, -⟩ := List.cons.inj hevents
        rcases d.staked_turn turn with hlast | ⟨hnone, -⟩
        · rw [hlast] at htarget
          rw [Option.some.inj htarget]
          rfl
        · rw [hnone] at htarget
          cases htarget
    | cons last newer =>
        obtain ⟨rfl, htail⟩ := List.cons.inj hevents
        obtain ⟨hnone, hminted⟩ := hnewer _ List.mem_cons_self
        have hold := ih newer ev older amount htail htarget fun ev' mem =>
          hnewer ev' (List.mem_cons_of_mem _ mem)
        rcases d.staked_turn turn with hlast | ⟨-, hmint | hrolled⟩
        · rw [hlast] at hnone
          cases hnone
        · exact absurd hmint hminted
        · rw [turn.fires.before_eq] at hrolled
          simp only [List.map_cons, List.sum_cons]
          omega

/-- **The validator's target follows the books** but for rollbacks.  In a run
without rewards, once nothing is in flight, the last stake action was scheduled
for the stake that results if and only if the rollbacks since put back as much
as they took.

A mint after the last action is impossible: its chain would have scheduled
another one before it came to its end.  `Deployment.target_stale` is a run in
which the rollbacks do not balance. -/
theorem Deployment.target_follows_iff (run : d.Reaches events sys)
    (hgood : ∀ ev ∈ events, Undisturbed ev) (hidle : ∀ c ∈ sys.chains, c.tasks = [])
    {amount : ℕ} (hevents : events = newer ++ ev :: older) (htarget : targetOf ev = some amount)
    (hlast : ∀ ev' ∈ newer, targetOf ev' = none) :
    amount = sys.state.statistics.totalStakedAmount ↔
      (newer.map takenBack).sum = (newer.map putBack).sum := by
  have hminted : ∀ ev' ∈ newer, ¬Minted host d.wnearId (ev'.chain.resume ev'.execution) := by
    intro ev' mem hminted
    obtain ⟨front, back, rfl⟩ := List.append_of_mem mem
    rw [List.append_assoc, List.cons_append] at hevents
    -- The chain that minted is not waiting any more, so it has scheduled its
    -- stake action.
    rcases run.resumed hevents with hwaits | ⟨next, hnext, hchain⟩
    · obtain ⟨o, hnow⟩ := hminted
      cases (hidle _ hwaits).symm.trans hnow.tasks_eq
    · have hrestakes := run.forall_event (Q := fun ev => Minted host d.wnearId ev.chain →
        targetOf ev ≠ none) (fun turn => d.minted_restakes turn) hgood
      refine hrestakes next ?_ (hchain ▸ hminted) (hlast next (List.mem_append_left _ hnext))
      rw [hevents]
      exact List.mem_append_left _ hnext
  have hsince := d.staked_since run hgood newer ev older amount hevents htarget fun ev' mem =>
    ⟨hlast ev' mem, hminted ev' mem⟩
  omega

/-- The treasury unstakes 40 while 10 are staked for it; the stake action of the
unstake ends with `r`, the later one succeeds. -/
private def sampleTwoTargets (r : PromiseResult) :
    List (Platform.Move Env (Receipt UnstakeMessage) Payload) :=
  let env := sampleEnv 100 1010 0 "pool" 0
  [.enter (sampleEnv 100 1000 0 "treasury" oneYocto)
      (.call "pool" (.ftTransferCall "pool" 40 none "native") oneYocto 0), .fire 0 env,
    .enter (sampleEnv 100 1010 0 "alice" 10)
      (.call "pool" (.stake ⟨"treasury", none, none, false, none, none⟩) 10 0), .fire 1 env,
    .fire 1 env, .answer 0 env r, .answer 1 env (.successful .empty), .fire 0 env, .fire 0 env,
    .fire 1 env]

/-- When both stake actions succeed, the later one is for the 70 NEAR that are
left. -/
theorem Deployment.target_follows_sample :
    70 = (samplePool.played (sampleTwoTargets (.successful .empty))
      rfl).2.state.statistics.totalStakedAmount := by
  refine (samplePool.target_follows_iff (samplePool.played_reaches
    (sampleTwoTargets (.successful .empty)) rfl) (by decide +kernel) (by decide +kernel)
    ((List.take_append_drop 5 _).symm.trans (congrArg _ (List.drop_eq_getElem_cons
      (by decide +kernel)))) (by decide +kernel) (by decide +kernel)).mpr ?_
  decide +kernel

/-- The stake action for 60 NEAR fails, the one scheduled and applied after it
succeeds for 70, and then the rollback of the first puts 40 NEAR back: 110 are
at stake by the books.

Nothing is in flight any more, so the validator stays at 70 until somebody
stakes, unstakes or pings. -/
theorem Deployment.target_stale :
    samplePool.Reaches (samplePool.played (sampleTwoTargets .failed) rfl).1
        (samplePool.played (sampleTwoTargets .failed) rfl).2 ∧
      (∀ ev ∈ (samplePool.played (sampleTwoTargets .failed) rfl).1, Undisturbed ev) ∧
      (∀ c ∈ (samplePool.played (sampleTwoTargets .failed) rfl).2.chains, c.tasks = []) ∧
      (samplePool.played (sampleTwoTargets .failed) rfl).1.filterMap targetOf = [70, 60] ∧
      (samplePool.played (sampleTwoTargets .failed) rfl).1.filterMap applied = [70, 60] ∧
      ((samplePool.played (sampleTwoTargets .failed) rfl).1.filter
        fun ev => (applied ev).isSome).map validatorFails = [false, true] ∧
      (samplePool.played (sampleTwoTargets .failed)
        rfl).2.state.statistics.totalStakedAmount = 110 :=
  ⟨samplePool.played_reaches (sampleTwoTargets .failed) rfl, by decide +kernel⟩

end Reaches

end LiquidStaking
