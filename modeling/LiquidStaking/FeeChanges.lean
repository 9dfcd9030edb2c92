import LiquidStaking.Fees
import LiquidStaking.Journal

/-!
# Which rewards a fee applies to

A fee change is not retroactive for what has been recognized, but it is for what
has not.  `set_protocol_fee_bps` syncs before it stores the new fee, so that
whatever the sync recognizes is split at the old one.  The sync may recognize
nothing, though: the epoch may have been synced already, or transfers in flight
may keep the live balance at or below the tracked total.  Then the call stores
the fee only, and income that came in before it is split at the fee in force
when a later sync recognizes it.

* `feeInForce` — the fee set last, read off the events of a run.
* `SplitsAt` — what an event does to the stake and to the LST ledger, from the
  state it finds to the state it leaves, when its sync recognizes a reward and
  splits it at a given fee.  The LST and the NEAR that the same receipt unstakes
  are read off the callback it schedules.
* `Deployment.fee_splits` — every reward is split at the fee in force.
* `Deployment.fee_change_late` — a run in which a change applies to what was
  earned before it.
-/

namespace LiquidStaking

open Checked Movements PromiseChain

section Definitions

variable {H : Type}

/-- What a sync in `env` would see of a reward: the live balance beyond the
tracked total. -/
def LiquidStakingToken.excess (env : Env) (s : LiquidStakingToken H) : ℕ :=
  env.accountLockedBalance + env.accountBalance - s.statistics.latestTotalBalance

/-- The LST that a fee of `feeBps` on a reward buys, at the rate that the rest
of the reward leaves. -/
def LiquidStakingToken.feeMintedAt (s : LiquidStakingToken H) (feeBps reward : ℕ) : ℕ :=
  (s.addStake (reward - reward * feeBps / bpsDenominator)).lstFor
    (reward * feeBps / bpsDenominator)

/-- The LST and the NEAR that a phase has just started to unstake. -/
def Phase.startsUnstake : Phase H → ℕ × ℕ
  | .unstaking u _ _ _ => (u.lstAmount, u.nearAmount)
  | _ => (0, 0)

/-- The LST and the NEAR of the `on_unstake` that a chain schedules behind its
next receipt. -/
def scheduledUnstake (c : PoolChain H) : ℕ × ℕ :=
  match c.tasks with
  | _ :: t :: _ =>
      match t.actions with
      | [.call (.onUnstake lstAmount nearAmount _ _) _ _] => (lstAmount, nearAmount)
      | _ => (0, 0)
  | _ => (0, 0)

/-- From `s` to `s'` a sync in `env` has recognized `reward` and split it at
`feeBps`; it left `excluded` out of the balance, and the same receipt unstakes
`lst` LST for `near` NEAR.

The two states are those of the whole receipt, so what else it does to the stake
and the ledger has to be said as well; of all that can follow a sync only an
unstake does anything to them. -/
structure Splits (env : Env) (excluded lst near : ℕ) (s s' : LiquidStakingToken H)
    (feeBps reward : ℕ) : Prop where
  pos : 0 < reward
  /-- The reward is all that the balance shows beyond the tracked total. -/
  seen : env.accountLockedBalance + env.accountBalance =
    s.statistics.latestTotalBalance + reward + excluded
  /-- The whole reward is staked. -/
  staked : s'.statistics.totalStakedAmount + near = s.statistics.totalStakedAmount + reward
  /-- The fee mints what it buys, and nothing else is minted. -/
  minted : s'.token.totalSupply + lst = s.token.totalSupply + s.feeMintedAt feeBps reward
  /-- It goes to the treasury, … -/
  treasury : s.token.ftBalanceOf s.treasuryId + s.feeMintedAt feeBps reward ≤
    s'.token.ftBalanceOf s.treasuryId + lst
  /-- … and to nobody else. -/
  others : ∀ a, a ≠ s.treasuryId → s'.token.ftBalanceOf a ≤ s.token.ftBalanceOf a

/-- The event recognizes `reward` and splits it at `feeBps`.

Everything here is read off the event: its environment, the states it finds and
leaves, and the receipts it schedules. -/
def SplitsAt (ev : PoolEvent H) (feeBps reward : ℕ) : Prop :=
  Splits ev.execution.context (excludedBy ev.execution.task)
    (scheduledUnstake (ev.chain.resume ev.execution)).1
    (scheduledUnstake (ev.chain.resume ev.execution)).2 ev.execution.before ev.execution.after
    feeBps reward

/-- The fee that an event sets. -/
def feeSet (ev : PoolEvent H) : Option ℕ :=
  match ev.execution.verdict, ev.execution.task.actions with
  | .committed _ _, [.call (.setProtocolFeeBps feeBps) _ _] => some feeBps
  | _, _ => none

/-- The fee in force after `events`, the newest first.

A new deployment has no fee. -/
def feeInForce : List (PoolEvent H) → ℕ
  | [] => 0
  | ev :: older => (feeSet ev).getD (feeInForce older)

end Definitions

/-! ## One sync -/

section Sync

variable {H : Type} {host : Host H} {env : Env} {s s' s₁ : LiquidStakingToken H}
  {excluded lst near : ℕ}

/-- What a sync that writes the epoch has seen. -/
theorem LiquidStakingToken.Synced.seen {result : LiquidStakingToken.SyncRewardsResult}
    (h : LiquidStakingToken.Synced env.epochHeight
      (env.accountLockedBalance + env.accountBalance) excluded s s₁ result)
    (hsynced : s₁.statistics.lastEpochSynced ≠ s.statistics.lastEpochSynced) :
    0 < rewardIn env excluded s s₁ ∧ env.accountLockedBalance + env.accountBalance =
      s.statistics.latestTotalBalance + rewardIn env excluded s s₁ + excluded := by
  rw [h.rewardIn_eq]
  cases h with
  | idle => exact absurd rfl hsynced
  | reward reward feeLst pos balance_eq => exact ⟨pos, balance_eq⟩

/-- A sync does not change the fee. -/
theorem LiquidStakingToken.Synced.fee_eq {epoch balance excluded : ℕ}
    {result : LiquidStakingToken.SyncRewardsResult}
    (h : LiquidStakingToken.Synced epoch balance excluded s s₁ result) :
    s₁.statistics.protocolFeeBps = s.statistics.protocolFeeBps := by
  cases h <;> rfl

/-- A ledger that gets the fee, and whose other movements only take out what is
unstaked.

This is where the journal of a receipt, which lists the fee first, is turned
into what `Splits` says of the treasury and of the others. -/
theorem Moves.splits {reward : ℕ} {moves : List (Movement AccountId)}
    (h : Moves s s' (.create s.treasuryId (s.feeMinted reward) :: moves))
    (hcreated : Movements.created moves = 0) (hdestroyed : Movements.destroyed moves = lst)
    (htaken : ∀ a, -(lst : ℤ) ≤ effect moves a ∧ effect moves a ≤ 0)
    (hseen : 0 < reward ∧ env.accountLockedBalance + env.accountBalance =
      s.statistics.latestTotalBalance + reward + excluded)
    (hstaked : s'.statistics.totalStakedAmount + near = s.statistics.totalStakedAmount + reward) :
    Splits env excluded lst near s s' s.statistics.protocolFeeBps reward := by
  have hfee : s.feeMintedAt s.statistics.protocolFeeBps reward = s.feeMinted reward := rfl
  refine ⟨hseen.1, hseen.2, hstaked, ?_, ?_, fun a hne => ?_⟩
  · have hsupply := h.supply
    rw [created_cons, destroyed_cons, hcreated, hdestroyed] at hsupply
    simpa [hfee] using hsupply
  · have hbalance := h.balance s.treasuryId
    rw [effect_cons, Movement.effect_create, if_pos rfl] at hbalance
    have htreasury := (htaken s.treasuryId).1
    rw [hfee]
    omega
  · have hbalance := h.balance a
    rw [effect_cons, Movement.effect_create, if_neg hne] at hbalance
    have hnone := (htaken a).2
    omega

/-- A sync alone, and whatever follows it in the receipt without touching the
stake or the ledger. -/
theorem LiquidStakingToken.Synced.splits {result : LiquidStakingToken.SyncRewardsResult}
    (h : LiquidStakingToken.Synced env.epochHeight
      (env.accountLockedBalance + env.accountBalance) excluded s s₁ result)
    (hsynced : s₁.statistics.lastEpochSynced ≠ s.statistics.lastEpochSynced) :
    Splits env excluded 0 0 s s₁ s.statistics.protocolFeeBps (rewardIn env excluded s s₁) :=
  h.moves.splits rfl rfl (fun a => by simp) (h.seen hsynced) h.books_eq.1

end Sync

/-! ## One receipt -/

section Steps

variable {H : Type} [DecidableEq H] {host : Host H} {wnear : AccountId} {env : Env}
  {s s' : LiquidStakingToken H} {p p' : Phase H} {side : List (Receipt H)} {c : PoolChain H}

/-- The unstake that a chain schedules is the one its phase has started. -/
theorem Describes.scheduledUnstake_eq (h : Describes host wnear c p) :
    scheduledUnstake c = p.startsUnstake := by
  unfold scheduledUnstake
  rw [h.tasks_eq]
  cases p with
  | continuing k r => cases k <;> rfl
  | sending receiver senderId amount msg gas k | unstaked u k r => cases k <;> rfl
  | _ => rfl

/-- A call from outside splits a reward at the fee it finds, and starts no
unstake. -/
theorem Entry.splits {m : Method H} (h : Entry host env s m s' p side)
    (hsynced : s'.statistics.lastEpochSynced ≠ s.statistics.lastEpochSynced) :
    Splits env (m.excludes env.attachedDeposit) 0 0 s s' s.statistics.protocolFeeBps
        (rewardIn env (m.excludes env.attachedDeposit) s s') ∧ p.startsUnstake = (0, 0) := by
  cases h with
  | stake args s₁ result o synced => exact ⟨synced.splits hsynced, rfl⟩
  | pingIdle result s₁ synced | ping reward s₁ synced => exact ⟨synced.splits hsynced, rfl⟩
  | setFee feeBps s₁ result admin yocto capped synced =>
      -- The new fee is stored after the sync, which has used the old one.
      have hsplits := synced.splits hsynced
      exact ⟨⟨hsplits.pos, hsplits.seen, hsplits.staked, hsplits.minted, hsplits.treasury,
        hsplits.others⟩, rfl⟩
  | setKey key s₁ result admin yocto synced =>
      have hsplits := synced.splits hsynced
      exact ⟨⟨hsplits.pos, hsplits.seen, hsplits.staked, hsplits.minted, hsplits.treasury,
        hsplits.others⟩, rfl⟩
  | _ => exact absurd rfl hsynced

/-- A callback splits a reward at the fee it finds; two of them unstake in the
same receipt. -/
theorem Advance.splits (h : Advance host env s p s' p' side) (hbalanced : s.token.Balanced)
    (hpool : s.token.isRegistered host.currentAccountId = true)
    (hsynced : s'.statistics.lastEpochSynced ≠ s.statistics.lastEpochSynced) :
    Splits env 0 p'.startsUnstake.1 p'.startsUnstake.2 s s' s.statistics.protocolFeeBps
      (rewardIn env 0 s s') := by
  have hmoves := h.moves hbalanced hpool
  cases h with
  | unwrapQuoted ok s₁ result o synced => exact synced.splits hsynced
  | unwrapRejected ok s₁ result synced =>
      have hsplits := synced.splits hsynced
      exact ⟨hsplits.pos, hsplits.seen, hsplits.staked, hsplits.minted, hsplits.treasury,
        hsplits.others⟩
  | @refused lstTokens args r message message_eq t used burned resolved s₁ u lst_eq trigger_eq
      unstakes =>
      obtain ⟨result, synced⟩ := unstakes.synced
      have hlst : u.lstAmount = s.refundOf args.receiverId lstTokens r :=
        lst_eq.trans (resolved.refund_eq hpool)
      simp only [Phase.journal, message_eq, Option.isSome_some, if_true, ← hlst] at hmoves
      -- What comes back from the receiver is burned on the pool's account.
      refine hmoves.splits ?_ ?_ (fun a => ?_) (synced.seen hsynced) unstakes.books_eq.1
      · simp
      · simp [Phase.startsUnstake]
      · simp only [effect_cons, effect_nil, Movement.effect_transfer, Movement.effect_destroy,
          Phase.startsUnstake]
        split_ifs <;> omega
  | unstakeRequested message parsed s₁ u lst_eq trigger_eq unstakes =>
      obtain ⟨result, synced⟩ := unstakes.synced
      subst lst_eq
      refine hmoves.splits ?_ ?_ (fun a => ?_) (synced.seen hsynced) unstakes.books_eq.1
      · simp [Phase.journal]
      · simp [Phase.journal, Phase.startsUnstake]
      · simp only [Phase.journal, effect_cons, effect_nil, Movement.effect_destroy,
          Phase.startsUnstake]
        split_ifs <;> omega
  | _ => exact absurd rfl hsynced

/-- Only `set_protocol_fee_bps` changes the fee. -/
theorem Entry.fee_eq {m : Method H} (h : Entry host env s m s' p side) :
    s'.statistics.protocolFeeBps = match m with
      | .setProtocolFeeBps feeBps => feeBps
      | _ => s.statistics.protocolFeeBps := by
  cases h with
  | stake args s₁ result o synced => exact synced.fee_eq
  | pingIdle result s₁ synced | ping reward s₁ synced => exact synced.fee_eq
  | setKey key s₁ result _ _ synced => exact synced.fee_eq
  | _ => rfl

/-- Nor does a callback. -/
theorem Advance.fee_eq (h : Advance host env s p s' p' side) :
    s'.statistics.protocolFeeBps = s.statistics.protocolFeeBps := by
  cases h with
  | unwrapQuoted ok s₁ result o synced => exact synced.fee_eq
  | unwrapRejected ok s₁ result synced => exact synced.fee_eq
  | refused message _ t used burned _ s₁ u _ _ unstakes =>
      obtain ⟨result, synced⟩ := unstakes.synced
      exact synced.fee_eq
  | unstakeRequested message _ s₁ u _ _ unstakes =>
      obtain ⟨result, synced⟩ := unstakes.synced
      exact synced.fee_eq
  | _ => rfl

omit [DecidableEq H] in
/-- A sync without a deposit recognizes everything it sees of a reward, unless
the epoch was synced already. -/
theorem syncRewardsInternal_excess {result : LiquidStakingToken.SyncRewardsResult}
    (h : s.syncRewardsInternal env none = .ok (s', result)) :
    (env.epochHeight ≠ s.statistics.lastEpochSynced → 0 < s.excess env →
      result = .rewardsSynced (s.excess env) ∧
        s'.statistics.latestTotalBalance = env.accountLockedBalance + env.accountBalance) ∧
    (env.epochHeight = s.statistics.lastEpochSynced ∨ s.excess env = 0 → s' = s) := by
  have hsynced := LiquidStakingToken.syncRewardsInternal_eq_ok h
  unfold LiquidStakingToken.syncRewardsInternal at h
  split at h
  · next hsame =>
      obtain ⟨rfl, rfl⟩ := Prod.mk.inj (Except.ok.inj h)
      exact ⟨fun hfresh => absurd hsame hfresh, fun _ => rfl⟩
  next hfresh =>
  simp only [bind_eq_ok, expect_eq_ok, Option.bind_eq_some_iff, checkedAdd_eq_some,
    checkedSub_eq_some] at h
  obtain ⟨balance, ⟨_, ⟨-, rfl⟩, -, rfl⟩, h⟩ := h
  have hseen : env.accountLockedBalance + env.accountBalance - Option.getD none 0 -
      s.statistics.latestTotalBalance = s.excess env := rfl
  split at h
  · next hbelow =>
      obtain ⟨rfl, rfl⟩ := Prod.mk.inj (Except.ok.inj h)
      have hnone : s.excess env = 0 := by
        -- The balance is below the tracker.
        have hlt := checkedSub_eq_none.mp hbelow
        omega
      exact ⟨fun _ hpos => absurd hnone hpos.ne', fun _ => rfl⟩
  next reward hreward =>
  obtain ⟨hle, rfl⟩ := checkedSub_eq_some.mp hreward
  rw [hseen] at h
  split at h
  · next hzero =>
      obtain ⟨rfl, rfl⟩ := Prod.mk.inj (Except.ok.inj h)
      exact ⟨fun _ hpos => absurd hzero hpos.ne', fun _ => rfl⟩
  next hpos =>
  simp only [bind_eq_ok, pure_eq_ok, Prod.mk.injEq, Prod.exists] at h
  obtain ⟨_, _, -, _, -, _, -, _, -, _, -, -, rfl⟩ := h
  refine ⟨fun _ _ => ⟨rfl, ?_⟩, fun hidle => absurd hidle (by tauto)⟩
  generalize hresult : LiquidStakingToken.SyncRewardsResult.rewardsSynced (s.excess env) = result
    at hsynced
  cases hsynced with
  | idle result none => exact absurd hresult.symm (none _)
  | reward r feeLst _ balance_eq => exact balance_eq.symm

/-- **What a fee change does first**: it recognizes everything it sees of a
reward, unless the epoch was synced already. -/
theorem setProtocolFeeBps_recognizes {feeBps deposit : ℕ} {input : Option PromiseResult}
    {o : Outcome H}
    (h : callMethod host (env.forCall deposit input) s (.setProtocolFeeBps feeBps) = .ok o) :
    (env.epochHeight ≠ s.statistics.lastEpochSynced → 0 < s.excess env →
      o.state.statistics.lastEpochSynced ≠ s.statistics.lastEpochSynced ∧
        o.state.statistics.latestTotalBalance =
          env.accountLockedBalance + env.accountBalance ∧
        o.state.statistics.protocolFeeBps = feeBps) ∧
    (env.epochHeight = s.statistics.lastEpochSynced ∨ s.excess env = 0 →
      o.state = s.withFee feeBps) := by
  simp only [callMethod, LiquidStakingToken.setProtocolFeeBps, bind_eq_ok, Prod.exists,
    pure_eq_ok] at h
  obtain ⟨_, -, _, -, _, -, _, -, s₁, result, hsync, rfl⟩ := h
  obtain ⟨hreward, hidle⟩ := syncRewardsInternal_excess hsync
  constructor
  · intro hfresh hpos
    obtain ⟨rfl, htracked⟩ := hreward hfresh hpos
    exact ⟨(syncRewardsInternal_recognizes hsync).1.mpr ⟨_, rfl⟩, htracked, rfl⟩
  · intro hnone
    obtain rfl := hidle hnone
    rfl

omit [DecidableEq H] in
/-- An event that sets a fee is a committed call of the setter. -/
theorem feeSet_eq_some {ev : PoolEvent H} {feeBps : ℕ} (h : feeSet ev = some feeBps) :
    ∃ ret detached deposit gas, ev.execution.verdict = .committed ret detached ∧
      ev.execution.task.actions = [.call (.setProtocolFeeBps feeBps) deposit gas] := by
  unfold feeSet at h
  split at h
  · next ret detached feeBps' deposit gas hverdict htask =>
      obtain rfl := Option.some.inj h
      exact ⟨ret, detached, deposit, gas, hverdict, htask⟩
  · cases h

/-- No callback sets a fee. -/
theorem Describes.feeSet_eq {wnear : AccountId} {c : PoolChain H} {e : PoolExecution H}
    (h : Describes host wnear c p) (htasks : ∃ rest, c.tasks = e.task :: rest) :
    feeSet ⟨c, e⟩ = none := by
  obtain ⟨rest, htasks⟩ := htasks
  have htask := htasks.symm.trans h.tasks_eq
  unfold feeSet
  cases p with
  | continuing k r =>
      cases k with
      | finish => cases htask
      | resolve | notify =>
          rw [(List.cons.inj htask).1]
          cases e.verdict <;> rfl
  | batching o refundTo =>
      rw [(List.cons.inj htask).1]
      unfold StakeOrder.batch
      cases e.verdict <;> cases o.depositToken <;> cases o.args.isStorageDeposit <;> rfl
  | deliveringWnear a =>
      rw [(List.cons.inj htask).1]
      unfold Attempt.batch LiquidStakingToken.deliveryActions
      cases e.verdict <;> cases a.msg <;> split_ifs <;> rfl
  | _ =>
      rw [(List.cons.inj htask).1]
      cases e.verdict <;> rfl

end Steps

/-! ## Runs -/

section Reaches

variable {H : Type} [DecidableEq H] {host : Host H} {d : Deployment host}
  {events : List (PoolEvent H)} {sys : PoolSystem H}

/-- The fee of every reachable state is the one set last.

So the events alone say at which fee a reward is split. -/
theorem Deployment.fee_in_force (run : d.Reaches events sys) :
    sys.state.statistics.protocolFeeBps = feeInForce events := by
  refine run.induction_turn (I := fun events sys =>
    sys.state.statistics.protocolFeeBps = feeInForce events) ?_ ?_ fun _ _ => trivial
  · exact d.initial.fee_eq
  · intro events s s' c e turn ih step
    rw [step.state_eq]
    show e.after.statistics.protocolFeeBps = (feeSet ⟨c, e⟩).getD (feeInForce events)
    rw [← ih, ← turn.fires.before_eq]
    cases d.transition turn with
    | entered m p side deposit gas fresh task_eq deposit_eq external entry next verdict =>
        obtain ⟨ret, hverdict⟩ := verdict
        rw [entry.fee_eq]
        unfold feeSet
        simp only [hverdict, task_eq]
        cases m <;> rfl
    | advanced p p' side now self advance next verdict =>
        rw [advance.fee_eq, now.feeSet_eq turn.fires.tasks_eq]
        rfl
    | panicked p now here self verdict same => simp [feeSet, verdict, same]
    | answered p r now away verdict same => simp [feeSet, verdict, same]

/-- An event that recognizes a reward splits it at the fee it finds. -/
theorem Deployment.splits_turn {Good : PoolEvent H → Prop} {c : PoolChain H} {e : PoolExecution H}
    (turn : d.Turn Good events sys c e) (hrecognizes : Recognizes e) :
    SplitsAt ⟨c, e⟩ e.before.statistics.protocolFeeBps (rewardOf ⟨c, e⟩) := by
  have hsound := d.turn_sound turn
  obtain ⟨rest, hhead⟩ := turn.fires.tasks_eq
  have hread := turn.fires.input_eq
  unfold SplitsAt rewardOf
  dsimp only
  cases d.transition turn with
  | entered m p side deposit gas fresh task_eq deposit_eq external entry next verdict =>
      obtain ⟨ret, hverdict⟩ := verdict
      obtain ⟨-, -, hexcluded, -⟩ := entered_flow host (c := c) task_eq
        (hread.trans (by rw [fresh]; rfl)) hverdict
      obtain ⟨hsplits, hnone⟩ := entry.splits hrecognizes
      rw [next.scheduledUnstake_eq, hnone, hexcluded, ← deposit_eq]
      exact hsplits
  | advanced p p' side now self advance next verdict =>
      obtain ⟨ret, hverdict⟩ := verdict
      obtain ⟨-, -, hexcluded, -⟩ := Phase.committed_flow advance now.valid now.tasks_eq
        now.input_eq hhead hread hverdict
      rw [next.scheduledUnstake_eq, hexcluded]
      exact advance.splits hsound.balanced (hsound.registered _ (List.mem_singleton_self _))
        hrecognizes
  | panicked p now here self verdict same | answered p r now away verdict same =>
      exact absurd (by rw [same]) hrecognizes

/-- **Which rewards a fee applies to.**  In every run, whatever is in flight,
every event finds the fee that was set last, and a reward that its sync
recognizes is split at that fee: the whole reward is staked, and the LST minted
for it, all of them the treasury's, are those that the fee buys at this fee
rate.

A fee change recognizes what the live balance shows beyond the tracked total
first, and splits it at the fee before the change; the tracked total then equals
the live balance, so that nothing earned so far is left for the new fee.  If the
epoch was synced already, or the balance shows nothing, it changes the fee and
nothing else; what was earned by then and not recognized is split by a later
sync, and so at the fee in force then.

`older` are the events before `ev`, so `feeInForce older` never counts a fee
that `ev` itself sets. -/
theorem Deployment.fee_splits (run : d.Reaches events sys) :
    ∀ ev older, ev :: older <:+ events →
      ev.execution.before.statistics.protocolFeeBps = feeInForce older ∧
      (Recognizes ev.execution → SplitsAt ev (feeInForce older) (rewardOf ev)) ∧
      ∀ feeBps, feeSet ev = some feeBps →
        (ev.execution.context.epochHeight ≠ ev.execution.before.statistics.lastEpochSynced →
          0 < ev.execution.before.excess ev.execution.context →
          SplitsAt ev (feeInForce older) (ev.execution.before.excess ev.execution.context) ∧
            ev.execution.after.statistics.latestTotalBalance =
              ev.execution.context.accountLockedBalance + ev.execution.context.accountBalance ∧
            ev.execution.after.statistics.protocolFeeBps = feeBps) ∧
        (ev.execution.context.epochHeight = ev.execution.before.statistics.lastEpochSynced ∨
            ev.execution.before.excess ev.execution.context = 0 →
          ev.execution.after = ev.execution.before.withFee feeBps) := by
  refine run.forall_suffix ?_ fun _ _ => trivial
  intro events s c e turn
  have hfee : e.before.statistics.protocolFeeBps = feeInForce events := by
    rw [turn.fires.before_eq]
    exact d.fee_in_force turn.run
  refine ⟨hfee, fun hrecognizes => hfee ▸ d.splits_turn turn hrecognizes, fun feeBps hset => ?_⟩
  obtain ⟨ret, detached, deposit, gas, hverdict, htask⟩ := feeSet_eq_some hset
  replace hverdict : e.verdict = .committed ret detached := hverdict
  have hlegal := turn.fires.legal
  simp only [Platform.Legal, hverdict] at hlegal
  obtain ⟨hreward, hidle⟩ := setProtocolFeeBps_recognizes (execute_call htask hlegal.2.2)
  refine ⟨fun hfresh hpos => ?_, hidle⟩
  obtain ⟨hsynced, htracked, hstored⟩ := hreward hfresh hpos
  have hexcess : rewardOf ⟨c, e⟩ = e.before.excess e.context := by
    -- No deposit is booked by the call, so all of the excess is a reward.
    have hexcluded : excludedBy e.task = 0 := by
      unfold excludedBy
      rw [show e.task.actions = _ from htask]
      rfl
    simp only [rewardOf, rewardIn, if_neg hsynced, hexcluded]
    rfl
  exact ⟨hexcess ▸ hfee ▸ d.splits_turn turn hsynced, htracked, hstored⟩

/-- `ping` recognizes a reward of 50 in epoch 1; the admin of the pool, which
has no fee, asks for one of 20 percent when 50 NEAR more are on the account;
`ping` follows in epoch 2. -/
private def sampleFeeChange (epoch : ℕ) :
    List (Platform.Move Env (Receipt UnstakeMessage) Payload) :=
  [.enter (sampleEnv 150 1000 1 "anyone" 0) (.call "pool" .ping 0 0),
    .enter { sampleEnv 150 1050 epoch "owner" oneYocto with isAdmin := true }
      (.call "pool" (.setProtocolFeeBps 2000) oneYocto 0),
    .enter (sampleEnv 150 1050 2 "anyone" 0) (.call "pool" .ping 0 0)]

/-- In an epoch not synced before, the change splits the 50 NEAR at the old fee. -/
theorem Deployment.fee_splits_sample :
    ∃ ev ∈ (samplePool.played (sampleFeeChange 2) (by decide +kernel)).1,
      feeSet ev = some 2000 ∧ SplitsAt ev 0 50 := by
  have hsplits := samplePool.fee_splits
    (samplePool.played_reaches (sampleFeeChange 2) (by decide +kernel))
  have hmap : (samplePool.played (sampleFeeChange 2) (by decide +kernel)).1.map (fun ev =>
      (feeSet ev, decide (ev.execution.context.epochHeight =
        ev.execution.before.statistics.lastEpochSynced),
        ev.execution.before.excess ev.execution.context)) =
          [(none, true, 0), (some 2000, false, 50), (none, false, 50)] := by
    decide +kernel
  generalize (samplePool.played (sampleFeeChange 2) (by decide +kernel)).1 = events at hsplits hmap
  obtain ⟨last, rest, rfl, -, hmap⟩ := List.map_eq_cons_iff.mp hmap
  obtain ⟨ev, older, rfl, hev, hmap⟩ := List.map_eq_cons_iff.mp hmap
  obtain ⟨first, nothing, rfl, hfirst, hmap⟩ := List.map_eq_cons_iff.mp hmap
  obtain rfl := List.map_eq_nil_iff.mp hmap
  obtain ⟨hset, hrest⟩ := Prod.mk.inj hev
  obtain ⟨hfresh, hexcess⟩ := Prod.mk.inj hrest
  have hfee : feeInForce [first] = 0 := by simp [feeInForce, (Prod.mk.inj hfirst).1]
  obtain ⟨-, -, hchange⟩ := hsplits ev [first] (List.suffix_cons _ _)
  have hsplit := ((hchange 2000 hset).1 (of_decide_eq_false hfresh) (by omega)).1
  rw [hfee, hexcess] at hsplit
  exact ⟨ev, by simp, hset, hsplit⟩

/-- In an epoch synced before, the 50 NEAR that were there when the fee was
still 0 are split at the fee of 20 percent, which mints 5 LST. -/
theorem Deployment.fee_change_late :
    samplePool.Reaches (samplePool.played (sampleFeeChange 1) (by decide +kernel)).1
        (samplePool.played (sampleFeeChange 1) (by decide +kernel)).2 ∧
      (samplePool.played (sampleFeeChange 1) (by decide +kernel)).1.map (fun ev => (feeSet ev,
        ev.execution.before.statistics.protocolFeeBps,
        ev.execution.before.excess ev.execution.context,
        ev.execution.after.statistics.totalStakedAmount,
        ev.execution.after.token.totalSupply)) =
          [(none, 2000, 50, 200, 105), (some 2000, 0, 50, 150, 100), (none, 0, 50, 150, 100)] :=
  ⟨samplePool.played_reaches (sampleFeeChange 1) (by decide +kernel), by decide +kernel⟩

end Reaches

end LiquidStaking
