import LiquidStaking.FeeChanges

/-!
# Rewards are recognized once per epoch

Whoever triggers a sync, and however often, at most one receipt of an epoch
recognizes a reward: it writes the current epoch into `last_epoch_synced`, and
the clock of a run only goes forward.  A second `ping` in the epoch is answered
with zero and changes nothing, which is what a pinger that retries relies on.
-/

namespace LiquidStaking

open Checked PromiseChain

section Steps

variable {H : Type} [DecidableEq H] {host : Host H} {env : Env} {s s' : LiquidStakingToken H}
  {p p' : Phase H} {side : List (Receipt H)}

/-- From `s` to `s'` the epoch synced last stays, or becomes the current one,
which it was not. -/
def EpochMoves (epoch : ℕ) (s s' : LiquidStakingToken H) : Prop :=
  s'.statistics.lastEpochSynced = s.statistics.lastEpochSynced ∨
    s'.statistics.lastEpochSynced = epoch ∧ epoch ≠ s.statistics.lastEpochSynced

omit [DecidableEq H] in
/-- A sync moves the epoch synced last to the current one, or not at all. -/
theorem LiquidStakingToken.Synced.epochMoves {epoch balance excluded : ℕ}
    {result : LiquidStakingToken.SyncRewardsResult}
    (h : LiquidStakingToken.Synced epoch balance excluded s s' result) :
    EpochMoves epoch s s' := by
  cases h with
  | idle => exact .inl rfl
  | reward reward feeLst pos balance_eq bounded fee_le feeLst_eq supply stake registered fresh =>
      exact .inr ⟨rfl, fresh⟩

/-- So does a call from outside, with or without a sync. -/
theorem Entry.epochMoves {m : Method H} (h : Entry host env s m s' p side) :
    EpochMoves env.epochHeight s s' := by
  cases h with
  | stake args s₁ result o synced => exact synced.epochMoves
  | pingIdle result s₁ synced | ping reward s₁ synced => exact synced.epochMoves
  | setFee feeBps s₁ result _ _ _ synced => exact synced.epochMoves
  | setKey key s₁ result _ _ synced => exact synced.epochMoves
  | _ => exact .inl rfl

/-- So does a callback. -/
theorem Advance.epochMoves (h : Advance host env s p s' p' side) :
    EpochMoves env.epochHeight s s' := by
  cases h with
  | unwrapQuoted ok s₁ result o synced | unwrapRejected ok s₁ result synced =>
      exact synced.epochMoves
  | refused message _ t used burned _ s₁ u _ _ unstakes =>
      obtain ⟨result, synced⟩ := unstakes.synced
      exact synced.epochMoves
  | unstakeRequested message _ s₁ u _ _ unstakes =>
      obtain ⟨result, synced⟩ := unstakes.synced
      exact synced.epochMoves
  | _ => exact .inl rfl

/-- A ping in the epoch synced last changes nothing. -/
theorem Entry.ping_again (h : Entry host env s .ping s' p side)
    (hsynced : env.epochHeight = s.statistics.lastEpochSynced) :
    s' = s ∧ p = .continuing .finish (.successful (.ofU128 0)) ∧ side = [] := by
  cases h with
  | pingIdle result s₁ synced idle =>
      cases synced with
      | idle => exact ⟨rfl, rfl, rfl⟩
      | reward reward => exact absurd rfl (idle reward)
  | ping reward s₁ synced =>
      cases synced with
      | idle result none => exact absurd rfl (none reward)
      | reward _ feeLst _ _ _ _ _ _ _ _ fresh => exact absurd hsynced fresh

end Steps

section Reaches

variable {H : Type} [DecidableEq H] {host : Host H} {d : Deployment host}
  {events : List (PoolEvent H)} {sys sys' : PoolSystem H} {c : PoolChain H} {e : PoolExecution H}
  {ev : PoolEvent H}

/-- The event recognizes a reward in this epoch, that is, its sync returns
`RewardsSynced` (`Deployment.recognizes_iff`). -/
def recognizesIn (epoch : ℕ) (ev : PoolEvent H) : Prop :=
  Recognizes ev.execution ∧ ev.execution.context.epochHeight = epoch

instance (epoch : ℕ) (ev : PoolEvent H) : Decidable (recognizesIn epoch ev) :=
  inferInstanceAs (Decidable (_ ≠ _ ∧ _ = _))

/-- And so does whatever else happens. -/
theorem Transition.epochMoves {wnear : AccountId} (h : Transition host wnear c e) :
    EpochMoves e.context.epochHeight e.before e.after := by
  cases h with
  | entered m p side deposit gas fresh task_eq deposit_eq external entry => exact entry.epochMoves
  | advanced p p' side now self advance => exact advance.epochMoves
  | panicked p now here self verdict same => exact .inl (by rw [same])
  | answered p r now away verdict same => exact .inl (by rw [same])

/-- The epochs in which rewards were recognized, against the clock. -/
structure SyncedUpTo (events : List (PoolEvent H)) (sys : PoolSystem H) : Prop where
  /-- The epoch synced last has come. -/
  last_le : sys.state.statistics.lastEpochSynced ≤ sys.now
  /-- Nothing was recognized after it. -/
  epochs_le : ∀ ev ∈ events, Recognizes ev.execution →
    ev.execution.context.epochHeight ≤ sys.state.statistics.lastEpochSynced
  /-- Each epoch has at most one recognition. -/
  once : ∀ epoch, events.countP (fun ev => decide (recognizesIn epoch ev)) ≤ 1

omit [DecidableEq H] in
/-- An epoch after the one synced last has no recognition yet. -/
theorem SyncedUpTo.none_later (h : SyncedUpTo events sys) {epoch : ℕ}
    (hlater : sys.state.statistics.lastEpochSynced < epoch) :
    events.countP (fun ev => decide (recognizesIn epoch ev)) = 0 := by
  refine List.countP_eq_zero.mpr fun ev hev hrecognizes => ?_
  obtain ⟨hnew, hepoch⟩ := of_decide_eq_true hrecognizes
  have hle := h.epochs_le ev hev hnew
  omega

/-- One turn: a recognition comes after all the ones before. -/
theorem SyncedUpTo.step (h : SyncedUpTo events sys) (hstep : (platform host).Step sys ⟨c, e⟩ sys')
    (hmoves : EpochMoves e.context.epochHeight e.before e.after) :
    SyncedUpTo (⟨c, e⟩ :: events) sys' := by
  have hbefore : e.before = sys.state := hstep.fires.before_eq
  have hclock : sys.now ≤ e.context.epochHeight := hstep.fires.clock_le
  have hstate : sys'.state = e.after := hstep.state_eq
  have hnow : sys'.now = e.context.epochHeight := hstep.now_eq
  have hlast := h.last_le
  rcases hmoves with hsame | ⟨hnew, hfresh⟩
  · -- Nothing is recognized.
    have hquiet : ¬Recognizes e := fun hrecognizes => hrecognizes hsame
    refine ⟨by rw [hstate, hsame, hbefore, hnow]; omega, ?_, fun epoch => ?_⟩
    · rw [hstate, hsame, hbefore]
      intro ev hev hrecognizes
      rcases List.mem_cons.mp hev with rfl | hold
      · exact absurd hrecognizes hquiet
      · exact h.epochs_le ev hold hrecognizes
    · rw [List.countP_cons_of_neg (by simp [recognizesIn, hquiet])]
      exact h.once epoch
  · rw [hbefore] at hfresh
    refine ⟨by rw [hstate, hnew, hnow], ?_, fun epoch => ?_⟩
    · rw [hstate, hnew]
      intro ev hev hrecognizes
      rcases List.mem_cons.mp hev with rfl | hold
      · exact le_rfl
      · have hle := h.epochs_le ev hold hrecognizes
        omega
    · rw [List.countP_cons]
      split_ifs with hhere
      · have hepoch : e.context.epochHeight = epoch := (of_decide_eq_true hhere).2
        rw [h.none_later (by omega)]
      · exact h.once epoch

/-- The recognitions of a run and its clock. -/
theorem Deployment.syncedUpTo (run : d.Reaches events sys) : SyncedUpTo events sys := by
  refine run.induction_turn (I := SyncedUpTo) ?_ (fun turn ih step => ?_) fun _ _ => trivial
  · refine ⟨?_, by simp, by simp⟩
    show d.state.statistics.lastEpochSynced ≤ _
    rw [d.initial.epoch_eq]
    exact Nat.zero_le _
  · exact ih.step step (d.transition turn).epochMoves

omit [DecidableEq H] in
/-- A chain that is done with a value was given this value. -/
theorem ret_of_finished {ret : Return H} {detached : List (Receipt H)} {v : Payload}
    (hverdict : e.verdict = .committed ret detached)
    (hinput : (c.resume e).input = some (.successful v)) : ret = .value v := by
  simp only [Chain.resume, hverdict] at hinput
  cases ret with
  | value w =>
      obtain rfl := PromiseResult.successful.inj (Option.some.inj hinput)
      rfl
  | promise next => cases hinput

/-- **One reward per epoch.**  In every run, at most one event of an epoch
recognizes a reward, and the epoch synced last is never ahead of the clock.
Once a reward has been recognized in an epoch, nothing that runs in that epoch
recognizes another, and a `ping` from outside that commits returns zero and
leaves the state as it is.

The last part is about any next step, so a `ping` that is retried does no harm.
It needs the check on the epoch at the head of the sync: without it a second
receipt of the epoch could recognize what has come in since. -/
theorem Deployment.one_reward_per_epoch (run : d.Reaches events sys) :
    (∀ epoch, events.countP (fun ev => decide (recognizesIn epoch ev)) ≤ 1) ∧
    sys.state.statistics.lastEpochSynced ≤ sys.now ∧
    ∀ ev sys', (platform host).Step sys ev sys' →
      (∃ old ∈ events, recognizesIn ev.execution.context.epochHeight old) →
        ¬Recognizes ev.execution ∧
        ∀ deposit gas ret detached, ev.execution.task.actions = [.call .ping deposit gas] →
          ev.execution.context.predecessorAccountId ≠ host.currentAccountId →
          ev.execution.verdict = .committed ret detached →
            sys'.state = sys.state ∧ ret = .value (.ofU128 0) ∧ detached = [] := by
  have hsynced := d.syncedUpTo run
  refine ⟨hsynced.once, hsynced.last_le, ?_⟩
  rintro ⟨c, e⟩ sys' hstep ⟨old, hold, hrecognizes, hepoch⟩
  have hbefore : e.before = sys.state := hstep.fires.before_eq
  have hclock : sys.now ≤ e.context.epochHeight := hstep.fires.clock_le
  -- No epoch after this one has been synced, and this one has.
  have hnow : e.context.epochHeight = e.before.statistics.lastEpochSynced := by
    have hle := hsynced.epochs_le old hold hrecognizes
    have hlast := hsynced.last_le
    rw [hbefore]
    dsimp only at hepoch
    omega
  have htransition := d.transition
    ⟨run, fun _ _ => trivial, hstep.fires, hstep.origin, trivial⟩
  constructor
  · intro hagain
    rcases htransition.epochMoves with hsame | ⟨-, hfresh⟩
    · exact hagain hsame
    · exact hfresh hnow
  · intro deposit gas ret detached hping hexternal hverdict
    cases htransition with
    | entered m p side _ _ fresh task_eq deposit_eq external entry next verdict =>
        obtain ⟨ret', hverdict'⟩ := verdict
        obtain ⟨rfl, rfl⟩ := Verdict.committed.inj (hverdict.symm.trans hverdict')
        obtain ⟨hmethod, -⟩ := List.cons.inj (hping.symm.trans task_eq)
        cases hmethod
        obtain ⟨hstate, rfl, rfl⟩ := entry.ping_again hnow
        exact ⟨hstep.state_eq.trans (hstate.trans hbefore),
          ret_of_finished hverdict next.input_eq, rfl⟩
    | advanced p p' side now self => exact absurd self hexternal
    | panicked p now here self => exact absurd self hexternal
    | answered p r now away verdict =>
        rw [show e.verdict = .committed ret detached from hverdict] at verdict
        cases verdict

/-- Two pings in epoch 1: one when a reward of 50 is there, one when 50 more
are. -/
private def sampleTwoPings : List (Platform.Move Env (Receipt UnstakeMessage) Payload) :=
  [.enter (sampleEnv 150 1000 1 "anyone" 0) (.call "pool" .ping 0 0),
    .enter (sampleEnv 150 1050 1 "anyone" 0) (.call "pool" .ping 0 0)]

/-- Of the 100 NEAR of reward that come up in epoch 1, a single ping recognizes
the first 50. -/
theorem Deployment.one_reward_per_epoch_sample :
    (samplePool.played sampleTwoPings rfl).1.countP (fun ev => decide (recognizesIn 1 ev)) = 1 ∧
      (samplePool.played sampleTwoPings rfl).2.state.statistics.totalStakedAmount = 150 := by
  have honce := (samplePool.one_reward_per_epoch (samplePool.played_reaches sampleTwoPings rfl)).1 1
  have hsome : 0 < (samplePool.played sampleTwoPings rfl).1.countP
      (fun ev => decide (recognizesIn 1 ev)) := by
    decide +kernel
  exact ⟨le_antisymm honce hsome, by decide +kernel⟩

end Reaches

end LiquidStaking
