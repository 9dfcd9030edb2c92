import LiquidStaking.Lib.Settling
import LiquidStaking.Reachable

/-!
# Every run settles

The promise chains of the contract call back and forth between the pool, the
validator action, the wNEAR contract and the receivers, and a callback may start
a new stretch of its chain: a quoted stake its batch, a refused notification an
unstake.  None of this goes on forever.  `Phase.remaining` bounds the receipts a
chain can still take in each phase, `Method.receipts` those that a call leads
to, and `Deployment.settles` says that every execution stays within these
bounds.  What follows, by the rules of `LiquidStaking.Lib.Settling`, is that
runs are as long as their calls allow, that no chain is stuck, and that what is
in flight can always be settled.
-/

namespace LiquidStaking

open PromiseChain

section Bounds

variable {H : Type} (host : Host H)

/-- The receipts a continuation can still take; a refused notification goes on
with the validator action of its unstake and the callback of that.

What a stake calls on the receiver of its LST is such a notification. -/
def Continuation.remaining : Continuation → ℕ
  | .finish => 0
  | .resolve _ _ _ => 1
  | .notify _ _ => 3

/-- The receipts a chain can still take, and the payments it can still start on
the side.

The numbers are those of the longest way on from the phase.  The longest of all
begins with wNEAR that is unwrapped, staked, minted and then passed on to a
receiver who refuses it. -/
def Phase.remaining : Phase H → ℕ
  | .continuing k _ => k.remaining
  | .unwrapping _ _ _ => 13
  | .unwrapped _ _ _ _ => 12
  -- The batch may give back what a registration did not cost, in a receipt of
  -- its own.
  | .batching _ _ => 11
  | .batched _ _ => 9
  | .restaking _ _ _ => 8
  | .restaked _ _ => 7
  | .rewrapping _ => 2
  | .rewrapped _ _ => 1
  | .paying _ _ => 1
  | .sending receiver _ _ _ _ k => (if receiver = host.currentAccountId then 3 else 1) + k.remaining
  | .unstaking _ _ _ k => 2 + k.remaining
  | .unstaked _ k _ => 1 + k.remaining
  | .deliveringNative _ | .deliveringWnear _ => 2
  | .deliveredNative _ _ | .deliveredWnear _ _ => 1
  | .pinging _ _ => 3
  | .pinged _ => 2
  | .stopping _ | .addingKey _ => 1

/-- The receipts a call leads to, itself and the payments on the side included.

A call that starts no promise is one receipt. -/
def Method.receipts : Method H → ℕ
  | .stake _ => 12
  | .ftOnTransfer _ _ _ => 14
  | .ftTransferCall receiverId _ _ _ => if receiverId = host.currentAccountId then 5 else 3
  | .withdraw _ => 3
  | .ping | .setValidatorPublicKey _ => 4
  | .storageDeposit _ _ | .storageUnregister _ | .addFullAccessKey _ => 2
  | _ => 1

/-- The receipts that a receipt from outside leads to. -/
def Receipt.budget (t : Receipt H) : ℕ :=
  match t.actions with
  | [.call m _ _] => m.receipts host
  | _ => 0

variable {host} {env : Env} {s s' : LiquidStakingToken H} {p p' : Phase H} {m : Method H}
  {side : List (Receipt H)}

/-- However the next receipt of a chain ends, one receipt less is ahead.

An answer may decide which way the chain takes, but no way on is longer than was
counted. -/
theorem Phase.remaining_settle (h : p.place host ≠ .done) (r : PromiseResult) :
    (p.settle r).remaining host + 1 ≤ p.remaining host := by
  cases p with
  | continuing k r' =>
      cases k with
      | finish => exact absurd rfl h
      | resolve | notify => simp [Phase.settle, Phase.remaining, Continuation.remaining]
  | sending receiver senderId amount msg gas k =>
      simp only [Phase.settle, Phase.remaining]
      split <;> omega
  | _ =>
      simp only [Phase.settle, Phase.remaining, Continuation.remaining]
      all_goals omega

/-- What is paid on the side is one payment, or none. -/
theorem length_detachedPay_le (receiver : AccountId) (amount : ℕ) :
    (detachedPay receiver amount : List (Receipt H)).length ≤ 1 := by
  unfold detachedPay
  split <;> simp

variable [DecidableEq H]

/-- Whatever a callback goes on with was counted beforehand.

There is one case for each callback and each way it may end. -/
theorem Advance.remaining_le (h : Advance host env s p s' p' side) :
    p'.remaining host + side.length + 1 ≤ p.remaining host := by
  cases h with
  | mintedRegistering =>
      have hside := length_detachedPay_le (H := H) host.currentAccountId
      simp only [Phase.remaining]
      exact (Nat.add_le_add_right (Nat.add_le_add_left (hside _) 9) 1)
  | handedOverCall =>
      simp only [Phase.remaining, Continuation.remaining, List.length_nil]
      split <;> omega
  | @rolledBack m =>
      cases m.depositToken <;> simp [Phase.remaining]
  | unstakeRequested =>
      simp only [Phase.remaining, if_pos, List.length_nil]
      omega
  | _ =>
      simp only [Phase.remaining, Continuation.remaining, List.length_nil]
      omega

/-- A call stays within its budget. -/
theorem Entry.remaining_le (h : Entry host env s m s' p side) :
    p.remaining host + side.length + 1 ≤ m.receipts host := by
  cases h with
  | transferCall =>
      simp only [Phase.remaining, Continuation.remaining, Method.receipts, List.length_nil]
      split <;> omega
  | storageKnown | storageNew | unregister =>
      have hside := length_detachedPay_le (H := H) env.predecessorAccountId
      simp only [Phase.remaining, Continuation.remaining, Method.receipts]
      exact Nat.add_le_add_right ((Nat.zero_add _).trans_le (hside _)) 1
  | _ => simp [Phase.remaining, Continuation.remaining, Method.receipts]

end Bounds

section Reaches

variable {H : Type} [DecidableEq H] {host : Host H} {d : Deployment host}
  {events : List (PoolEvent H)} {sys : PoolSystem H} {c : PoolChain H} {e : PoolExecution H}

/-- What a chain has ahead.

A call from outside is in no phase yet, and has its budget instead. -/
def ahead (host : Host H) (c : PoolChain H) : ℕ := carried host (Phase.remaining host) c

/-- A payment on the side is one receipt. -/
theorem sum_ahead_spawned {side : List (Receipt H)} (hpaying : Paying side)
    (hspawned : e.spawned = side.map Chain.single) :
    (e.spawned.map (ahead host)).sum = side.length := by
  have hone : ∀ c ∈ (side.map Chain.single : List (PoolChain H)), ahead host c = 1 := by
    intro c hc
    obtain ⟨receiver, amount, hpay⟩ := hpaying.describes (default : AccountId) hc
    rw [ahead, hpay.carried_eq]
    rfl
  rw [hspawned, List.map_congr_left hone, List.map_const', List.sum_replicate, List.length_map,
    smul_eq_mul, mul_one]

/-- **Every execution stays within the bounds**: a callback, a panic and an
answer take something off what their chain has ahead, and a call stays within
its budget.

These are the hypotheses of the rules of the library, read off
`Advance.remaining_le`, `Phase.remaining_settle` and `Entry.remaining_le`. -/
theorem Deployment.settles (d : Deployment host) :
    (platform host).Settles d.genesis (Receipt.budget host) (ahead host) where
  outside h := by
    obtain ⟨_, _, _, _, _, hexternal, _⟩ := accepts_eq_true h
    exact decide_eq_false hexternal
  enters := by
    intro events s c e turn fresh accepted
    -- A receipt from outside is in no phase, so only an entry is possible.
    have hphase : ∀ p, ¬ Describes host d.wnearId c p := by
      intro p hp
      have hone := hp.carried_eq fun _ => 1
      rw [fresh, carried_single _ accepted] at hone
      cases hone
    cases d.transition turn with
    | entered m p side deposit gas _ task_eq deposit_eq external entry next verdict spawned =>
        have hentry := entry.remaining_le
        rw [sum_ahead_spawned entry.paying spawned, ahead, next.carried_eq]
        simpa only [Receipt.budget, task_eq] using hentry
    | advanced p p' side now => exact absurd now (hphase p)
    | panicked p now => exact absurd now (hphase p)
    | answered p r now => exact absurd now (hphase p)
  lowers := by
    intro events s c e turn mem
    obtain ⟨p₀, hp₀⟩ := (d.phased turn.run).described c mem
    cases d.transition turn with
    | entered m p side deposit gas fresh task_eq =>
        have hone := hp₀.carried_eq fun _ => 1
        rw [fresh, carried_call _ task_eq] at hone
        cases hone
    | advanced p p' side now self advance next verdict spawned =>
        rw [sum_ahead_spawned advance.paying spawned, ahead, ahead, next.carried_eq,
          now.carried_eq]
        exact advance.remaining_le
    | panicked p now here self verdict same next spawned =>
        rw [spawned, ahead, ahead, next.carried_eq, now.carried_eq]
        exact Phase.remaining_settle (by rw [here]; decide) _
    | answered p r now away verdict same next spawned =>
        rw [spawned, ahead, ahead, next.carried_eq, now.carried_eq]
        exact Phase.remaining_settle (by rw [away]; decide) _

/-- **Every run settles.** However the chains interleave and their receipts end,
a run has at most as many executions as its calls lead to.  In a reachable
system no chain in flight is stuck; going on without further calls takes at most
what is ahead, whatever the order; and one can go on until nothing is in flight.

A receipt that runs elsewhere may end in any way, so its verdict can be chosen
freely in the second part.  The third part bounds every way of going on, and the
last follows from the second and the third: one goes on as long as anything is
in flight, and that comes to an end. -/
theorem Deployment.every_run_settles (run : d.Reaches events sys) :
    events.length + Platform.inFlight (ahead host) sys ≤
      (events.map ((platform host).budgeted (Receipt.budget host))).sum ∧
    (∀ c ∈ sys.chains, c.InFlight → ∀ env : Env,
      env.predecessorAccountId = host.currentAccountId → sys.now ≤ env.epochHeight →
      ∀ r, ∃ e sys', e.context = env ∧ (platform host).Step sys ⟨c, e⟩ sys' ∧
        ((platform host).isLocal e.task = false → e.verdict = .answered r)) ∧
    (∀ newer sys', (platform host).Run sys newer sys' →
      (∀ ev ∈ newer, ev.execution.context.predecessorAccountId = host.currentAccountId) →
      newer.length + Platform.inFlight (ahead host) sys' ≤
        Platform.inFlight (ahead host) sys) ∧
    ∃ newer sys', (platform host).Run sys newer sys' ∧
      (∀ ev ∈ newer, ev.execution.context.predecessorAccountId = host.currentAccountId) ∧
      ∀ c ∈ sys'.chains, c.tasks = [] := by
  have hsettles := d.settles
  refine ⟨?_, ?_, ?_, ?_⟩
  · have hlength := hsettles.length_add_le run
    have hgenesis : Platform.inFlight (ahead host) d.genesis = 0 := rfl
    omega
  · intro c hmem hflight env hself hnow r
    exact Platform.can_resume hmem hflight (decide_eq_true hself) hnow r
  · intro newer sys' rest hinner
    exact hsettles.rest_le run rest fun ev mem => decide_eq_true (hinner ev mem)
  · have hcontext : ∀ now, ∃ env : Env, (platform host).resumes env = true ∧
        now ≤ (platform host).clock env := fun now =>
      ⟨{ d.env with predecessorAccountId := host.currentAccountId, epochHeight := now },
        decide_eq_true rfl, le_rfl⟩
    obtain ⟨newer, sys', rest, hinner, hdone⟩ := hsettles.exists_settled hcontext .failed run
    exact ⟨newer, sys', rest, fun ev mem => of_decide_eq_true (hinner ev mem),
      fun c hmem => not_not.mp (hdone c hmem)⟩

/-- The unstake and the withdrawal of the sample take the eight receipts they
may take. -/
theorem Deployment.every_run_settles_sample :
    (samplePool.played samplePayout rfl).1.length = 8 ∧
      8 ≤ ((samplePool.played samplePayout rfl).1.map
        ((platform sampleHost).budgeted (Receipt.budget sampleHost))).sum := by
  have hlength : (samplePool.played samplePayout rfl).1.length = 8 := by decide +kernel
  have hbound := (samplePool.every_run_settles (samplePool.played_reaches samplePayout rfl)).1
  omega

end Reaches

end LiquidStaking
