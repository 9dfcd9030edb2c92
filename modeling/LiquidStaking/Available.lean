import LiquidStaking.Delivery
import LiquidStaking.History

/-!
# Hashes ready to withdraw

The queue of every reachable state is the result of some history of queue calls,
so that all its vectors are in shape.  For such a queue
`get_hashes_available_for_withdrawal` lists a hash exactly if something under it
is unlocked and matured.

A withdrawal asks for more: nothing under the hash may be locked.  The two agree
for every hash that has no lock, and differ where a settlement left its tranche
locked while another one matured.
-/

namespace LiquidStaking

open Checked PromiseChain

/-! ## The queue of a run -/

section Recorded

variable {H : Type} [DecidableEq H] {host : Host H} {env : Env} {s s' : LiquidStakingToken H}
  {q q' : WithdrawalRequests H} {now e : ℕ}

/-- The queue comes from a history of positive appends, up to this epoch.

What is known of histories then holds of the queue of the contract. -/
def Recorded (now : ℕ) (q : WithdrawalRequests H) : Prop :=
  ∃ calls, History calls q ∧ ∀ x ∈ calls, x.1 ≤ now ∧ x.2.Positive

/-- Time passes. -/
theorem Recorded.later (h : Recorded now q) (hle : now ≤ e) : Recorded e q := by
  obtain ⟨calls, hhistory, hcalls⟩ := h
  exact ⟨calls, hhistory, fun x mem => ⟨(hcalls x mem).1.trans hle, (hcalls x mem).2⟩⟩

/-- One more call of the current epoch. -/
theorem Recorded.call (h : Recorded e q) {c : Call H} (hpos : c.Positive)
    (hrun : c.run e q = .ok q') : Recorded e q' := by
  obtain ⟨calls, hhistory, hcalls⟩ := h
  refine ⟨(e, c) :: calls, .call e c hhistory (fun x mem => (hcalls x mem).1) hrun, ?_⟩
  rw [List.forall_mem_cons]
  exact ⟨⟨le_rfl, hpos⟩, hcalls⟩

/-- A withdrawal makes a sweep. -/
theorem Call.run_sweep {hash : H} {amount : ℕ}
    (hswept : WithdrawalRequests.amountOfMaturedTranches q e hash = .ok (amount, q')) :
    (Call.sweep hash).run e q = .ok q' := by
  simp only [Call.run, hswept, ok_bind]
  rfl

/-- A settlement callback makes a settlement, which shrinks or removes the
locked tranche. -/
theorem Call.run_settle {hash : H} {delivered residual : ℕ} {storagePaid : Bool} {t : Tranche}
    (hlocked : WithdrawalRequests.lockedTranche q hash = .ok t)
    (hclaimed : delivered ≤ t.withdrawalAmount) :
    (Call.settle hash delivered residual storagePaid).run e q =
      .ok (if t.withdrawalAmount - delivered = 0 then WithdrawalRequests.removeRequest q hash
        else WithdrawalRequests.writeLockedTranche q hash
          { t with
            withdrawalAmount := t.withdrawalAmount - delivered
            wnearResidual := residual
            storageWasPaid := t.storageWasPaid || storagePaid }) := by
  simp only [Call.run, hlocked, ok_bind, checkedSub, if_pos hclaimed, expect]
  rfl

/-- So a withdrawal adds a call to the history. -/
theorem Recorded.sweep (h : Recorded e q) {hash : H} {amount : ℕ}
    (hswept : WithdrawalRequests.amountOfMaturedTranches q e hash = .ok (amount, q')) :
    Recorded e q' :=
  h.call (c := .sweep hash) trivial (Call.run_sweep hswept)

/-- So does a released lock. -/
theorem Recorded.release (h : Recorded e q) (hash : H) :
    Recorded e (WithdrawalRequests.releaseLock q hash).1 :=
  h.call (c := .release hash) trivial rfl

/-- The vectors of such a queue are in shape. -/
theorem Recorded.neat (h : Recorded now q) : WithdrawalRequests.Neat now q := by
  obtain ⟨calls, hhistory, hcalls⟩ := h
  exact hhistory.neat (fun x mem => (hcalls x mem).2) fun x mem => (hcalls x mem).1

/-- A call from outside makes at most one queue call. -/
theorem Entry.recorded {m : Method H} {p : Phase H} {side : List (Receipt H)}
    (hentry : Entry host env s m s' p side) (h : Recorded env.epochHeight s.withdrawalRequests) :
    Recorded env.epochHeight s'.withdrawalRequests := by
  cases hentry with
  | stake args s₁ result o synced => exact synced.queue_eq.1 ▸ h
  | pingIdle result s₁ synced | ping reward s₁ synced => exact synced.queue_eq.1 ▸ h
  | setFee feeBps s₁ result _ _ _ synced => exact synced.queue_eq.1 ▸ h
  | setKey key s₁ result _ _ synced => exact synced.queue_eq.1 ▸ h
  | withdrawNative a q native swept | withdrawWnear a q wrapped swept => exact h.sweep swept
  | forceRelease hash => exact h.release hash
  | _ => exact h

/-- A callback appends, or settles and releases. -/
theorem Advance.recorded {p p' : Phase H} {side : List (Receipt H)}
    (hadvance : Advance host env s p s' p' side) (hvalid : p.Valid host)
    (h : Recorded env.epochHeight s.withdrawalRequests) :
    Recorded env.epochHeight s'.withdrawalRequests := by
  cases hadvance with
  | unwrapQuoted ok s₁ result o synced => exact synced.queue_eq.1 ▸ h
  | unwrapRejected ok s₁ result synced => exact synced.queue_eq.1 ▸ h
  | refused message _ t used burned _ s₁ u _ _ unstakes =>
      obtain ⟨result, synced⟩ := unstakes.synced
      exact synced.queue_eq.1 ▸ h
  | unstakeRequested message _ s₁ u _ _ unstakes =>
      obtain ⟨result, synced⟩ := unstakes.synced
      exact synced.queue_eq.1 ▸ h
  | @queued u k r ok q appended =>
      exact h.call (c := .append u.hash u.nearAmount) hvalid.near_pos appended
  | @paidNative a => exact (h.call (c := .remove (a.hash host)) trivial rfl).release _
  | unpaidNative | unpaidWnear => exact h.release _
  | @paidWnear a r consumed delivery t locked delivered delivered_eq claimed q q_eq =>
      refine Recorded.release (h.call (c := .settle (a.hash host) delivered
        (a.amountToSend - consumed) (decide (0 < a.storageToPay))) trivial ?_) _
      rw [q_eq]
      exact Call.run_settle locked claimed
  | _ => exact h

end Recorded

section Reaches

variable {H : Type} [DecidableEq H] {host : Host H} {d : Deployment host}
  {events : List (PoolEvent H)} {sys : PoolSystem H}

/-- **The queue of every reachable state comes from a history.**

A receipt makes at most two calls of the queue, a settlement and a release, in
the epoch it runs in. -/
theorem Deployment.recorded (run : d.Reaches events sys) :
    Recorded sys.now sys.state.withdrawalRequests := by
  refine run.induction_turn (I := fun _ sys => Recorded sys.now sys.state.withdrawalRequests)
    ?_ ?_ fun _ _ => trivial
  · show Recorded _ d.state.withdrawalRequests
    rw [d.initial.queue_eq]
    exact ⟨[], .start, by simp⟩
  · intro events s s' c e turn ih step
    have hclock : s.now ≤ e.context.epochHeight := turn.fires.clock_le
    have hbefore : Recorded e.context.epochHeight e.before.withdrawalRequests := by
      rw [turn.fires.before_eq]
      exact ih.later hclock
    rw [step.state_eq, step.now_eq]
    show Recorded e.context.epochHeight e.after.withdrawalRequests
    cases d.transition turn with
    | entered m p side deposit gas fresh task_eq deposit_eq external entry =>
        exact entry.recorded hbefore
    | advanced p p' side now self advance => exact advance.recorded now.valid hbefore
    | panicked p now here self verdict same => exact same ▸ hbefore
    | answered p r now away verdict same => exact same ▸ hbefore

end Reaches

/-! ## The two filters -/

namespace WithdrawalRequests

variable {H : Type} [DecidableEq H] {q : WithdrawalRequests H} {hash : H} {now e : ℕ}

/-- What the residuals of the ready tranches add up to. -/
def readyResidual (q : WithdrawalRequests H) (e : ℕ) (hash : H) : ℕ :=
  ((Tranches.ready e (tranchesAt q hash)).map Tranche.wnearResidual).sum

/-- The view lists the hashes under which something is ready.

It does not ask whether something else is locked. -/
theorem mem_availableHashes_iff :
    hash ∈ availableHashes q e ↔ Tranches.ready e (tranchesAt q hash) ≠ [] := by
  have hready : ∀ ts : List (Lock Tranche),
      Tranches.ready e ts ≠ [] ↔ ts.any (Tranches.isReady e) = true := by
    intro ts
    simp [Tranches.ready, List.filter_eq_nil_iff]
  unfold availableHashes
  rw [List.mem_filterMap]
  constructor
  · rintro ⟨⟨k, ts⟩, mem, hlisted⟩
    simp only [Option.ite_none_right_eq_some, Option.some.injEq] at hlisted
    obtain ⟨hany, rfl⟩ := hlisted
    have hlook : q.lookup k = some ts := AList.mem_lookup_iff.mpr mem
    rw [tranchesAt, hlook]
    exact (hready ts).mpr hany
  · intro hne
    cases hlook : q.lookup hash with
    | none =>
        rw [tranchesAt, hlook] at hne
        exact absurd rfl hne
    | some ts =>
        rw [tranchesAt, hlook] at hne
        refine ⟨⟨hash, ts⟩, AList.mem_lookup_iff.mp hlook, ?_⟩
        simp only [(hready ts).mp hne, if_true]

/-- Tranches of a queue in shape are worth something.

So a withdrawal that finds something ready does not fail for want of an amount. -/
theorem Neat.ready_pos (h : Neat now q) :
    0 < ((Tranches.ready e (tranchesAt q hash)).map Tranche.withdrawalAmount).sum ↔
      Tranches.ready e (tranchesAt q hash) ≠ [] := by
  rw [Nat.pos_iff_ne_zero, Ne, List.sum_eq_zero_iff, not_iff_not]
  constructor
  · intro hzero
    refine List.eq_nil_iff_forall_not_mem.mpr fun t mem => ?_
    have hnone := hzero _ (List.mem_map_of_mem mem)
    rw [Tranches.ready_eq] at mem
    have hpos := (h.shaped hash).pos t (List.mem_append_left _ (List.mem_filter.mp mem).1)
    omega
  · intro hnil
    simp [hnil]

/-- **The queue step of a withdrawal succeeds** for the listed hashes without a
lock.

The two sums are the checked additions of the collapse. -/
theorem Neat.withdrawable_iff (h : Neat now q) :
    (∃ amount q', 0 < amount ∧ amountOfMaturedTranches q e hash = .ok (amount, q')) ↔
      hash ∈ availableHashes q e ∧ locksAt q hash = [] ∧
        ((Tranches.ready e (tranchesAt q hash)).map Tranche.withdrawalAmount).sum < 2 ^ 128 ∧
        readyResidual q e hash < 2 ^ 128 := by
  rw [mem_availableHashes_iff]
  constructor
  · rintro ⟨amount, q', hpos, hok⟩
    obtain ⟨ts, hsweep, -⟩ := Call.sweep_replaces hok
    obtain ⟨hlocks, hamount, hresidual⟩ := Tranches.sweep_isOk.mp ⟨_, hsweep⟩
    obtain ⟨-, rfl, -⟩ := Tranches.sweep_cases hsweep
    rw [Tranches.additive_withdrawalAmount.merged] at hpos
    exact ⟨h.ready_pos.mp hpos, hlocks, hamount, hresidual⟩
  · rintro ⟨hready, hlocks, hamount, hresidual⟩
    obtain ⟨⟨amount, ts'⟩, hsweep⟩ := Tranches.sweep_isOk.mpr ⟨hlocks, hamount, hresidual⟩
    have hpos : 0 < amount := by
      obtain ⟨-, rfl, -⟩ := Tranches.sweep_cases hsweep
      rw [Tranches.additive_withdrawalAmount.merged]
      exact h.ready_pos.mpr hready
    cases hlook : q.lookup hash with
    | none =>
        rw [tranchesAt, hlook] at hready
        exact absurd rfl hready
    | some ts =>
        rw [tranchesAt, hlook] at hsweep
        refine ⟨amount, q.insert hash ts', hpos, ?_⟩
        unfold amountOfMaturedTranches
        rw [hlook]
        dsimp only
        rw [show Tranches.sweep e ts = .ok (amount, ts') from hsweep]
        rfl

end WithdrawalRequests

section Reaches

variable {H : Type} [DecidableEq H] {host : Host H} {d : Deployment host}
  {events : List (PoolEvent H)} {sys : PoolSystem H}

open WithdrawalRequests

/-- What is ready under one hash is a part of what is queued. -/
theorem ready_le_total {q : WithdrawalRequests H} (f : Tranche → ℕ) (e : ℕ) (hash : H) :
    ((Tranches.ready e (tranchesAt q hash)).map f).sum ≤ total f q := by
  unfold tranchesAt
  cases hlook : q.lookup hash with
  | none => exact Nat.zero_le _
  | some ts =>
      have hready := Tranches.freeSum_unready f e ts
      have hsplit := Tranches.sum_eq f ts
      have hstored : Tranches.sum f ts ≤ total f q := Store.le_total hlook
      show ((Tranches.ready e ts).map f).sum ≤ total f q
      omega

/-- **The view and the withdrawal.**  In every reachable state, at any epoch, a
hash is listed exactly if something under it is unlocked and matured; the queue
step of a withdrawal succeeds exactly for the listed hashes under which nothing
is locked, as long as the residuals to be merged fit the word; and these do,
unless a lock was released by hand.

The epoch is not bound to the current one, so the theorem also says when a hash
will be listed if nothing else happens.  The sum of the amounts needs no
condition of its own: it is a part of the pending total, which fits its word in
every reachable state. -/
theorem Deployment.available_iff (run : d.Reaches events sys) (hash : H) (e : ℕ) :
    (hash ∈ availableHashes sys.state.withdrawalRequests e ↔
      ∃ l ∈ tranchesAt sys.state.withdrawalRequests hash,
        l.locked = false ∧ l.value.isMatured e = true) ∧
    ((∃ amount q', 0 < amount ∧
        amountOfMaturedTranches sys.state.withdrawalRequests e hash = .ok (amount, q')) ↔
      hash ∈ availableHashes sys.state.withdrawalRequests e ∧
        (∀ l ∈ tranchesAt sys.state.withdrawalRequests hash, l.locked = false) ∧
        readyResidual sys.state.withdrawalRequests e hash < 2 ^ 128) ∧
    ((∀ ev ∈ events, Unforced ev) →
      readyResidual sys.state.withdrawalRequests e hash < 2 ^ 128) := by
  have hqueue := d.queueSound run
  have hbounded := hqueue.pending_eq ▸ hqueue.bounded
  have hamount := lt_of_le_of_lt (ready_le_total (q := sys.state.withdrawalRequests)
    Tranche.withdrawalAmount e hash) hbounded
  refine ⟨?_, ?_, ?_⟩
  · rw [mem_availableHashes_iff]
    simp [Tranches.ready, List.filter_eq_nil_iff, Tranches.isReady_eq]
  · rw [(d.recorded run).neat.withdrawable_iff, locksAt, ← Tranches.all_free_iff]
    simp only [hamount, true_and, List.all_eq_true, Bool.not_eq_true']
  · intro hforce
    refine lt_of_le_of_lt (List.sum_le_sum fun t mem => ?_) hamount
    obtain ⟨l, hl, rfl⟩ := List.mem_map.mp mem
    exact d.residual_le run hforce hash l (List.mem_filter.mp hl).1

/-- A delivery that is not settled, and an unstake that matures meanwhile. -/
private def sampleLateSibling : List (Platform.Move Env (Receipt UnstakeMessage) Payload) :=
  let env := sampleEnv 60 1040 4 "pool" 0
  sampleUnstake "native" ++
    [.enter (sampleEnv 60 1040 4 "bob" 0) (.call "pool" (.withdraw ⟨"bob", .native⟩) 0 0),
      .enter (sampleEnv 60 1040 4 "treasury" oneYocto)
        (.call "pool" (.ftTransferCall "pool" 40 none "native") oneYocto 0),
      .fire 2 env, .answer 2 env (.successful .empty), .fire 2 env, .fire 2 env]

/-- The view lists a hash that a withdrawal is turned away from.

A withdrawal of the first claim is in flight, and a second unstake under the
same message has matured meanwhile. -/
theorem Deployment.available_ne_withdrawable :
    ¬∀ events sys, samplePool.Reaches events sys → ∀ hash e, sys.now ≤ e →
      (hash ∈ availableHashes sys.state.withdrawalRequests e ↔
        ∃ amount q', 0 < amount ∧
          amountOfMaturedTranches sys.state.withdrawalRequests e hash = .ok (amount, q')) := by
  intro hagree
  have hlisted := hagree _ _ (samplePool.played_reaches sampleLateSibling rfl) ⟨"bob", .native⟩ 8
    (by decide +kernel)
  obtain ⟨amount, q', -, hok⟩ := hlisted.mp (by decide +kernel)
  have hbusy : amountOfMaturedTranches
      (samplePool.played sampleLateSibling rfl).2.state.withdrawalRequests 8 ⟨"bob", .native⟩ =
        .error "Unstake request is already in progress" := rfl
  rw [hbusy] at hok
  cases hok

theorem Deployment.available_iff_sample :
    (⟨"bob", .native⟩ : UnstakeMessage) ∈ availableHashes
      (samplePool.played (sampleUnstake "native") rfl).2.state.withdrawalRequests 4 := by
  rw [(samplePool.available_iff (samplePool.played_reaches (sampleUnstake "native") rfl) _ 4).1]
  exact ⟨⟨false, ⟨40, 0, 0, false⟩⟩, List.mem_singleton.mpr rfl, rfl, rfl⟩

end Reaches

end LiquidStaking
