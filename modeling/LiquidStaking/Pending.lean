import LiquidStaking.Accounts

/-!
# The pending total is the queue

`total_pending_withdrawals` is the sum of all queued tranches.  The counter
moves in `on_unstake` and in the two settlement callbacks, the queue in five
vector operations; what keeps them together is that there is at most one lock
under a hash, so that a settlement takes out of the queue exactly the tranche it
read.  None of this needs the lock to belong to the settling chain: it also
holds when an admin releases locks in the middle of a delivery.
-/

namespace LiquidStaking

open Checked PromiseChain

/-- What the counter and the queue have to do with each other. -/
structure QueueSound {H : Type} [DecidableEq H] (s : LiquidStakingToken H) : Prop where
  /-- At most one tranche is locked under each hash. -/
  oneLock : WithdrawalRequests.OneLock s.withdrawalRequests
  /-- The counter is the sum of all tranches, locked or not. -/
  pending_eq : s.statistics.totalPendingWithdrawals =
    WithdrawalRequests.total Tranche.withdrawalAmount s.withdrawalRequests
  /-- It fits its word. -/
  bounded : s.statistics.totalPendingWithdrawals < 2 ^ 128

section Steps

variable {H : Type} [DecidableEq H] {host : Host H} {env : Env} {s s' : LiquidStakingToken H}
  {q : WithdrawalRequests H} {hash : H}

/-- The queue and the counter are what they were. -/
theorem QueueSound.of_eq {t : LiquidStakingToken H} (h : QueueSound s)
    (hqueue : t.withdrawalRequests = s.withdrawalRequests)
    (hpending : t.statistics.totalPendingWithdrawals = s.statistics.totalPendingWithdrawals) :
    QueueSound t := by
  refine ⟨?_, ?_, ?_⟩
  · rw [hqueue]
    exact h.oneLock
  · rw [hqueue, hpending]
    exact h.pending_eq
  · rw [hpending]
    exact h.bounded

/-- One operation under a hash, and the counter moved along. -/
theorem QueueSound.of_effect {t : LiquidStakingToken H} (h : QueueSound s) {ls : List Tranche}
    {gain loss : ℕ}
    (heffect : WithdrawalRequests.Effect Tranche.withdrawalAmount s.withdrawalRequests
      t.withdrawalRequests hash ls gain loss) (hls : ls.length ≤ 1)
    (hpending : t.statistics.totalPendingWithdrawals + loss +
        ((WithdrawalRequests.locksAt s.withdrawalRequests hash).map
          Tranche.withdrawalAmount).sum =
      s.statistics.totalPendingWithdrawals + gain + (ls.map Tranche.withdrawalAmount).sum)
    (hbounded : t.statistics.totalPendingWithdrawals < 2 ^ 128) : QueueSound t where
  oneLock := heffect.oneLock h.oneLock hls
  pending_eq := by
    have htotal := heffect.total_eq
    have hold := h.pending_eq
    omega
  bounded := hbounded

omit [DecidableEq H] in
/-- A sync touches neither. -/
theorem LiquidStakingToken.Synced.queue_eq {epoch balance excluded : ℕ}
    {result : LiquidStakingToken.SyncRewardsResult}
    (h : LiquidStakingToken.Synced epoch balance excluded s s' result) :
    s'.withdrawalRequests = s.withdrawalRequests ∧
      s'.statistics.totalPendingWithdrawals = s.statistics.totalPendingWithdrawals := by
  cases h <;> exact ⟨rfl, rfl⟩

omit [DecidableEq H] in
/-- The callback that runs next may touch the queue. -/
def Phase.queues : Phase H → Bool
  | .unstaked .. | .deliveredNative .. | .deliveredWnear .. => true
  | _ => false

/-- All other callbacks leave the queue as it is. -/
theorem Advance.queue_eq {p p' : Phase H} {side : List (Receipt H)}
    (h : Advance host env s p s' p' side) (hp : p.queues = false) :
    s'.withdrawalRequests = s.withdrawalRequests := by
  cases h with
  | unwrapQuoted ok s₁ result o synced | unwrapRejected ok s₁ result synced =>
      exact synced.queue_eq.1
  | refused message _ t used burned _ s₁ u _ _ unstakes =>
      obtain ⟨result, synced⟩ := unstakes.synced
      exact synced.queue_eq.1
  | unstakeRequested message _ s₁ u _ _ unstakes =>
      obtain ⟨result, synced⟩ := unstakes.synced
      exact synced.queue_eq.1
  | queued | undone | paidNative | unpaidNative | paidWnear | unpaidWnear => cases hp
  | _ => rfl

/-- Matured tranches are locked as one: the amounts stay. -/
theorem QueueSound.lock (h : QueueSound s) {e amount : ℕ}
    (hswept : WithdrawalRequests.amountOfMaturedTranches s.withdrawalRequests e hash =
      .ok (amount, q)) (hpos : 0 < amount) : QueueSound (s.withQueue q) := by
  obtain ⟨hnone, t, rfl, heffect⟩ :=
    WithdrawalRequests.amountOfMaturedTranches_effect hswept hpos
  exact h.of_effect (t := s.withQueue q) (heffect Tranches.additive_withdrawalAmount) le_rfl
    (by simp [hnone]) h.bounded

/-- A released lock frees its tranche: the amounts stay. -/
theorem QueueSound.release (h : QueueSound s) (hash : H) :
    QueueSound (s.withQueue (WithdrawalRequests.releaseLock s.withdrawalRequests hash).1) := by
  obtain ⟨gain, heffect, rfl⟩ := h.oneLock.released_effect (f := Tranche.withdrawalAmount) hash
  exact h.of_effect (t := s.withQueue _) heffect (Nat.zero_le 1) (by simp) h.bounded

/-- An unstake appended, and counted. -/
theorem QueueSound.append (h : QueueSound s) {e amount : ℕ}
    (happend : WithdrawalRequests.appendRequest s.withdrawalRequests e hash amount = .ok q)
    (hroom : s.statistics.totalPendingWithdrawals + amount < 2 ^ 128) :
    QueueSound ((s.withQueue q).addPending amount) := by
  have heffect := WithdrawalRequests.appendRequest_effect Tranches.additive_withdrawalAmount
    (fun t _ hzero => hzero) happend
  refine h.of_effect (t := (s.withQueue q).addPending amount) heffect (h.oneLock hash) ?_ hroom
  simp [Tranche.new]

/-- A claim settled in full, and no longer counted.

What it takes out is the locked tranche, which is one of those that the counter
adds up. -/
theorem QueueSound.settle (h : QueueSound s) {t : Tranche}
    (hlocked : WithdrawalRequests.lockedTranche s.withdrawalRequests hash = .ok t) :
    t.withdrawalAmount ≤ s.statistics.totalPendingWithdrawals ∧
      QueueSound ((s.withQueue (WithdrawalRequests.releaseLock
        (WithdrawalRequests.removeRequest s.withdrawalRequests hash) hash).1).subPending
          t.withdrawalAmount) := by
  have hlocks := h.oneLock.locksAt_eq hlocked
  have heffect := WithdrawalRequests.settled_effect (f := Tranche.withdrawalAmount)
    s.withdrawalRequests hash
  have htotal := heffect.total_eq
  have hle : t.withdrawalAmount ≤ s.statistics.totalPendingWithdrawals := by
    rw [h.pending_eq]
    simp only [hlocks, List.map_cons, List.map_nil, List.sum_cons, List.sum_nil] at htotal
    omega
  refine ⟨hle, h.of_effect heffect (Nat.zero_le 1) ?_ (lt_of_le_of_lt (Nat.sub_le _ _) h.bounded)⟩
  simp [hlocks, hle]

/-- A claim settled in part, and what was delivered no longer counted. -/
theorem QueueSound.shrink (h : QueueSound s) {t t' : Tranche} {delivered : ℕ}
    (hlocked : WithdrawalRequests.lockedTranche s.withdrawalRequests hash = .ok t)
    (hclaimed : delivered ≤ t.withdrawalAmount)
    (hrest : t'.withdrawalAmount = t.withdrawalAmount - delivered) :
    QueueSound ((s.withQueue (WithdrawalRequests.releaseLock
      (WithdrawalRequests.writeLockedTranche s.withdrawalRequests hash t') hash).1).subPending
        delivered) := by
  have hlocks := h.oneLock.locksAt_eq hlocked
  have heffect := WithdrawalRequests.shrunk_effect (f := Tranche.withdrawalAmount) t' hlocks
  have hle := (h.settle hlocked).1
  refine h.of_effect heffect (Nat.zero_le 1) ?_ (lt_of_le_of_lt (Nat.sub_le _ _) h.bounded)
  simp only [LiquidStakingToken.subPending_statistics_totalPendingWithdrawals,
    LiquidStakingToken.withQueue_statistics, hlocks, List.map_cons, List.map_nil, List.sum_cons,
    List.sum_nil]
  omega

/-- **A call from outside** keeps them together.

Only `withdraw` and the forced release touch the queue, and they leave all
amounts as they are. -/
theorem Entry.queueSound {m : Method H} {p : Phase H} {side : List (Receipt H)}
    (hentry : Entry host env s m s' p side) (h : QueueSound s) : QueueSound s' := by
  cases hentry with
  | stake args s₁ result o synced => exact h.of_eq synced.queue_eq.1 synced.queue_eq.2
  | pingIdle result s₁ synced | ping reward s₁ synced =>
      exact h.of_eq synced.queue_eq.1 synced.queue_eq.2
  | setFee feeBps s₁ result _ _ _ synced =>
      exact h.of_eq (t := s₁.withFee feeBps) synced.queue_eq.1 synced.queue_eq.2
  | setKey key s₁ result _ _ synced => exact h.of_eq synced.queue_eq.1 synced.queue_eq.2
  | withdrawNative a q native swept pos | withdrawWnear a q wrapped swept pos =>
      exact h.lock swept pos
  | forceRelease hash => exact h.release hash
  | _ => exact h.of_eq rfl rfl

/-- **A callback** keeps them together. -/
theorem Advance.queueSound {p p' : Phase H} {side : List (Receipt H)}
    (hadvance : Advance host env s p s' p' side) (h : QueueSound s) : QueueSound s' := by
  cases hadvance with
  | unwrapQuoted ok s₁ result o synced => exact h.of_eq synced.queue_eq.1 synced.queue_eq.2
  | unwrapRejected ok s₁ result synced =>
      exact h.of_eq (t := s₁.subBalance _) synced.queue_eq.1 synced.queue_eq.2
  | refused message _ t used burned _ s₁ u _ _ unstakes =>
      obtain ⟨result, synced⟩ := unstakes.synced
      exact h.of_eq (t := u.burn host s₁) synced.queue_eq.1 synced.queue_eq.2
  | unstakeRequested message _ s₁ u _ _ unstakes =>
      obtain ⟨result, synced⟩ := unstakes.synced
      exact h.of_eq (t := u.burn host s₁) synced.queue_eq.1 synced.queue_eq.2
  | queued ok q appended room => exact h.append appended room
  | paidNative ok t locked amount_eq =>
      rw [← amount_eq]
      exact (h.settle locked).2.of_eq rfl rfl
  | unpaidNative | unpaidWnear => exact h.release _
  | paidWnear consumed delivery t locked delivered delivered_eq claimed q q_eq =>
      subst q_eq
      split_ifs with hzero
      · have hall : delivered = t.withdrawalAmount := by omega
        rw [hall]
        exact (h.settle locked).2.of_eq rfl rfl
      · exact (h.shrink locked claimed rfl).of_eq rfl rfl
  | _ => exact h.of_eq rfl rfl

end Steps

/-! ## The counter does not underflow -/

section Underflow

variable {H : Type} [DecidableEq H] {host : Host H} {env : Env} {s : LiquidStakingToken H}
  {hash : H}

/-- What `decrease_pending_withdrawals` says when it underflows. -/
def pendingUnderflow : String := "Underflow while removing pending withdrawals"

omit [DecidableEq H] in
/-- The one way in which the subtraction fails. -/
theorem LiquidStakingToken.decreasePendingWithdrawals_eq_error {n : ℕ} {msg : String} :
    s.decreasePendingWithdrawals n = .error msg ↔
      s.statistics.totalPendingWithdrawals < n ∧ pendingUnderflow = msg := by
  simp only [LiquidStakingToken.decreasePendingWithdrawals, bind_eq_error, expect_eq_error,
    checkedSub_eq_none, pure_ne_error, and_false, exists_false, or_false, pendingUnderflow]

omit [DecidableEq H] in
theorem LiquidStakingToken.decreaseTotalBalance_ne_underflow {n : ℕ} :
    s.decreaseTotalBalance n ≠ .error pendingUnderflow := by
  intro h
  simp only [LiquidStakingToken.decreaseTotalBalance, bind_eq_error, expect_eq_error,
    pure_ne_error, and_false, exists_false, or_false] at h
  exact absurd h.2 (by decide)

theorem WithdrawalRequests.lockedTranche_ne_underflow {q : WithdrawalRequests H} :
    WithdrawalRequests.lockedTranche q hash ≠ .error pendingUnderflow := by
  simp [WithdrawalRequests.lockedTranche, bind_eq_error, expect_eq_error, pendingUnderflow]

/-- A native settlement takes out of the counter what the queue has locked. -/
theorem QueueSound.onWithdrawNative_ne_underflow (h : QueueSound s) (amount : ℕ) :
    s.onWithdrawNative host env hash amount ≠ .error pendingUnderflow := by
  intro herror
  simp only [LiquidStakingToken.onWithdrawNative, LiquidStakingToken.settleNative,
    Env.requirePrivate, bind_eq_error, onlyIf_eq_error, require_eq_error,
    WithdrawalRequests.lockedTranche_ne_underflow,
    LiquidStakingToken.decreaseTotalBalance_ne_underflow,
    LiquidStakingToken.decreasePendingWithdrawals_eq_error, false_or, pure_ne_error, and_false,
    exists_false, or_false, and_true] at herror
  rcases herror with ⟨-, hprivate⟩ | ⟨_, -, -, t, hlocked, hrest⟩
  · exact absurd hprivate (by decide)
  rcases hrest with ⟨-, hmismatch⟩ | ⟨_, hamount, s₁, hbalance, hunder⟩
  · exact absurd hmismatch (by decide)
  · obtain ⟨-, rfl⟩ := LiquidStakingToken.decreaseTotalBalance_eq_ok.mp hbalance
    have hle := (h.settle hlocked).1
    rw [require_eq_ok.mp hamount] at hle
    exact absurd hunder (not_lt.mpr hle)

theorem LiquidStakingToken.consumedAmount_ne_underflow {amountToSend : ℕ} {isCall : Bool} :
    LiquidStakingToken.consumedAmount env amountToSend isCall ≠ .error pendingUnderflow := by
  intro h
  unfold LiquidStakingToken.consumedAmount at h
  repeat' split at h
  all_goals first | cases h | exact absurd (Except.error.inj h) (by decide)

/-- A wNEAR settlement takes out at most what the queue has locked. -/
theorem QueueSound.onWithdrawWnear_ne_underflow (h : QueueSound s)
    (amountToSend cost storageToPay : ℕ) (isCall : Bool) :
    s.onWithdrawWnear host env hash amountToSend cost storageToPay isCall ≠
      .error pendingUnderflow := by
  intro herror
  simp only [LiquidStakingToken.onWithdrawWnear, Env.requirePrivate, bind_eq_error,
    require_eq_error, LiquidStakingToken.consumedAmount_ne_underflow, false_or] at herror
  rcases herror with ⟨-, hprivate⟩ | ⟨_, -, ⟨-, hcount⟩ | ⟨_, -, consumed, -, herror⟩⟩
  · exact absurd hprivate (by decide)
  · exact absurd hcount (by decide)
  split at herror
  · next consumed =>
      simp only [LiquidStakingToken.modifyStateAfterWithdraw, bind_eq_error, expect_eq_error,
        checkedSub_eq_none, onlyIf_eq_error, WithdrawalRequests.lockedTranche_ne_underflow,
        LiquidStakingToken.decreaseTotalBalance_ne_underflow,
        LiquidStakingToken.decreasePendingWithdrawals_eq_error, pure_ne_error, and_false,
        exists_false, or_false, false_or, and_true] at herror
      obtain ⟨t, hlocked, ⟨-, hclaim⟩ | ⟨left, hleft, hunder⟩⟩ := herror
      · exact absurd hclaim (by decide)
      · obtain ⟨hclaimed, -⟩ := checkedSub_eq_some.mp (expect_eq_ok.mp hleft)
        exact absurd hunder (not_lt.mpr (hclaimed.trans (h.settle hlocked).1))
  · exact absurd herror pure_ne_error

end Underflow

section Reaches

variable {H : Type} [DecidableEq H] {host : Host H} {d : Deployment host}
  {events : List (PoolEvent H)} {sys : PoolSystem H}

/-- The two belong together in every reachable state. -/
theorem Deployment.queueSound (run : d.Reaches events sys) : QueueSound sys.state := by
  refine run.forall_state ?_ (fun turn ih => ?_) fun _ _ => trivial
  · have hqueue := d.initial.queue_eq
    refine ⟨?_, ?_, ?_⟩
    · show WithdrawalRequests.OneLock d.state.withdrawalRequests
      rw [hqueue]
      exact WithdrawalRequests.oneLock_empty
    · show d.state.statistics.totalPendingWithdrawals =
        WithdrawalRequests.total _ d.state.withdrawalRequests
      rw [hqueue, d.initial.pending_eq]
      rfl
    · show d.state.statistics.totalPendingWithdrawals < 2 ^ 128
      rw [d.initial.pending_eq]
      decide
  · cases d.transition turn with
    | entered m p side deposit gas fresh task_eq deposit_eq external entry =>
        exact entry.queueSound ih
    | advanced p p' side now self advance => exact advance.queueSound ih
    | panicked p now here self verdict same => exact same ▸ ih
    | answered p r now away verdict same => exact same ▸ ih

/-- **The pending total is the queue**, in every reachable state, and neither
settlement callback ever takes more out of the counter than it holds.

The second part holds for any arguments of the callbacks, not only for those of
the chains in flight.  Forced releases are allowed: a lock that is released
early is still a tranche of the queue, and a settlement that finds none panics
before it reaches the counter. -/
theorem Deployment.pending_eq_total (run : d.Reaches events sys) :
    sys.state.statistics.totalPendingWithdrawals =
        WithdrawalRequests.total Tranche.withdrawalAmount sys.state.withdrawalRequests ∧
      (∀ env hash amount, sys.state.onWithdrawNative host env hash amount ≠
        .error pendingUnderflow) ∧
      ∀ env hash amountToSend cost storageToPay isCall,
        sys.state.onWithdrawWnear host env hash amountToSend cost storageToPay isCall ≠
          .error pendingUnderflow := by
  have hqueue := d.queueSound run
  exact ⟨hqueue.pending_eq, fun env hash amount => hqueue.onWithdrawNative_ne_underflow amount,
    fun env hash amountToSend cost storageToPay isCall =>
      hqueue.onWithdrawWnear_ne_underflow amountToSend cost storageToPay isCall⟩

/-- An unstake of 40 LST is pending until it is paid. -/
theorem Deployment.pending_eq_total_sample :
    WithdrawalRequests.total Tranche.withdrawalAmount
        (samplePool.played (sampleUnstake "native") rfl).2.state.withdrawalRequests = 40 ∧
      WithdrawalRequests.total Tranche.withdrawalAmount
        (samplePool.played (sampleUnstake "native" ++
          sampleWithdrawal ⟨"bob", .native⟩ (.successful .empty)) rfl).2.state.withdrawalRequests =
            0 := by
  constructor
  · rw [← (samplePool.pending_eq_total (samplePool.played_reaches _ rfl)).1]
    rfl
  · rw [← (samplePool.pending_eq_total (samplePool.played_reaches _ rfl)).1]
    rfl

end Reaches

end LiquidStaking
