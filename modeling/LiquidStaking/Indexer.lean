import LiquidStaking.Available

/-!
# The views of an indexer

An indexer reads the queue in pages, of at most `MAX_LIMIT` entries whatever it
asks for.  If it advances by what it can get, the pages of one state are the
whole queue, each entry once: they agree with the view of a single hash, and
their amounts add up to the pending total.  So are the pages of the hashes that
are ready, and the filter does not shift them.

Between two calls the queue may change; nothing is said of pages of different
states.
-/

namespace LiquidStaking

open Checked PromiseChain

/-- The pages of a list, one after the other, are the list as far as they go. -/
theorem flatMap_pages {α : Type} (l : List α) (size n : ℕ) :
    ((List.range n).flatMap fun k => (l.drop (k * size)).take size) = l.take (n * size) := by
  induction n with
  | zero => simp
  | succ n ih =>
      rw [List.range_succ, List.flatMap_append, ih, Nat.succ_mul, List.take_add]
      simp

namespace WithdrawalRequests

variable {H : Type} [DecidableEq H] (q : WithdrawalRequests H)

/-- `len`: the number of hashes with an entry.

It is what `get_withdrawal_requests_count` returns. -/
def len : ℕ := q.entries.length

/-- What an indexer collects from `n` calls of `get_withdrawal_requests`.

It advances by the limit it can get, as a larger limit is cut to `MAX_LIMIT`. -/
def allRequests (n limit : ℕ) : List (H × List Tranche) :=
  (List.range n).flatMap fun k => getWithdrawalRequests q (k * min limit maxLimit) limit

/-- What it collects from `n` calls of `get_hashes_available_for_withdrawal`. -/
def allAvailable (currentEpoch n limit : ℕ) : List H :=
  (List.range n).flatMap fun k =>
    getHashesAvailableForWithdrawal q currentEpoch (k * min limit maxLimit) limit

variable {q} {n limit e : ℕ}

omit [DecidableEq H] in
/-- Enough calls give the whole queue. -/
theorem allRequests_eq (hn : len q ≤ n * min limit maxLimit) :
    allRequests q n limit = q.entries.map fun entry => (entry.1, entry.2.map Lock.value) := by
  unfold allRequests getWithdrawalRequests
  simp only [List.map_take, List.map_drop]
  rw [flatMap_pages, List.take_of_length_le]
  rw [List.length_map]
  exact hn

omit [DecidableEq H] in
/-- And, since a filter only shortens the queue, all hashes that are ready. -/
theorem allAvailable_eq (hn : len q ≤ n * min limit maxLimit) :
    allAvailable q e n limit = availableHashes q e := by
  unfold allAvailable getHashesAvailableForWithdrawal
  rw [flatMap_pages, List.take_of_length_le]
  exact (List.length_filterMap_le _ _).trans hn

omit [DecidableEq H] in
/-- The hashes that are ready are some of the keys, in their order.

So none is listed twice. -/
theorem availableHashes_sublist : List.Sublist (availableHashes q e) q.keys := by
  unfold availableHashes AList.keys List.keys
  induction q.entries with
  | nil => exact List.Sublist.slnil
  | cons entry entries ih =>
      rw [List.filterMap_cons, List.map_cons]
      by_cases hready : entry.2.any (Tranches.isReady e) = true
      · rw [if_pos hready]
        exact ih.cons_cons entry.1
      · rw [if_neg hready]
        exact ih.cons entry.1

end WithdrawalRequests

section Reaches

variable {H : Type} [DecidableEq H] {host : Host H} {d : Deployment host}
  {events : List (PoolEvent H)} {sys : PoolSystem H}

open WithdrawalRequests

/-- **What an indexer sees is the queue.**  In every reachable state, once an
indexer has made enough calls, each with the same limit and the next offset:

* it has every entry once, as many as `get_withdrawal_requests_count` says, and
  each with the tranches that `get_withdrawal_request_tranches` gives for its
  hash;
* all amounts add up to `get_total_pending_withdrawals`;
* it has every hash once under which a tranche is unlocked and matured, and no
  other;
* no call ever gave it more than `MAX_LIMIT` rows. -/
theorem Deployment.indexer_sees_queue (run : d.Reaches events sys) (e n limit : ℕ)
    (hn : len sys.state.withdrawalRequests ≤ n * min limit maxLimit) :
    ((allRequests sys.state.withdrawalRequests n limit).map Prod.fst).Nodup ∧
    (allRequests sys.state.withdrawalRequests n limit).length =
      len sys.state.withdrawalRequests ∧
    (∀ hash ts, (hash, ts) ∈ allRequests sys.state.withdrawalRequests n limit ↔
      getWithdrawalRequestTranches sys.state.withdrawalRequests hash = some ts) ∧
    ((allRequests sys.state.withdrawalRequests n limit).map fun entry =>
        (entry.2.map Tranche.withdrawalAmount).sum).sum =
      sys.state.statistics.totalPendingWithdrawals ∧
    (allAvailable sys.state.withdrawalRequests e n limit).Nodup ∧
    (∀ hash, hash ∈ allAvailable sys.state.withdrawalRequests e n limit ↔
      ∃ l ∈ tranchesAt sys.state.withdrawalRequests hash,
        l.locked = false ∧ l.value.isMatured e = true) ∧
    ∀ skip, (getWithdrawalRequests sys.state.withdrawalRequests skip limit).length ≤ maxLimit ∧
      (getHashesAvailableForWithdrawal sys.state.withdrawalRequests e skip limit).length ≤
        maxLimit := by
  rw [allRequests_eq hn, allAvailable_eq hn, (d.queueSound run).pending_eq]
  -- Enough pages show the whole queue, so the rest is about the queue alone.
  generalize sys.state.withdrawalRequests = q
  have hlookup : ∀ hash ts, (hash, ts) ∈ q.entries.map (fun entry =>
      (entry.1, entry.2.map Lock.value)) ↔ getWithdrawalRequestTranches q hash = some ts := by
    intro hash ts
    unfold getWithdrawalRequestTranches
    rw [List.mem_map, Option.map_eq_some_iff]
    constructor
    · rintro ⟨⟨k, ls⟩, hentry, heq⟩
      obtain ⟨rfl, rfl⟩ := Prod.mk.inj heq
      exact ⟨ls, AList.mem_lookup_iff.mpr hentry, rfl⟩
    · rintro ⟨ls, hls, rfl⟩
      exact ⟨⟨hash, ls⟩, AList.mem_lookup_iff.mp hls, rfl⟩
  refine ⟨?_, ?_, hlookup, ?_, ?_, ?_, ?_⟩
  · rw [List.map_map]
    exact q.nodupKeys
  · exact List.length_map _
  · rw [List.map_map]
    refine congrArg List.sum (List.map_congr_left fun entry _ => ?_)
    exact congrArg List.sum (List.map_map)
  · exact availableHashes_sublist.nodup q.nodupKeys
  · intro hash
    rw [mem_availableHashes_iff]
    simp [Tranches.ready, List.filter_eq_nil_iff, Tranches.isReady_eq]
  · intro skip
    constructor
    · unfold getWithdrawalRequests
      rw [List.length_map, List.length_take]
      omega
    · unfold getHashesAvailableForWithdrawal
      rw [List.length_take]
      omega

/-- One call is enough for the queue with the 40 that the treasury unstaked for
`bob`. -/
theorem Deployment.indexer_sees_queue_sample :
    ((allRequests (samplePool.played (sampleUnstake "native") rfl).2.state.withdrawalRequests 1
        7).map fun entry => (entry.2.map Tranche.withdrawalAmount).sum).sum = 40 ∧
      (⟨"bob", .native⟩ : UnstakeMessage) ∈ allAvailable
        (samplePool.played (sampleUnstake "native") rfl).2.state.withdrawalRequests 4 1 7 := by
  obtain ⟨-, -, -, htotal, -, hready, -⟩ := samplePool.indexer_sees_queue
    (samplePool.played_reaches (sampleUnstake "native") rfl) 4 1 7 (by decide +kernel)
  constructor
  · rw [htotal]
    decide +kernel
  · exact (hready _).mpr ⟨⟨false, ⟨40, 0, 0, false⟩⟩, List.mem_singleton.mpr rfl, rfl, rfl⟩

end Reaches

end LiquidStaking
