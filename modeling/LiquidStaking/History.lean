import LiquidStaking.Tranches

/-!
# Histories of the queue

The queue is used through five calls: an unstake appends, a withdrawal sweeps, a
settlement shrinks or removes the locked tranche, and a lock is released.  A
history is any sequence of these calls that commit, under any hashes, in epochs
that do not go back.

Every vector of the queue keeps the shape of `Tranches.Shaped`, whatever the
history, and no hash is left with an empty vector.  In particular a vector never
has more than `unstakeCooldownPeriod + 2` tranches, which the code checks
nowhere.
-/

namespace LiquidStaking

open Checked

/-- A call on the queue.

The delivered amount, the residual and the flag of a settlement are what the
callback of the withdrawal computed; here they are arbitrary. -/
inductive Call (H : Type) where
  /-- An unstake, or the LST of a refused stake. -/
  | append (hash : H) (amount : ℕ)
  /-- A withdrawal. -/
  | sweep (hash : H)
  /-- The end of a delivery, full or in part. -/
  | settle (hash : H) (delivered residual : ℕ) (storagePaid : Bool)
  /-- The end of a delivery of native NEAR. -/
  | remove (hash : H)
  /-- A lock given back, by a callback or by an admin. -/
  | release (hash : H)
  deriving DecidableEq, Repr

namespace Call

variable {H : Type}

/-- The hash a call is about. -/
def hash : Call H → H
  | append hash _ => hash
  | sweep hash => hash
  | settle hash _ _ _ => hash
  | remove hash => hash
  | release hash => hash

/-- Appended amounts are positive.

The contract checks this before it calls: an unstake that is worth nothing is
refused. -/
def Positive : Call H → Prop
  | append _ amount => 0 < amount
  | _ => True

variable [DecidableEq H]

/-- The queue after a call.  `settle` is what `modify_state_after_withdraw` does
to it: it takes the delivered amount out of the locked tranche, and the tranche
out of the queue when nothing is left of it. -/
def run (e : ℕ) (q : WithdrawalRequests H) : Call H → Except String (WithdrawalRequests H)
  | append hash amount => WithdrawalRequests.appendRequest q e hash amount
  | sweep hash => do
      let (_, q) ← WithdrawalRequests.amountOfMaturedTranches q e hash
      return q
  | settle hash delivered residual storagePaid => do
      let tranche ← WithdrawalRequests.lockedTranche q hash
      let newAmount ← expect (checkedSub tranche.withdrawalAmount delivered)
        "Inconsistent state: delivered exceeds queued claim"
      return if newAmount = 0 then WithdrawalRequests.removeRequest q hash
        else WithdrawalRequests.writeLockedTranche q hash
          { tranche with
            withdrawalAmount := newAmount
            wnearResidual := residual
            storageWasPaid := tranche.storageWasPaid || storagePaid }
  | remove hash => return WithdrawalRequests.removeRequest q hash
  | release hash => return (WithdrawalRequests.releaseLock q hash).1

end Call

/-- The calls made so far, the latest first and each with its epoch, and the
queue they leave.

Only calls that commit are listed.  A call that panics leaves the queue as it
was, since the receipt is undone. -/
inductive History {H : Type} [DecidableEq H] :
    List (ℕ × Call H) → WithdrawalRequests H → Prop
  /-- The queue of the deployment is empty. -/
  | start : History [] ∅
  /-- A call commits, in the epoch of the one before it or later. -/
  | call {calls : List (ℕ × Call H)} {q q' : WithdrawalRequests H} (e : ℕ) (c : Call H)
      (past : History calls q) (later : ∀ x ∈ calls, x.1 ≤ e) (commits : c.run e q = .ok q') :
      History ((e, c) :: calls) q'

namespace History

variable {H : Type} [DecidableEq H]

/-- Make the calls of a history, the last of the list first.

This is the computable form of `History`, for samples. -/
def replay : List (ℕ × Call H) → Except String (WithdrawalRequests H)
  | [] => .ok ∅
  | (e, c) :: calls => do
      let q ← replay calls
      require (∀ x ∈ calls, x.1 ≤ e) "epochs go back"
      c.run e q

/-- What was replayed is a history. -/
theorem of_replay {calls : List (ℕ × Call H)} {q : WithdrawalRequests H}
    (h : replay calls = .ok q) : History calls q := by
  induction calls generalizing q with
  | nil =>
      obtain rfl := Except.ok.inj h
      exact .start
  | cons x calls ih =>
      simp only [replay, bind_eq_ok, require_eq_ok] at h
      obtain ⟨q₀, hpast, _, hlater, hcommits⟩ := h
      exact .call x.1 x.2 (ih hpast) hlater hcommits

end History

/-! ## What a call does to the vector under its hash

One relation for all calls, so that an invariant of the vectors has to be
checked against the effects of a call and not against its code. -/

namespace Tranches

/-- A call of epoch `e` turns one vector into another.

The locked and the free tranches are given up to order where the code reorders
them. -/
inductive Turns {H : Type} (e : ℕ) : Call H → List (Lock Tranche) → List (Lock Tranche) → Prop
  /-- An append, which may collapse what has matured. -/
  | appended {hash : H} {amount : ℕ} {ts ts' : List (Lock Tranche)}
      (append : append e amount ts = .ok ts') : Turns e (.append hash amount) ts ts'
  /-- A sweep, whether or not it finds something. -/
  | swept {hash : H} {ts ts' : List (Lock Tranche)} (amount : ℕ)
      (sweep : sweep e ts = .ok (amount, ts')) : Turns e (.sweep hash) ts ts'
  /-- A settlement that leaves something to be claimed again. -/
  | shrunk {hash : H} {delivered residual : ℕ} {storagePaid : Bool}
      {ts ts' : List (Lock Tranche)} (t : Tranche) (rest : List Tranche)
      (locked : locks ts = t :: rest) (less : delivered < t.withdrawalAmount)
      (written : locks ts' = { t with
        withdrawalAmount := t.withdrawalAmount - delivered
        wnearResidual := residual
        storageWasPaid := t.storageWasPaid || storagePaid } :: rest)
      (free : (frees ts').Perm (frees ts)) :
      Turns e (.settle hash delivered residual storagePaid) ts ts'
  /-- A settlement of the whole claim. -/
  | settled {hash : H} {delivered residual : ℕ} {storagePaid : Bool}
      {ts ts' : List (Lock Tranche)} (t : Tranche) (rest : List Tranche)
      (locked : locks ts = t :: rest) (all : t.withdrawalAmount = delivered)
      (gone : locks ts' = []) (free : frees ts' = frees ts) :
      Turns e (.settle hash delivered residual storagePaid) ts ts'
  /-- The locked tranche is dropped. -/
  | removed {hash : H} {ts ts' : List (Lock Tranche)} (gone : locks ts' = [])
      (free : frees ts' = frees ts) : Turns e (.remove hash) ts ts'
  /-- The locked tranche becomes free. -/
  | released {hash : H} {ts ts' : List (Lock Tranche)} (t : Tranche)
      (locked : locks ts = t :: locks ts') (free : (frees ts').Perm (t :: frees ts)) :
      Turns e (.release hash) ts ts'
  /-- A release with nothing locked. -/
  | idle {hash : H} {ts : List (Lock Tranche)} (none : locks ts = []) :
      Turns e (.release hash) ts ts

end Tranches

namespace Call

open Tranches WithdrawalRequests

variable {H : Type} [DecidableEq H] {e : ℕ} {q q' : WithdrawalRequests H} {c : Call H}

/-- A sweep of a hash without an entry finds an empty vector.

With an entry it may still find nothing matured; then the vector is replaced by
itself. -/
theorem sweep_replaces {hash : H} {amount : ℕ}
    (h : amountOfMaturedTranches q e hash = .ok (amount, q')) :
    ∃ ts, Tranches.sweep e (tranchesAt q hash) = .ok (amount, ts) ∧ Replaces q hash ts q' := by
  unfold amountOfMaturedTranches at h
  split at h
  · next hlook =>
      obtain ⟨rfl, rfl⟩ := Prod.mk.inj (Except.ok.inj h)
      have hnil : tranchesAt q hash = [] := by simp [tranchesAt, hlook]
      have hself := replaces_self q hash
      rw [hnil] at hself ⊢
      exact ⟨[], rfl, hself⟩
  · next ts hlook =>
      simp only [bind_eq_ok, pure_eq_ok, Prod.mk.injEq, Prod.exists] at h
      obtain ⟨_, ts', hsweep, rfl, rfl⟩ := h
      have hts : tranchesAt q hash = ts := by simp [tranchesAt, hlook]
      exact ⟨ts', by rw [hts, hsweep], replaces_insert q hash ts'⟩

/-- A removal does not touch the entries under other hashes. -/
theorem removeRequest_lookup_of_ne (q : WithdrawalRequests H) {hash k : H} (hne : hash ≠ k) :
    (removeRequest q k).lookup hash = q.lookup hash := by
  unfold removeRequest
  split
  · rfl
  · dsimp only
    split_ifs
    · exact AList.lookup_erase_ne hne
    · exact AList.lookup_insert_ne hne

/-- **Every call** changes the vector under its hash only, in one of the listed
ways.

This is the inversion lemma that the proofs below go through: none of them
unfolds a call again. -/
theorem run_cases (h : c.run e q = .ok q') :
    ∃ ts, Replaces q c.hash ts q' ∧ Turns e c (tranchesAt q c.hash) ts := by
  cases c with
  | append hash amount =>
      obtain ⟨ts, happend, hrep⟩ := appendRequest_replaces h
      exact ⟨ts, hrep, .appended happend⟩
  | sweep hash =>
      simp only [run, bind_eq_ok, pure_eq_ok, Prod.exists] at h
      obtain ⟨amount, _, hsweep, rfl⟩ := h
      obtain ⟨ts, hvector, hrep⟩ := sweep_replaces hsweep
      exact ⟨ts, hrep, .swept amount hvector⟩
  | settle hash delivered residual storagePaid =>
      simp only [run, bind_eq_ok, expect_eq_ok, checkedSub_eq_some, pure_eq_ok] at h
      obtain ⟨t, hlocked, _, ⟨hle, rfl⟩, rfl⟩ := h
      obtain ⟨rest, hlocks⟩ := List.head?_eq_some_iff.mp (lockedTranche_eq_ok.mp hlocked)
      split_ifs with hall
      · obtain ⟨hgone, hfree⟩ := locks_filter (tranchesAt q hash)
        exact ⟨_, removeRequest_replaces q hash, .settled t rest hlocks (by omega) hgone hfree⟩
      · obtain ⟨hwritten, hfree⟩ := locks_updateLocked (g := fun l => { l with value :=
          { t with
            withdrawalAmount := t.withdrawalAmount - delivered
            wnearResidual := residual
            storageWasPaid := t.storageWasPaid || storagePaid } }) hlocks
        refine ⟨_, writeLockedTranche_replaces q hash _, .shrunk t rest hlocks (by omega) ?_ ?_⟩
        · simpa using hwritten
        · exact hfree
  | remove hash =>
      obtain rfl := pure_eq_ok.mp h
      obtain ⟨hgone, hfree⟩ := locks_filter (tranchesAt q hash)
      exact ⟨_, removeRequest_replaces q hash, .removed hgone hfree⟩
  | release hash =>
      obtain rfl := pure_eq_ok.mp h
      cases hlocks : locks (tranchesAt q hash) with
      | nil =>
          have hsame := updateLocked_of_none (g := Lock.forceUnlock) hlocks
          refine ⟨_, releaseLock_replaces q hash, ?_⟩
          rw [hsame]
          exact .idle hlocks
      | cons t rest =>
          obtain ⟨hrest, hfree⟩ := locks_updateLocked (g := Lock.forceUnlock) hlocks
          refine ⟨_, releaseLock_replaces q hash, .released t (hlocks.trans ?_) ?_⟩
          · rw [hrest]
            simp [Lock.forceUnlock]
          · exact hfree

/-- Entries under other hashes are unchanged. -/
theorem run_lookup_of_ne (h : c.run e q = .ok q') {hash : H} (hne : hash ≠ c.hash) :
    q'.lookup hash = q.lookup hash := by
  cases c with
  | append k amount =>
      simp only [run, appendRequest, bind_eq_ok, pure_eq_ok] at h
      obtain ⟨ts, -, rfl⟩ := h
      exact AList.lookup_insert_ne hne
  | sweep k =>
      simp only [run, bind_eq_ok, pure_eq_ok, Prod.exists] at h
      obtain ⟨amount, _, hsweep, rfl⟩ := h
      unfold amountOfMaturedTranches at hsweep
      split at hsweep
      · obtain ⟨-, rfl⟩ := Prod.mk.inj (Except.ok.inj hsweep)
        rfl
      · simp only [bind_eq_ok, pure_eq_ok, Prod.mk.injEq, Prod.exists] at hsweep
        obtain ⟨_, ts', -, -, rfl⟩ := hsweep
        exact AList.lookup_insert_ne hne
  | settle k delivered residual storagePaid =>
      simp only [run, bind_eq_ok, expect_eq_ok, pure_eq_ok] at h
      obtain ⟨t, -, newAmount, -, rfl⟩ := h
      split_ifs
      · exact removeRequest_lookup_of_ne q hne
      · unfold writeLockedTranche
        split
        · rfl
        · exact AList.lookup_insert_ne hne
  | remove k =>
      obtain rfl := pure_eq_ok.mp h
      exact removeRequest_lookup_of_ne q hne
  | release k =>
      obtain rfl := pure_eq_ok.mp h
      unfold releaseLock
      split
      · rfl
      · exact AList.lookup_insert_ne hne

end Call

/-! ## The shape of every vector

The epochs of a history do not go back, so time passes between any two calls and
the shape has to survive that as well. -/

namespace Tranches

variable {H : Type} {e : ℕ} {c : Call H} {ts ts' : List (Lock Tranche)}

/-- Every call keeps the shape.

One case for each way in which a vector turns; the work was done where the shape
is defined. -/
theorem Turns.shaped (h : Turns e c ts ts') (hpos : c.Positive)
    (hshaped : Shaped e (frees ts) (locks ts)) : Shaped e (frees ts') (locks ts') := by
  cases h with
  | appended append => exact hshaped.append hpos append
  | swept amount sweep => exact hshaped.sweep sweep
  | shrunk t rest locked less written free =>
      rw [locked] at hshaped
      rw [written]
      refine Shaped.perm ?_ free (List.Perm.refl _)
      exact hshaped.write (Nat.sub_pos_of_lt less) rfl
  | settled t rest locked all gone free =>
      rw [gone, free]
      exact hshaped.remove
  | removed gone free =>
      rw [gone, free]
      exact hshaped.remove
  | released t locked free =>
      rw [locked] at hshaped
      exact hshaped.release.perm free (List.Perm.refl _)
  | idle none => exact hshaped

/-- A sweep takes tranches out of a vector only to lock what they are worth.

This needs the amounts to be positive: a merger that is worth nothing would be
dropped. -/
theorem sweep_ne_nil {amount : ℕ} (hshaped : Shaped e (frees ts) (locks ts))
    (hsweep : sweep e ts = .ok (amount, ts')) (hne : ts ≠ []) : ts' ≠ [] := by
  rintro rfl
  obtain ⟨hnone, -, hcarried, hcooling⟩ := sweep_cases hsweep
  have hworthless : (merged e ts).withdrawalAmount = 0 := by
    unfold carried at hcarried
    split_ifs at hcarried with hpos
    · cases hcarried
    · exact Nat.eq_zero_of_not_pos hpos
  have hready : ready e ts = [] := by
    rw [additive_withdrawalAmount.merged] at hworthless
    refine List.eq_nil_iff_forall_not_mem.mpr fun t mem => ?_
    have hzero := List.sum_eq_zero_iff.mp hworthless _ (List.mem_map_of_mem mem)
    rw [ready_eq] at mem
    have hpos := hshaped.pos t (List.mem_append_left _ (List.mem_filter.mp mem).1)
    omega
  have hgone : cooling e ts = [] := List.perm_nil.mp hcooling.symm
  have hlength := length_eq ts
  rw [← (frees_split e ts).length_eq, hready, hgone, hnone] at hlength
  exact hne (List.length_eq_zero_iff.mp (by simpa using hlength))

end Tranches

namespace WithdrawalRequests

variable {H : Type} [DecidableEq H] {e now : ℕ} {q q' : WithdrawalRequests H} {c : Call H}

/-- All vectors of the queue are in shape, and none is left empty under its
hash. -/
structure Neat (e : ℕ) (q : WithdrawalRequests H) : Prop where
  /-- Every vector is in shape. -/
  shaped : ∀ hash, Tranches.Shaped e (Tranches.frees (tranchesAt q hash))
    (Tranches.locks (tranchesAt q hash))
  /-- An entry without tranches is removed. -/
  present : ∀ hash, q.lookup hash ≠ some []

/-- The queue of a new deployment. -/
theorem neat_empty : Neat e (∅ : WithdrawalRequests H) where
  shaped _ := Tranches.Shaped.nil e
  present _ h := nomatch h

/-- Time passes. -/
theorem Neat.later (h : Neat e q) (hle : e ≤ now) : Neat now q where
  shaped hash := (h.shaped hash).later hle
  present := h.present

/-- No entry without tranches.

So the number of entries is the number of hashes under which something is owed. -/
theorem Neat.lookup_eq_none (h : Neat e q) {hash : H} (hnil : tranchesAt q hash = []) :
    q.lookup hash = none := by
  cases hlook : q.lookup hash with
  | none => rfl
  | some ts =>
      have hts : ts = [] := by simpa [tranchesAt, hlook] using hnil
      exact absurd (hts ▸ hlook) (h.present hash)

/-- A removal erases an entry that would be left empty. -/
theorem removeRequest_lookup_ne (q : WithdrawalRequests H) (hash : H) :
    (removeRequest q hash).lookup hash ≠ some [] := by
  unfold removeRequest
  split
  · next hnone => simp [hnone]
  · dsimp only
    split_ifs with hempty
    · simp
    · rw [AList.lookup_insert]
      rintro h
      exact hempty (List.isEmpty_iff.mpr (Option.some.inj h))

/-- No call leaves an entry without tranches. -/
private theorem Neat.run_present (h : Neat e q) (hrun : c.run e q = .ok q') :
    q'.lookup c.hash ≠ some [] := by
  intro hempty
  obtain ⟨ts, hrep, hturns⟩ := Call.run_cases hrun
  have hnil : ts = [] := by
    rw [← hrep.at_eq]
    simp [tranchesAt, hempty]
  subst hnil
  generalize hold : tranchesAt q c.hash = old at hturns
  cases hturns with
  | appended append =>
      obtain ⟨mid, -, -, hfold⟩ := Tranches.append_cases append
      obtain ⟨-, ⟨t, rest, -, -, hafter⟩ | ⟨-, hafter⟩⟩ := Tranches.foldSameEpoch_cases hfold
      · cases List.nil_perm.mp hafter
      · cases List.nil_perm.mp hafter
  -- A sweep of nothing leaves the queue alone, and no other sweep leaves an
  -- empty vector.
  | @swept hash _ _ amount sweep =>
      have hnone : tranchesAt q hash = [] := by
        by_contra hne
        exact Tranches.sweep_ne_nil (hold ▸ h.shaped hash) sweep (hold ▸ hne) rfl
      have hlook := h.lookup_eq_none hnone
      simp only [Call.run, amountOfMaturedTranches, hlook, bind_eq_ok, pure_eq_ok] at hrun
      obtain ⟨_, hok, rfl⟩ := hrun
      obtain rfl := Except.ok.inj hok
      exact h.present hash hempty
  | shrunk t rest locked less written free => cases written
  | @settled hash delivered residual storagePaid _ _ t rest locked all gone free =>
      simp only [Call.run, bind_eq_ok, expect_eq_ok, checkedSub_eq_some, pure_eq_ok] at hrun
      obtain ⟨t', hlocked, _, ⟨-, rfl⟩, rfl⟩ := hrun
      have hhead := lockedTranche_eq_ok.mp hlocked
      rw [locksAt, show tranchesAt q hash = old from hold, locked] at hhead
      obtain rfl := Option.some.inj hhead
      rw [if_pos (by omega)] at hempty
      exact removeRequest_lookup_ne q hash hempty
  | @removed hash _ _ gone free =>
      obtain rfl := pure_eq_ok.mp hrun
      exact removeRequest_lookup_ne q hash hempty
  | released t locked free => cases List.nil_perm.mp free
  | @idle hash _ none =>
      have hlook : q.lookup hash = .none := h.lookup_eq_none hold
      obtain rfl := pure_eq_ok.mp hrun
      have hsame : (releaseLock q hash).1 = q := by
        unfold releaseLock
        rw [hlook]
      rw [hsame] at hempty
      exact h.present hash hempty

/-- **Every call keeps the queue in shape.**

The vector under the hash of the call is in shape by `Turns.shaped`, the others
are the same as before. -/
theorem Neat.run (h : Neat e q) (hpos : c.Positive) (hrun : c.run e q = .ok q') : Neat e q' := by
  obtain ⟨ts, hrep, hturns⟩ := Call.run_cases hrun
  constructor
  · intro hash
    by_cases hsame : hash = c.hash
    · rw [hsame, hrep.at_eq]
      exact hturns.shaped hpos (h.shaped c.hash)
    · rw [hrep.others hash hsame]
      exact h.shaped hash
  · intro hash
    by_cases hsame : hash = c.hash
    · rw [hsame]
      exact h.run_present hrun
    · rw [Call.run_lookup_of_ne hrun hsame]
      exact h.present hash

end WithdrawalRequests

namespace History

variable {H : Type} [DecidableEq H] {e : ℕ} {calls : List (ℕ × Call H)}
  {q : WithdrawalRequests H}

/-- Whatever was called before, the queue is in shape.

By induction on the history; the queue of the past is brought to the epoch of
the next call by `Neat.later`. -/
theorem neat (h : History calls q) (hpos : ∀ x ∈ calls, x.2.Positive)
    (hlater : ∀ x ∈ calls, x.1 ≤ e) : WithdrawalRequests.Neat e q := by
  induction h generalizing e with
  | start => exact WithdrawalRequests.neat_empty
  | call e₀ c past later commits ih =>
      rw [List.forall_mem_cons] at hpos hlater
      exact ((ih hpos.2 later).run hpos.1 commits).later hlater.1

/-- **The vector under a hash after any history**: not empty, without empty
tranches, at most one of them locked, that one matured, and the free ones still
in cooldown of different epochs; so it has at most six tranches.

The bound is what keeps the loops of `withdraw` and of an unstake cheap: how
often anyone unstakes under one hash does not matter.  The epoch `e` is any
epoch from the last call on, so the bound holds between calls too. -/
theorem vector_bounded (h : History calls q) (hpos : ∀ x ∈ calls, x.2.Positive)
    (hlater : ∀ x ∈ calls, x.1 ≤ e) {hash : H} {ts : List (Lock Tranche)}
    (hlook : q.lookup hash = some ts) :
    ts ≠ [] ∧ (∀ l ∈ ts, 0 < l.value.withdrawalAmount) ∧ (ts.filter Lock.locked).length ≤ 1 ∧
      (∀ l ∈ ts, l.locked = true → l.value.isMatured e = true) ∧
      ((ts.filter fun l => !l.locked && !l.value.isMatured e).map
        fun l => l.value.unstakeEpoch).Nodup ∧
      ts.length ≤ unstakeCooldownPeriod + 2 := by
  obtain ⟨hshaped, hpresent⟩ := h.neat hpos hlater
  have hts : WithdrawalRequests.tranchesAt q hash = ts := by
    simp [WithdrawalRequests.tranchesAt, hlook]
  have hs := hts ▸ hshaped hash
  refine ⟨?_, ?_, ?_, ?_, ?_, ?_⟩
  · rintro rfl
    exact hpresent hash hlook
  · exact Tranches.forall_iff.mpr (List.forall_mem_append.mp hs.pos)
  · have hone := hs.oneLock
    rwa [Tranches.locks_eq, List.length_map] at hone
  · intro l mem hlocked
    refine hs.locked_matured l.value ?_
    rw [Tranches.locks_eq]
    exact List.mem_map_of_mem (List.mem_filter.mpr ⟨mem, hlocked⟩)
  · have hdistinct := hs.distinct
    rw [Tranches.frees_eq, List.filter_map, List.map_map, List.filter_filter] at hdistinct
    simpa [Function.comp_def, Bool.and_comm] using hdistinct
  · rw [Tranches.length_eq]
    exact hs.short

/-- Two unstakes, a withdrawal, and another unstake before it is settled. -/
private def sampleCalls : List (ℕ × Call ℕ) :=
  [(10, .append 7 4), (10, .sweep 7), (6, .append 7 3), (5, .append 7 2)]

private def sampleVector : List (Lock Tranche) :=
  [⟨true, ⟨5, 6, 0, false⟩⟩, ⟨false, ⟨4, 10, 0, false⟩⟩]

theorem vector_bounded_sample :
    sampleVector ≠ [] ∧ (∀ l ∈ sampleVector, 0 < l.value.withdrawalAmount) ∧
      (sampleVector.filter Lock.locked).length ≤ 1 ∧
      (∀ l ∈ sampleVector, l.locked = true → l.value.isMatured 11 = true) ∧
      ((sampleVector.filter fun l => !l.locked && !l.value.isMatured 11).map
        fun l => l.value.unstakeEpoch).Nodup ∧
      sampleVector.length ≤ unstakeCooldownPeriod + 2 := by
  have hreplay : replay sampleCalls = .ok ((∅ : WithdrawalRequests ℕ).insert 7 sampleVector) := rfl
  exact vector_bounded (of_replay hreplay) (by simp [sampleCalls, Call.Positive])
    (by simp [sampleCalls]) (AList.lookup_insert _)

end History

end LiquidStaking
