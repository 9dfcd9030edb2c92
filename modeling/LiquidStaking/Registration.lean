import LiquidStaking.Available

/-!
# The flag of a paid registration

A wNEAR delivery pays the registration of its receiver unless its tranche says
that it was paid already.  The flag is set when a delivery is settled in part,
and merges pass it on.  Two facts keep it where the next attempt finds it.

* `Flagged`: a free tranche with the flag has matured, and nothing is locked
  beside it.  So a sweep merges it into what it locks, and what is appended
  meanwhile has no flag.
* `HoldsPaid`: some tranche has the flag, as long as no settlement takes the
  locked tranche out.
-/

namespace LiquidStaking

open Checked

namespace Tranches

variable {e now amount : ℕ} {ts ts' : List (Lock Tranche)}

/-- A merge has the flag of its parts. -/
theorem merged_storageWasPaid (e : ℕ) (ts : List (Lock Tranche)) :
    (merged e ts).storageWasPaid = true ↔ ∃ t ∈ ready e ts, t.storageWasPaid = true := by
  have hfold : ∀ (l : List Tranche) (acc : Tranche),
      (l.foldl Tranche.merge acc).storageWasPaid =
        (acc.storageWasPaid || l.any Tranche.storageWasPaid) := by
    intro l
    induction l with
    | nil => simp
    | cons t l ih =>
        intro acc
        rw [List.foldl_cons, ih, List.any_cons, ← Bool.or_assoc]
        rfl
  unfold merged
  rw [hfold, show Tranche.zero.storageWasPaid = false from rfl, Bool.false_or, List.any_eq_true]

/-- The free tranches with the flag have matured, and nothing is locked beside
them.

So a flag is never on a tranche that a delivery in flight does not know of. -/
def Flagged (e : ℕ) (ts : List (Lock Tranche)) : Prop :=
  ∀ t ∈ frees ts, t.storageWasPaid = true → t.isMatured e = true ∧ locks ts = []

/-- Some tranche has the flag. -/
def HoldsPaid (ts : List (Lock Tranche)) : Prop :=
  ∃ t ∈ frees ts ++ locks ts, t.storageWasPaid = true

/-- Time passes. -/
theorem Flagged.later (h : Flagged e ts) (hle : e ≤ now) : Flagged now ts :=
  fun t mem hpaid => ⟨Shaped.isMatured_later (h t mem hpaid).1 hle, (h t mem hpaid).2⟩

/-- Nothing in its cooldown has the flag. -/
theorem Flagged.cooling (h : Flagged e ts) : ∀ t ∈ cooling e ts, t.storageWasPaid = false := by
  intro t mem
  obtain ⟨hfree, hyoung⟩ := List.mem_filter.mp mem
  by_contra hpaid
  rw [(h t hfree (by simpa using hpaid)).1] at hyoung
  cases hyoung

/-- What a collapse pushes back has the flag only if nothing is locked. -/
theorem Flagged.carried (h : Flagged e ts) :
    ∀ t ∈ carried e ts, t.storageWasPaid = true → locks ts = [] := by
  intro t mem hpaid
  unfold Tranches.carried at mem
  split_ifs at mem with hpos
  · rw [List.mem_singleton.mp mem] at hpaid
    obtain ⟨t', ht', hpaid'⟩ := (merged_storageWasPaid e ts).mp hpaid
    rw [ready_eq] at ht'
    exact (h t' (List.mem_filter.mp ht').1 hpaid').2
  · cases mem

/-- A flag on a free tranche that has matured survives the collapse. -/
theorem Shaped.carried_paid (h : Shaped e (frees ts) (locks ts)) {t : Tranche}
    (mem : t ∈ ready e ts) (hpaid : t.storageWasPaid = true) :
    ∃ t' ∈ carried e ts, t'.storageWasPaid = true := by
  have hpos : 0 < (merged e ts).withdrawalAmount := by
    have hamount : 0 < t.withdrawalAmount := by
      refine h.pos t (List.mem_append_left _ ?_)
      rw [ready_eq] at mem
      exact (List.mem_filter.mp mem).1
    rw [additive_withdrawalAmount.merged]
    exact hamount.trans_le (List.single_le_sum (by simp) _ (List.mem_map_of_mem mem))
  refine ⟨merged e ts, ?_, (merged_storageWasPaid e ts).mpr ⟨t, mem, hpaid⟩⟩
  unfold carried
  rw [if_pos hpos]
  exact List.mem_singleton_self _

/-- An append neither moves the flag nor loses it. -/
theorem append_flagged (h : Flagged e ts) (happend : append e amount ts = .ok ts') :
    Flagged e ts' := by
  obtain ⟨mid, hlocks, hfrees, hfold⟩ := append_cases happend
  have hmid : ∀ t ∈ frees mid, t.storageWasPaid = true → t.isMatured e = true ∧ locks ts = [] := by
    intro t mem hpaid
    rcases List.mem_append.mp (hfrees.mem_iff.mp mem) with hyoung | hcarried
    · rw [h.cooling t hyoung] at hpaid
      cases hpaid
    · exact ⟨carried_isMatured t hcarried, h.carried t hcarried hpaid⟩
  obtain ⟨hsame, hcases⟩ := foldSameEpoch_cases hfold
  have hnil : locks ts = [] → locks ts' = [] := fun hts =>
    hsame.trans (List.perm_nil.mp (hts ▸ hlocks))
  rcases hcases with ⟨t, rest, hepoch, hbefore, hafter⟩ | ⟨-, hafter⟩
  · intro t' mem hpaid
    rcases List.mem_cons.mp (hafter.mem_iff.mp mem) with rfl | hrest
    · -- The tranche that grows has its flag and its epoch from before.
      have hold := hmid t (hbefore.mem_iff.mpr List.mem_cons_self) hpaid
      exact ⟨hold.1, hnil hold.2⟩
    · have hold := hmid t' (hbefore.mem_iff.mpr (List.mem_cons_of_mem _ hrest)) hpaid
      exact ⟨hold.1, hnil hold.2⟩
  · intro t' mem hpaid
    rcases List.mem_cons.mp (hafter.mem_iff.mp mem) with rfl | hrest
    · cases hpaid
    · have hold := hmid t' hrest hpaid
      exact ⟨hold.1, hnil hold.2⟩

/-- An append keeps a flag that is there. -/
theorem append_holdsPaid (hshaped : Shaped e (frees ts) (locks ts)) (h : HoldsPaid ts)
    (hflagged : Flagged e ts) (happend : append e amount ts = .ok ts') : HoldsPaid ts' := by
  obtain ⟨mid, hlocks, hfrees, hfold⟩ := append_cases happend
  obtain ⟨hsame, hcases⟩ := foldSameEpoch_cases hfold
  -- The flag is locked, or it is on a matured tranche, which is carried over.
  have hmid : ∃ t ∈ frees mid ++ locks mid, t.storageWasPaid = true := by
    obtain ⟨t, mem, hpaid⟩ := h
    rcases List.mem_append.mp mem with hfree | hlocked
    · have hready : t ∈ ready e ts := by
        rw [ready_eq]
        exact List.mem_filter.mpr ⟨hfree, (hflagged t hfree hpaid).1⟩
      obtain ⟨t', hcarried, hpaid'⟩ := hshaped.carried_paid hready hpaid
      have hmem := hfrees.mem_iff.mpr (List.mem_append_right (cooling e ts) hcarried)
      exact ⟨t', List.mem_append_left _ hmem, hpaid'⟩
    · exact ⟨t, List.mem_append_right _ (hlocks.mem_iff.mpr hlocked), hpaid⟩
  obtain ⟨t, mem, hpaid⟩ := hmid
  rcases List.mem_append.mp mem with hfree | hlocked
  · rcases hcases with ⟨grown, rest, -, hbefore, hafter⟩ | ⟨-, hafter⟩
    · rcases List.mem_cons.mp (hbefore.mem_iff.mp hfree) with rfl | hrest
      · exact ⟨_, List.mem_append_left _ (hafter.mem_iff.mpr List.mem_cons_self), hpaid⟩
      · have hmem := hafter.mem_iff.mpr (List.mem_cons_of_mem _ hrest)
        exact ⟨t, List.mem_append_left _ hmem, hpaid⟩
    · have hmem := hafter.mem_iff.mpr (List.mem_cons_of_mem _ hfree)
      exact ⟨t, List.mem_append_left _ hmem, hpaid⟩
  · exact ⟨t, List.mem_append_right _ (hsame ▸ hlocked), hpaid⟩

/-- A sweep merges the flag into what it locks. -/
theorem sweep_flagged (h : Flagged e ts) (hsweep : sweep e ts = .ok (amount, ts')) :
    Flagged e ts' := by
  obtain ⟨-, -, -, hfrees⟩ := sweep_cases hsweep
  intro t mem hpaid
  rw [h.cooling t (hfrees.mem_iff.mp mem)] at hpaid
  cases hpaid

/-- A sweep keeps it as well: the tranche that it locks has the flag of its
parts. -/
theorem sweep_holdsPaid (hshaped : Shaped e (frees ts) (locks ts)) (h : HoldsPaid ts)
    (hflagged : Flagged e ts) (hsweep : sweep e ts = .ok (amount, ts')) : HoldsPaid ts' := by
  obtain ⟨hnone, -, hlocks, -⟩ := sweep_cases hsweep
  obtain ⟨t, mem, hpaid⟩ := h
  rw [hnone, List.append_nil] at mem
  have hready : t ∈ ready e ts := by
    rw [ready_eq]
    exact List.mem_filter.mpr ⟨mem, (hflagged t mem hpaid).1⟩
  obtain ⟨t', hcarried, hpaid'⟩ := hshaped.carried_paid hready hpaid
  exact ⟨t', List.mem_append_right _ (hlocks ▸ hcarried), hpaid'⟩

/-! ## The calls on the queue -/

variable {H : Type} {c : Call H}

/-- The call takes the locked tranche out.

A settlement takes it out if it delivers all of it; a removal always does. -/
def Takes (ts : List (Lock Tranche)) : Call H → Prop
  | .settle _ delivered _ _ => ∃ t ∈ locks ts, t.withdrawalAmount ≤ delivered
  | .remove _ => True
  | _ => False

/-- Every call leaves the flags in order.

A settlement in part is where a flag is set, and it is set on the locked
tranche. -/
theorem Turns.flagged (h : Turns e c ts ts') (hshaped : Shaped e (frees ts) (locks ts))
    (hflagged : Flagged e ts) : Flagged e ts' := by
  -- Beside a locked tranche no free one has the flag.
  have hbeside : ∀ t, t ∈ locks ts → ∀ t' ∈ frees ts, t'.storageWasPaid = false := by
    intro t hlocked t' mem
    by_contra hpaid
    rw [(hflagged t' mem (by simpa using hpaid)).2] at hlocked
    cases hlocked
  cases h with
  | appended append => exact append_flagged hflagged append
  | swept amount sweep => exact sweep_flagged hflagged sweep
  | shrunk t rest locked less written free =>
      intro t' mem hpaid
      rw [hbeside t (by simp [locked]) t' (free.mem_iff.mp mem)] at hpaid
      cases hpaid
  | settled t rest locked all gone free | removed gone free =>
      intro t' mem hpaid
      exact ⟨(hflagged t' (free ▸ mem) hpaid).1, gone⟩
  | released t locked free =>
      intro t' mem hpaid
      rcases List.mem_cons.mp (free.mem_iff.mp mem) with rfl | hold
      · refine ⟨hshaped.locked_matured t' (by simp [locked]), ?_⟩
        have hone := hshaped.oneLock
        rw [locked, List.length_cons] at hone
        exact List.length_eq_zero_iff.mp (by omega)
      · rw [hbeside t (by simp [locked]) t' hold] at hpaid
        cases hpaid
  | idle none => exact hflagged

/-- Every call keeps a flag, but one that takes the locked tranche out. -/
theorem Turns.holdsPaid (h : Turns e c ts ts') (hshaped : Shaped e (frees ts) (locks ts))
    (hflagged : Flagged e ts) (hkeeps : ¬Takes ts c) (hpaid : HoldsPaid ts) : HoldsPaid ts' := by
  cases h with
  | appended append => exact append_holdsPaid hshaped hpaid hflagged append
  | swept amount sweep => exact sweep_holdsPaid hshaped hpaid hflagged sweep
  | shrunk t rest locked less written free =>
      obtain ⟨t', mem, hflag⟩ := hpaid
      rcases List.mem_append.mp mem with hfree | hlocked
      · exact ⟨t', List.mem_append_left _ (free.mem_iff.mpr hfree), hflag⟩
      · rcases List.mem_cons.mp (locked ▸ hlocked) with rfl | hrest
        · refine ⟨_, List.mem_append_right _ (written ▸ List.mem_cons_self), ?_⟩
          rw [hflag, Bool.true_or]
        · have hmem : t' ∈ locks ts' := written ▸ List.mem_cons_of_mem _ hrest
          exact ⟨t', List.mem_append_right _ hmem, hflag⟩
  | settled t rest locked all gone free =>
      exact absurd ⟨t, by simp [locked], all.le⟩ hkeeps
  | removed gone free => exact absurd trivial hkeeps
  | released t locked free =>
      obtain ⟨t', mem, hflag⟩ := hpaid
      refine ⟨t', ?_, hflag⟩
      rw [locked] at mem
      have hperm := (free.append_right (locks ts')).mem_iff (a := t')
      rw [hperm]
      simp only [List.mem_append, List.mem_cons] at mem ⊢
      tauto
  | idle none => exact hpaid

/-- A settlement in part that pays for the registration sets the flag. -/
theorem Turns.pays {hash : H} {delivered residual : ℕ}
    (h : Turns e (.settle hash delivered residual true) ts ts')
    (hkeeps : ¬Takes ts (.settle hash delivered residual true)) : HoldsPaid ts' := by
  cases h with
  | shrunk t rest locked less written free =>
      exact ⟨_, List.mem_append_right _ (written ▸ List.mem_cons_self), Bool.or_true _⟩
  | settled t rest locked all gone free =>
      exact absurd ⟨t, by simp [locked], all.le⟩ hkeeps

end Tranches

namespace WithdrawalRequests

variable {H : Type} [DecidableEq H] {e now : ℕ} {q q' : WithdrawalRequests H} {c : Call H}
  {hash : H}

/-- The flags of every vector are in order. -/
def Marked (e : ℕ) (q : WithdrawalRequests H) : Prop :=
  ∀ hash, Tranches.Flagged e (tranchesAt q hash)

/-- The registration was paid with an attempt that is not delivered in full. -/
def HoldsPaid (q : WithdrawalRequests H) (hash : H) : Prop :=
  Tranches.HoldsPaid (tranchesAt q hash)

/-- The queue of a new deployment has no flags. -/
theorem marked_empty : Marked e (∅ : WithdrawalRequests H) := fun _ _ mem => nomatch mem

/-- Time passes. -/
theorem Marked.later (h : Marked e q) (hle : e ≤ now) : Marked now q := fun hash =>
  (h hash).later hle

/-- Every call leaves the flags of the queue in order. -/
theorem Marked.run (h : Marked e q) (hneat : Neat e q) (hrun : c.run e q = .ok q') :
    Marked e q' := by
  obtain ⟨ts, hrep, hturns⟩ := Call.run_cases hrun
  intro hash
  by_cases hsame : hash = c.hash
  · rw [hsame, hrep.at_eq]
    exact hturns.flagged (hneat.shaped c.hash) (h c.hash)
  · rw [hrep.others hash hsame]
    exact h hash

/-- A flag stays under its hash, unless the locked tranche is taken out. -/
theorem HoldsPaid.run (h : HoldsPaid q hash) (hneat : Neat e q) (hmarked : Marked e q)
    (hrun : c.run e q = .ok q')
    (hkeeps : c.hash = hash → ¬Tranches.Takes (tranchesAt q hash) c) : HoldsPaid q' hash := by
  obtain ⟨ts, hrep, hturns⟩ := Call.run_cases hrun
  unfold HoldsPaid at h ⊢
  by_cases hsame : hash = c.hash
  · subst hsame
    rw [hrep.at_eq]
    exact hturns.holdsPaid (hneat.shaped c.hash) (hmarked c.hash) (hkeeps rfl) h
  · rw [hrep.others hash hsame]
    exact h

/-- A settlement in part leaves the flag of the registration it paid for. -/
theorem holdsPaid_settle {delivered residual : ℕ}
    (hrun : (Call.settle hash delivered residual true).run e q = .ok q')
    (hkeeps : ∀ t ∈ locksAt q hash, delivered < t.withdrawalAmount) : HoldsPaid q' hash := by
  obtain ⟨ts, hrep, hturns⟩ := Call.run_cases hrun
  unfold HoldsPaid
  rw [show tranchesAt q' hash = ts from hrep.at_eq]
  refine hturns.pays ?_
  rintro ⟨t, mem, hle⟩
  exact Nat.not_lt.mpr hle (hkeeps t mem)

/-- Beside a locked tranche without the flag there is none. -/
theorem Marked.not_holdsPaid (h : Marked e q) {t : Tranche} (hown : locksAt q hash = [t])
    (hpaid : t.storageWasPaid = false) : ¬HoldsPaid q hash := by
  rintro ⟨t', mem, hflag⟩
  have hlocks : Tranches.locks (tranchesAt q hash) = [t] := hown
  rcases List.mem_append.mp mem with hfree | hlocked
  · cases hlocks.symm.trans (h hash t' hfree hflag).2
  · rw [hlocks, List.mem_singleton] at hlocked
    rw [hlocked, hpaid] at hflag
    cases hflag

end WithdrawalRequests

/-! ## The flags of a run -/

section Steps

variable {H : Type} [DecidableEq H] {host : Host H} {env : Env} {s s' : LiquidStakingToken H}
  {e now : ℕ} {calls : List (ℕ × Call H)} {q q' : WithdrawalRequests H} {hash : H}

/-- The flags are in order after any history. -/
theorem History.marked (h : History calls q) (hpos : ∀ x ∈ calls, x.2.Positive)
    (hlater : ∀ x ∈ calls, x.1 ≤ e) : WithdrawalRequests.Marked e q := by
  induction h generalizing e with
  | start => exact WithdrawalRequests.marked_empty
  | call e₀ c past later commits ih =>
      rw [List.forall_mem_cons] at hpos hlater
      exact ((ih hpos.2 later).run (past.neat hpos.2 later) commits).later hlater.1

/-- So they are in the queue of the contract. -/
theorem Recorded.marked (h : Recorded now q) : WithdrawalRequests.Marked now q := by
  obtain ⟨calls, hhistory, hcalls⟩ := h
  exact hhistory.marked (fun x mem => (hcalls x mem).2) fun x mem => (hcalls x mem).1

/-- A call of the contract keeps a flag, unless it takes the locked tranche out. -/
theorem Recorded.holdsPaid (h : Recorded e q) {c : Call H} (hrun : c.run e q = .ok q')
    (hkeeps : c.hash = hash → ¬Tranches.Takes (WithdrawalRequests.tranchesAt q hash) c)
    (hpaid : WithdrawalRequests.HoldsPaid q hash) : WithdrawalRequests.HoldsPaid q' hash :=
  hpaid.run h.neat h.marked hrun hkeeps

/-- A released lock keeps its flag. -/
theorem Recorded.holdsPaid_release (h : Recorded e q) (k : H)
    (hpaid : WithdrawalRequests.HoldsPaid q hash) :
    WithdrawalRequests.HoldsPaid (WithdrawalRequests.releaseLock q k).1 hash :=
  h.holdsPaid (c := .release k) rfl (fun _ => id) hpaid

/-- A call from outside keeps a flag. -/
theorem Entry.holdsPaid {m : Method H} {p : Phase H} {side : List (Receipt H)}
    (hentry : Entry host env s m s' p side) (h : Recorded env.epochHeight s.withdrawalRequests)
    (hpaid : WithdrawalRequests.HoldsPaid s.withdrawalRequests hash) :
    WithdrawalRequests.HoldsPaid s'.withdrawalRequests hash := by
  cases hentry with
  | stake args s₁ result o synced => exact synced.queue_eq.1 ▸ hpaid
  | pingIdle result s₁ synced | ping reward s₁ synced => exact synced.queue_eq.1 ▸ hpaid
  | setFee feeBps s₁ result _ _ _ synced => exact synced.queue_eq.1 ▸ hpaid
  | setKey key s₁ result _ _ synced => exact synced.queue_eq.1 ▸ hpaid
  | withdrawNative a q native swept | withdrawWnear a q wrapped swept =>
      exact h.holdsPaid (Call.run_sweep swept) (fun _ => id) hpaid
  | forceRelease k => exact h.holdsPaid_release k hpaid
  | _ => exact hpaid

/-- A callback keeps a flag, unless it settles a delivery under its hash. -/
theorem Advance.holdsPaid {p p' : Phase H} {side : List (Receipt H)}
    (hadvance : Advance host env s p s' p' side) (hvalid : p.Valid host)
    (h : Recorded env.epochHeight s.withdrawalRequests)
    (hnative : ∀ a r, p = .deliveredNative a r → a.hash host ≠ hash)
    (hother : ∀ a r consumed, p = .deliveredWnear a r →
      Delivery a.amountToSend (a.isCall host) r (some consumed) → a.hash host ≠ hash)
    (hpaid : WithdrawalRequests.HoldsPaid s.withdrawalRequests hash) :
    WithdrawalRequests.HoldsPaid s'.withdrawalRequests hash := by
  by_cases hp : p.queues = true
  · cases hadvance with
    | @queued u k r ok q appended =>
        exact h.holdsPaid (c := .append u.hash u.nearAmount) appended (fun _ => id) hpaid
    | @paidNative a r =>
        have hne := hnative a r rfl
        have hremoved := h.holdsPaid (c := .remove (a.hash host)) rfl (fun heq => absurd heq hne)
          hpaid
        exact (h.call (c := .remove (a.hash host)) trivial rfl).holdsPaid_release _ hremoved
    | unpaidNative | unpaidWnear => exact h.holdsPaid_release _ hpaid
    | @paidWnear a r consumed delivery t locked delivered delivered_eq claimed q q_eq =>
        have hne := hother a r consumed rfl delivery
        have hrun : (Call.settle (a.hash host) delivered (a.amountToSend - consumed)
            (decide (0 < a.storageToPay))).run env.epochHeight s.withdrawalRequests = .ok q :=
          q_eq ▸ Call.run_settle locked claimed
        have hsettled : Recorded env.epochHeight q := h.call (c := .settle _ _ _ _) trivial hrun
        exact hsettled.holdsPaid_release _ (h.holdsPaid hrun (fun heq => absurd heq hne) hpaid)
    | undone => exact hpaid
    | _ => cases hp
  · rw [hadvance.queue_eq (by simpa using hp)]
    exact hpaid

end Steps

end LiquidStaking
