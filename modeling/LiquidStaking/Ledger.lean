import LiquidStaking.History

/-!
# A plain ledger of unstakes

What the queue is for, without tranches: under each hash the ledger keeps every
unstake by itself, with its epoch and its amount.  A withdrawal takes all of
them that are past their cooldown, a settlement takes the delivered amount out
of what was taken, and a released lock puts the rest back as it was.

The queue folds, collapses, reorders and locks instead.  After any history it
still tracks this ledger (`History.tracks`): what is locked is what the ledger
has in delivery, and from now on the free tranches owe what the ledger's entries
do.  The sweeps of the two agree.
-/

namespace LiquidStaking

open Checked

/-- The unstakes under one hash: those queued, and those a withdrawal is
delivering. -/
structure Unstakings where
  /-- Each with its epoch and its amount, as it was made. -/
  queued : List (ℕ × ℕ)
  /-- Those a withdrawal has taken, unless none is under way. -/
  delivering : Option (List (ℕ × ℕ))
  deriving DecidableEq, Repr

/-- The ledger, hash by hash. -/
abbrev Ledger (H : Type) := H → Unstakings

namespace Unstakings

/-- An unstake in the ledger: an epoch and an amount, due after the cooldown. -/
def entry : Timelock (ℕ × ℕ) ℕ ℕ where
  due x := x.1 + unstakeCooldownPeriod
  amount := Prod.snd

/-- Nothing was unstaked. -/
def none : Unstakings := ⟨[], .none⟩

/-- The sum of some entries. -/
def worth (l : List (ℕ × ℕ)) : ℕ := (l.map Prod.snd).sum

/-- The entries past their cooldown. -/
def matured (e : ℕ) (l : List (ℕ × ℕ)) : List (ℕ × ℕ) :=
  l.filter fun x => x.1 + unstakeCooldownPeriod ≤ e

/-- The entries still in their cooldown. -/
def cooling (e : ℕ) (l : List (ℕ × ℕ)) : List (ℕ × ℕ) :=
  l.filter fun x => !decide (x.1 + unstakeCooldownPeriod ≤ e)

/-- What a withdrawal of epoch `e` is to pay.

This is all of it or nothing: a withdrawal has no amount as an argument. -/
def payable (u : Unstakings) (e : ℕ) : ℕ := worth (matured e u.queued)

/-- All that is not paid yet, matured or not, in delivery or not. -/
def outstanding (u : Unstakings) : ℕ := worth u.queued + worth (u.delivering.getD [])

/-- Take an amount out of some entries, the first of them first.

Which of them it is taken from cannot be told later on, since all of them are
past their cooldown. -/
def spend : ℕ → List (ℕ × ℕ) → List (ℕ × ℕ)
  | _, [] => []
  | amount, x :: l => if x.2 ≤ amount then spend (amount - x.2) l else (x.1, x.2 - amount) :: l

/-- The unstakes after a call.

A sweep while a delivery is under way changes nothing; the queue turns it away. -/
def after {H : Type} (u : Unstakings) (e : ℕ) : Call H → Unstakings
  | .append _ amount => { u with queued := (e, amount) :: u.queued }
  | .sweep _ =>
      match u.delivering with
      | some _ => u
      | .none => ⟨cooling e u.queued,
          if 0 < u.payable e then some (matured e u.queued) else .none⟩
  | .settle _ delivered _ _ =>
      { u with delivering := u.delivering.bind fun taken =>
          if worth taken ≤ delivered then .none else some (spend delivered taken) }
  | .remove _ => { u with delivering := .none }
  | .release _ => ⟨u.delivering.getD [] ++ u.queued, .none⟩

/-- What is payable is what is owed in the epoch. -/
theorem payable_eq (u : Unstakings) (e : ℕ) : u.payable e = entry.owedAt e u.queued := rfl

/-- Spending keeps the epochs. -/
theorem mem_spend {amount : ℕ} {l : List (ℕ × ℕ)} {x : ℕ × ℕ} (h : x ∈ spend amount l) :
    ∃ y ∈ l, y.1 = x.1 := by
  induction l generalizing amount with
  | nil => cases h
  | cons y l ih =>
      unfold spend at h
      split_ifs at h with hall
      · obtain ⟨z, mem, hz⟩ := ih h
        exact ⟨z, List.mem_cons_of_mem _ mem, hz⟩
      · rcases List.mem_cons.mp h with rfl | mem
        · exact ⟨y, List.mem_cons_self, rfl⟩
        · exact ⟨x, List.mem_cons_of_mem _ mem, rfl⟩

/-- What was spent is gone, and nothing else. -/
theorem worth_spend (amount : ℕ) (l : List (ℕ × ℕ)) :
    worth (spend amount l) = worth l - amount := by
  unfold worth
  induction l generalizing amount with
  | nil => simp [spend]
  | cons x l ih =>
      unfold spend
      split_ifs with hall
      · rw [ih, List.map_cons, List.sum_cons]
        omega
      · simp only [List.map_cons, List.sum_cons]
        omega

end Unstakings

namespace Ledger

variable {H : Type} [DecidableEq H]

/-- The ledger after the calls of a history. -/
def after : List (ℕ × Call H) → Ledger H
  | [] => fun _ => .none
  | (e, c) :: calls => Function.update (after calls) c.hash ((after calls c.hash).after e c)

end Ledger

/-! ## The queue tracks the ledger

The two are related hash by hash.  For the queued unstakes only what they owe
from now on has to agree, so the vector may merge what the ledger keeps apart. -/

namespace Tranches

/-- What is locked is what the ledger has in delivery. -/
inductive Delivering (e : ℕ) : Option (List (ℕ × ℕ)) → List Tranche → Prop
  /-- Nothing is locked. -/
  | none : Delivering e none []
  /-- One tranche is locked, and it is worth what was taken. -/
  | some (taken : List (ℕ × ℕ)) (t : Tranche)
      (worth_eq : t.withdrawalAmount = Unstakings.worth taken) (matured : t.isMatured e = true)
      (due : ∀ x ∈ taken, x.1 + unstakeCooldownPeriod ≤ e) : Delivering e (some taken) [t]

/-- A vector and the unstakes of the ledger under the same hash.

This is the simulation relation.  It is kept by every call and by the passage of
time. -/
structure Tracks (e : ℕ) (ts : List (Lock Tranche)) (u : Unstakings) : Prop where
  /-- The locked part. -/
  delivering : Delivering e u.delivering (locks ts)
  /-- The free part, from the current epoch on. -/
  owed : claims.AgreeFrom Unstakings.entry e (frees ts) u.queued

variable {H : Type} {e now : ℕ} {ts ts' : List (Lock Tranche)} {u : Unstakings} {c : Call H}

/-- Time passes. -/
theorem Delivering.later {o : Option (List (ℕ × ℕ))} {ls : List Tranche}
    (h : Delivering e o ls) (hle : e ≤ now) : Delivering now o ls := by
  cases h with
  | none => exact .none
  | some taken t worth_eq matured due =>
      exact .some taken t worth_eq (Shaped.isMatured_later matured hle)
        fun x mem => (due x mem).trans hle

/-- What is in delivery has matured. -/
theorem Delivering.matured {o : Option (List (ℕ × ℕ))} {ls : List Tranche}
    (h : Delivering e o ls) : ∀ t ∈ ls, t.isMatured e = true := by
  intro t mem
  cases h with
  | none => cases mem
  | some taken t' worth_eq matured due => exact List.mem_singleton.mp mem ▸ matured

/-- With at most one tranche locked, the order of the locked ones says nothing. -/
theorem Delivering.eq_of_perm {o : Option (List (ℕ × ℕ))} {ls ls' : List Tranche}
    (h : Delivering e o ls) (hperm : ls'.Perm ls) : ls' = ls := by
  cases h with
  | none => exact List.perm_nil.mp hperm
  | some taken t worth_eq matured due => exact List.perm_singleton.mp hperm

/-- Time passes: agreement from one epoch on is agreement from any later one. -/
theorem Tracks.later (h : Tracks e ts u) (hle : e ≤ now) : Tracks now ts u where
  delivering := h.delivering.later hle
  owed := h.owed.later hle

/-- Nothing unstaked, nothing queued. -/
theorem Tracks.nil (e : ℕ) : Tracks e [] .none := ⟨.none, fun _ _ => rfl⟩

/-- Nothing is locked exactly when nothing is in delivery. -/
theorem Tracks.locks_eq_nil_iff (h : Tracks e ts u) : locks ts = [] ↔ u.delivering = none := by
  have hdelivering := h.delivering
  cases hu : u.delivering with
  | none =>
      rw [hu] at hdelivering
      generalize locks ts = ls at hdelivering
      cases hdelivering
      simp
  | some taken =>
      rw [hu] at hdelivering
      generalize locks ts = ls at hdelivering
      cases hdelivering
      simp

/-- The tranches of a vector are worth what the ledger has outstanding.

Enough epochs later all that is queued is due, and then the two owe the same. -/
theorem Tracks.sum_eq (h : Tracks e ts u) :
    Tranches.sum Tranche.withdrawalAmount ts = u.outstanding := by
  obtain ⟨hdelivering, howed⟩ := h
  have hfree : freeSum Tranche.withdrawalAmount ts = Unstakings.worth u.queued := howed.sum_eq
  have hlocked : lockedSum Tranche.withdrawalAmount ts =
      Unstakings.worth (u.delivering.getD []) := by
    unfold lockedSum
    generalize locks ts = ls at hdelivering
    generalize u.delivering = o at hdelivering ⊢
    cases hdelivering with
    | none => rfl
    | some taken t worth_eq matured due => simp [worth_eq]
  rw [Tranches.sum_eq, hfree, hlocked]
  rfl

/-- An append leaves the locked tranches alone. -/
theorem append_locks (h : append e now ts = .ok ts') : (locks ts').Perm (locks ts) := by
  obtain ⟨mid, hmid, -, hfold⟩ := append_cases h
  rw [(foldSameEpoch_cases hfold).1]
  exact hmid

/-- A sweep pays what the ledger pays.

What it pays is the sum of the ready tranches, which is what the free ones owe
in the current epoch. -/
theorem Tracks.sweep_pays {amount : ℕ} (h : Tracks e ts u)
    (hsweep : sweep e ts = .ok (amount, ts')) :
    u.delivering = none ∧ amount = u.payable e := by
  obtain ⟨hnone, hamount, -⟩ := sweep_cases hsweep
  rw [hamount, merged_withdrawalAmount, u.payable_eq, h.owed e le_rfl]
  exact ⟨h.locks_eq_nil_iff.mp hnone, rfl⟩

/-- A sweep locks what the ledger takes.

If nothing is due then neither side has anything under way afterwards. -/
theorem Tracks.sweep {amount : ℕ} {hash : H} (h : Tracks e ts u)
    (hsweep : Tranches.sweep e ts = .ok (amount, ts')) :
    Tracks e ts' (u.after e (.sweep hash)) := by
  obtain ⟨hidle, hpays⟩ := h.sweep_pays hsweep
  obtain ⟨-, hamount, hlocks, hfrees⟩ := sweep_cases hsweep
  have hpaid : (merged e ts).withdrawalAmount = u.payable e := hamount.symm.trans hpays
  constructor
  · rw [hlocks, carried, hpaid]
    simp only [Unstakings.after, hidle]
    split_ifs with hpos
    · refine .some _ _ hpaid (merged_isMatured (hpaid ▸ hpos)) fun x mem => ?_
      exact of_decide_eq_true (List.mem_filter.mp mem).2
    · exact .none
  · simp only [Unstakings.after, hidle]
    exact (Timelock.AgreeFrom.of_perm hfrees).trans h.owed.pay

/-- **A call does to the vector what it does to the ledger.**

The step of the simulation, with one case for each way in which a vector turns. -/
theorem Turns.tracks (h : Turns e c ts ts') (htracks : Tracks e ts u) :
    Tracks e ts' (u.after e c) := by
  cases h with
  | appended append =>
      constructor
      · rw [htracks.delivering.eq_of_perm (append_locks append)]
        exact htracks.delivering
      · exact (append_agree append).trans (.cons rfl rfl htracks.owed)
  | swept amount sweep => exact htracks.sweep sweep
  -- Less than the tranche is worth was delivered, and the rest of it waits
  -- again.
  | @shrunk hash delivered residual storagePaid _ _ t rest locked less written free =>
      obtain ⟨hdelivering, howed⟩ := htracks
      rw [locked] at hdelivering
      generalize hu : u.delivering = o at hdelivering
      cases hdelivering with
      | some taken _ worth_eq matured due =>
          refine ⟨?_, (Timelock.AgreeFrom.of_perm free).trans howed⟩
          simp only [Unstakings.after, hu, Option.bind_some, if_neg (by omega :
            ¬Unstakings.worth taken ≤ delivered), written]
          refine .some _ _ ?_ matured fun x mem => ?_
          · rw [Unstakings.worth_spend, ← worth_eq]
          · obtain ⟨y, hy, hsame⟩ := Unstakings.mem_spend mem
            exact hsame ▸ due y hy
  | @settled hash delivered residual storagePaid _ _ t rest locked all gone free =>
      obtain ⟨hdelivering, howed⟩ := htracks
      rw [locked] at hdelivering
      generalize hu : u.delivering = o at hdelivering
      cases hdelivering with
      | some taken _ worth_eq matured due =>
          refine ⟨?_, free ▸ howed⟩
          simp only [Unstakings.after, hu, Option.bind_some, if_pos (by omega :
            Unstakings.worth taken ≤ delivered), gone]
          exact .none
  | removed gone free => exact ⟨gone ▸ .none, free ▸ htracks.owed⟩
  | released t locked free =>
      obtain ⟨hdelivering, howed⟩ := htracks
      rw [locked] at hdelivering
      generalize hu : u.delivering = o at hdelivering
      generalize hrest : locks ts' = rest at hdelivering
      cases hdelivering with
      | some taken _ worth_eq matured due =>
          refine ⟨hrest ▸ .none, (Timelock.AgreeFrom.of_perm free).trans ?_⟩
          -- The released tranche stands for all that it was merged from.
          have hmerged : claims.AgreeFrom Unstakings.entry e [t] taken := by
            refine .merge ?_ due ?_
            · intro t' mem
              rw [List.mem_singleton.mp mem]
              exact of_decide_eq_true matured
            · rw [List.map_singleton, List.sum_singleton]
              exact worth_eq
          simp only [Unstakings.after, hu, Option.getD_some]
          exact hmerged.append howed
  | @idle hash _ none =>
      have hidle := htracks.locks_eq_nil_iff.mp none
      have hsame : u.after e (.release hash) = u := by
        obtain ⟨queued, delivering⟩ := u
        obtain rfl : delivering = .none := hidle
        rfl
      rw [hsame]
      exact htracks

end Tranches

namespace WithdrawalRequests

variable {H : Type} [DecidableEq H]

/-- What is past its cooldown and not in delivery under a hash.

It is what a withdrawal of the epoch would take. -/
def claimable (q : WithdrawalRequests H) (e : ℕ) (hash : H) : ℕ :=
  ((Tranches.ready e (tranchesAt q hash)).map Tranche.withdrawalAmount).sum

/-- What is claimable is what the free tranches owe in the epoch. -/
theorem claimable_eq (q : WithdrawalRequests H) (e : ℕ) (hash : H) :
    claimable q e hash = Tranches.claims.owedAt e (Tranches.frees (tranchesAt q hash)) := by
  unfold claimable
  rw [Tranches.ready_eq]
  rfl

end WithdrawalRequests

namespace History

open WithdrawalRequests

variable {H : Type} [DecidableEq H] {e now : ℕ} {calls : List (ℕ × Call H)}
  {q q' : WithdrawalRequests H} {hash : H} {c : Call H}

/-- **Whatever was called before, the queue tracks the ledger.**

By induction on the history: the calls under other hashes leave both sides
alone, and time passes between two calls. -/
theorem tracks (h : History calls q) (hlater : ∀ x ∈ calls, x.1 ≤ e) (hash : H) :
    Tranches.Tracks e (tranchesAt q hash) (Ledger.after calls hash) := by
  induction h generalizing e with
  | start => exact Tranches.Tracks.nil e
  | @call calls q q' e₀ c past later commits ih =>
      rw [List.forall_mem_cons] at hlater
      obtain ⟨ts, hrep, hturns⟩ := Call.run_cases commits
      unfold Ledger.after
      by_cases hsame : hash = c.hash
      · rw [hsame, Function.update_self, hrep.at_eq]
        exact (hturns.tracks (hsame ▸ ih later)).later hlater.1
      · rw [Function.update_of_ne hsame, hrep.others hash hsame]
        exact (ih later).later hlater.1

/-- What is claimable is what the ledger would pay, now and later.

So everything that is said below about what is claimable can be computed in the
ledger. -/
theorem claimable_eq_payable (h : History calls q) (hlater : ∀ x ∈ calls, x.1 ≤ e) (hash : H)
    (hnow : e ≤ now) : claimable q now hash = (Ledger.after calls hash).payable now := by
  rw [claimable_eq, Unstakings.payable_eq, (h.tracks hlater hash).owed now hnow]

/-- A sweep that goes through pays what the ledger pays. -/
theorem sweep_pays {amount : ℕ} (h : History calls q) (hlater : ∀ x ∈ calls, x.1 ≤ e)
    (hsweep : amountOfMaturedTranches q e hash = .ok (amount, q')) :
    (Ledger.after calls hash).delivering = none ∧
      amount = (Ledger.after calls hash).payable e := by
  obtain ⟨ts, hvector, -⟩ := Call.sweep_replaces hsweep
  exact (h.tracks hlater hash).sweep_pays hvector

/-- A sweep is turned away exactly when the ledger has a delivery under way. -/
theorem sweep_inProgress_iff (h : History calls q) (hlater : ∀ x ∈ calls, x.1 ≤ e) (hash : H) :
    amountOfMaturedTranches q e hash = .error "Unstake request is already in progress" ↔
      (Ledger.after calls hash).delivering ≠ none := by
  rw [Ne, ← (h.tracks hlater hash).locks_eq_nil_iff, ← Ne,
    ← Tranches.sweep_inProgress_iff (e := e)]
  unfold amountOfMaturedTranches
  cases hlook : q.lookup hash with
  | none =>
      have hnil : tranchesAt q hash = [] := by simp [tranchesAt, hlook]
      rw [hnil]
      constructor
      · intro herror
        cases herror
      · intro herror
        cases herror
  | some ts =>
      have hts : tranchesAt q hash = ts := by simp [tranchesAt, hlook]
      rw [hts]
      simp only [bind_eq_error, pure_ne_error, and_false, exists_false, or_false]

/-- A sweep goes through when nothing is under way and the sums fit the word.

It goes through with the amount of the ledger, be it zero. -/
theorem sweep_isOk (h : History calls q) (hlater : ∀ x ∈ calls, x.1 ≤ e)
    (hidle : (Ledger.after calls hash).delivering = none)
    (hamount : (Ledger.after calls hash).payable e < 2 ^ 128)
    (hresidual : ((Tranches.ready e (tranchesAt q hash)).map Tranche.wnearResidual).sum < 2 ^ 128) :
    ∃ q', amountOfMaturedTranches q e hash = .ok ((Ledger.after calls hash).payable e, q') := by
  have hlocks := (h.tracks hlater hash).locks_eq_nil_iff.mpr hidle
  rw [← h.claimable_eq_payable hlater hash le_rfl] at hamount
  obtain ⟨⟨amount, ts'⟩, hvector⟩ := Tranches.sweep_isOk.mpr ⟨hlocks, hamount, hresidual⟩
  have hpays := ((h.tracks hlater hash).sweep_pays hvector).2
  unfold amountOfMaturedTranches
  cases hlook : q.lookup hash with
  | none =>
      have hnil : tranchesAt q hash = [] := by simp [tranchesAt, hlook]
      rw [hnil] at hvector
      obtain ⟨rfl, -⟩ := Prod.mk.inj (Except.ok.inj hvector)
      exact ⟨q, by rw [hpays]⟩
  | some ts =>
      have hts : tranchesAt q hash = ts := by simp [tranchesAt, hlook]
      rw [hts] at hvector
      exact ⟨_, by dsimp only; rw [hvector, hpays]; rfl⟩

/-- An append goes through while the sums under its hash fit the word.

All that is outstanding under the hash is counted, since it may be merged into
one tranche. -/
theorem append_isOk {amount : ℕ} (h : History calls q) (hlater : ∀ x ∈ calls, x.1 ≤ e)
    (hroom : (Ledger.after calls hash).outstanding + amount < 2 ^ 128)
    (hresidual : Tranches.sum Tranche.wnearResidual (tranchesAt q hash) < 2 ^ 128) :
    ∃ q', appendRequest q e hash amount = .ok q' := by
  refine appendRequest_isOk hresidual ?_
  rw [(h.tracks hlater hash).sum_eq]
  exact hroom

/-- **A settlement goes through exactly when** the ledger has a delivery under
way that is worth what was delivered.

In the contract it is the callback of that delivery, so what it delivered is
never more. -/
theorem settle_isOk_iff {delivered residual : ℕ} {storagePaid : Bool} (h : History calls q)
    (hlater : ∀ x ∈ calls, x.1 ≤ e) :
    (∃ q', (Call.settle hash delivered residual storagePaid).run e q = .ok q') ↔
      ∃ taken, (Ledger.after calls hash).delivering = some taken ∧
        delivered ≤ Unstakings.worth taken := by
  have hdelivering := (h.tracks hlater hash).delivering
  have hlocked : ∀ t, lockedTranche q hash = .ok t ↔
      (Tranches.locks (tranchesAt q hash)).head? = some t := fun t => lockedTranche_eq_ok
  generalize Tranches.locks (tranchesAt q hash) = ls at hdelivering hlocked
  generalize (Ledger.after calls hash).delivering = o at hdelivering ⊢
  constructor
  · rintro ⟨q', hrun⟩
    simp only [Call.run, bind_eq_ok, expect_eq_ok, checkedSub_eq_some] at hrun
    obtain ⟨t, ht, _, ⟨hle, -⟩, -⟩ := hrun
    have hhead := (hlocked t).mp ht
    cases hdelivering with
    | none => cases hhead
    | some taken t' worth_eq matured due =>
        obtain rfl := Option.some.inj hhead
        exact ⟨taken, rfl, worth_eq ▸ hle⟩
  · rintro ⟨taken, rfl, hle⟩
    cases hdelivering with
    | some _ t worth_eq matured due =>
        rw [← worth_eq] at hle
        simp only [Call.run, (hlocked t).mpr rfl, ok_bind,
          expect_eq_ok.mpr (checkedSub_eq_some.mpr ⟨hle, rfl⟩)]
        exact ⟨_, rfl⟩

/-- What one more call makes of what is claimable under its hash. -/
private theorem claimable_call (h : History calls q) (hlater : ∀ x ∈ calls, x.1 ≤ e)
    (hrun : c.run e q = .ok q') (hnow : e ≤ now) :
    claimable q' now c.hash = ((Ledger.after calls c.hash).after e c).payable now := by
  have hstep := (h.call e c hlater hrun).claimable_eq_payable (e := e)
    (List.forall_mem_cons.mpr ⟨le_rfl, hlater⟩) c.hash hnow
  rwa [Ledger.after, Function.update_self] at hstep

/-- **An append adds its own amount, from its own maturity on**, and nothing
else.

In particular it does not postpone what was unstaked before it under the same
hash. -/
theorem claimable_append {amount : ℕ} (h : History calls q) (hlater : ∀ x ∈ calls, x.1 ≤ e)
    (happend : appendRequest q e hash amount = .ok q') (hnow : e ≤ now) :
    claimable q' now hash =
      claimable q now hash + if e + unstakeCooldownPeriod ≤ now then amount else 0 := by
  have hstep := h.claimable_call (c := .append hash amount) hlater happend hnow
  rw [h.claimable_eq_payable hlater hash hnow]
  refine hstep.trans ?_
  rw [Unstakings.payable_eq, Unstakings.after, Timelock.owedAt_cons, add_comm]
  rfl

/-- **An append leaves what is locked alone.**

So an unstake may come in while a withdrawal under the same hash is under way. -/
theorem locksAt_append {amount : ℕ} (h : History calls q) (hlater : ∀ x ∈ calls, x.1 ≤ e)
    (happend : appendRequest q e hash amount = .ok q') : locksAt q' hash = locksAt q hash := by
  obtain ⟨ts, hvector, hrep⟩ := appendRequest_replaces happend
  have hperm := Tranches.append_locks hvector
  have hone := (h.tracks hlater hash).delivering
  rw [locksAt, locksAt, hrep.at_eq]
  exact hone.eq_of_perm hperm

/-- **What a delivery left over is claimable at once**, in full.

It keeps the epoch of the tranche it is left of, and that one had matured. -/
theorem claimable_residual {delivered residual : ℕ} {storagePaid : Bool}
    {q₁ q₂ : WithdrawalRequests H} {t : Tranche} (h : History calls q)
    (hlater : ∀ x ∈ calls, x.1 ≤ e) (hlocked : lockedTranche q hash = .ok t)
    (hsettle : (Call.settle hash delivered residual storagePaid).run e q = .ok q₁)
    (hrelease : (Call.release hash).run e q₁ = .ok q₂) (hnow : e ≤ now) :
    claimable q₂ now hash = claimable q now hash + (t.withdrawalAmount - delivered) := by
  obtain ⟨ts₁, hrep₁, hturns₁⟩ := Call.run_cases hsettle
  obtain ⟨ts₂, hrep₂, hturns₂⟩ := Call.run_cases hrelease
  have hat₁ : tranchesAt q₁ hash = ts₁ := hrep₁.at_eq
  have hat₂ : tranchesAt q₂ hash = ts₂ := hrep₂.at_eq
  replace hturns₁ : Tranches.Turns e (.settle hash delivered residual storagePaid)
    (tranchesAt q hash) ts₁ := hturns₁
  replace hturns₂ : Tranches.Turns e (.release hash) ts₁ ts₂ := hat₁ ▸ hturns₂
  -- What is being delivered was matured when it was swept, and still is.
  have hmatured := (h.tracks hlater hash).delivering.matured t
    (List.mem_of_head? (lockedTranche_eq_ok.mp hlocked))
  have hhead : (Tranches.locks (tranchesAt q hash)).head? = some t :=
    lockedTranche_eq_ok.mp hlocked
  rw [claimable_eq, claimable_eq, hat₂]
  generalize tranchesAt q hash = ts at hturns₁ hhead
  cases hturns₁ with
  | shrunk t' rest locked less written free =>
      rw [locked] at hhead
      obtain rfl := Option.some.inj hhead
      cases hturns₂ with
      | released t₁ locked₁ free₁ =>
          rw [written] at locked₁
          obtain ⟨rfl, -⟩ := List.cons.inj locked₁
          have hdue := (of_decide_eq_true hmatured).trans hnow
          rw [Timelock.owedAt_perm _ free₁, Timelock.owedAt_cons, Timelock.owedAt_perm _ free,
            add_comm]
          exact congrArg _ (if_pos hdue)
      | idle none =>
          rw [written] at none
          cases none
  | settled t' rest locked all gone free =>
      rw [locked] at hhead
      obtain rfl := Option.some.inj hhead
      cases hturns₂ with
      | released t₁ locked₁ free₁ =>
          rw [gone] at locked₁
          cases locked₁
      | idle none => rw [free, all, Nat.sub_self, add_zero]

/-- **The queue refines the plain ledger.**  Sweeps agree, in what they pay and
in when they are turned away; an amount is claimable from four epochs after its
own append on, whatever is appended later; a locked tranche is left alone by an
append; what a delivery leaves over is claimable at once; and no call touches
another hash.

Nor is a call refused for another reason than the ledger has: while the sums fit
the word, an append and a sweep go through, and a settlement does exactly when a
delivery is under way that covers it.  (To remove a request and to release a
lock cannot fail.) -/
theorem refines_ledger (h : History calls q) (hlater : ∀ x ∈ calls, x.1 ≤ e) (hash : H) :
    (∀ amount q', amountOfMaturedTranches q e hash = .ok (amount, q') →
      (Ledger.after calls hash).delivering = none ∧
        amount = (Ledger.after calls hash).payable e) ∧
    (amountOfMaturedTranches q e hash = .error "Unstake request is already in progress" ↔
      (Ledger.after calls hash).delivering ≠ none) ∧
    ((Ledger.after calls hash).delivering = none →
      (Ledger.after calls hash).payable e < 2 ^ 128 →
      ((Tranches.ready e (tranchesAt q hash)).map Tranche.wnearResidual).sum < 2 ^ 128 →
      ∃ q', amountOfMaturedTranches q e hash = .ok ((Ledger.after calls hash).payable e, q')) ∧
    (∀ now, e ≤ now → claimable q now hash = (Ledger.after calls hash).payable now) ∧
    (∀ amount q', appendRequest q e hash amount = .ok q' →
      locksAt q' hash = locksAt q hash ∧
        ∀ now, e ≤ now → claimable q' now hash =
          claimable q now hash + if e + unstakeCooldownPeriod ≤ now then amount else 0) ∧
    (∀ delivered residual storagePaid t q₁ q₂, lockedTranche q hash = .ok t →
      (Call.settle hash delivered residual storagePaid).run e q = .ok q₁ →
      (Call.release hash).run e q₁ = .ok q₂ →
      ∀ now, e ≤ now → claimable q₂ now hash =
        claimable q now hash + (t.withdrawalAmount - delivered)) ∧
    (∀ (c : Call H) q', c.run e q = .ok q' → ∀ other, other ≠ c.hash →
      q'.lookup other = q.lookup other) ∧
    (∀ amount, (Ledger.after calls hash).outstanding + amount < 2 ^ 128 →
      Tranches.sum Tranche.wnearResidual (tranchesAt q hash) < 2 ^ 128 →
      ∃ q', appendRequest q e hash amount = .ok q') ∧
    ∀ delivered residual storagePaid,
      (∃ q', (Call.settle hash delivered residual storagePaid).run e q = .ok q') ↔
        ∃ taken, (Ledger.after calls hash).delivering = some taken ∧
          delivered ≤ Unstakings.worth taken := by
  refine ⟨?_, h.sweep_inProgress_iff hlater hash, ?_, ?_, ?_, ?_, ?_, ?_, ?_⟩
  · intro amount q' hsweep
    exact h.sweep_pays hlater hsweep
  · intro hidle hamount hresidual
    exact h.sweep_isOk hlater hidle hamount hresidual
  · intro now hnow
    exact h.claimable_eq_payable hlater hash hnow
  · intro amount q' happend
    refine ⟨?_, fun now hnow => h.claimable_append hlater happend hnow⟩
    exact h.locksAt_append hlater happend
  · intro delivered residual storagePaid t q₁ q₂ hlocked hsettle hrelease now hnow
    exact h.claimable_residual hlater hlocked hsettle hrelease hnow
  · intro c q' hrun other hne
    exact Call.run_lookup_of_ne hrun hne
  · intro amount hroom hresidual
    exact h.append_isOk hlater hroom hresidual
  · intro delivered residual storagePaid
    exact h.settle_isOk_iff hlater

private def twoUnstakes : List (ℕ × Call ℕ) := [(6, .append 7 3), (5, .append 7 2)]

private def twoTranches : WithdrawalRequests ℕ :=
  (∅ : WithdrawalRequests ℕ).insert 7 [⟨false, ⟨2, 5, 0, false⟩⟩, ⟨false, ⟨3, 6, 0, false⟩⟩]

theorem refines_ledger_sample :
    (∃ q', amountOfMaturedTranches twoTranches 10 7 = .ok (5, q')) ∧
      claimable twoTranches 9 7 = 2 := by
  have hreplay : replay twoUnstakes = .ok twoTranches := rfl
  have hpast : History twoUnstakes twoTranches := of_replay hreplay
  obtain ⟨-, -, hpays, -⟩ := refines_ledger (e := 10) hpast (by simp [twoUnstakes]) 7
  obtain ⟨-, -, -, hclaim, -⟩ := refines_ledger (e := 6) hpast (by simp [twoUnstakes]) 7
  exact ⟨hpays rfl (by decide) (by decide), hclaim 9 (by omega)⟩

end History

end LiquidStaking
