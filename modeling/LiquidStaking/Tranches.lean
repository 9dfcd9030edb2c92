import LiquidStaking.Lib.Timelock
import LiquidStaking.Queue
import Mathlib.Data.Finset.Interval
import Mathlib.Order.Interval.Finset.Nat

/-!
# One vector of tranches over time

Two views of the vector under a hash.

* As amounts that fall due (`claims`): from the current epoch on, the free
  tranches owe what a list of the single unstakes would.  An append adds its own
  amount, due after its own cooldown; a sweep takes out what is due.  Collapsing
  matured tranches is invisible, since all of them are due already.
* As a shape (`Shaped`): the amounts are positive, at most one tranche is
  locked, that one is matured, and the free ones still cooling down have
  different epochs.  The epochs still cooling down are the last four, so that
  the vector stays short.
-/

namespace LiquidStaking

open Checked

namespace Tranches

variable {e now amount : ℕ} {ts ts' : List (Lock Tranche)}

/-- A tranche is an amount due after its cooldown. -/
def claims : Timelock Tranche ℕ ℕ where
  due t := t.unstakeEpoch + unstakeCooldownPeriod
  amount := Tranche.withdrawalAmount

/-! ## Matured and cooling tranches

A free tranche is either ready, and then every operation may merge it with the
others, or it is cooling down, and then no operation touches it. -/

/-- The free tranches still in their cooldown. -/
def cooling (e : ℕ) (ts : List (Lock Tranche)) : List Tranche :=
  (frees ts).filter fun t => !t.isMatured e

/-- Ready means free and matured. -/
theorem isReady_eq (e : ℕ) (l : Lock Tranche) :
    isReady e l = (!l.locked && l.value.isMatured e) := by
  cases hl : l.locked <;> simp [isReady, Lock.get, hl]

/-- What the collapse loop collects: the free tranches that have matured. -/
theorem ready_eq (e : ℕ) (ts : List (Lock Tranche)) :
    ready e ts = (frees ts).filter fun t => t.isMatured e := by
  induction ts with
  | nil => rfl
  | cons l ls ih =>
      unfold ready at ih ⊢
      cases hl : l.locked <;> cases hm : l.value.isMatured e <;>
        simp [isReady_eq e l, hl, hm, ih]

/-- What the collapse loop leaves free: the tranches still in their cooldown. -/
theorem frees_unready (e : ℕ) (ts : List (Lock Tranche)) : frees (unready e ts) = cooling e ts := by
  induction ts with
  | nil => rfl
  | cons l ls ih =>
      unfold unready cooling at ih ⊢
      cases hl : l.locked <;> cases hm : l.value.isMatured e <;>
        simp [isReady_eq e l, hl, hm, ih]

/-- The ready tranches are what is due.

So the amount that a withdrawal finds is the amount that the list of single
unstakes owes in the current epoch. -/
theorem merged_withdrawalAmount (e : ℕ) (ts : List (Lock Tranche)) :
    (merged e ts).withdrawalAmount = claims.owedAt e (frees ts) := by
  rw [additive_withdrawalAmount.merged, ready_eq]
  rfl

/-- What matured tranches merge to has matured. -/
private theorem foldl_merge_isMatured {acc : Tranche} {l : List Tranche}
    (hacc : acc.unstakeEpoch + unstakeCooldownPeriod ≤ e) (hl : ∀ t ∈ l, t.isMatured e = true) :
    (l.foldl Tranche.merge acc).isMatured e = true := by
  induction l generalizing acc with
  | nil => exact decide_eq_true hacc
  | cons t l ih =>
      refine ih ?_ fun t' mem => hl t' (List.mem_cons_of_mem _ mem)
      have ht := of_decide_eq_true (hl t List.mem_cons_self)
      show max acc.unstakeEpoch t.unstakeEpoch + unstakeCooldownPeriod ≤ e
      omega

/-- The merger carries the latest of the epochs it was made from, and each of
them has matured. -/
theorem merged_isMatured (h : 0 < (merged e ts).withdrawalAmount) :
    (merged e ts).isMatured e = true := by
  have hready : ∀ t ∈ ready e ts, t.isMatured e = true := by
    intro t mem
    rw [ready_eq] at mem
    exact (List.mem_filter.mp mem).2
  refine foldl_merge_isMatured ?_ hready
  -- Something was merged, so the cooldown of epoch zero is over as well.
  cases hempty : ready e ts with
  | nil => simp [merged, hempty, Tranche.zero] at h
  | cons t rest =>
      have ht := of_decide_eq_true (hready t (hempty ▸ List.mem_cons_self))
      exact (Nat.add_le_add_right (Nat.zero_le _) _).trans ht

/-- What the collapse of a vector pushes back: the merged tranche, if it is
worth something.

Nothing is pushed back when no tranche was ready, so a collapse does not leave
an empty tranche behind. -/
def carried (e : ℕ) (ts : List (Lock Tranche)) : List Tranche :=
  if 0 < (merged e ts).withdrawalAmount then [merged e ts] else []

/-- What is pushed back is ready for the next sweep. -/
theorem carried_isMatured : ∀ t ∈ carried e ts, t.isMatured e = true := by
  intro t mem
  unfold carried at mem
  split_ifs at mem with hpos
  · rw [List.mem_singleton.mp mem]
    exact merged_isMatured hpos
  · cases mem

/-- **An append** collapses what is matured and folds its amount into the rest.

Up to the order of the entries, the vector in between (`mid`) has the locked
tranches untouched, the cooling ones untouched, and at most one matured tranche. -/
theorem append_cases (h : append e amount ts = .ok ts') :
    ∃ mid, (locks mid).Perm (locks ts) ∧ (frees mid).Perm (cooling e ts ++ carried e ts) ∧
      foldSameEpoch e amount mid = .ok ts' := by
  unfold append at h
  split at h
  · next hempty =>
      obtain rfl := List.isEmpty_iff.mp hempty
      exact ⟨[], List.Perm.refl _, List.Perm.refl _, h⟩
  · simp only [bind_eq_ok, Prod.exists] at h
    obtain ⟨o, kept, hcollapse, hfold⟩ := h
    obtain ⟨hperm, rfl⟩ := collapseMaturedTranches_eq_ok hcollapse
    have hlocks : (locks kept).Perm (locks ts) := locks_unready e ts ▸ locks_perm hperm
    have hfrees : (frees kept).Perm (cooling e ts) := frees_unready e ts ▸ hperm.filterMap _
    refine ⟨_, ?_, ?_, hfold⟩
    · by_cases hpos : 0 < (merged e ts).withdrawalAmount
      · simpa [hpos] using hlocks
      · simpa [hpos] using hlocks
    · unfold carried
      by_cases hpos : 0 < (merged e ts).withdrawalAmount
      · simpa [hpos] using hfrees.append_right [merged e ts]
      · simpa [hpos] using hfrees

/-- What a sweep asks for first: that nothing in the vector is locked. -/
theorem all_free_iff : ts.all (fun l => !l.locked) = true ↔ locks ts = [] := by
  induction ts with
  | nil => simp
  | cons l ls ih => cases hl : l.locked <;> simp [hl, ← ih]

/-- A sweep goes through when nothing is locked and the sums fit the word.

A sweep that finds nothing matured goes through as well: it returns the amount
zero, which `withdraw` then refuses with a message of its own. -/
theorem sweep_isOk : (∃ out, sweep e ts = .ok out) ↔ locks ts = [] ∧
    ((ready e ts).map Tranche.withdrawalAmount).sum < 2 ^ 128 ∧
    ((ready e ts).map Tranche.wnearResidual).sum < 2 ^ 128 := by
  rw [← collapseMaturedTranches_isOk, ← all_free_iff]
  unfold sweep
  constructor
  · rintro ⟨out, h⟩
    obtain ⟨hnone, h⟩ := require_bind_eq_ok.mp h
    obtain ⟨collapsed, hcollapse, -⟩ := bind_eq_ok.mp h
    exact ⟨hnone, collapsed, hcollapse⟩
  · rintro ⟨hnone, ⟨o, kept⟩, hcollapse⟩
    cases o with
    | none => exact ⟨_, require_bind_eq_ok.mpr ⟨hnone, by rw [hcollapse]; rfl⟩⟩
    | some t => exact ⟨_, require_bind_eq_ok.mpr ⟨hnone, by rw [hcollapse]; rfl⟩⟩

/-- A sweep is turned away exactly when something is locked.

The message says that an unstake request is in progress, whether or not anything
else has matured. -/
theorem sweep_inProgress_iff :
    sweep e ts = .error "Unstake request is already in progress" ↔ locks ts ≠ [] := by
  rw [Ne, ← all_free_iff]
  unfold sweep
  constructor
  · intro h hnone
    rcases bind_eq_error.mp h with hlocked | ⟨_, -, h⟩
    · exact (require_eq_error.mp hlocked).1 hnone
    · rcases bind_eq_error.mp h with hcollapse | ⟨⟨o, kept⟩, -, h⟩
      · rcases collapseMaturedTranches_error hcollapse with hother | hother <;> simp at hother
      · cases o <;> cases h
  · intro hlocked
    rw [require, if_neg hlocked]
    rfl

/-- **A sweep** finds nothing locked, and locks what is matured.

The tranches still cooling down stay free, so a second claim can be made on them
when they mature. -/
theorem sweep_cases (h : sweep e ts = .ok (amount, ts')) :
    locks ts = [] ∧ amount = (merged e ts).withdrawalAmount ∧ locks ts' = carried e ts ∧
      (frees ts').Perm (cooling e ts) := by
  simp only [sweep, bind_eq_ok, require_eq_ok, Prod.exists] at h
  obtain ⟨_, hnone, o, kept, hcollapse, hout⟩ := h
  obtain ⟨hperm, rfl⟩ := collapseMaturedTranches_eq_ok hcollapse
  have hlocks : locks ts = [] := all_free_iff.mp hnone
  have hkept : locks kept = [] := by
    have hsame := locks_perm hperm
    rwa [locks_unready, hlocks, List.perm_nil] at hsame
  have hfrees : (frees kept).Perm (cooling e ts) := frees_unready e ts ▸ hperm.filterMap _
  unfold carried
  by_cases hpos : 0 < (merged e ts).withdrawalAmount
  · simp only [hpos, if_true, pure_eq_ok, Prod.mk.injEq] at hout ⊢
    obtain ⟨rfl, rfl⟩ := hout
    exact ⟨hlocks, rfl, by simp [hkept], by simpa using hfrees⟩
  · simp only [hpos, if_false, pure_eq_ok, Prod.mk.injEq] at hout ⊢
    obtain ⟨rfl, rfl⟩ := hout
    exact ⟨hlocks, by omega, hkept, hfrees⟩

/-! ## What is owed from now on

Two lists of tranches agree from an epoch on if they owe the same in every later
epoch.  They may differ before it: merging takes the latest epoch, which
postpones nothing once everything merged has matured. -/

/-- What a collapse pushes back is owed as what it collected.

Both are due already: from the current epoch on the two lists owe the same
amount. -/
theorem carried_agree (e : ℕ) (ts : List (Lock Tranche)) :
    claims.AgreeFrom claims e (carried e ts) (ready e ts) := by
  refine .merge (fun t mem => of_decide_eq_true (carried_isMatured t mem)) (fun t mem => ?_) ?_
  · rw [ready_eq] at mem
    exact of_decide_eq_true (List.mem_filter.mp mem).2
  · have hsum := additive_withdrawalAmount.merged e ts
    unfold carried
    split_ifs with hpos
    · simpa [claims] using hsum
    · have hzero : (merged e ts).withdrawalAmount = 0 := Nat.eq_zero_of_not_pos hpos
      rw [hzero] at hsum
      exact hsum

/-- The free tranches are the cooling ones and the ready ones. -/
theorem frees_split (e : ℕ) (ts : List (Lock Tranche)) :
    (cooling e ts ++ ready e ts).Perm (frees ts) := by
  rw [ready_eq]
  exact List.perm_append_comm.trans (List.filter_append_perm _ _)

/-- An append adds its own amount, due after its own cooldown.

The collapse before it cannot be seen from the amounts owed, and neither can the
fold into a tranche of the same epoch: the two have the same due epoch. -/
theorem append_agree (h : append e amount ts = .ok ts') :
    claims.AgreeFrom claims e (frees ts') (Tranche.new amount e :: frees ts) := by
  obtain ⟨mid, -, hmid, hfold⟩ := append_cases h
  have hcollapsed : claims.AgreeFrom claims e (frees mid) (frees ts) := by
    refine (Timelock.AgreeFrom.of_perm hmid).trans (.trans ?_ (.of_perm (frees_split e ts)))
    exact .append (fun _ _ => rfl) (carried_agree e ts)
  intro t ht
  rw [Timelock.owedAt_cons, ← hcollapsed t ht]
  obtain ⟨-, ⟨grown, rest, rfl, hold, hnew⟩ | ⟨-, hnew⟩⟩ := foldSameEpoch_cases hfold
  · rw [claims.owedAt_perm hold, claims.owedAt_perm hnew, Timelock.owedAt_cons,
      Timelock.owedAt_cons]
    -- Folding into a tranche keeps its epoch, so both amounts fall due
    -- together.
    by_cases hdue : grown.unstakeEpoch + unstakeCooldownPeriod ≤ t
    · simp [claims, Tranche.new, hdue]
      omega
    · simp [claims, Tranche.new, hdue]
  · rw [claims.owedAt_perm hnew, Timelock.owedAt_cons]

/-! ## The shape of a vector

The bound on the length is a consequence of the other fields; it is kept as a
field since it is what the fields are for. -/

/-- The shape of a vector with the free tranches `fs` and the locked tranches
`ls`.

The vector itself is not mentioned, only its two parts, as every operation is
described by what it does to them. -/
structure Shaped (e : ℕ) (fs ls : List Tranche) : Prop where
  /-- No tranche is empty. -/
  pos : ∀ t ∈ fs ++ ls, 0 < t.withdrawalAmount
  /-- No tranche is from a later epoch than the current one. -/
  past : ∀ t ∈ fs ++ ls, t.unstakeEpoch ≤ e
  /-- At most one claim is open. -/
  oneLock : ls.length ≤ 1
  /-- What is claimed had matured. -/
  locked_matured : ∀ t ∈ ls, t.isMatured e = true
  /-- Unstakes of one epoch are folded into one tranche, so the epochs still
  cooling down differ. -/
  distinct : ((fs.filter fun t => !t.isMatured e).map Tranche.unstakeEpoch).Nodup
  /-- So the vector stays short: four cooling tranches, one matured, and one
  that is locked or was. -/
  short : fs.length + ls.length ≤ unstakeCooldownPeriod + 2

namespace Shaped

variable {fs fs' ls ls' : List Tranche} {t : Tranche}

/-- The vector of a hash that nothing was unstaked under. -/
theorem nil (e : ℕ) : Shaped e [] [] where
  pos := by simp
  past := by simp
  oneLock := Nat.zero_le 1
  locked_matured := by simp
  distinct := List.nodup_nil
  short := Nat.zero_le _

/-- The order in the vector does not matter. -/
theorem perm (h : Shaped e fs ls) (hfs : fs'.Perm fs) (hls : ls'.Perm ls) : Shaped e fs' ls' where
  pos t mem := h.pos t ((hfs.append hls).mem_iff.mp mem)
  past t mem := h.past t ((hfs.append hls).mem_iff.mp mem)
  oneLock := hls.length_eq ▸ h.oneLock
  locked_matured t mem := h.locked_matured t (hls.mem_iff.mp mem)
  distinct := (((hfs.filter _).map _).nodup_iff).mpr h.distinct
  short := by
    rw [hfs.length_eq, hls.length_eq]
    exact h.short

/-- What has matured stays matured. -/
theorem isMatured_later (h : t.isMatured e = true) (hle : e ≤ now) : t.isMatured now = true :=
  decide_eq_true ((of_decide_eq_true h).trans hle)

/-- Time passes: tranches mature, nothing else changes.

The list of cooling epochs gets shorter, so they still differ. -/
theorem later (h : Shaped e fs ls) (hle : e ≤ now) : Shaped now fs ls where
  pos := h.pos
  past t mem := (h.past t mem).trans hle
  oneLock := h.oneLock
  locked_matured t mem := isMatured_later (h.locked_matured t mem) hle
  distinct := by
    refine h.distinct.sublist (List.Sublist.map _ (List.monotone_filter_right _ ?_))
    intro t hcooling
    by_contra hmatured
    rw [Bool.not_eq_true, Bool.not_eq_false'] at hmatured
    rw [isMatured_later hmatured hle] at hcooling
    cases hcooling
  short := h.short

/-- Epochs still cooling down are among the last four; if they are all
different, they are at most four.

This is the only place where the length of the cooldown matters. -/
theorem length_cooling_le (hpast : ∀ t ∈ fs, t.unstakeEpoch ≤ e)
    (hdistinct : ((fs.filter fun t => !t.isMatured e).map Tranche.unstakeEpoch).Nodup) :
    (fs.filter fun t => !t.isMatured e).length ≤ unstakeCooldownPeriod := by
  have hwindow : ((fs.filter fun t => !t.isMatured e).map Tranche.unstakeEpoch).toFinset ⊆
      Finset.Ico (e + 1 - unstakeCooldownPeriod) (e + 1) := by
    intro k hk
    obtain ⟨t, ht, rfl⟩ := List.mem_map.mp (List.mem_toFinset.mp hk)
    obtain ⟨hmem, hcooling⟩ := List.mem_filter.mp ht
    have hle := hpast t hmem
    have hyoung : ¬t.unstakeEpoch + unstakeCooldownPeriod ≤ e := by
      simpa [Tranche.isMatured] using hcooling
    rw [Finset.mem_Ico]
    omega
  have hcard := Finset.card_le_card hwindow
  rw [List.toFinset_card_of_nodup hdistinct, List.length_map, Nat.card_Ico] at hcard
  omega

/-- With at most one matured tranche left free, the vector is short enough. -/
theorem of_few_matured (hpos : ∀ t ∈ fs ++ ls, 0 < t.withdrawalAmount)
    (hpast : ∀ t ∈ fs ++ ls, t.unstakeEpoch ≤ e) (hone : ls.length ≤ 1)
    (hlocked : ∀ t ∈ ls, t.isMatured e = true)
    (hdistinct : ((fs.filter fun t => !t.isMatured e).map Tranche.unstakeEpoch).Nodup)
    (hfew : (fs.filter fun t => t.isMatured e).length ≤ 1) : Shaped e fs ls where
  pos := hpos
  past := hpast
  oneLock := hone
  locked_matured := hlocked
  distinct := hdistinct
  short := by
    have hcooling := length_cooling_le (fun t mem => hpast t (List.mem_append_left _ mem)) hdistinct
    have hsplit := (List.filter_append_perm (fun t : Tranche => t.isMatured e) fs).length_eq
    rw [List.length_append] at hsplit
    omega

/-- A released lock adds a matured tranche to the free ones.

The vector does not get longer, as the lock is counted among its entries
already. -/
theorem release (h : Shaped e fs (t :: ls)) : Shaped e (t :: fs) ls where
  pos t' mem := h.pos t' (by simpa [or_left_comm] using mem)
  past t' mem := h.past t' (by simpa [or_left_comm] using mem)
  oneLock := (Nat.le_succ _).trans h.oneLock
  locked_matured t' mem := h.locked_matured t' (List.mem_cons_of_mem _ mem)
  distinct := by
    rw [List.filter_cons_of_neg (by simp [h.locked_matured t List.mem_cons_self])]
    exact h.distinct
  short := by
    have hshort := h.short
    simp only [List.length_cons] at hshort ⊢
    omega

/-- A settled claim leaves, with its lock. -/
theorem remove (h : Shaped e fs ls) : Shaped e fs [] where
  pos t mem := h.pos t (List.mem_append_left _ (by simpa using mem))
  past t mem := h.past t (List.mem_append_left _ (by simpa using mem))
  oneLock := Nat.zero_le 1
  locked_matured := by simp
  distinct := h.distinct
  short := (Nat.le_add_right _ _).trans h.short

/-- A claim settled in part keeps its epoch and its lock.

What is written back must be positive, which is what distinguishes a claim
settled in part from one settled in full. -/
theorem write (h : Shaped e fs (t :: ls)) {t' : Tranche} (hpos : 0 < t'.withdrawalAmount)
    (hepoch : t'.unstakeEpoch = t.unstakeEpoch) : Shaped e fs (t' :: ls) where
  pos t₁ mem := by
    rcases List.mem_append.mp mem with hfree | hlocked
    · exact h.pos t₁ (List.mem_append_left _ hfree)
    · rcases List.mem_cons.mp hlocked with rfl | hold
      · exact hpos
      · exact h.pos t₁ (List.mem_append_right _ (List.mem_cons_of_mem _ hold))
  past t₁ mem := by
    rcases List.mem_append.mp mem with hfree | hlocked
    · exact h.past t₁ (List.mem_append_left _ hfree)
    · rcases List.mem_cons.mp hlocked with rfl | hold
      · rw [hepoch]
        exact h.past t (List.mem_append_right _ List.mem_cons_self)
      · exact h.past t₁ (List.mem_append_right _ (List.mem_cons_of_mem _ hold))
  oneLock := h.oneLock
  locked_matured t₁ mem := by
    rcases List.mem_cons.mp mem with rfl | hold
    · have hold := h.locked_matured t List.mem_cons_self
      unfold Tranche.isMatured at hold ⊢
      rwa [hepoch]
    · exact h.locked_matured t₁ (List.mem_cons_of_mem _ hold)
  distinct := h.distinct
  short := h.short

end Shaped

/-- What a collapse leaves, and what it pushes back, is a part of what was
there.

The cooling tranches are exactly the ones that have not matured, and what is
pushed back is the one that has. -/
private theorem collapsed_shape (h : Shaped e (frees ts) (locks ts)) :
    (∀ t ∈ cooling e ts ++ carried e ts, 0 < t.withdrawalAmount ∧ t.unstakeEpoch ≤ e) ∧
      ((cooling e ts ++ carried e ts).filter fun t => !t.isMatured e) = cooling e ts ∧
      ((cooling e ts ++ carried e ts).filter fun t => t.isMatured e) = carried e ts := by
  refine ⟨fun t mem => ?_, ?_, ?_⟩
  · rcases List.mem_append.mp mem with hcooling | hcarried
    · have hfree := List.mem_append_left (locks ts) (List.mem_filter.mp hcooling).1
      exact ⟨h.pos t hfree, h.past t hfree⟩
    · have hmatured := of_decide_eq_true (carried_isMatured t hcarried)
      unfold carried at hcarried
      split_ifs at hcarried with hpos
      · rw [List.mem_singleton.mp hcarried] at hmatured ⊢
        exact ⟨hpos, (Nat.le_add_right _ _).trans hmatured⟩
      · cases hcarried
  · have hkept : (cooling e ts).filter (fun t => !t.isMatured e) = cooling e ts :=
      List.filter_eq_self.mpr fun t mem => (List.mem_filter.mp mem).2
    have hgone : (carried e ts).filter (fun t => !t.isMatured e) = [] :=
      List.filter_eq_nil_iff.mpr fun t mem => by simp [carried_isMatured t mem]
    rw [List.filter_append, hkept, hgone, List.append_nil]
  · have hgone : (cooling e ts).filter (fun t => t.isMatured e) = [] :=
      List.filter_eq_nil_iff.mpr fun t mem => by simpa using (List.mem_filter.mp mem).2
    have hkept : (carried e ts).filter (fun t => t.isMatured e) = carried e ts :=
      List.filter_eq_self.mpr carried_isMatured
    rw [List.filter_append, hkept, hgone, List.nil_append]

private theorem length_carried_le : (carried e ts).length ≤ 1 := by
  unfold carried
  split_ifs <;> simp

/-- A sweep keeps the shape.

It locks one tranche where none was locked, and leaves only cooling tranches
free. -/
theorem Shaped.sweep (h : Shaped e (frees ts) (locks ts))
    (hsweep : Tranches.sweep e ts = .ok (amount, ts')) : Shaped e (frees ts') (locks ts') := by
  obtain ⟨-, -, hlocks, hfrees⟩ := sweep_cases hsweep
  obtain ⟨hboth, -, -⟩ := collapsed_shape h
  have hcooling : (cooling e ts).filter (fun t => !t.isMatured e) = cooling e ts :=
    List.filter_eq_self.mpr fun t mem => (List.mem_filter.mp mem).2
  have hmatured : (cooling e ts).filter (fun t => t.isMatured e) = [] :=
    List.filter_eq_nil_iff.mpr fun t mem => by simpa using (List.mem_filter.mp mem).2
  have hshaped : Shaped e (cooling e ts) (carried e ts) := by
    refine .of_few_matured (fun t mem => (hboth t mem).1) (fun t mem => (hboth t mem).2)
      length_carried_le carried_isMatured ?_ ?_
    · rw [hcooling]
      exact h.distinct
    · rw [hmatured]
      exact Nat.zero_le 1
  exact hshaped.perm hfrees (List.Perm.of_eq hlocks)

/-- Folding an amount into a vector with few matured tranches.

Either a tranche of the current epoch grows, and the epochs stay as they are, or
a new one is added, and then none of the current epoch was there. -/
private theorem Shaped.fold {mid : List (Lock Tranche)} (h : Shaped e (frees mid) (locks mid))
    (hfew : ((frees mid).filter fun t => t.isMatured e).length ≤ 1) (hamount : 0 < amount)
    (hfold : foldSameEpoch e amount mid = .ok ts') : Shaped e (frees ts') (locks ts') := by
  -- A tranche of this epoch is still cooling down.
  have hyoung : ∀ t : Tranche, t.unstakeEpoch = e → t.isMatured e = false := by
    intro t ht
    refine decide_eq_false ?_
    rw [ht, unstakeCooldownPeriod]
    omega
  obtain ⟨hlocks, hcases⟩ := foldSameEpoch_cases hfold
  rw [hlocks]
  rcases hcases with ⟨t, rest, hepoch, hbefore, hafter⟩ | ⟨hfresh, hafter⟩
  · have hold := h.perm hbefore.symm (List.Perm.refl _)
    have hgrown : ({ t with withdrawalAmount := t.withdrawalAmount + amount } :
      Tranche).isMatured e = false := hyoung _ hepoch
    refine Shaped.perm (.of_few_matured ?_ ?_ h.oneLock h.locked_matured ?_ ?_) hafter
      (List.Perm.refl _)
    · intro t' mem
      rcases List.mem_cons.mp mem with rfl | hrest
      · exact Nat.lt_of_lt_of_le hamount (Nat.le_add_left _ _)
      · exact hold.pos t' (List.mem_cons_of_mem _ hrest)
    · intro t' mem
      rcases List.mem_cons.mp mem with rfl | hrest
      · exact Nat.le_of_eq hepoch
      · exact hold.past t' (List.mem_cons_of_mem _ hrest)
    · have hdistinct := hold.distinct
      rw [List.filter_cons_of_pos (by simp [hyoung t hepoch])] at hdistinct
      rw [List.filter_cons_of_pos (by simp [hgrown])]
      exact hdistinct
    · rw [(hbefore.filter _).length_eq, List.filter_cons_of_neg (by simp [hyoung t hepoch])] at hfew
      rwa [List.filter_cons_of_neg (by simp [hgrown])]
  · have hnew : (Tranche.new amount e).isMatured e = false := hyoung _ rfl
    refine Shaped.perm (.of_few_matured ?_ ?_ h.oneLock h.locked_matured ?_ ?_) hafter
      (List.Perm.refl _)
    · intro t' mem
      rcases List.mem_cons.mp mem with rfl | hrest
      · exact hamount
      · exact h.pos t' hrest
    · intro t' mem
      rcases List.mem_cons.mp mem with rfl | hrest
      · exact Nat.le_refl e
      · exact h.past t' hrest
    · rw [List.filter_cons_of_pos (by simp [hnew]), List.map_cons, List.nodup_cons]
      refine ⟨fun mem => ?_, h.distinct⟩
      obtain ⟨t, ht, hsame⟩ := List.mem_map.mp mem
      exact hfresh t (List.mem_filter.mp ht).1 hsame
    · rwa [List.filter_cons_of_neg (by simp [hnew])]

/-- An append of a positive amount keeps the shape.

The collapse leaves at most one matured tranche, and the fold keeps it so: its
tranche is of the current epoch. -/
theorem Shaped.append (h : Shaped e (frees ts) (locks ts)) (hamount : 0 < amount)
    (happend : Tranches.append e amount ts = .ok ts') : Shaped e (frees ts') (locks ts') := by
  obtain ⟨mid, hlocks, hfrees, hfold⟩ := append_cases happend
  obtain ⟨hboth, hcooling, hmatured⟩ := collapsed_shape h
  have hfew : ((cooling e ts ++ carried e ts).filter fun t => t.isMatured e).length ≤ 1 := by
    rw [hmatured]
    exact length_carried_le
  have hcollapsed : Shaped e (cooling e ts ++ carried e ts) (locks ts) := by
    refine .of_few_matured ?_ ?_ h.oneLock h.locked_matured ?_ hfew
    · intro t mem
      rcases List.mem_append.mp mem with hfree | hlocked
      · exact (hboth t hfree).1
      · exact h.pos t (List.mem_append_right _ hlocked)
    · intro t mem
      rcases List.mem_append.mp mem with hfree | hlocked
      · exact (hboth t hfree).2
      · exact h.past t (List.mem_append_right _ hlocked)
    · rw [hcooling]
      exact h.distinct
  refine (hcollapsed.perm hfrees hlocks).fold ?_ hamount hfold
  rwa [(hfrees.filter _).length_eq]

end Tranches

end LiquidStaking
