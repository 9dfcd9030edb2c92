import LiquidStaking.Backing
import Mathlib.Algebra.Order.Field.Rat
import Mathlib.Data.Rat.Cast.Order
import Mathlib.Tactic.FieldSimp
import Mathlib.Tactic.NormNum

/-!
# The protocol fee

A sync splits the reward, adds the users' part to the stake, mints LST for the
fee at the rate that results, and only then adds the fee itself.  So the fee is
a deposit into a pool that already has the rest of the reward, and all that can
be said of it are the rules for a deposit: it is worth at most the fee, it falls
short by less than one LST, and the LST that were there before keep the whole
rest.

* `syncRewardsInternal_books` — what the sync does to the stake and the ledger,
  exactly.
* `fee_worth` — what the fee and the LST of the others are worth, as exact
  rationals.
* `syncRewardsInternal_isOk` — a reward that is there is recognized; no step
  overflows.
* `sync_takes_fee` — the three together.
-/

namespace LiquidStaking

open Checked PromiseChain ShareRate

section Sync

variable {H : Type} {s s' : LiquidStakingToken H} {env : Env} {excluded : Option ℕ} {reward : ℕ}

/-- The stake with the users' part of a reward added. -/
def LiquidStakingToken.netStake (s : LiquidStakingToken H) (reward : ℕ) : ℕ :=
  s.statistics.totalStakedAmount + reward - s.feeOn reward

/-- The LST minted for the fee on a reward.

They are bought at the rate that the rest of the reward leaves, so the treasury
does not share in the reward it taxes. -/
def LiquidStakingToken.feeLst (s : LiquidStakingToken H) (reward : ℕ) : ℕ :=
  s.feeOn reward * s.token.totalSupply / s.netStake reward

/-- The fee is a part of the reward. -/
theorem feeOn_le (hfee : s.statistics.protocolFeeBps ≤ maxProtocolFeeBps) (reward : ℕ) :
    s.feeOn reward ≤ reward := by
  refine Nat.div_le_of_le_mul ?_
  rw [mul_comm]
  exact Nat.mul_le_mul_right reward (hfee.trans (by decide))

/-- With LST and stake there, the fee buys LST at the rate of the rest. -/
theorem lstFor_feeOn (hsupply : 0 < s.token.totalSupply)
    (hbacked : s.token.totalSupply ≤ s.statistics.totalStakedAmount)
    (hfee : s.feeOn reward ≤ reward) :
    (s.addStake (reward - s.feeOn reward)).lstFor (s.feeOn reward) = s.feeLst reward := by
  have hpool : ¬(s.token.totalSupply = 0 ∨
      s.statistics.totalStakedAmount + (reward - s.feeOn reward) = 0) := by omega
  have hnet : s.netStake reward = s.statistics.totalStakedAmount + (reward - s.feeOn reward) :=
    Nat.add_sub_assoc hfee _
  unfold LiquidStakingToken.lstFor LiquidStakingToken.feeLst
  rw [hnet]
  exact if_neg hpool

/-- What a sync that recognizes a reward does to the books.

The whole reward goes into the stake, with the fee paid for by LST of its own. -/
theorem syncRewardsInternal_books (hsupply : 0 < s.token.totalSupply)
    (hbacked : s.token.totalSupply ≤ s.statistics.totalStakedAmount)
    (hsync : s.syncRewardsInternal env excluded = .ok (s', .rewardsSynced reward)) :
    s'.statistics.totalStakedAmount = s.statistics.totalStakedAmount + reward ∧
      s'.token.totalSupply = s.token.totalSupply + s.feeLst reward ∧
      ∀ a, s'.token.ftBalanceOf a =
        s.token.ftBalanceOf a + if a = s.treasuryId then s.feeLst reward else 0 := by
  have hsynced := LiquidStakingToken.syncRewardsInternal_eq_ok hsync
  generalize hresult : LiquidStakingToken.SyncRewardsResult.rewardsSynced reward = result
    at hsynced
  cases hsynced with
  | idle result none => exact absurd hresult.symm (none reward)
  | reward r feeLst pos balance_eq bounded fee_le feeLst_eq =>
      obtain rfl := LiquidStakingToken.SyncRewardsResult.rewardsSynced.inj hresult
      rw [lstFor_feeOn hsupply hbacked fee_le] at feeLst_eq
      subst feeLst_eq
      refine ⟨rfl, rfl, fun a => ?_⟩
      rw [LiquidStakingToken.recognize_token, FungibleToken.ftBalanceOf_mint]
      by_cases ha : a = s.treasuryId
      · rw [if_pos ha, if_pos ha, ha]
      · rw [if_neg ha, if_neg ha, add_zero]

/-- The fee is paid for at the rate the rest of the reward leaves.

The two inequalities are the two sides of a rounded division, written without
it. -/
theorem feeLst_bounds (hsupply : 0 < s.token.totalSupply)
    (hbacked : s.token.totalSupply ≤ s.statistics.totalStakedAmount)
    (hfee : s.feeOn reward ≤ reward) :
    s.netStake reward * s.feeLst reward ≤ s.feeOn reward * s.token.totalSupply ∧
      s.feeOn reward * s.token.totalSupply < s.netStake reward * (s.feeLst reward + 1) := by
  have hnet : 0 < s.netStake reward := by
    unfold LiquidStakingToken.netStake
    omega
  exact ⟨Nat.mul_div_le _ _, Nat.lt_mul_div_succ _ hnet⟩

/-- A reward that is there is recognized, when the sums fit the word. -/
theorem syncRewardsInternal_isOk (hbacked : s.token.totalSupply ≤ s.statistics.totalStakedAmount)
    (hfee : s.statistics.protocolFeeBps ≤ maxProtocolFeeBps)
    (hfresh : env.epochHeight ≠ s.statistics.lastEpochSynced) (hpos : 0 < reward)
    (hbalance : (checkedAdd 128 env.accountLockedBalance env.accountBalance).bind
      (fun balance => checkedSub balance (excluded.getD 0)) =
        some (s.statistics.latestTotalBalance + reward))
    (hstake : s.statistics.totalStakedAmount + reward < 2 ^ 128)
    (hledger : s.token.Sound [s.treasuryId]) (hroom : s.HolderRoom) :
    ∃ s', s.syncRewardsInternal env excluded = .ok (s', .rewardsSynced reward) := by
  have hback : Backed s := ⟨hbacked, by omega, hfee⟩
  obtain ⟨hpart, hsplit⟩ := hback.splitProtocolFee_ok (show reward < 2 ^ 128 by omega)
  -- The fee is converted when the rest of the reward is at stake, and then an
  -- LST is worth at least one NEAR; so the fee is not worth more LST than NEAR,
  -- and the supply stays in range.
  have hnet : Backed (s.addStake (reward - s.feeOn reward)) := by
    refine ⟨hbacked.trans (Nat.le_add_right _ _), ?_, hfee⟩
    rw [LiquidStakingToken.addStake_statistics_totalStakedAmount]
    omega
  have hlst := hnet.lstFor_le (s.feeOn reward)
  have htreasury := hledger.balanced.ftBalanceOf_le s.treasuryId
  have hfound : checkedSub (s.statistics.latestTotalBalance + reward)
      s.statistics.latestTotalBalance = some reward := by simp
  have hdeposit : ∃ s₁, (s.addStake (reward - s.feeOn reward)).treasuryDeposit
      ((s.addStake (reward - s.feeOn reward)).lstFor (s.feeOn reward)) = .ok s₁ ∧
      s₁.statistics.totalStakedAmount =
        s.statistics.totalStakedAmount + (reward - s.feeOn reward) := by
    refine ⟨_, LiquidStakingToken.internalDeposit_eq_ok.mpr ⟨?_, ?_, ?_, fun _ => hroom, rfl⟩, rfl⟩
    · exact hledger.registered _ List.mem_cons_self
    · show s.token.ftBalanceOf s.treasuryId + _ < 2 ^ 128
      omega
    · show s.token.totalSupply + _ < 2 ^ 128
      omega
  obtain ⟨s₁, hminted, hstaked⟩ := hdeposit
  have hlast : s₁.increaseStakeAmount (s.feeOn reward) = .ok (s₁.addStake (s.feeOn reward)) := by
    refine LiquidStakingToken.increaseStakeAmount_eq_ok.mpr ⟨?_, rfl⟩
    omega
  have hfirst : s.increaseStakeAmount (reward - s.feeOn reward) =
      .ok (s.addStake (reward - s.feeOn reward)) :=
    LiquidStakingToken.increaseStakeAmount_eq_ok.mpr ⟨by omega, rfl⟩
  unfold LiquidStakingToken.syncRewardsInternal
  rw [if_neg hfresh, hbalance]
  simp only [expect, ok_bind, hfound, if_neg (Nat.pos_iff_ne_zero.mp hpos), hsplit, hfirst,
    hnet.nearToLst_eq (by omega : s.feeOn reward < 2 ^ 128), hminted, hlast]
  exact ⟨_, rfl⟩

/-- What the fee on a reward is worth, and the LST that were there before.

The rate is that after the sync, the one at which the treasury could redeem. -/
theorem fee_worth (hsupply : 0 < s.token.totalSupply)
    (hbacked : s.token.totalSupply ≤ s.statistics.totalStakedAmount)
    (hfee : s.feeOn reward ≤ reward) :
    let rate : ℚ := (s.statistics.totalStakedAmount + reward : ℚ) /
      (s.token.totalSupply + s.feeLst reward)
    s.feeLst reward * rate ≤ s.feeOn reward ∧
      (s.feeOn reward : ℚ) - s.netStake reward / s.token.totalSupply < s.feeLst reward * rate ∧
      (s.netStake reward : ℚ) ≤ s.token.totalSupply * rate := by
  intro rate
  obtain ⟨hle, hlt⟩ := feeLst_bounds hsupply hbacked hfee
  -- The fee is a deposit into the pool that has the rest of the reward.
  let pool : Holdings ℚ := ⟨s.netStake reward, s.token.totalSupply⟩
  have hstake : (s.netStake reward : ℚ) + s.feeOn reward =
      s.statistics.totalStakedAmount + reward := by
    have hsum : s.netStake reward + s.feeOn reward = s.statistics.totalStakedAmount + reward :=
      Nat.sub_add_cancel (hfee.trans (Nat.le_add_left _ _))
    exact_mod_cast hsum
  have hrate : ∀ l : ℚ, (pool.deposit (s.feeOn reward) (s.feeLst reward)).worth l = l * rate := by
    intro l
    unfold Holdings.worth Holdings.deposit
    rw [hstake, mul_div_assoc]
  have hshares : (0 : ℚ) < s.token.totalSupply := by exact_mod_cast hsupply
  have hnew : (0 : ℚ) < s.token.totalSupply + s.feeLst reward := by positivity
  have hbought : (s.netStake reward : ℚ) * s.feeLst reward ≤
      s.feeOn reward * s.token.totalSupply := by exact_mod_cast hle
  have hshort : (s.feeOn reward : ℚ) * s.token.totalSupply <
      s.netStake reward * (s.feeLst reward + 1) := by exact_mod_cast hlt
  refine ⟨?_, ?_, ?_⟩
  · exact hrate _ ▸ worth_deposit_le (p := pool) hnew hbought
  · exact hrate _ ▸ lt_worth_deposit (p := pool) (Nat.cast_nonneg _) hshares (Nat.cast_nonneg _)
      hshort
  · exact hrate _ ▸ le_worth_rest (p := pool) hnew hbought

/-- **The protocol fee takes its share and no more.**  A sync that recognizes a
reward adds it to the stake and mints only the LST the fee buys, to the
treasury; these are worth at most the fee, and less than one LST short of it,
and the LST that were there before keep the rest.  A reward that is there is
recognized whenever the stake it leads to fits.

The statement is about one sync, from any state with LST whose stake covers
them; in a run whose validator actions succeed the stake covers them always
(`Deployment.lst_backed`).  Worths are rationals, so that the rounding of the
code is visible in the bounds and not hidden in them. -/
theorem sync_takes_fee (hsupply : 0 < s.token.totalSupply)
    (hbacked : s.token.totalSupply ≤ s.statistics.totalStakedAmount)
    (hfee : s.statistics.protocolFeeBps ≤ maxProtocolFeeBps) (reward : ℕ) :
    (∀ s', s.syncRewardsInternal env excluded = .ok (s', .rewardsSynced reward) →
      let rate : ℚ := (s'.statistics.totalStakedAmount : ℚ) / s'.token.totalSupply
      s'.statistics.totalStakedAmount = s.statistics.totalStakedAmount + reward ∧
        s'.token.totalSupply = s.token.totalSupply + s.feeLst reward ∧
        (∀ a, s'.token.ftBalanceOf a =
          s.token.ftBalanceOf a + if a = s.treasuryId then s.feeLst reward else 0) ∧
        s.feeLst reward * rate ≤ s.feeOn reward ∧
        (s.feeOn reward : ℚ) - s.netStake reward / s.token.totalSupply < s.feeLst reward * rate ∧
        (s.netStake reward : ℚ) ≤ s.token.totalSupply * rate) ∧
    (env.epochHeight ≠ s.statistics.lastEpochSynced → 0 < reward →
      (checkedAdd 128 env.accountLockedBalance env.accountBalance).bind
        (fun balance => checkedSub balance (excluded.getD 0)) =
          some (s.statistics.latestTotalBalance + reward) →
      s.statistics.totalStakedAmount + reward < 2 ^ 128 → s.token.Sound [s.treasuryId] →
      s.HolderRoom →
      ∃ s', s.syncRewardsInternal env excluded = .ok (s', .rewardsSynced reward)) := by
  constructor
  · intro s' hsync rate
    obtain ⟨hstake, hminted, hbalances⟩ := syncRewardsInternal_books hsupply hbacked hsync
    have hrate : rate = (s.statistics.totalStakedAmount + reward : ℚ) /
        (s.token.totalSupply + s.feeLst reward) := by
      show (s'.statistics.totalStakedAmount : ℚ) / s'.token.totalSupply = _
      rw [hstake, hminted, Nat.cast_add, Nat.cast_add]
    rw [hrate]
    exact ⟨hstake, hminted, hbalances, fee_worth hsupply hbacked (feeOn_le hfee reward)⟩
  · intro hfresh hpos hbalance hfits hledger hroom
    exact syncRewardsInternal_isOk hbacked hfee hfresh hpos hbalance hfits hledger hroom

/-- A reward of 100 at a fee of 5 percent, on a stake of 200 for 100 LST. -/
private def sampleBooks : LiquidStakingToken Unit :=
  { token := ⟨(∅ : Store AccountId ℕ).insert "treasury" 100, 100⟩
    withdrawalRequests := ∅
    ownerId := "owner"
    wnearId := "wnear"
    treasuryId := "treasury"
    validatorPublicKey := "key"
    statistics := ⟨200, 200, 0, 500, 0, 1⟩ }

/-- A reward of 100 at a fee of 5 percent mints one LST. -/
theorem sync_takes_fee_sample :
    sampleBooks.feeOn 100 = 5 ∧ sampleBooks.feeLst 100 = 1 ∧
      ∃ s', sampleBooks.syncRewardsInternal (sampleEnv 200 100 1 "anyone" 0) none =
        .ok (s', .rewardsSynced 100) := by
  refine ⟨rfl, rfl, ?_⟩
  refine (sync_takes_fee (by decide) (by decide) (by decide) 100).2 (by decide) (by decide) rfl
    (by decide) ⟨rfl, List.forall_mem_singleton.mpr rfl⟩ ?_
  show 1 + 1 < 2 ^ 64
  decide

end Sync

end LiquidStaking
