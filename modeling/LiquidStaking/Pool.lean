import LiquidStaking.FungibleToken
import LiquidStaking.Requests
import Mathlib.Tactic.Simps.Basic

/-!
# The contract state and its books

`LiquidStakingToken` is the whole persistent state: the LST, the withdrawal
queue, the configured accounts and the `PoolStatistics`.  This file has the
operations every method of the contract is built from: the checked counters, the
LST moves that keep the holder count, the two conversions between NEAR and LST,
the reward sync and the initializer.

Next to each panicking operation stands the pure update it performs (`addStake`,
`credit`, `recognize`, ...) and a theorem that says when it succeeds.  The
updates are record updates with `simps` projections, so what an operation leaves
alone is decided by `simp`.
-/

namespace LiquidStaking

open Checked

/-- `BPS_DENOMINATOR`. -/
def bpsDenominator : ℕ := 10000

/-- `MAX_MESSAGE_LENGTH`. -/
def maxMessageLength : ℕ := 4096

/-! ## Gas

The static gas of the calls that the contract schedules. -/

def ftTransferGas : ℕ := tgas 2
def ftTransferCallGasMin : ℕ := tgas 30
def modifyStateAfterStakeGas : ℕ := tgas 10
def storageDepositGas : ℕ := tgas 5
def restakeGas : ℕ := tgas 20
def gasReserve : ℕ := tgas 15
def nearDepositGas : ℕ := tgas 10
def nearWithdrawGas : ℕ := tgas 10

/-- `calculate_min_gas`. -/
def calculateMinGas (minGas : Option ℕ) (isCall : Bool) : ℕ :=
  let min := if isCall then ftTransferCallGasMin else ftTransferGas
  max (minGas.getD min) min

/-! ## Statistics

The counters, and the state around them. -/

/-- `PoolStatistics`.

`latestTotalBalance` is the NEAR that the pool has accounted for, staked and
liquid together: what the live balance exceeds it by is a reward at the next
sync. -/
structure PoolStatistics where
  latestTotalBalance : ℕ
  totalStakedAmount : ℕ
  totalPendingWithdrawals : ℕ
  protocolFeeBps : ℕ
  lastEpochSynced : ℕ
  numDelegators : ℕ
  deriving DecidableEq, Repr

/-- The state of the contract.

The plugins' own storage is not part of it; what they decide comes in with each
receipt. -/
structure LiquidStakingToken (H : Type) where
  token : FungibleToken
  withdrawalRequests : WithdrawalRequests H
  ownerId : AccountId
  wnearId : AccountId
  treasuryId : AccountId
  validatorPublicKey : PublicKey
  statistics : PoolStatistics

namespace LiquidStakingToken

variable {H : Type} (s : LiquidStakingToken H)

/-! ### The pure updates -/

/-- The books' stake, raised. -/
@[simps]
def addStake (n : ℕ) : LiquidStakingToken H :=
  { s with statistics :=
    { s.statistics with totalStakedAmount := s.statistics.totalStakedAmount + n } }

/-- The books' stake, lowered. -/
@[simps]
def subStake (n : ℕ) : LiquidStakingToken H :=
  { s with statistics :=
    { s.statistics with totalStakedAmount := s.statistics.totalStakedAmount - n } }

/-- The tracked total balance, raised. -/
@[simps]
def addBalance (n : ℕ) : LiquidStakingToken H :=
  { s with statistics :=
    { s.statistics with latestTotalBalance := s.statistics.latestTotalBalance + n } }

/-- The tracked total balance, lowered. -/
@[simps]
def subBalance (n : ℕ) : LiquidStakingToken H :=
  { s with statistics :=
    { s.statistics with latestTotalBalance := s.statistics.latestTotalBalance - n } }

/-- The pending withdrawals, raised. -/
@[simps]
def addPending (n : ℕ) : LiquidStakingToken H :=
  { s with statistics :=
    { s.statistics with totalPendingWithdrawals := s.statistics.totalPendingWithdrawals + n } }

/-- The pending withdrawals, lowered. -/
@[simps]
def subPending (n : ℕ) : LiquidStakingToken H :=
  { s with statistics :=
    { s.statistics with totalPendingWithdrawals := s.statistics.totalPendingWithdrawals - n } }

/-- Another protocol fee. -/
@[simps]
def withFee (feeBps : ℕ) : LiquidStakingToken H :=
  { s with statistics := { s.statistics with protocolFeeBps := feeBps } }

/-- Another validator key. -/
@[simps]
def withKey (key : PublicKey) : LiquidStakingToken H := { s with validatorPublicKey := key }

/-- Another queue. -/
@[simps]
def withQueue (q : WithdrawalRequests H) : LiquidStakingToken H :=
  { s with withdrawalRequests := q }

/-- Another token ledger, with the holder count that goes with it. -/
@[simps]
def withToken (t : FungibleToken) (holders : ℕ) : LiquidStakingToken H :=
  { s with token := t, statistics := { s.statistics with numDelegators := holders } }

/-- `is_zero_balance`. -/
def isZeroBalance (a : AccountId) : Bool := decide (s.token.ftBalanceOf a = 0)

/-- The holder count after one account changed: one more when it had nothing and
has something now, one less the other way round. -/
def recount (count : ℕ) (wasZero isZero : Bool) : ℕ :=
  match wasZero, isZero with
  | true, false => count + 1
  | false, true => count - 1
  | _, _ => count

/-- The LST ledger replaced, and one account recounted. -/
@[simps!]
def retoken (t : FungibleToken) (a : AccountId) : LiquidStakingToken H :=
  s.withToken t (recount s.statistics.numDelegators (s.isZeroBalance a)
    (decide (t.ftBalanceOf a = 0)))

/-- Mint to an account. -/
@[simps! token withdrawalRequests wnearId treasuryId validatorPublicKey
  statistics_latestTotalBalance statistics_totalStakedAmount statistics_totalPendingWithdrawals
  statistics_protocolFeeBps statistics_lastEpochSynced statistics_numDelegators]
def credit (a : AccountId) (n : ℕ) : LiquidStakingToken H := s.retoken (s.token.mint a n) a

/-- Burn from an account. -/
@[simps! token withdrawalRequests wnearId treasuryId validatorPublicKey
  statistics_latestTotalBalance statistics_totalStakedAmount statistics_totalPendingWithdrawals
  statistics_protocolFeeBps statistics_lastEpochSynced statistics_numDelegators]
def debit (a : AccountId) (n : ℕ) : LiquidStakingToken H := s.retoken (s.token.burn a n) a

/-! ### The checked counters -/

/-- `increase_stake_amount`. -/
def increaseStakeAmount (amount : ℕ) : Except String (LiquidStakingToken H) := do
  let total ← expect (checkedAdd 128 s.statistics.totalStakedAmount amount)
    "Overflow while adding stake amount"
  return { s with statistics := { s.statistics with totalStakedAmount := total } }

/-- `decrease_stake_amount`. -/
def decreaseStakeAmount (amount : ℕ) : Except String (LiquidStakingToken H) := do
  let total ← expect (checkedSub s.statistics.totalStakedAmount amount)
    "Underflow while removing stake amount"
  return { s with statistics := { s.statistics with totalStakedAmount := total } }

/-- `increase_total_balance`. -/
def increaseTotalBalance (amount : ℕ) : Except String (LiquidStakingToken H) := do
  let total ← expect (checkedAdd 128 s.statistics.latestTotalBalance amount)
    "Overflow while adding total balance"
  return { s with statistics := { s.statistics with latestTotalBalance := total } }

/-- `decrease_total_balance`. -/
def decreaseTotalBalance (amount : ℕ) : Except String (LiquidStakingToken H) := do
  let total ← expect (checkedSub s.statistics.latestTotalBalance amount)
    "Underflow while removing total balance"
  return { s with statistics := { s.statistics with latestTotalBalance := total } }

/-- `increase_pending_withdrawals`. -/
def increasePendingWithdrawals (amount : ℕ) : Except String (LiquidStakingToken H) := do
  let total ← expect (checkedAdd 128 s.statistics.totalPendingWithdrawals amount)
    "Overflow while adding pending withdrawals"
  return { s with statistics := { s.statistics with totalPendingWithdrawals := total } }

/-- `decrease_pending_withdrawals`. -/
def decreasePendingWithdrawals (amount : ℕ) : Except String (LiquidStakingToken H) := do
  let total ← expect (checkedSub s.statistics.totalPendingWithdrawals amount)
    "Underflow while removing pending withdrawals"
  return { s with statistics := { s.statistics with totalPendingWithdrawals := total } }

/-- `increase_delegators`. -/
def increaseDelegators : Except String (LiquidStakingToken H) := do
  let count ← expect (checkedAdd 64 s.statistics.numDelegators 1)
    "Overflow while increasing delegator"
  return { s with statistics := { s.statistics with numDelegators := count } }

/-- `decrease_delegators`: saturates at zero. -/
def decreaseDelegators : LiquidStakingToken H :=
  { s with statistics := { s.statistics with numDelegators := s.statistics.numDelegators - 1 } }

section Counters

variable {s} {s' : LiquidStakingToken H} {n : ℕ}

/-- The counters succeed within their word, and then do the pure update. -/
@[simp] theorem increaseStakeAmount_eq_ok :
    s.increaseStakeAmount n = .ok s' ↔
      s.statistics.totalStakedAmount + n < 2 ^ 128 ∧ s.addStake n = s' := by
  simp [increaseStakeAmount, addStake, and_assoc]

@[simp] theorem decreaseStakeAmount_eq_ok :
    s.decreaseStakeAmount n = .ok s' ↔
      n ≤ s.statistics.totalStakedAmount ∧ s.subStake n = s' := by
  simp [decreaseStakeAmount, subStake, and_assoc]

@[simp] theorem increaseTotalBalance_eq_ok :
    s.increaseTotalBalance n = .ok s' ↔
      s.statistics.latestTotalBalance + n < 2 ^ 128 ∧ s.addBalance n = s' := by
  simp [increaseTotalBalance, addBalance, and_assoc]

@[simp] theorem decreaseTotalBalance_eq_ok :
    s.decreaseTotalBalance n = .ok s' ↔
      n ≤ s.statistics.latestTotalBalance ∧ s.subBalance n = s' := by
  simp [decreaseTotalBalance, subBalance, and_assoc]

@[simp] theorem increasePendingWithdrawals_eq_ok :
    s.increasePendingWithdrawals n = .ok s' ↔
      s.statistics.totalPendingWithdrawals + n < 2 ^ 128 ∧ s.addPending n = s' := by
  simp [increasePendingWithdrawals, addPending, and_assoc]

@[simp] theorem decreasePendingWithdrawals_eq_ok :
    s.decreasePendingWithdrawals n = .ok s' ↔
      n ≤ s.statistics.totalPendingWithdrawals ∧ s.subPending n = s' := by
  simp [decreasePendingWithdrawals, subPending, and_assoc]

end Counters

/-! ### Moving LST -/

/-- `update_delegators`. -/
def updateDelegators (a : AccountId) (wasZero : Bool) :
    Except String (LiquidStakingToken H) :=
  match wasZero, s.isZeroBalance a with
  | true, false => s.increaseDelegators
  | false, true => .ok s.decreaseDelegators
  | _, _ => .ok s

/-- `internal_deposit`. -/
def internalDeposit (a : AccountId) (amount : ℕ) : Except String (LiquidStakingToken H) := do
  let wasZero := s.isZeroBalance a
  let token ← s.token.internalDeposit a amount
  { s with token }.updateDelegators a wasZero

/-- `internal_withdraw`. -/
def internalWithdraw (a : AccountId) (amount : ℕ) : Except String (LiquidStakingToken H) := do
  let wasZero := s.isZeroBalance a
  let token ← s.token.internalWithdraw a amount
  { s with token }.updateDelegators a wasZero

/-- `internal_transfer`. -/
def internalTransfer (sender receiver : AccountId) (amount : ℕ) :
    Except String (LiquidStakingToken H) := do
  let s ← s.internalWithdraw sender amount
  s.internalDeposit receiver amount

/-- `treasury_deposit`. -/
def treasuryDeposit (amount : ℕ) : Except String (LiquidStakingToken H) :=
  s.internalDeposit s.treasuryId amount

/-- The holder count has room for one more. -/
def HolderRoom : Prop := s.statistics.numDelegators + 1 < 2 ^ 64

section Moves

variable {s} {s' : LiquidStakingToken H} {a : AccountId} {n : ℕ}

theorem updateDelegators_eq_ok {wasZero : Bool} :
    s.updateDelegators a wasZero = .ok s' ↔
      (wasZero = true ∧ s.token.ftBalanceOf a ≠ 0 → s.HolderRoom) ∧
        s.withToken s.token (recount s.statistics.numDelegators wasZero
          (s.isZeroBalance a)) = s' := by
  unfold updateDelegators
  by_cases hzero : s.token.ftBalanceOf a = 0 <;> cases wasZero <;>
    simp [isZeroBalance, hzero, recount, withToken, decreaseDelegators, increaseDelegators,
      HolderRoom, and_assoc]

/-- A deposit succeeds for a registered account when nothing overflows. -/
theorem internalDeposit_eq_ok :
    s.internalDeposit a n = .ok s' ↔
      s.token.isRegistered a = true ∧ s.token.ftBalanceOf a + n < 2 ^ 128 ∧
        s.token.totalSupply + n < 2 ^ 128 ∧
        (s.token.ftBalanceOf a = 0 ∧ n ≠ 0 → s.HolderRoom) ∧ s.credit a n = s' := by
  simp only [internalDeposit, bind_eq_ok, FungibleToken.internalDeposit_eq_ok,
    updateDelegators_eq_ok, isZeroBalance, decide_eq_true_eq, credit, retoken, withToken,
    HolderRoom]
  constructor
  · rintro ⟨_, ⟨hreg, hb, hs, rfl⟩, hroom, rfl⟩
    refine ⟨hreg, hb, hs, fun hnew => hroom ⟨hnew.1, ?_⟩, rfl⟩
    simpa [hnew.1] using hnew.2
  · rintro ⟨hreg, hb, hs, hroom, rfl⟩
    refine ⟨_, ⟨hreg, hb, hs, rfl⟩, fun hnew => hroom ⟨hnew.1, ?_⟩, rfl⟩
    simpa [hnew.1] using hnew.2

/-- A withdrawal succeeds when the balance and the supply cover it. -/
theorem internalWithdraw_eq_ok :
    s.internalWithdraw a n = .ok s' ↔
      s.token.isRegistered a = true ∧ n ≤ s.token.ftBalanceOf a ∧
        n ≤ s.token.totalSupply ∧ s.debit a n = s' := by
  simp only [internalWithdraw, bind_eq_ok, FungibleToken.internalWithdraw_eq_ok,
    updateDelegators_eq_ok, isZeroBalance, decide_eq_true_eq, debit, retoken, withToken,
    HolderRoom]
  constructor
  · rintro ⟨_, ⟨hreg, hb, hs, rfl⟩, -, rfl⟩
    exact ⟨hreg, hb, hs, rfl⟩
  · rintro ⟨hreg, hb, hs, rfl⟩
    refine ⟨_, ⟨hreg, hb, hs, rfl⟩, fun hnew => ?_, rfl⟩
    exact absurd (by simp [hnew.1]) hnew.2

theorem internalTransfer_eq_ok {sender receiver : AccountId} :
    s.internalTransfer sender receiver n = .ok s' ↔
      ∃ s₁, s.internalWithdraw sender n = .ok s₁ ∧ s₁.internalDeposit receiver n = .ok s' := by
  simp [internalTransfer]

end Moves

/-! ### Conversions -/

/-- `mul_div_floor`.  The product is formed in 128 bits and, where that
overflows, in 256, so that only the quotient has to fit. -/
def mulDivFloor (a b c : ℕ) : Except String ℕ := do
  require (0 < c) "Division by zero in mul_div_floor"
  match checkedMul 128 a b with
  | some product => return product / c
  | none =>
      -- Promoted to 256 bits; only the way back can fail.
      let result := a * b / c
      expect (if result < 2 ^ 128 then some result else none) "Overflow in mul_div_floor"

/-- `near_to_lst`.  One for one while there is no supply or no stake. -/
def nearToLst (near : ℕ) : Except String ℕ :=
  if s.token.totalSupply = 0 ∨ s.statistics.totalStakedAmount = 0 then .ok near
  else mulDivFloor near s.token.totalSupply s.statistics.totalStakedAmount

/-- `lst_to_near`.  Worth nothing while there is no supply. -/
def lstToNear (lst : ℕ) : Except String ℕ :=
  if s.token.totalSupply = 0 then .ok 0
  else mulDivFloor lst s.statistics.totalStakedAmount s.token.totalSupply

/-- `split_protocol_fee`: the reward without the fee, and the fee. -/
def splitProtocolFee (amount : ℕ) : Except String (ℕ × ℕ) := do
  if s.statistics.protocolFeeBps = 0 then return (amount, 0)
  let fee ← mulDivFloor amount s.statistics.protocolFeeBps bpsDenominator
  let net ← expect (checkedSub amount fee) "Protocol fee exceeds the reward amount"
  return (net, fee)

/-- The LST that `near` buys at the current rate. -/
def lstFor (near : ℕ) : ℕ :=
  if s.token.totalSupply = 0 ∨ s.statistics.totalStakedAmount = 0 then near
  else near * s.token.totalSupply / s.statistics.totalStakedAmount

/-- The NEAR that `lst` is worth at the current rate. -/
def nearFor (lst : ℕ) : ℕ := lst * s.statistics.totalStakedAmount / s.token.totalSupply

section Conversions

variable {s}

theorem mulDivFloor_eq_ok {a b c d : ℕ} (h : mulDivFloor a b c = .ok d) :
    0 < c ∧ d = a * b / c := by
  simp only [mulDivFloor, bind_eq_ok, require_eq_ok] at h
  obtain ⟨_, hc, h⟩ := h
  refine ⟨hc, ?_⟩
  split at h
  · next product hproduct =>
      obtain ⟨-, rfl⟩ := checkedMul_eq_some.mp hproduct
      exact (pure_eq_ok.mp h).symm
  · rw [expect_eq_ok, Option.ite_none_right_eq_some] at h
    exact (Option.some.inj h.2).symm

theorem nearToLst_eq_ok {near lst : ℕ} (h : s.nearToLst near = .ok lst) :
    lst = s.lstFor near := by
  unfold nearToLst at h
  unfold lstFor
  split at h
  · next hempty => rw [if_pos hempty, Except.ok.inj h]
  · next hpool => rw [if_neg hpool, (mulDivFloor_eq_ok h).2]

theorem lstToNear_eq_ok {lst near : ℕ} (h : s.lstToNear lst = .ok near) :
    near = s.nearFor lst := by
  unfold lstToNear at h
  unfold nearFor
  split at h
  · next hempty => rw [hempty, Nat.div_zero, Except.ok.inj h]
  · exact (mulDivFloor_eq_ok h).2

theorem splitProtocolFee_eq_ok {amount net fee : ℕ}
    (h : s.splitProtocolFee amount = .ok (net, fee)) :
    fee = amount * s.statistics.protocolFeeBps / bpsDenominator ∧ net + fee = amount := by
  unfold splitProtocolFee at h
  split at h
  · next hzero =>
      obtain ⟨rfl, rfl⟩ := Prod.mk.inj (Except.ok.inj h)
      simp [hzero]
  · simp only [bind_eq_ok, expect_eq_ok, checkedSub_eq_some, pure_eq_ok, Prod.mk.injEq] at h
    obtain ⟨f, hf, n, ⟨hle, rfl⟩, rfl, rfl⟩ := h
    exact ⟨(mulDivFloor_eq_ok hf).2, Nat.sub_add_cancel hle⟩

end Conversions

/-! ### The reward sync -/

/-- `SyncRewardsResult`. -/
inductive SyncRewardsResult where
  | noRewards
  | alreadySynced
  | balanceBelowTracked
  | rewardsSynced (reward : ℕ)
  deriving DecidableEq, Repr

/-- `sync_rewards_internal`.

At most once per epoch: the live balance, less a deposit that is not booked yet,
is compared with the tracker.  What it is above is a reward: the fee is minted
to the treasury as LST at the rate after the rest of the reward, and the reward
is added to the stake and to the tracker. -/
def syncRewardsInternal (env : Env) (amountToExclude : Option ℕ) :
    Except String (LiquidStakingToken H × SyncRewardsResult) := do
  if env.epochHeight = s.statistics.lastEpochSynced then return (s, .alreadySynced)
  let balance ← expect ((checkedAdd 128 env.accountLockedBalance env.accountBalance).bind
    fun balance => checkedSub balance (amountToExclude.getD 0))
    "Overflow while calculating actual total balance"
  match checkedSub balance s.statistics.latestTotalBalance with
  | none => return (s, .balanceBelowTracked)
  | some reward =>
      if reward = 0 then return (s, .noRewards)
      let (usersReward, feeNear) ← s.splitProtocolFee reward
      let s ← s.increaseStakeAmount usersReward
      let feeLst ← s.nearToLst feeNear
      let s ← s.treasuryDeposit feeLst
      let s ← s.increaseStakeAmount feeNear
      return ({ s with statistics :=
        { s.statistics with lastEpochSynced := env.epochHeight, latestTotalBalance := balance } },
        .rewardsSynced reward)

/-- Recognize `reward` NEAR of rewards against `feeLst` LST for the treasury. -/
@[simps! token withdrawalRequests wnearId treasuryId validatorPublicKey
  statistics_latestTotalBalance statistics_totalStakedAmount statistics_totalPendingWithdrawals
  statistics_protocolFeeBps statistics_lastEpochSynced statistics_numDelegators]
def recognize (reward feeLst epoch : ℕ) : LiquidStakingToken H :=
  let s := ((s.credit s.treasuryId feeLst).addStake reward).addBalance reward
  { s with statistics := { s.statistics with lastEpochSynced := epoch } }

/-- The fee on a reward, in NEAR. -/
def feeOn (reward : ℕ) : ℕ := reward * s.statistics.protocolFeeBps / bpsDenominator

/-- How a sync at `epoch` with a live balance of `balance` ends: with the state
as it was, or with a reward recognized.

The second constructor carries every check that was passed on the way, so that
later proofs do not go back to the code. -/
inductive Synced (epoch balance excluded : ℕ) (s : LiquidStakingToken H) :
    LiquidStakingToken H → SyncRewardsResult → Prop
  /-- Nothing is recognized: synced already, nothing to recognize, or a balance
  below the tracker. -/
  | idle (result : SyncRewardsResult) (none : ∀ reward, result ≠ .rewardsSynced reward) :
      Synced epoch balance excluded s s result
  /-- What the balance exceeds the tracker by is a reward. -/
  | reward (reward feeLst : ℕ) (pos : 0 < reward)
      (balance_eq : balance = s.statistics.latestTotalBalance + reward + excluded)
      (bounded : balance < 2 ^ 128) (fee_le : s.feeOn reward ≤ reward)
      (feeLst_eq : feeLst = (s.addStake (reward - s.feeOn reward)).lstFor (s.feeOn reward))
      (supply_bounded : s.token.totalSupply + feeLst < 2 ^ 128)
      (stake_bounded : s.statistics.totalStakedAmount + reward < 2 ^ 128)
      (registered : s.token.isRegistered s.treasuryId = true)
      (fresh : epoch ≠ s.statistics.lastEpochSynced) :
      Synced epoch balance excluded s (s.recognize reward feeLst epoch)
        (.rewardsSynced reward)

/-- **What a sync did**: the inversion of the code. -/
theorem syncRewardsInternal_eq_ok {s s' : LiquidStakingToken H} {env : Env}
    {amountToExclude : Option ℕ} {result : SyncRewardsResult}
    (h : s.syncRewardsInternal env amountToExclude = .ok (s', result)) :
    Synced env.epochHeight (env.accountLockedBalance + env.accountBalance)
      (amountToExclude.getD 0) s s' result := by
  unfold syncRewardsInternal at h
  split at h
  · obtain ⟨rfl, rfl⟩ := Prod.mk.inj (Except.ok.inj h)
    exact .idle _ (by simp)
  next hfresh =>
  simp only [bind_eq_ok, expect_eq_ok, Option.bind_eq_some_iff, checkedAdd_eq_some,
    checkedSub_eq_some] at h
  obtain ⟨balance, ⟨_, ⟨hbounded, rfl⟩, hexcluded, rfl⟩, h⟩ := h
  split at h
  · obtain ⟨rfl, rfl⟩ := Prod.mk.inj (Except.ok.inj h)
    exact .idle _ (by simp)
  next reward hreward =>
  obtain ⟨hle, hreward⟩ := checkedSub_eq_some.mp hreward
  split at h
  · obtain ⟨rfl, rfl⟩ := Prod.mk.inj (Except.ok.inj h)
    exact .idle _ (by simp)
  next hpos =>
  simp only [bind_eq_ok, Prod.exists, increaseStakeAmount_eq_ok, treasuryDeposit,
    internalDeposit_eq_ok, pure_eq_ok, Prod.mk.injEq] at h
  obtain ⟨users, fee, hsplit, _, ⟨-, rfl⟩, feeLst, hquote, _, ⟨hreg, -, hsupply, -, rfl⟩, _,
    ⟨hstake, rfl⟩, rfl, rfl⟩ := h
  obtain ⟨hfee, hnet⟩ := splitProtocolFee_eq_ok hsplit
  have hfeeOn : s.feeOn reward = fee := hfee.symm
  have husers : users = reward - s.feeOn reward := by omega
  -- The source adds the two parts of the reward one after the other.
  have hstaked : s.statistics.totalStakedAmount + users + fee < 2 ^ 128 := hstake
  have hrecognized : Synced env.epochHeight (env.accountLockedBalance + env.accountBalance)
      (amountToExclude.getD 0) s (s.recognize reward feeLst env.epochHeight)
      (.rewardsSynced reward) :=
    .reward reward feeLst (by omega) (by omega) hbounded (by omega)
      (by rw [nearToLst_eq_ok hquote, husers, hfeeOn]) hsupply (by omega) hreg hfresh
  convert hrecognized using 1
  have hbalance : env.accountLockedBalance + env.accountBalance - amountToExclude.getD 0 =
      s.statistics.latestTotalBalance + reward := by omega
  have htotal : s.statistics.totalStakedAmount + users + fee =
      s.statistics.totalStakedAmount + reward := by omega
  simp only [recognize, credit, retoken, withToken, addStake, addBalance, isZeroBalance,
    hbalance, htotal]
  rfl

/-! ### The panics -/

/-- What a deposit panics with. -/
def depositPanics : List String :=
  ["The account is not registered", "Balance overflow", "Total supply overflow",
    "Overflow while increasing delegator"]

/-- What a withdrawal panics with, when the balance covers it. -/
def withdrawPanics : List String :=
  ["The account is not registered", "Total supply overflow", "Overflow while increasing delegator"]

/-- A withdrawal of more than the account holds. -/
def balanceTooLow : String := "The account doesn't have enough balance"

/-- What the conversions panic with. -/
def mulDivPanics : List String :=
  ["Division by zero in mul_div_floor", "Overflow in mul_div_floor"]

/-- What a sync panics with. -/
def syncPanics : List String :=
  ["Overflow while calculating actual total balance", "Protocol fee exceeds the reward amount",
    "Overflow while adding stake amount"] ++ mulDivPanics ++ depositPanics

section Panics

variable {s} {texts : List String} {a : AccountId} {n : ℕ}

theorem increaseStakeAmount_avoids (h : "Overflow while adding stake amount" ∉ texts) :
    Avoids texts (s.increaseStakeAmount n) :=
  (avoids_expect fun _ => h).bind fun _ _ => avoids_pure _

theorem decreaseStakeAmount_avoids (h : "Underflow while removing stake amount" ∉ texts) :
    Avoids texts (s.decreaseStakeAmount n) :=
  (avoids_expect fun _ => h).bind fun _ _ => avoids_pure _

theorem decreaseTotalBalance_avoids (h : "Underflow while removing total balance" ∉ texts) :
    Avoids texts (s.decreaseTotalBalance n) :=
  (avoids_expect fun _ => h).bind fun _ _ => avoids_pure _

theorem updateDelegators_avoids {wasZero : Bool}
    (h : "Overflow while increasing delegator" ∉ texts) :
    Avoids texts (s.updateDelegators a wasZero) := by
  unfold updateDelegators
  split
  · exact (avoids_expect fun _ => h).bind fun _ _ => avoids_pure _
  · exact avoids_ok _
  · exact avoids_ok _

theorem internalDeposit_avoids (h : ∀ msg ∈ depositPanics, msg ∉ texts) :
    Avoids texts (s.internalDeposit a n) := by
  refine Avoids.bind ?_ fun _ _ => updateDelegators_avoids (h _ (by decide))
  refine (avoids_expect fun _ => h _ (by decide)).bind fun _ _ => ?_
  refine (avoids_expect fun _ => h _ (by decide)).bind fun _ _ => ?_
  exact (avoids_expect fun _ => h _ (by decide)).bind fun _ _ => avoids_pure _

/-- A withdrawal of no more than the account holds is not refused for its
amount. -/
theorem internalWithdraw_avoids (hle : s.token.ftBalanceOf a < n → balanceTooLow ∉ texts)
    (h : ∀ msg ∈ withdrawPanics, msg ∉ texts) : Avoids texts (s.internalWithdraw a n) := by
  refine Avoids.bind ?_ fun _ _ => updateDelegators_avoids (h _ (by decide))
  refine (avoids_expect fun _ => h _ (by decide)).bind fun balance hbalance => ?_
  obtain ⟨-, rfl⟩ := FungibleToken.internalUnwrapBalanceOf_eq_ok.mp hbalance
  refine (avoids_expect fun hnone => hle (checkedSub_eq_none.mp hnone)).bind fun _ _ => ?_
  exact (avoids_expect fun _ => h _ (by decide)).bind fun _ _ => avoids_pure _

theorem mulDivFloor_avoids {b k : ℕ} (h : ∀ msg ∈ mulDivPanics, msg ∉ texts) :
    Avoids texts (mulDivFloor n b k) := by
  refine (avoids_require fun _ => h _ (by decide)).bind fun _ _ => ?_
  split
  · exact avoids_pure _
  · exact avoids_expect fun _ => h _ (by decide)

theorem nearToLst_avoids (h : ∀ msg ∈ mulDivPanics, msg ∉ texts) :
    Avoids texts (s.nearToLst n) := by
  unfold nearToLst
  split_ifs
  · exact avoids_ok _
  · exact mulDivFloor_avoids h

theorem lstToNear_avoids (h : ∀ msg ∈ mulDivPanics, msg ∉ texts) :
    Avoids texts (s.lstToNear n) := by
  unfold lstToNear
  split_ifs
  · exact avoids_ok _
  · exact mulDivFloor_avoids h

theorem splitProtocolFee_avoids (h : ∀ msg ∈ mulDivPanics, msg ∉ texts)
    (hfee : "Protocol fee exceeds the reward amount" ∉ texts) :
    Avoids texts (s.splitProtocolFee n) := by
  unfold splitProtocolFee
  split_ifs
  · exact avoids_pure _
  · refine (mulDivFloor_avoids h).bind fun _ _ => ?_
    exact (avoids_expect fun _ => hfee).bind fun _ _ => avoids_pure _

theorem syncRewardsInternal_avoids {env : Env} {excluded : Option ℕ}
    (h : ∀ msg ∈ syncPanics, msg ∉ texts) : Avoids texts (s.syncRewardsInternal env excluded) := by
  have hmulDiv : ∀ msg ∈ mulDivPanics, msg ∉ texts := fun msg mem => h msg (by
    simp [syncPanics, mem])
  unfold syncRewardsInternal
  split_ifs
  · exact avoids_pure _
  refine (avoids_expect fun _ => h _ (by decide)).bind fun balance _ => ?_
  split
  · exact avoids_pure _
  split_ifs
  · exact avoids_pure _
  refine (splitProtocolFee_avoids hmulDiv (h _ (by decide))).bind fun ⟨users, fee⟩ _ => ?_
  refine (increaseStakeAmount_avoids (h _ (by decide))).bind fun _ _ => ?_
  refine (nearToLst_avoids hmulDiv).bind fun _ _ => ?_
  refine (internalDeposit_avoids fun msg mem => h msg (by simp [syncPanics, mem])).bind
    fun _ _ => ?_
  exact (increaseStakeAmount_avoids (h _ (by decide))).bind fun _ _ => avoids_pure _

end Panics

/-! ### Deployment -/

/-- `new`.  The NEAR found staked becomes the treasury's LST, one for one. -/
def new (host : Host H) (env : Env) (ownerId wnearId treasuryId : AccountId)
    (validatorPublicKey : PublicKey) : Except String (LiquidStakingToken H) := do
  let token ← FungibleToken.new.internalRegisterAccount host.currentAccountId
  let token ← onlyIf (host.currentAccountId ≠ treasuryId)
    (token.internalRegisterAccount treasuryId) token
  let latestTotalBalance ← expect
    (checkedAdd 128 env.accountLockedBalance env.accountBalance)
    "Overflow while calculating total balance"
  let contract : LiquidStakingToken H :=
    { token, withdrawalRequests := ∅, ownerId, wnearId, treasuryId, validatorPublicKey
      statistics := ⟨latestTotalBalance, env.accountLockedBalance, 0, 0, 0, 0⟩ }
  if 0 < env.accountLockedBalance then contract.treasuryDeposit env.accountLockedBalance
  else return contract

/-- A contract just initialized: the stake it found locked belongs to the
treasury, and nobody but the pool and the treasury is registered. -/
structure Initial (host : Host H) (env : Env) (wnearId treasuryId : AccountId)
    (s : LiquidStakingToken H) : Prop where
  wnearId_eq : s.wnearId = wnearId
  treasuryId_eq : s.treasuryId = treasuryId
  balance_eq : s.statistics.latestTotalBalance = env.accountLockedBalance + env.accountBalance
  stake_eq : s.statistics.totalStakedAmount = env.accountLockedBalance
  pending_eq : s.statistics.totalPendingWithdrawals = 0
  fee_eq : s.statistics.protocolFeeBps = 0
  epoch_eq : s.statistics.lastEpochSynced = 0
  queue_eq : s.withdrawalRequests = ∅
  supply_eq : s.token.totalSupply = env.accountLockedBalance
  registered_iff : ∀ a, s.token.isRegistered a = true ↔
    a = host.currentAccountId ∨ a = treasuryId
  balanceOf_eq : ∀ a, s.token.ftBalanceOf a =
    if a = treasuryId then env.accountLockedBalance else 0
  balanced : s.token.Balanced

/-- The accounts `new` registers: the pool, and the treasury if it is another. -/
private theorem register_eq_ok {host : Host H} {treasuryId : AccountId} {t₁ t : FungibleToken}
    (h₁ : FungibleToken.new.internalRegisterAccount host.currentAccountId = .ok t₁)
    (h : onlyIf (host.currentAccountId ≠ treasuryId) (t₁.internalRegisterAccount treasuryId) t₁ =
      .ok t) :
    t.totalSupply = 0 ∧ (∀ a, t.ftBalanceOf a = 0) ∧ t.Balanced ∧
      ∀ a, t.isRegistered a = true ↔ a = host.currentAccountId ∨ a = treasuryId := by
  obtain ⟨hfresh, rfl⟩ := FungibleToken.internalRegisterAccount_eq_ok.mp h₁
  have hpool : (FungibleToken.new.register host.currentAccountId).Balanced :=
    FungibleToken.new_balanced.register hfresh
  have hzero : ∀ a, (FungibleToken.new.register host.currentAccountId).ftBalanceOf a = 0 := by
    intro a
    rw [FungibleToken.ftBalanceOf_register]
    split_ifs <;> rfl
  have hreg : ∀ a, (FungibleToken.new.register host.currentAccountId).isRegistered a = true ↔
      a = host.currentAccountId := by
    intro a
    rw [FungibleToken.isRegistered_register, show FungibleToken.new.isRegistered a = false from rfl,
      Bool.or_false, decide_eq_true_eq]
  by_cases hsame : host.currentAccountId = treasuryId
  · rw [onlyIf_neg (not_not.mpr hsame)] at h
    obtain rfl := Except.ok.inj h
    refine ⟨rfl, hzero, hpool, fun a => (hreg a).trans ?_⟩
    rw [← hsame, or_self]
  · rw [onlyIf_pos hsame] at h
    obtain ⟨hnew, rfl⟩ := FungibleToken.internalRegisterAccount_eq_ok.mp h
    refine ⟨rfl, fun a => ?_, hpool.register hnew, fun a => ?_⟩
    · rw [FungibleToken.ftBalanceOf_register, hzero, ite_self]
    · rw [FungibleToken.isRegistered_register, Bool.or_eq_true, decide_eq_true_eq, hreg, or_comm]

theorem new_initial {host : Host H} {env : Env} {ownerId wnearId treasuryId : AccountId}
    {key : PublicKey} {s : LiquidStakingToken H}
    (h : new host env ownerId wnearId treasuryId key = .ok s) :
    Initial host env wnearId treasuryId s := by
  simp only [new, bind_eq_ok, expect_eq_ok, checkedAdd_eq_some] at h
  obtain ⟨t₁, h₁, t, ht, total, ⟨-, rfl⟩, h⟩ := h
  obtain ⟨hsupply, hzero, hbalanced, hreg⟩ := register_eq_ok h₁ ht
  split_ifs at h with hlocked
  · obtain ⟨-, -, -, -, rfl⟩ := internalDeposit_eq_ok.mp h
    refine ⟨rfl, rfl, rfl, rfl, rfl, rfl, rfl, rfl, ?_, fun a => ?_, fun a => ?_, ?_⟩
    · simp [hsupply]
    · simp only [credit_token, FungibleToken.isRegistered_mint, Bool.or_eq_true,
        decide_eq_true_eq, hreg]
      tauto
    · simp only [credit_token, FungibleToken.ftBalanceOf_mint, hzero, Nat.zero_add]
    · exact hbalanced.mint treasuryId env.accountLockedBalance
  · obtain rfl := pure_eq_ok.mp h
    have hnone : env.accountLockedBalance = 0 := by omega
    refine ⟨rfl, rfl, rfl, rfl, rfl, rfl, rfl, rfl, ?_, hreg, fun a => ?_, hbalanced⟩
    · rw [hsupply, hnone]
    · rw [hzero, hnone, ite_self]

/-- `restake_promise`: set the stake with the validator to what the books hold. -/
def restakePromise (host : Host H) : Receipt H :=
  ⟨host.currentAccountId, [.stake s.statistics.totalStakedAmount s.validatorPublicKey], none⟩

end LiquidStakingToken

end LiquidStaking
