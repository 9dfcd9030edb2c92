import LiquidStaking.Steps

/-!
# Calls from outside

Every public method, called by somebody other than the pool, does one of the
things `Entry` lists; the private callbacks reject such a caller.  Together with
the callbacks of `LiquidStaking.Steps` this covers the contract's code.

There is one theorem for each method (`stake_isEntry`, `withdraw_isEntry`, …),
and `callMethod_isEntry` puts them together.  Where a method makes a difference
between the pool and other callers (`storage_deposit` books the price for others
only, `ft_on_transfer` takes LST from the pool and wNEAR from the wNEAR
contract), it is here that the caller is not the pool; the pool's own calls are
receipts of its chains, and belong to `Advance`.

Three methods need more than going through their branches.

* `withdraw` has to find the tranche again that its sweep has just locked
  (`withdrawWnear_eq_ok`).
* `storage_unregister` counts the holders before it knows whether the account
  held any LST.
* `ping` and the two setters run a sync, whose result only `ping` looks at.
-/

namespace LiquidStaking

open Checked PromiseChain

section Entries

variable {H : Type} {host : Host H} {env : Env} {s : LiquidStakingToken H} {o : Outcome H}

/-- The environment a call from outside runs in: its own deposit, no result to
read.

The deposit is the one that travels with the call, so the balance of the account
holds it already. -/
def Env.arriving (env : Env) : Env := env.forCall env.attachedDeposit none

@[simp] theorem Env.arriving_predecessorAccountId (env : Env) :
    env.arriving.predecessorAccountId = env.predecessorAccountId := rfl

/-- The chain that a call from outside leaves is in phase `p`: done with the
value it returned, or waiting for the receipts it has scheduled. -/
def Starts (host : Host H) (wnear : AccountId) (ret : Return H) (p : Phase H) : Prop :=
  match ret with
  | .value v => p = .continuing .finish (.successful v)
  | .promise next => p.tasks host wnear = next ∧ p.input = none ∧ p.Valid host

/-- The source tells callers apart by comparing them with the account of the
contract. -/
theorem isExternalCall_arriving (hext : env.predecessorAccountId ≠ host.currentAccountId) :
    LiquidStakingToken.isExternalCall host env.arriving = true :=
  decide_eq_true hext.symm

variable [DecidableEq H]

/-- What a method did for a caller from outside is one of the listed entries.
As for callbacks, the method is unfolded, its checks are read off, and each
branch is one constructor. -/
def IsEntry (host : Host H) (env : Env) (s : LiquidStakingToken H) (m : Method H)
    (o : Outcome H) : Prop :=
  ∃ p, Entry host env s m o.state p o.detached ∧ Starts host s.wnearId o.ret p

/-- A `stake` whose quote is rejected panics, so that the deposit goes back;
only the other branch is left. -/
theorem stake_isEntry {args : StakeMessage}
    (hext : env.predecessorAccountId ≠ host.currentAccountId)
    (h : s.stake host env.arriving args = .ok o) : IsEntry host env s (.stake args) o := by
  simp only [LiquidStakingToken.stake, bind_eq_ok, Prod.exists] at h
  obtain ⟨_, -, _, -, _, -, s₁, result, hsync, quote, hquote, h⟩ := h
  have hsynced := LiquidStakingToken.syncRewardsInternal_eq_ok hsync
  rw [Env.arriving_predecessorAccountId, if_neg hext] at hsynced
  split at h
  · obtain rfl := Except.ok.inj h
    obtain ⟨o, hquoted, hsender, hargs, hdeposit, htoken, rfl⟩ := stakeAndDeposit_eq_ok hquote
    refine ⟨_, .stake args s₁ result o hsynced hquoted hsender hargs hdeposit htoken, rfl, rfl,
      hquoted.deposit_eq, hquoted.stake_pos, hquoted.lst_pos, fun _ => ?_⟩
    rw [hsender]
    exact hext
  · cases h

/-- LST can only come from the pool, so that a caller from outside has sent
wNEAR. -/
theorem ftOnTransfer_isEntry {senderId : AccountId} {amount : ℕ} {msg : String}
    (hext : env.predecessorAccountId ≠ host.currentAccountId)
    (h : s.ftOnTransfer host env.arriving senderId amount msg = .ok o) :
    IsEntry host env s (.ftOnTransfer senderId amount msg) o := by
  simp only [LiquidStakingToken.ftOnTransfer, bind_eq_ok] at h
  obtain ⟨_, -, h⟩ := h
  split at h
  · next hwnear =>
      simp only [bind_eq_ok, LiquidStakingToken.handleStaking, pure_eq_ok,
        LiquidStakingToken.increaseTotalBalance_eq_ok] at h
      obtain ⟨args, -, _, -, _, -, _, ⟨hroom, rfl⟩, rfl⟩ := h
      exact ⟨_, .book senderId amount msg args hwnear hroom, rfl, rfl, trivial⟩
  · rw [Env.arriving_predecessorAccountId, if_neg hext] at h
    cases h

/-- `ft_transfer` passes its checks to the token library. -/
theorem ftTransfer_isEntry {receiverId : AccountId} {amount : ℕ} {memo : Option String}
    (h : s.ftTransfer env.arriving receiverId amount = .ok o) :
    IsEntry host env s (.ftTransfer receiverId amount memo) o := by
  simp only [LiquidStakingToken.ftTransfer, bind_eq_ok, pure_eq_ok] at h
  obtain ⟨_, -, s₁, hmove, rfl⟩ := h
  obtain ⟨-, -, -, -, -, rfl⟩ := LiquidStakingToken.transferTokens_eq_ok hmove
  exact ⟨_, .transfer receiverId amount memo hmove, rfl⟩

/-- `ft_transfer_call` returns a promise: the receiver is asked, and the
resolver runs behind it. -/
theorem ftTransferCall_isEntry {receiverId : AccountId} {amount : ℕ} {memo : Option String}
    {msg : String} (hext : env.predecessorAccountId ≠ host.currentAccountId)
    (h : s.ftTransferCall host env.arriving receiverId amount msg = .ok o) :
    IsEntry host env s (.ftTransferCall receiverId amount memo msg) o := by
  simp only [LiquidStakingToken.ftTransferCall, bind_eq_ok, pure_eq_ok] at h
  obtain ⟨_, -, _, -, s₁, hmove, rfl⟩ := h
  obtain ⟨-, hpos, -, -, -, rfl⟩ := LiquidStakingToken.transferTokens_eq_ok hmove
  exact ⟨_, .transferCall receiverId amount memo msg hmove, rfl, rfl, ⟨rfl, rfl, hext⟩, hpos⟩

/-- The promise of a wNEAR withdrawal is the one of its attempt, and the claim
covers what the attempt takes out of it: the registration and what is wNEAR
already. -/
theorem withdrawWnear_eq_ok {a : Attempt} {isStorageDeposit : Bool} {msg memo : Option String}
    {minGas : Option ℕ} {promise : List (Receipt H)}
    (htokens : a.args.withdrawTokens = .wnear isStorageDeposit msg memo minGas)
    (hlocked : WithdrawalRequests.lockedTranche s.withdrawalRequests (a.hash host) =
      .ok a.tranche)
    (h : s.withdrawWnear host a.args.receiverId isStorageDeposit msg memo minGas
      a.tranche.withdrawalAmount (a.hash host) = .ok promise) :
    a.Fits host ∧ promise = [a.batch host s.wnearId,
      LiquidStakingToken.onWithdrawWnearCall host (a.hash host) a.amountToSend (a.cost host)
        a.storageToPay (a.isCall host)] := by
  simp only [LiquidStakingToken.withdrawWnear, bind_eq_ok, require_eq_ok, hlocked,
    Except.ok.injEq, expect_eq_ok, checkedSub_eq_some, pure_eq_ok, exists_eq_left'] at h
  obtain ⟨_, hself, _, ⟨hstorage, rfl⟩, _, ⟨hresidual, rfl⟩, _, -, rfl⟩ := h
  have hasks : a.asksStorage = isStorageDeposit := by simp [Attempt.asksStorage, htokens]
  have hmsg : a.msg = msg := by simp [Attempt.msg, htokens]
  have hmemo : a.memo = memo := by simp [Attempt.memo, htokens]
  have hgas : a.minGas = minGas := by simp [Attempt.minGas, htokens]
  subst hasks hmsg hmemo hgas
  refine ⟨⟨hstorage, hresidual, fun hreceiver => ?_⟩, rfl⟩
  by_contra hasks
  exact hself ⟨hreceiver, by simpa using hasks⟩

/-- A withdrawal goes on only if its sweep has found something, and then what is
locked is what it has found. -/
theorem withdraw_isEntry {args : UnstakeMessage}
    (h : s.withdraw host env.arriving args = .ok o) : IsEntry host env s (.withdraw args) o := by
  simp only [LiquidStakingToken.withdraw, bind_eq_ok, Prod.exists, require_eq_ok] at h
  obtain ⟨_, -, _, -, amount, q, hsweep, _, hpos, h⟩ := h
  obtain ⟨-, t, rfl, heffect⟩ := WithdrawalRequests.amountOfMaturedTranches_effect hsweep hpos
  have hlocks : WithdrawalRequests.locksAt q (host.hash args) = [t] :=
    List.perm_singleton.mp (heffect Tranches.additive_withdrawalAmount).locks
  split at h
  · next htokens =>
      obtain rfl := Except.ok.inj h
      exact ⟨_, .withdrawNative ⟨args, t⟩ q htokens hsweep hpos hlocks, rfl, rfl, htokens⟩
  · next isStorageDeposit msg memo minGas htokens =>
      simp only [bind_eq_ok, pure_eq_ok] at h
      obtain ⟨promise, hpromise, rfl⟩ := h
      have hlocked : WithdrawalRequests.lockedTranche q (host.hash args) = .ok t := by
        rw [WithdrawalRequests.lockedTranche_eq_ok, hlocks]
        rfl
      have hwrapped : args.withdrawTokens ≠ .native := by simp [htokens]
      obtain ⟨hfits, rfl⟩ := withdrawWnear_eq_ok (a := ⟨args, t⟩) htokens hlocked hpromise
      exact ⟨_, .withdrawWnear ⟨args, t⟩ q hwrapped hsweep hpos hlocks hfits, rfl, rfl,
        hwrapped, hfits⟩

/-- Four ways of `sync_rewards_internal` to return; a `ping` whose sync is
postponed panics. -/
theorem ping_isEntry (h : s.ping host env.arriving = .ok o) : IsEntry host env s .ping o := by
  simp only [LiquidStakingToken.ping, bind_eq_ok, Prod.exists] at h
  obtain ⟨_, -, s₁, result, hsync, h⟩ := h
  have hsynced := LiquidStakingToken.syncRewardsInternal_eq_ok hsync
  split at h
  · obtain rfl := Except.ok.inj h
    exact ⟨_, .pingIdle _ s₁ hsynced (by simp), rfl⟩
  · obtain rfl := Except.ok.inj h
    exact ⟨_, .pingIdle _ s₁ hsynced (by simp), rfl⟩
  · obtain rfl := Except.ok.inj h
    exact ⟨_, .ping _ s₁ hsynced, rfl, rfl, trivial⟩
  · cases h

/-- What `storage_deposit` does for its own account and for somebody else's is
the same. -/
theorem storageDeposit_isEntry {accountId : Option AccountId} {registrationOnly : Option Bool}
    (hext : env.predecessorAccountId ≠ host.currentAccountId)
    (h : s.storageDeposit host env.arriving accountId = .ok o) :
    IsEntry host env s (.storageDeposit accountId registrationOnly) o := by
  obtain ⟨state, ret, detached⟩ := o
  obtain ⟨rfl, ⟨hreg, rfl, rfl⟩ | ⟨hfresh, hle, rfl, hstate⟩⟩ := storageDeposit_eq_ok rfl h
  · exact ⟨_, .storageKnown accountId registrationOnly hreg, rfl⟩
  · rw [if_neg (show host.currentAccountId ≠ env.arriving.predecessorAccountId from hext.symm)]
      at hstate
    obtain ⟨hroom, rfl⟩ := hstate
    exact ⟨_, .storageNew accountId registrationOnly hfresh hle hroom, rfl⟩

/-- Nothing can be withdrawn from a storage balance that is all locked: the
library's check on the amount is passed with zero or none. -/
theorem storageWithdraw_isEntry {amount : Option ℕ}
    (hext : env.predecessorAccountId ≠ host.currentAccountId)
    (h : s.storageWithdraw host env.arriving amount = .ok o) :
    IsEntry host env s (.storageWithdraw amount) o := by
  simp only [LiquidStakingToken.storageWithdraw, FungibleToken.storageWithdraw, bind_eq_ok,
    Env.assertOneYocto, require_eq_ok, pure_eq_ok] at h
  obtain ⟨_, ⟨_, hyocto, _, -, -⟩, s₁, hbook, rfl⟩ := h
  rw [onlyIf_pos (isExternalCall_arriving hext),
    LiquidStakingToken.increaseTotalBalance_eq_ok] at hbook
  obtain ⟨hroom, rfl⟩ := hbook
  exact ⟨_, .storageWithdraw amount hyocto hroom, rfl⟩

/-- Two branches of the library, an account or none, and in the first the pool's
own books of the price and of the number of holders. -/
theorem storageUnregister_isEntry {force : Option Bool}
    (h : s.storageUnregister host env.arriving force = .ok o) :
    IsEntry host env s (.storageUnregister force) o := by
  simp only [LiquidStakingToken.storageUnregister, FungibleToken.storageUnregister, bind_eq_ok,
    Env.assertOneYocto, require_eq_ok, Prod.exists] at h
  obtain ⟨_, ⟨hext, hordinary⟩, t, unregistered, ⟨_, hyocto, htoken⟩, h⟩ := h
  have hexternal : LiquidStakingToken.isExternalCall host env.arriving = true :=
    isExternalCall_arriving hext
  split at htoken
  · next balance hlook =>
      simp only [bind_eq_ok, require_eq_ok, expect_eq_ok, checkedSub_eq_some, pure_eq_ok,
        Prod.mk.injEq] at htoken
      obtain ⟨_, hforced, _, ⟨-, rfl⟩, rfl, rfl⟩ := htoken
      have hbalance : s.token.ftBalanceOf env.predecessorAccountId = balance := by
        simp [FungibleToken.ftBalanceOf, show s.token.accounts.lookup env.predecessorAccountId =
          some balance from hlook]
      have hreg : s.token.isRegistered env.predecessorAccountId = true := by
        simp [FungibleToken.isRegistered, show s.token.accounts.lookup
          env.predecessorAccountId = some balance from hlook]
      subst hbalance
      rw [onlyIf_pos hexternal] at h
      simp only [if_true, LiquidStakingToken.decreaseTotalBalance_eq_ok, pure_eq_ok] at h
      obtain ⟨_, ⟨hle, rfl⟩, rfl⟩ := h
      -- Whether the account counted as a holder, and so whether it is one no
      -- more.
      by_cases hzero : s.token.ftBalanceOf env.predecessorAccountId = 0
      · have hisZero : s.isZeroBalance env.arriving.predecessorAccountId = true :=
          decide_eq_true hzero
        simp only [hisZero, Bool.not_true, Bool.and_false, Bool.false_eq_true, if_false]
          at hle ⊢
        exact ⟨_, .unregister force _ hyocto hreg hordinary hforced hle (by rw [if_pos hzero]),
          rfl⟩
      · have hisZero : s.isZeroBalance env.arriving.predecessorAccountId = false :=
          decide_eq_false hzero
        simp only [hisZero, hforced.resolve_left hzero, decide_true, Bool.not_false,
          Bool.and_true, if_true] at hle ⊢
        exact ⟨_, .unregister _ _ hyocto hreg hordinary (.inr rfl) hle (by rw [if_neg hzero]),
          rfl⟩
  · simp only [pure_eq_ok, Prod.mk.injEq] at htoken
    obtain ⟨rfl, rfl⟩ := htoken
    rw [onlyIf_pos hexternal] at h
    simp only [Bool.false_eq_true, if_false, Bool.false_and, pure_eq_ok,
      LiquidStakingToken.increaseTotalBalance_eq_ok] at h
    obtain ⟨_, ⟨hroom, rfl⟩, rfl⟩ := h
    exact ⟨_, .unregisterNone force hyocto hroom, rfl⟩

/-- The setters ask for the admin and one yoctoNEAR first. -/
theorem setProtocolFeeBps_isEntry {feeBps : ℕ}
    (h : s.setProtocolFeeBps env.arriving feeBps = .ok o) :
    IsEntry host env s (.setProtocolFeeBps feeBps) o := by
  simp only [LiquidStakingToken.setProtocolFeeBps, bind_eq_ok, Env.requireAdmin,
    Env.assertOneYocto, require_eq_ok, Prod.exists, pure_eq_ok] at h
  obtain ⟨_, hadmin, _, hyocto, _, hcap, s₁, result, hsync, rfl⟩ := h
  exact ⟨_, .setFee feeBps s₁ result hadmin hyocto hcap
    (LiquidStakingToken.syncRewardsInternal_eq_ok hsync), rfl⟩

/-- The key is replaced first; the stake is then sent out again under the new
one, with the callback of a ping behind it. -/
theorem setValidatorPublicKey_isEntry {key : PublicKey}
    (h : s.setValidatorPublicKey host env.arriving key = .ok o) :
    IsEntry host env s (.setValidatorPublicKey key) o := by
  simp only [LiquidStakingToken.setValidatorPublicKey, bind_eq_ok, Env.requireAdmin,
    Env.assertOneYocto, require_eq_ok, Prod.exists, pure_eq_ok] at h
  obtain ⟨_, hadmin, _, hyocto, s₁, result, hsync, rfl⟩ := h
  exact ⟨_, .setKey key s₁ result hadmin hyocto
    (LiquidStakingToken.syncRewardsInternal_eq_ok hsync), rfl, rfl, trivial⟩

/-- A full access key is added by a receipt of its own; the state stays. -/
theorem addFullAccessKey_isEntry {key : PublicKey}
    (h : s.addFullAccessKey host env.arriving key = .ok o) :
    IsEntry host env s (.addFullAccessKey key) o := by
  simp only [LiquidStakingToken.addFullAccessKey, bind_eq_ok, Env.requireAdmin,
    Env.assertOneYocto, require_eq_ok, pure_eq_ok] at h
  obtain ⟨_, hadmin, _, hyocto, rfl⟩ := h
  exact ⟨_, .addKey key hadmin hyocto, rfl, rfl, trivial⟩

/-- A forced release is the release of the callbacks, called by an admin. -/
theorem forceReleaseLock_isEntry {hash : H}
    (h : s.forceReleaseLock env.arriving hash = .ok o) :
    IsEntry host env s (.forceReleaseLock hash) o := by
  simp only [LiquidStakingToken.forceReleaseLock, bind_eq_ok, Env.requireAdmin,
    Env.assertOneYocto, require_eq_ok, pure_eq_ok] at h
  obtain ⟨_, hadmin, _, hyocto, rfl⟩ := h
  exact ⟨_, .forceRelease hash _ hadmin hyocto, rfl⟩

/-- **Whoever calls from outside** does one of the listed things.

The methods of wNEAR are receipts for another contract and do not run here, and
the private callbacks refuse every caller but the pool. -/
theorem callMethod_isEntry {m : Method H}
    (hext : env.predecessorAccountId ≠ host.currentAccountId)
    (h : callMethod host env.arriving s m = .ok o) : IsEntry host env s m o := by
  have hprivate : ∀ u, env.arriving.requirePrivate host.currentAccountId ≠ .ok u :=
    fun u hok => hext (require_eq_ok.mp hok)
  simp only [callMethod, bind_eq_ok] at h
  obtain ⟨_, -, h⟩ := h
  cases m with
  | stake args => exact stake_isEntry hext h
  | ftOnTransfer senderId amount msg => exact ftOnTransfer_isEntry hext h
  | ftTransfer receiverId amount memo => exact ftTransfer_isEntry h
  | ftTransferCall receiverId amount memo msg => exact ftTransferCall_isEntry hext h
  | withdraw args => exact withdraw_isEntry h
  | ping => exact ping_isEntry h
  | storageDeposit accountId registrationOnly => exact storageDeposit_isEntry hext h
  | storageWithdraw amount => exact storageWithdraw_isEntry hext h
  | storageUnregister force => exact storageUnregister_isEntry h
  | setProtocolFeeBps feeBps => exact setProtocolFeeBps_isEntry h
  | setValidatorPublicKey key => exact setValidatorPublicKey_isEntry h
  | addFullAccessKey key => exact addFullAccessKey_isEntry h
  | forceReleaseLock hash => exact forceReleaseLock_isEntry h
  | nearDeposit => cases h
  | nearWithdraw amount => cases h
  | onNearWithdraw | modifyStateBeforeStake | restakeOrRefund | onRestakeOrRefund
  | refundWnearDeposit | onFtOnTransfer | onUnstake | onWithdrawNative | onWithdrawWnear
  | onRestake | ftResolveTransfer =>
      obtain ⟨u, hok, -⟩ := bind_eq_ok.mp h
      exact absurd hok (hprivate u)

end Entries

end LiquidStaking
