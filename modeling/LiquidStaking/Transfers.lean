import LiquidStaking.Pool

/-!
# Moving and storing LST: core, resolver, storage

The NEP-141 and NEP-145 methods of the contract: `ft_transfer`,
`ft_transfer_call` and its resolver, and the storage methods.  They wrap the
token library, keep the holder count, and book in `latest_total_balance` what
the storage methods take in or pay out on behalf of others.

A committed method is an `Outcome`: the new state, what it returns, and the
receipts it sends without waiting for them.
-/

namespace LiquidStaking

open Checked PromiseChain

/-- What a committed method leaves behind: the state, what it returns, and what
it sends without waiting. -/
abbrev Outcome (H : Type) := Committed (LiquidStakingToken H) (Receipt H) Payload

namespace Outcome

variable {H : Type}

/-- The method returned a value. -/
def value (s : LiquidStakingToken H) (v : Payload) : Outcome H := ⟨s, .value v, []⟩

/-- The method returned a promise. -/
def promise (s : LiquidStakingToken H) (next : List (Receipt H)) : Outcome H :=
  ⟨s, .promise next, []⟩

end Outcome

/-- `FT_RESOLVE_TRANSFER_GAS`. -/
def ftResolveTransferGas : ℕ := tgas 15

/-- `Promise::new(account).transfer(amount).detach()`, left out for a zero
amount.

The contract does not learn whether it arrives. -/
def detachedPay {H : Type} (account : AccountId) (amount : ℕ) : List (Receipt H) :=
  if amount = 0 then [] else [.pay account amount]

namespace LiquidStakingToken

variable {H : Type} (host : Host H) (env : Env) (s : LiquidStakingToken H)

/-- The LST ledger replaced, and two accounts recounted, one after the other.

If the two are the same account, the second recount sees what the first left. -/
@[simps!]
def retokenBoth (t : FungibleToken) (a b : AccountId) : LiquidStakingToken H :=
  s.withToken t (recount (recount s.statistics.numDelegators (s.isZeroBalance a)
    (decide (t.ftBalanceOf a = 0))) (s.isZeroBalance b) (decide (t.ftBalanceOf b = 0)))

/-- The recount both `ft_transfer`s and the resolver end with.

Each account was or was not empty before; both are looked at again afterwards. -/
def updateBoth (t : FungibleToken) (a b : AccountId) : Except String (LiquidStakingToken H) := do
  let aWasZero := s.isZeroBalance a
  let bWasZero := s.isZeroBalance b
  let s ← { s with token := t }.updateDelegators a aWasZero
  s.updateDelegators b bWasZero

/-- `transfer_tokens`, which keeps the number of holders. -/
def transferTokens (receiverId : AccountId) (amount : ℕ) :
    Except String (LiquidStakingToken H) := do
  let token ← s.token.ftTransfer env receiverId amount
  s.updateBoth token env.predecessorAccountId receiverId

/-- `ft_transfer`. -/
def ftTransfer (receiverId : AccountId) (amount : ℕ) : Except String (Outcome H) := do
  env.requireNotPaused .ftTransfer
  let s ← s.transferTokens env receiverId amount
  return .value s .empty

/-- `ft_transfer_call`: the LST are moved at once, and the resolver takes back
what the receiver did not use. -/
def ftTransferCall (receiverId : AccountId) (amount : ℕ) (msg : String) :
    Except String (Outcome H) := do
  env.requireNotPaused .ftTransferCall
  env.assertGas (Gas.satAdd gasReserve ftResolveTransferGas)
  let senderId := env.predecessorAccountId
  let s ← s.transferTokens env receiverId amount
  return .promise s
    [.call receiverId (.ftOnTransfer senderId amount msg) 0 0,
      .call host.currentAccountId (.ftResolveTransfer senderId receiverId amount) 0
        ftResolveTransferGas]

/-- The body of `ft_resolve_transfer`: the state and the used amount.

`on_ft_on_transfer` runs it as well, with the pool as the sender. -/
def resolveTransfer (senderId receiverId : AccountId) (amount : ℕ) :
    Except String (LiquidStakingToken H × ℕ) := do
  let (token, used, _) ← s.token.internalFtResolveTransfer env senderId receiverId amount
  let s ← s.updateBoth token senderId receiverId
  return (s, used)

/-- `ft_resolve_transfer`. -/
def ftResolveTransfer (senderId receiverId : AccountId) (amount : ℕ) :
    Except String (Outcome H) := do
  env.requirePrivate host.currentAccountId
  let (s, used) ← s.resolveTransfer env senderId receiverId amount
  return .value s (.ofU128 used)

/-- `is_external_call`.  A call of the contract to itself pays from its own
balance, so the tracker does not move. -/
def isExternalCall : Bool := decide (host.currentAccountId ≠ env.predecessorAccountId)

/-- `is_registered` of the contract, by the balance that the storage methods
report. -/
def isRegistered (accountId : AccountId) : Bool :=
  match s.token.storageBalanceOf host.storageBalanceMin accountId with
  | some total => decide (ftStorageDeposit ≤ total)
  | none => false

/-- `storage_deposit`; what was attached beyond the price goes back.

The price is booked in the tracker, so it is never taken for a reward. -/
def storageDeposit (accountId : Option AccountId) : Except String (Outcome H) := do
  let target := accountId.getD env.predecessorAccountId
  let wasRegistered := s.token.isRegistered target
  let (token, refund) ← s.token.storageDeposit env host.storageBalanceMin accountId
  let s := { s with token }
  let s ← onlyIf (isExternalCall host env = true ∧ wasRegistered = false)
    (s.increaseTotalBalance host.storageBalanceMin) s
  return ⟨s, .value (.json 50), detachedPay env.predecessorAccountId refund⟩

/-- `storage_withdraw`, of nothing: no account has more than the minimum.  The
attached yocto is booked. -/
def storageWithdraw (amount : Option ℕ) : Except String (Outcome H) := do
  s.token.storageWithdraw env amount
  let s ← onlyIf (isExternalCall host env = true) (s.increaseTotalBalance oneYocto) s
  return .value s (.json 50)

/-- `storage_unregister`; the price of the registration and the attached yocto
go back when there was an account to remove. -/
def storageUnregister (force : Option Bool) : Except String (Outcome H) := do
  let accountId := env.predecessorAccountId
  require (accountId ≠ host.currentAccountId ∧ accountId ≠ s.treasuryId)
    "Pool and treasury accounts cannot unregister"
  let burnsLstBalance := decide (force = some true) && !s.isZeroBalance accountId
  let (token, unregistered) ← s.token.storageUnregister env force
  let s := { s with token }
  let s := if unregistered && burnsLstBalance then s.decreaseDelegators else s
  let s ← onlyIf (isExternalCall host env = true)
    (if unregistered then s.decreaseTotalBalance host.storageBalanceMin
      else s.increaseTotalBalance oneYocto) s
  return ⟨s, .value (.json (if unregistered then 4 else 5)),
    if unregistered then detachedPay accountId (host.storageBalanceMin + 1) else []⟩

/-! ## When they succeed -/

section Specs

variable {host env s} {s' : LiquidStakingToken H} {a b : AccountId} {amount : ℕ}

private theorem recount_same (count : ℕ) (isZero : Bool) : recount count isZero isZero = count := by
  cases isZero <;> rfl

/-- Recounting after nothing changed changes nothing. -/
theorem retokenBoth_self : s.retokenBoth s.token a b = s := by
  unfold retokenBoth isZeroBalance
  rw [recount_same, recount_same]
  rfl

/-- A recount that succeeds computes what the two balances say. -/
theorem updateBoth_eq_ok {t : FungibleToken} (h : s.updateBoth t a b = .ok s') :
    s.retokenBoth t a b = s' := by
  simp only [updateBoth, bind_eq_ok] at h
  obtain ⟨s₁, h₁, h₂⟩ := h
  obtain ⟨-, rfl⟩ := updateDelegators_eq_ok.mp h₁
  exact (updateDelegators_eq_ok.mp h₂).2

/-- The recount of two accounts succeeds while the count has room for two. -/
theorem updateBoth_ok (t : FungibleToken) (a b : AccountId)
    (hroom : s.statistics.numDelegators + 2 < 2 ^ 64) :
    s.updateBoth t a b = .ok (s.retokenBoth t a b) := by
  have hcount : recount s.statistics.numDelegators (s.isZeroBalance a)
      (decide (t.ftBalanceOf a = 0)) ≤ s.statistics.numDelegators + 1 := by
    unfold recount
    split <;> omega
  simp only [updateBoth, bind_eq_ok]
  refine ⟨_, updateDelegators_eq_ok.mpr ⟨fun _ => ?_, rfl⟩,
    updateDelegators_eq_ok.mpr ⟨fun _ => ?_, rfl⟩⟩
  · show s.statistics.numDelegators + 1 < 2 ^ 64
    omega
  · show recount s.statistics.numDelegators (s.isZeroBalance a)
      (decide (t.ftBalanceOf a = 0)) + 1 < 2 ^ 64
    omega

/-- **A transfer** moves a positive amount between two different registered
accounts. -/
theorem transferTokens_eq_ok (h : s.transferTokens env b amount = .ok s') :
    env.predecessorAccountId ≠ b ∧ 0 < amount ∧
      s.token.isRegistered env.predecessorAccountId = true ∧ s.token.isRegistered b = true ∧
      amount ≤ s.token.ftBalanceOf env.predecessorAccountId ∧
      s' = s.retokenBoth (s.token.move env.predecessorAccountId b amount)
        env.predecessorAccountId b := by
  simp only [transferTokens, FungibleToken.ftTransfer, bind_eq_ok] at h
  obtain ⟨t, ⟨_, -, htransfer⟩, hupdate⟩ := h
  obtain ⟨hne, hpos, hsender, hreceiver, hle, rfl⟩ :=
    FungibleToken.internalTransfer_eq_ok htransfer
  exact ⟨hne, hpos, hsender, hreceiver, hle, (updateBoth_eq_ok hupdate).symm⟩

/-- **The resolver** leaves the state alone, returns the unused LST to the
sender, or burns them. -/
theorem resolveTransfer_eq_ok {used : ℕ}
    (h : s.resolveTransfer env a b amount = .ok (s', used)) :
    ∃ t burned, FungibleToken.Resolved
        (FungibleToken.unusedAmount env.promiseResults.head? amount) amount a b s.token t
        used burned ∧ s' = s.retokenBoth t a b := by
  simp only [resolveTransfer, bind_eq_ok, pure_eq_ok, Prod.exists, Prod.mk.injEq] at h
  obtain ⟨t, _, burned, hresolve, _, hupdate, rfl, rfl⟩ := h
  exact ⟨t, burned, FungibleToken.internalFtResolveTransfer_eq_ok hresolve,
    (updateBoth_eq_ok hupdate).symm⟩

/-- An account registered with the contract is one of the token library. -/
theorem isRegistered_imp (h : s.isRegistered host a = true) : s.token.isRegistered a = true := by
  unfold isRegistered FungibleToken.storageBalanceOf at h
  by_contra hreg
  simp [hreg] at h

end Specs

end LiquidStakingToken

end LiquidStaking
