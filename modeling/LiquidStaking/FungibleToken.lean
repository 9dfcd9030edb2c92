import LiquidStaking.Lib.Store
import LiquidStaking.Near
import Mathlib.Tactic.SplitIfs

/-!
# The LST token: the `FungibleToken` of near-contract-standards

The contract keeps its liquid staking token in the library's NEP-141
implementation.  Only its documented behaviour is modelled: balances per
registered account, a total supply, checked `u128` arithmetic, and NEP-145
storage management at a fixed registration price.

`mint` and `burn` are the two ways a balance moves; every library operation is
characterized by when it succeeds and by the `mint`s and `burn`s it performs.

## Main Results

* `Balanced` — the supply is the sum of the balances; kept by every operation.
* `Resolved` — the three ways in which a transfer call is resolved.
* `Sound` — the ledger is balanced and the accounts that the contract relies on
  stay registered.
-/

namespace LiquidStaking

open Checked

/-- `FungibleToken`: the balances of the registered accounts, and their total.

An account is registered when it has an entry, also one of zero. -/
structure FungibleToken where
  accounts : Store AccountId ℕ
  totalSupply : ℕ

namespace FungibleToken

/-- `FungibleToken::new`. -/
def new : FungibleToken := ⟨∅, 0⟩

/-- `ft_balance_of`: zero for an account that is not registered. -/
def ftBalanceOf (t : FungibleToken) (a : AccountId) : ℕ :=
  (t.accounts.lookup a).getD 0

/-- Whether the account has an entry. -/
def isRegistered (t : FungibleToken) (a : AccountId) : Bool :=
  (t.accounts.lookup a).isSome

/-- `storage_balance_of`, reduced to its total. -/
def storageBalanceOf (t : FungibleToken) (min : ℕ) (a : AccountId) :
    Option ℕ :=
  if t.isRegistered a then some min else none

/-- `internal_unwrap_balance_of`. -/
def internalUnwrapBalanceOf (t : FungibleToken) (a : AccountId) :
    Except String ℕ :=
  expect (t.accounts.lookup a) "The account is not registered"

/-- `internal_register_account`. -/
def internalRegisterAccount (t : FungibleToken) (a : AccountId) :
    Except String FungibleToken := do
  require (t.isRegistered a = false) "The account is already registered"
  return { t with accounts := t.accounts.insert a 0 }

/-- `internal_deposit`. -/
def internalDeposit (t : FungibleToken) (a : AccountId) (amount : ℕ) :
    Except String FungibleToken := do
  let balance ← t.internalUnwrapBalanceOf a
  let newBalance ← expect (checkedAdd 128 balance amount) "Balance overflow"
  let newSupply ← expect (checkedAdd 128 t.totalSupply amount) "Total supply overflow"
  return ⟨t.accounts.insert a newBalance, newSupply⟩

/-- `internal_withdraw`. -/
def internalWithdraw (t : FungibleToken) (a : AccountId) (amount : ℕ) :
    Except String FungibleToken := do
  let balance ← t.internalUnwrapBalanceOf a
  let newBalance ← expect (checkedSub balance amount)
    "The account doesn't have enough balance"
  let newSupply ← expect (checkedSub t.totalSupply amount) "Total supply overflow"
  return ⟨t.accounts.insert a newBalance, newSupply⟩

/-- `internal_transfer`. -/
def internalTransfer (t : FungibleToken) (sender receiver : AccountId)
    (amount : ℕ) : Except String FungibleToken := do
  require (sender ≠ receiver) "Sender and receiver should be different"
  require (0 < amount) "The amount should be a positive number"
  let t ← t.internalWithdraw sender amount
  t.internalDeposit receiver amount

/-- `ft_transfer`. -/
def ftTransfer (t : FungibleToken) (env : Env) (receiver : AccountId)
    (amount : ℕ) : Except String FungibleToken := do
  env.assertOneYocto
  t.internalTransfer env.predecessorAccountId receiver amount

/-- The unused amount `ft_on_transfer` reported: at most the amount sent, and
all of it when the call failed or its result is too long or does not parse.

The library reads the result with the same limit on its length as the pool does
in its own callbacks. -/
def unusedAmount (result : Option PromiseResult) (amount : ℕ) : ℕ :=
  match result with
  | some (.successful ⟨length, some unused⟩) =>
      if length ≤ maxResultLength then min amount unused else amount
  | _ => amount

/-- `internal_ft_resolve_transfer`: the used and the burned amount.

The receiver may have spent what it reports as unused, so no more than its
balance is taken back; and a sender who has unregistered meanwhile gets nothing,
the tokens are burned. -/
def internalFtResolveTransfer (t : FungibleToken) (env : Env)
    (sender receiver : AccountId) (amount : ℕ) :
    Except String (FungibleToken × ℕ × ℕ) := do
  let unused := unusedAmount env.promiseResults.head? amount
  let receiverBalance := t.ftBalanceOf receiver
  if 0 < unused ∧ 0 < receiverBalance then
    let refund := min receiverBalance unused
    let t : FungibleToken :=
      { t with accounts := t.accounts.insert receiver (receiverBalance - refund) }
    match t.accounts.lookup sender with
    | some senderBalance =>
        let newBalance ← expect (checkedAdd 128 senderBalance refund)
          "Sender balance overflow"
        return ({ t with accounts := t.accounts.insert sender newBalance },
          amount - refund, 0)
    | none =>
        -- The sender's account was deleted, so the tokens are burned.
        let newSupply ← expect (checkedSub t.totalSupply refund) "Total supply overflow"
        return ({ t with totalSupply := newSupply }, amount, refund)
  else
    return (t, amount, 0)

/-- `storage_deposit`: registers the account and hands back what was attached
beyond the price. -/
def storageDeposit (t : FungibleToken) (env : Env) (min : ℕ)
    (accountId : Option AccountId) : Except String (FungibleToken × ℕ) := do
  let account := accountId.getD env.predecessorAccountId
  if t.isRegistered account then
    return (t, env.attachedDeposit)
  else
    require (min ≤ env.attachedDeposit)
      "The attached deposit is less than the minimum storage balance"
    let t ← t.internalRegisterAccount account
    return (t, env.attachedDeposit - min)

/-- `storage_withdraw`: nothing can be withdrawn. -/
def storageWithdraw (t : FungibleToken) (env : Env) (amount : Option ℕ) :
    Except String Unit := do
  env.assertOneYocto
  require (t.isRegistered env.predecessorAccountId = true) "The account is not registered"
  require (amount.getD 0 = 0) "The amount is greater than the available storage balance"

/-- `storage_unregister`: whether the account was there to be removed.  What it
still holds is burned. -/
def storageUnregister (t : FungibleToken) (env : Env) (force : Option Bool) :
    Except String (FungibleToken × Bool) := do
  env.assertOneYocto
  match t.accounts.lookup env.predecessorAccountId with
  | some balance =>
      require (balance = 0 ∨ force = some true)
        "Can't unregister the account with the positive balance without force"
      let newSupply ← expect (checkedSub t.totalSupply balance) "Total supply overflow"
      return (⟨t.accounts.erase env.predecessorAccountId, newSupply⟩, true)
  | none => return (t, false)

/-! ## The two ways a balance moves

The pure updates behind the library's operations, and how a balance reads after
each of them. -/

/-- Credit an account and the supply. -/
def mint (t : FungibleToken) (a : AccountId) (n : ℕ) : FungibleToken :=
  ⟨t.accounts.insert a (t.ftBalanceOf a + n), t.totalSupply + n⟩

/-- Debit an account and the supply. -/
def burn (t : FungibleToken) (a : AccountId) (n : ℕ) : FungibleToken :=
  ⟨t.accounts.insert a (t.ftBalanceOf a - n), t.totalSupply - n⟩

/-- Debit one account and credit another; the supply stays. -/
def move (t : FungibleToken) (a b : AccountId) (n : ℕ) : FungibleToken :=
  { (t.burn a n).mint b n with totalSupply := t.totalSupply }

/-- Register an account with a zero balance. -/
def register (t : FungibleToken) (a : AccountId) : FungibleToken :=
  { t with accounts := t.accounts.insert a 0 }

/-- Remove an account, burning what it holds. -/
def unregister (t : FungibleToken) (a : AccountId) : FungibleToken :=
  ⟨t.accounts.erase a, t.totalSupply - t.ftBalanceOf a⟩

section Projections

variable (t : FungibleToken) (a b : AccountId) (n : ℕ)

@[simp] theorem mint_totalSupply : (t.mint a n).totalSupply = t.totalSupply + n := rfl

@[simp] theorem burn_totalSupply : (t.burn a n).totalSupply = t.totalSupply - n := rfl

@[simp] theorem move_totalSupply : (t.move a b n).totalSupply = t.totalSupply := rfl

@[simp] theorem register_totalSupply : (t.register a).totalSupply = t.totalSupply := rfl

@[simp] theorem unregister_totalSupply :
    (t.unregister a).totalSupply = t.totalSupply - t.ftBalanceOf a := rfl

/-- Reading one account after another was written. -/
private theorem lookup_insert (s : Store AccountId ℕ) (v : ℕ) :
    (AList.insert a v s).lookup b = if b = a then some v else s.lookup b := by
  split_ifs with h
  · rw [h, AList.lookup_insert]
  · rw [AList.lookup_insert_ne h]

theorem ftBalanceOf_mint :
    (t.mint a n).ftBalanceOf b = if b = a then t.ftBalanceOf a + n else t.ftBalanceOf b := by
  simp only [mint, ftBalanceOf, lookup_insert]
  split_ifs <;> rfl

theorem ftBalanceOf_burn :
    (t.burn a n).ftBalanceOf b = if b = a then t.ftBalanceOf a - n else t.ftBalanceOf b := by
  simp only [burn, ftBalanceOf, lookup_insert]
  split_ifs <;> rfl

theorem ftBalanceOf_register :
    (t.register a).ftBalanceOf b = if b = a then 0 else t.ftBalanceOf b := by
  simp only [register, ftBalanceOf, lookup_insert]
  split_ifs <;> rfl

theorem ftBalanceOf_unregister :
    (t.unregister a).ftBalanceOf b = if b = a then 0 else t.ftBalanceOf b := by
  simp only [unregister, ftBalanceOf]
  split_ifs with h
  · rw [h, AList.lookup_erase]
    rfl
  · rw [AList.lookup_erase_ne h]

@[simp] theorem ftBalanceOf_mint_self :
    (t.mint a n).ftBalanceOf a = t.ftBalanceOf a + n := by simp [ftBalanceOf_mint]

@[simp] theorem ftBalanceOf_burn_self :
    (t.burn a n).ftBalanceOf a = t.ftBalanceOf a - n := by simp [ftBalanceOf_burn]

theorem isRegistered_mint :
    (t.mint a n).isRegistered b = (decide (b = a) || t.isRegistered b) := by
  simp only [mint, isRegistered, lookup_insert]
  by_cases h : b = a <;> simp [h]

theorem isRegistered_burn :
    (t.burn a n).isRegistered b = (decide (b = a) || t.isRegistered b) := by
  simp only [burn, isRegistered, lookup_insert]
  by_cases h : b = a <;> simp [h]

theorem isRegistered_register :
    (t.register a).isRegistered b = (decide (b = a) || t.isRegistered b) := by
  simp only [register, isRegistered, lookup_insert]
  by_cases h : b = a <;> simp [h]

theorem isRegistered_unregister :
    (t.unregister a).isRegistered b = (!decide (b = a) && t.isRegistered b) := by
  simp only [unregister, isRegistered]
  by_cases h : b = a
  · rw [h, AList.lookup_erase]
    simp
  · rw [AList.lookup_erase_ne h]
    simp [h]

/-- A move between two accounts: what the others hold stays. -/
theorem ftBalanceOf_move (c : AccountId) (hn : n ≤ t.ftBalanceOf a) :
    (t.move a b n).ftBalanceOf c =
      if a = b then t.ftBalanceOf c
      else if c = b then t.ftBalanceOf b + n
      else if c = a then t.ftBalanceOf a - n
      else t.ftBalanceOf c := by
  show ((t.burn a n).mint b n).ftBalanceOf c = _
  rw [ftBalanceOf_mint, ftBalanceOf_burn, ftBalanceOf_burn]
  by_cases hab : a = b
  · subst hab
    rw [if_pos rfl, if_pos rfl]
    split_ifs with hc
    · rw [hc, Nat.sub_add_cancel hn]
    · rfl
  · rw [if_neg hab, if_neg (Ne.symm hab)]

theorem isRegistered_move (c : AccountId) :
    (t.move a b n).isRegistered c = (decide (c = b) || decide (c = a) || t.isRegistered c) := by
  show ((t.burn a n).mint b n).isRegistered c = _
  rw [isRegistered_mint, isRegistered_burn, Bool.or_assoc]

end Projections

/-! ## When the library operations succeed

One equivalence per operation.  A caller that knows an operation to have
succeeded gets its guards and the update from it. -/

variable {t t' : FungibleToken} {a : AccountId} {n : ℕ}

theorem lookup_of_isRegistered (h : t.isRegistered a = true) :
    t.accounts.lookup a = some (t.ftBalanceOf a) := by
  obtain ⟨v, hv⟩ := Option.isSome_iff_exists.mp h
  simp [ftBalanceOf, hv]

theorem ftBalanceOf_of_not_isRegistered (h : t.isRegistered a = false) :
    t.ftBalanceOf a = 0 := by
  simp only [isRegistered, Option.isSome_eq_false_iff, Option.isNone_iff_eq_none] at h
  simp [ftBalanceOf, h]

theorem isRegistered_of_pos (h : 0 < t.ftBalanceOf a) : t.isRegistered a = true := by
  by_contra hreg
  rw [ftBalanceOf_of_not_isRegistered (by simpa using hreg)] at h
  exact absurd h (lt_irrefl 0)

theorem internalUnwrapBalanceOf_eq_ok {balance : ℕ} :
    t.internalUnwrapBalanceOf a = .ok balance ↔
      t.isRegistered a = true ∧ t.ftBalanceOf a = balance := by
  unfold internalUnwrapBalanceOf isRegistered ftBalanceOf
  cases t.accounts.lookup a <;> simp [expect]

theorem internalRegisterAccount_eq_ok :
    t.internalRegisterAccount a = .ok t' ↔ t.isRegistered a = false ∧ t.register a = t' := by
  simp [internalRegisterAccount, register]

theorem internalDeposit_eq_ok :
    t.internalDeposit a n = .ok t' ↔
      t.isRegistered a = true ∧ t.ftBalanceOf a + n < 2 ^ 128 ∧
        t.totalSupply + n < 2 ^ 128 ∧ t.mint a n = t' := by
  simp only [internalDeposit, bind_eq_ok, internalUnwrapBalanceOf_eq_ok, expect_eq_ok,
    checkedAdd_eq_some, pure_eq_ok, mint]
  constructor
  · rintro ⟨_, ⟨hreg, rfl⟩, _, ⟨hb, rfl⟩, _, ⟨hs, rfl⟩, rfl⟩
    exact ⟨hreg, hb, hs, rfl⟩
  · rintro ⟨hreg, hb, hs, rfl⟩
    exact ⟨_, ⟨hreg, rfl⟩, _, ⟨hb, rfl⟩, _, ⟨hs, rfl⟩, rfl⟩

theorem internalWithdraw_eq_ok :
    t.internalWithdraw a n = .ok t' ↔
      t.isRegistered a = true ∧ n ≤ t.ftBalanceOf a ∧ n ≤ t.totalSupply ∧
        t.burn a n = t' := by
  simp only [internalWithdraw, bind_eq_ok, internalUnwrapBalanceOf_eq_ok, expect_eq_ok,
    checkedSub_eq_some, pure_eq_ok, burn]
  constructor
  · rintro ⟨_, ⟨hreg, rfl⟩, _, ⟨hb, rfl⟩, _, ⟨hs, rfl⟩, rfl⟩
    exact ⟨hreg, hb, hs, rfl⟩
  · rintro ⟨hreg, hb, hs, rfl⟩
    exact ⟨_, ⟨hreg, rfl⟩, _, ⟨hb, rfl⟩, _, ⟨hs, rfl⟩, rfl⟩

/-- A transfer moves a positive amount between two different registered
accounts. -/
theorem internalTransfer_eq_ok {s r : AccountId} (h : t.internalTransfer s r n = .ok t') :
    s ≠ r ∧ 0 < n ∧ t.isRegistered s = true ∧ t.isRegistered r = true ∧
      n ≤ t.ftBalanceOf s ∧ t' = t.move s r n := by
  simp only [internalTransfer, bind_eq_ok, require_eq_ok, internalWithdraw_eq_ok,
    internalDeposit_eq_ok] at h
  obtain ⟨_, hne, _, hpos, t₁, ⟨hreg, hbal, hsupply, rfl⟩, hreg', -, -, rfl⟩ := h
  have hr : t.isRegistered r = true := by simpa [isRegistered_burn, hne.symm] using hreg'
  refine ⟨hne, hpos, hreg, hr, hbal, ?_⟩
  simp only [move, mint, burn, Nat.sub_add_cancel hsupply]

theorem unusedAmount_le (result : Option PromiseResult) (amount : ℕ) :
    unusedAmount result amount ≤ amount := by
  unfold unusedAmount
  split
  · split_ifs
    · exact min_le_left _ _
    · exact le_rfl
  · exact le_rfl

/-- What the pool reports as a `U128` is short enough to be read. -/
theorem unusedAmount_ofU128 (h : n < 2 ^ 128) (amount : ℕ) :
    unusedAmount (some (.successful (.ofU128 n))) amount = min amount n := by
  have hdigits : (Nat.toDigits 10 n).length ≤ 39 :=
    (Nat.length_toDigits_le_iff (by decide) (by decide)).mpr (h.trans (by norm_num))
  exact if_pos (Nat.add_le_add_right hdigits 2 |>.trans (by decide))

/-- Who reports all as unused has used nothing. -/
@[simp] theorem unusedAmount_ofU128_self (amount : ℕ) :
    unusedAmount (some (.successful (.ofU128 amount))) amount = amount := by
  simp [unusedAmount, Payload.ofU128]

@[simp] theorem unusedAmount_ofU128_zero (amount : ℕ) :
    unusedAmount (some (.successful (.ofU128 0))) amount = 0 := by
  rw [unusedAmount_ofU128 (by decide), Nat.min_zero]

/-- How a transfer call is resolved: the receiver keeps everything, the unused
part goes back to the sender, or it is burned because the sender is gone. -/
inductive Resolved (unused amount : ℕ) (sender receiver : AccountId) (t : FungibleToken) :
    FungibleToken → ℕ → ℕ → Prop
  /-- There is nothing to take back, or nothing to take it from. -/
  | kept (none : unused = 0 ∨ t.ftBalanceOf receiver = 0) :
      Resolved unused amount sender receiver t t amount 0
  /-- To the sender, as much as the receiver still has. -/
  | returned (refund : ℕ) (refund_eq : refund = min (t.ftBalanceOf receiver) unused)
      (pos : 0 < refund) (registered : t.isRegistered sender = true) :
      Resolved unused amount sender receiver t (t.move receiver sender refund)
        (amount - refund) 0
  /-- From the receiver, as much as it still has; to the sender it counts as
  used. -/
  | burned (refund : ℕ) (refund_eq : refund = min (t.ftBalanceOf receiver) unused)
      (pos : 0 < refund) (gone : t.isRegistered sender = false) :
      Resolved unused amount sender receiver t (t.burn receiver refund) amount refund

theorem internalFtResolveTransfer_eq_ok {env : Env} {s r : AccountId} {amount used burned : ℕ}
    (h : t.internalFtResolveTransfer env s r amount = .ok (t', used, burned)) :
    Resolved (unusedAmount env.promiseResults.head? amount) amount s r t t' used burned := by
  unfold internalFtResolveTransfer at h
  dsimp only at h
  split at h
  · next hpos =>
      have hreceiver : t.isRegistered r = true := isRegistered_of_pos hpos.2
      have hlook : ∀ v, (t.accounts.insert r v).lookup s =
          if s = r then some v else t.accounts.lookup s := lookup_insert r s t.accounts
      split at h
      · next balance hbalance =>
          simp only [bind_eq_ok, expect_eq_ok, checkedAdd_eq_some, pure_eq_ok,
            Prod.mk.injEq] at h
          obtain ⟨_, ⟨-, rfl⟩, rfl, rfl, rfl⟩ := h
          have hreg : t.isRegistered s = true := by
            rw [hlook] at hbalance
            split_ifs at hbalance with hsr
            · rwa [hsr]
            · simp [isRegistered, hbalance]
          have hburn : (t.burn r (min (t.ftBalanceOf r)
              (unusedAmount env.promiseResults.head? amount))).ftBalanceOf s = balance := by
            simp only [burn, ftBalanceOf] at hbalance ⊢
            rw [hbalance]
            rfl
          have hreturned : Resolved _ amount s r t _ _ 0 :=
            .returned _ rfl (lt_min hpos.2 hpos.1) hreg
          unfold move mint at hreturned
          rw [hburn] at hreturned
          exact hreturned
      · next hnone =>
          simp only [bind_eq_ok, expect_eq_ok, checkedSub_eq_some, pure_eq_ok,
            Prod.mk.injEq] at h
          obtain ⟨_, ⟨-, rfl⟩, rfl, rfl, rfl⟩ := h
          refine .burned _ rfl (by omega) ?_
          rw [hlook] at hnone
          split_ifs at hnone
          simp [isRegistered, hnone]
  · next hnone =>
      obtain ⟨rfl, rfl, rfl⟩ : t = t' ∧ amount = used ∧ 0 = burned := by simpa using h
      exact .kept (by omega)

/-! ## What the resolver does with unused tokens

The other direction of the resolver, for callers that have to show that it
succeeds. -/

section Resolver

variable {env : Env} {sender receiver : AccountId} {unused amount : ℕ}

/-- Unused tokens that the receiver still has go back in full. -/
theorem internalFtResolveTransfer_returned
    (hunused : unusedAmount env.promiseResults.head? amount = unused) (hpos : 0 < unused)
    (hheld : unused ≤ t.ftBalanceOf receiver) (hne : sender ≠ receiver)
    (hregistered : t.isRegistered sender = true)
    (hroom : t.ftBalanceOf sender + unused < 2 ^ 128) :
    t.internalFtResolveTransfer env sender receiver amount =
      .ok (t.move receiver sender unused, amount - unused, 0) := by
  have hlook : (t.accounts.insert receiver (t.ftBalanceOf receiver - unused)).lookup sender =
      some (t.ftBalanceOf sender) := by
    rw [AList.lookup_insert_ne hne]
    exact lookup_of_isRegistered hregistered
  have hburn : (t.burn receiver unused).ftBalanceOf sender = t.ftBalanceOf sender := by
    rw [ftBalanceOf_burn, if_neg hne]
  have hadd : checkedAdd 128 (t.ftBalanceOf sender) unused =
      some (t.ftBalanceOf sender + unused) :=
    checkedAdd_eq_some.mpr ⟨hroom, rfl⟩
  unfold internalFtResolveTransfer
  simp only [hunused, hpos, lt_of_lt_of_le hpos hheld, and_self, if_true, min_eq_right hheld,
    hlook, hadd, expect, ok_bind, move, mint, hburn]
  rfl

/-- Those of a sender who is gone are burned. -/
theorem internalFtResolveTransfer_burned
    (hunused : unusedAmount env.promiseResults.head? amount = unused) (hpos : 0 < unused)
    (hheld : unused ≤ t.ftBalanceOf receiver) (hne : sender ≠ receiver)
    (hgone : t.isRegistered sender = false) (hsupply : unused ≤ t.totalSupply) :
    t.internalFtResolveTransfer env sender receiver amount =
      .ok (t.burn receiver unused, amount, unused) := by
  have hlook : (t.accounts.insert receiver (t.ftBalanceOf receiver - unused)).lookup sender =
      none := by
    rw [AList.lookup_insert_ne hne]
    simpa [isRegistered] using hgone
  have hsub : checkedSub t.totalSupply unused = some (t.totalSupply - unused) :=
    checkedSub_eq_some.mpr ⟨hsupply, rfl⟩
  unfold internalFtResolveTransfer
  simp only [hunused, hpos, lt_of_lt_of_le hpos hheld, and_self, if_true, min_eq_right hheld,
    hlook, hsub, expect, ok_bind]
  rfl

end Resolver

/-! ## The supply is the sum of the balances -/

/-- The total supply is what the accounts hold together. -/
def Balanced (t : FungibleToken) : Prop := Store.total id t.accounts = t.totalSupply

theorem Balanced.ftBalanceOf_le (h : t.Balanced) (a : AccountId) :
    t.ftBalanceOf a ≤ t.totalSupply := by
  have hle := Store.weight_lookup_le id t.accounts a
  rw [h] at hle
  unfold ftBalanceOf
  cases hlook : t.accounts.lookup a with
  | none => simp
  | some v => simpa [hlook] using hle

/-- Where every account holds at least as much, the supply is at least as large. -/
theorem Balanced.totalSupply_le {t' : FungibleToken} (h : t.Balanced) (h' : t'.Balanced)
    (hle : ∀ a, t.ftBalanceOf a ≤ t'.ftBalanceOf a) : t.totalSupply ≤ t'.totalSupply := by
  rw [← h, ← h']
  refine Store.total_le_of_lookup id t.accounts t'.accounts fun a => ?_
  have hweight : ∀ o : Option ℕ, Store.weight id o = o.getD 0 := fun o => by cases o <;> rfl
  rw [hweight, hweight]
  exact hle a

/-- Two different accounts together hold at most the supply. -/
theorem Balanced.add_le (h : t.Balanced) {a b : AccountId} (hne : a ≠ b) :
    t.ftBalanceOf a + t.ftBalanceOf b ≤ t.totalSupply := by
  by_cases ha : t.isRegistered a = true
  · by_cases hb : t.isRegistered b = true
    · have := Store.add_le_total (f := id) hne (lookup_of_isRegistered ha)
        (lookup_of_isRegistered hb)
      rwa [h] at this
    · rw [ftBalanceOf_of_not_isRegistered (a := b) (by simpa using hb)]
      simpa using h.ftBalanceOf_le a
  · rw [ftBalanceOf_of_not_isRegistered (by simpa using ha)]
    simpa using h.ftBalanceOf_le b

/-- Writing one balance changes the sum of the balances at that account only. -/
private theorem total_insert (t : FungibleToken) (a : AccountId) (n : ℕ) :
    Store.total id (t.accounts.insert a n) + t.ftBalanceOf a =
      Store.total id t.accounts + n := by
  have hweight : Store.weight id (t.accounts.lookup a) = t.ftBalanceOf a := by
    unfold ftBalanceOf
    cases t.accounts.lookup a <;> rfl
  rw [← hweight]
  exact Store.total_insert id t.accounts a n

theorem new_balanced : new.Balanced := rfl

theorem Balanced.mint (h : t.Balanced) (a : AccountId) (n : ℕ) :
    (t.mint a n).Balanced := by
  have hins := total_insert t a (t.ftBalanceOf a + n)
  show Store.total id (t.accounts.insert a (t.ftBalanceOf a + n)) = t.totalSupply + n
  unfold Balanced at h
  omega

theorem Balanced.burn (h : t.Balanced) {a : AccountId} {n : ℕ}
    (hn : n ≤ t.ftBalanceOf a) : (t.burn a n).Balanced := by
  have hins := total_insert t a (t.ftBalanceOf a - n)
  have hle := h.ftBalanceOf_le a
  show Store.total id (t.accounts.insert a (t.ftBalanceOf a - n)) = t.totalSupply - n
  unfold Balanced at h
  omega

/-- A move keeps the balances in step with the supply. -/
theorem Balanced.move (h : t.Balanced) {a b : AccountId} {n : ℕ}
    (hn : n ≤ t.ftBalanceOf a) : (t.move a b n).Balanced := by
  have hle := h.ftBalanceOf_le a
  have hmove : Store.total id (t.move a b n).accounts = t.totalSupply - n + n :=
    (h.burn hn).mint b n
  show Store.total id (t.move a b n).accounts = t.totalSupply
  omega

theorem Balanced.register (h : t.Balanced) {a : AccountId}
    (hreg : t.isRegistered a = false) : (t.register a).Balanced := by
  have hins := total_insert t a 0
  have hzero := ftBalanceOf_of_not_isRegistered hreg
  show Store.total id (t.accounts.insert a 0) = t.totalSupply
  unfold Balanced at h
  omega

theorem Balanced.unregister (h : t.Balanced) (a : AccountId) :
    (t.unregister a).Balanced := by
  have herase := Store.total_erase id t.accounts a
  have hweight : Store.weight id (t.accounts.lookup a) = t.ftBalanceOf a := by
    unfold ftBalanceOf
    cases t.accounts.lookup a <;> rfl
  show Store.total id (t.accounts.erase a) = t.totalSupply - t.ftBalanceOf a
  unfold Balanced at h
  omega

/-! ## Who is registered

Registrations are counted and not summed: each of them holds the same price. -/

/-- How many accounts are registered, not counting the `exempt` ones.

Each of them has paid the registration price, which the contract's balance must
keep covering. -/
def registrations (t : FungibleToken) (exempt : List AccountId) : ℕ :=
  (t.accounts.keys.filter fun a => !exempt.contains a).length

section Registrations

variable {exempt : List AccountId}

theorem mem_keys_iff : a ∈ t.accounts.keys ↔ t.isRegistered a = true := by
  rw [← AList.mem_keys, ← AList.lookup_isSome, isRegistered]

/-- Writing the balance of a registered account registers nobody. -/
private theorem registrations_insert (h : t.isRegistered a = true) (n supply : ℕ) :
    registrations ⟨t.accounts.insert a n, supply⟩ exempt = t.registrations exempt := by
  have hperm := List.perm_cons_erase (mem_keys_iff.mpr h)
  unfold registrations
  rw [AList.keys_insert]
  exact ((hperm.filter _).length_eq).symm

theorem registrations_mint (h : t.isRegistered a = true) (n : ℕ) :
    (t.mint a n).registrations exempt = t.registrations exempt :=
  registrations_insert h _ _

theorem registrations_burn (h : t.isRegistered a = true) (n : ℕ) :
    (t.burn a n).registrations exempt = t.registrations exempt :=
  registrations_insert h _ _

theorem registrations_move {b : AccountId} (ha : t.isRegistered a = true)
    (hb : t.isRegistered b = true) (n : ℕ) :
    (t.move a b n).registrations exempt = t.registrations exempt := by
  have hb' : (t.burn a n).isRegistered b = true := by simp [isRegistered_burn, hb]
  exact (registrations_mint hb' n).trans (registrations_burn ha n)

theorem registrations_register (h : t.isRegistered a = false) (hex : a ∉ exempt) :
    (t.register a).registrations exempt = t.registrations exempt + 1 := by
  have hkey : a ∉ t.accounts.keys := fun hmem => by simp [mem_keys_iff.mp hmem] at h
  unfold registrations register
  rw [AList.keys_insert, List.erase_of_not_mem hkey]
  simp [hex]

theorem registrations_unregister (h : t.isRegistered a = true) (hex : a ∉ exempt) :
    (t.unregister a).registrations exempt + 1 = t.registrations exempt := by
  have hperm := (List.perm_cons_erase (mem_keys_iff.mpr h)).filter fun a => !exempt.contains a
  unfold registrations unregister
  rw [AList.keys_erase, hperm.length_eq]
  simp [hex]

end Registrations

/-! ## What never breaks -/

/-- A ledger in step with its supply, on which the `keepers` are registered.

The keepers are the accounts that the contract itself mints to and burns from;
as long as they stay registered, it does not fail for want of a registration. -/
structure Sound (keepers : List AccountId) (t : FungibleToken) : Prop where
  balanced : t.Balanced
  registered : ∀ a ∈ keepers, t.isRegistered a = true

section Sound

variable {keepers : List AccountId}

theorem Sound.mint (h : t.Sound keepers) (a : AccountId) (n : ℕ) : (t.mint a n).Sound keepers where
  balanced := h.balanced.mint a n
  registered b hb := by simp [isRegistered_mint, h.registered b hb]

theorem Sound.burn (h : t.Sound keepers) (hn : n ≤ t.ftBalanceOf a) :
    (t.burn a n).Sound keepers where
  balanced := h.balanced.burn hn
  registered b hb := by simp [isRegistered_burn, h.registered b hb]

theorem Sound.move (h : t.Sound keepers) {b : AccountId} (hn : n ≤ t.ftBalanceOf a) :
    (t.move a b n).Sound keepers where
  balanced := h.balanced.move hn
  registered c hc := by simp [isRegistered_move, h.registered c hc]

theorem Sound.register (h : t.Sound keepers) (hfresh : t.isRegistered a = false) :
    (t.register a).Sound keepers where
  balanced := h.balanced.register hfresh
  registered b hb := by simp [isRegistered_register, h.registered b hb]

theorem Sound.unregister (h : t.Sound keepers) (hkeeper : a ∉ keepers) :
    (t.unregister a).Sound keepers where
  balanced := h.balanced.unregister a
  registered b hb := by
    have hne : b ≠ a := fun heq => hkeeper (heq ▸ hb)
    simp [isRegistered_unregister, hne, h.registered b hb]

theorem Resolved.sound {unused amount used burned : ℕ} {sender receiver : AccountId}
    (hresolved : Resolved unused amount sender receiver t t' used burned)
    (h : t.Sound keepers) : t'.Sound keepers := by
  cases hresolved with
  | kept => exact h
  | returned refund refund_eq => exact h.move (refund_eq ▸ min_le_left _ _)
  | burned refund refund_eq => exact h.burn (refund_eq ▸ min_le_left _ _)

theorem Resolved.registrations_eq {exempt : List AccountId} {unused amount used burned : ℕ}
    {sender receiver : AccountId}
    (hresolved : Resolved unused amount sender receiver t t' used burned) :
    t'.registrations exempt = t.registrations exempt := by
  cases hresolved with
  | kept => rfl
  | returned refund refund_eq pos registered =>
      exact registrations_move (isRegistered_of_pos (by omega)) registered _
  | burned refund refund_eq pos =>
      exact registrations_burn (isRegistered_of_pos (by omega)) _

end Sound

end FungibleToken

end LiquidStaking
