import LiquidStaking.Accounts
import LiquidStaking.Lib.ShareRate

/-!
# The exchange rate

NEAR at stake per LST is the rate of a pool of shares: stakes are deposits,
unstakes are redemptions, synced rewards are rewards with a fee deposited on
top, and LST burned for an account that is gone are given up.  Each of these
rounds in the pool's favour, at the rate of the state it is applied to.

There is one exception.  A stake is quoted in one receipt and minted in a later
one, and the quote is not looked at again.  When a reward is recognized in
between, the mint hands out LST at the old rate, and the rate falls.

* `Deployment.rate_kept_iff` — nothing else lowers it: in a run whose validator
  actions succeed, an event keeps the rate exactly if it is no mint of an
  outdated quote.
* `Deployment.rate_raised_between` — a quote gets outdated by a rise of the rate
  only: where the rate falls, some event between the quote and the mint has
  raised it.
* `rate_falls_sample` — a reachable system in which that happens.

The events between a quote and its mint are those after the last execution of
the chain that mints (`SinceQuote`), since a quote and its mint are neighbours
in their chain.
-/

namespace LiquidStaking

open Checked PromiseChain ShareRate

section Definitions

variable {H : Type}

/-- The NEAR at stake against the LST supply.

The two are an instance of `ShareRate.Holdings`, so rates are compared without
division. -/
def LiquidStakingToken.holdings (s : LiquidStakingToken H) : Holdings ℕ :=
  ⟨s.statistics.totalStakedAmount, s.token.totalSupply⟩

/-- The stake amount and the LST of the receipt that mints a stake. -/
def Receipt.mints (t : Receipt H) : Option (ℕ × ℕ) :=
  match t.actions.getLast? with
  | some (.call (.modifyStateBeforeStake _ _ stakeAmount _ lstTokens) _ _) =>
      some (stakeAmount, lstTokens)
  | _ => none

variable [DecidableEq H]

/-- The event answers a validator action with a failure. -/
def validatorFails (ev : PoolEvent H) : Bool :=
  match ev.execution.verdict, ev.execution.task.actions with
  | .answered r, [.stake _ _] => !resultOk r
  | _, _ => false

/-- While there is LST before and after, the NEAR at stake per LST does not
fall.

The fractions are compared by cross-multiplication. -/
def KeepsRate (e : PoolExecution H) : Prop :=
  0 < e.before.token.totalSupply → 0 < e.after.token.totalSupply →
    e.before.statistics.totalStakedAmount * e.after.token.totalSupply ≤
      e.after.statistics.totalStakedAmount * e.before.token.totalSupply

/-- The state a stake was quoted in: what the last receipt of its chain left.

A quote and its mint are neighbours in their chain, so there is nothing in
between. -/
def quotedIn (c : PoolChain H) : Option (LiquidStakingToken H) :=
  c.trace.head?.map Execution.after

instance (e : PoolExecution H) : Decidable (KeepsRate e) :=
  inferInstanceAs (Decidable (_ → _ → _ ≤ _))

/-- A stake is minted for at most what it buys in the state it is minted in. -/
def MintsWithin (e : PoolExecution H) : Prop :=
  ∀ ret detached stakeAmount lstTokens, e.verdict = .committed ret detached →
    e.task.mints = some (stakeAmount, lstTokens) → 0 < e.before.token.totalSupply →
    0 < e.before.statistics.totalStakedAmount →
    lstTokens ≤ stakeAmount * e.before.token.totalSupply / e.before.statistics.totalStakedAmount

/-- A stake minted by the event still buys what it bought when it was quoted. -/
def QuoteStands (ev : PoolEvent H) : Prop :=
  ∀ ret detached stakeAmount lstTokens s₀, ev.execution.verdict = .committed ret detached →
    ev.execution.task.mints = some (stakeAmount, lstTokens) → quotedIn ev.chain = some s₀ →
    0 < ev.execution.before.token.totalSupply →
    0 < ev.execution.before.statistics.totalStakedAmount →
    s₀.lstFor stakeAmount ≤ ev.execution.before.lstFor stakeAmount

/-- The event raises the NEAR at stake per LST, or finds or leaves no LST to
have a rate.

Without LST the next stake is quoted one to one, so such a state counts as a
change. -/
def RaisesRate (e : PoolExecution H) : Prop :=
  e.before.token.totalSupply = 0 ∨ e.after.token.totalSupply = 0 ∨
    e.before.statistics.totalStakedAmount * e.after.token.totalSupply <
      e.after.statistics.totalStakedAmount * e.before.token.totalSupply

/-- Of the events `older` before `ev`, `between` are those since the quote of
the stake that `ev` mints. -/
def SinceQuote (ev : PoolEvent H) (older between : List (PoolEvent H)) : Prop :=
  ∃ quote rest, older = between ++ quote :: rest ∧
    ev.chain.trace.head? = some quote.execution

instance (e : PoolExecution H) : Decidable (RaisesRate e) :=
  inferInstanceAs (Decidable (_ ∨ _ ∨ _ < _))

end Definitions

/-! ## The conditions as computations -/

section Decidable

variable {H : Type} {ev : PoolEvent H} {e : PoolExecution H}

/-- The stake amount and the LST of a mint that was committed. -/
def mintedBy (e : PoolExecution H) : Option (ℕ × ℕ) :=
  match e.verdict with
  | .committed _ _ => e.task.mints
  | _ => none

theorem mintedBy_eq_some {stakeAmount lstTokens : ℕ} :
    mintedBy e = some (stakeAmount, lstTokens) ↔
      (∃ ret detached, e.verdict = .committed ret detached) ∧
        e.task.mints = some (stakeAmount, lstTokens) := by
  unfold mintedBy
  cases e.verdict <;> simp

theorem quoteStands_iff : QuoteStands ev ↔
    ∀ m ∈ mintedBy ev.execution, ∀ s₀ ∈ quotedIn ev.chain,
      0 < ev.execution.before.token.totalSupply →
      0 < ev.execution.before.statistics.totalStakedAmount →
      s₀.lstFor m.1 ≤ ev.execution.before.lstFor m.1 := by
  constructor
  · rintro hstands ⟨stakeAmount, lstTokens⟩ hm s₀ hquoted
    obtain ⟨⟨ret, detached, hverdict⟩, hmints⟩ := mintedBy_eq_some.mp hm
    exact hstands ret detached stakeAmount lstTokens s₀ hverdict hmints hquoted
  · intro h ret detached stakeAmount lstTokens s₀ hverdict hmints hquoted
    exact h (stakeAmount, lstTokens) (mintedBy_eq_some.mpr ⟨⟨ret, detached, hverdict⟩, hmints⟩)
      s₀ hquoted

theorem mintsWithin_iff : MintsWithin e ↔
    ∀ m ∈ mintedBy e, 0 < e.before.token.totalSupply →
      0 < e.before.statistics.totalStakedAmount →
      m.2 ≤ m.1 * e.before.token.totalSupply / e.before.statistics.totalStakedAmount := by
  constructor
  · rintro hwithin ⟨stakeAmount, lstTokens⟩ hm
    obtain ⟨⟨ret, detached, hverdict⟩, hmints⟩ := mintedBy_eq_some.mp hm
    exact hwithin ret detached stakeAmount lstTokens hverdict hmints
  · intro h ret detached stakeAmount lstTokens hverdict hmints
    exact h (stakeAmount, lstTokens) (mintedBy_eq_some.mpr ⟨⟨ret, detached, hverdict⟩, hmints⟩)

instance : Decidable (QuoteStands ev) := decidable_of_iff' _ quoteStands_iff

instance : Decidable (MintsWithin e) := decidable_of_iff' _ mintsWithin_iff

end Decidable

/-! ## Each step and the rate -/

section Steps

variable {H : Type} {host : Host H} {env : Env} {s s' : LiquidStakingToken H}

/-- A recognized reward raises the rate: the fee buys LST at the rate that the
rest of the reward leaves. -/
theorem LiquidStakingToken.Synced.rateLe {epoch balance excluded : ℕ}
    {result : LiquidStakingToken.SyncRewardsResult}
    (h : LiquidStakingToken.Synced epoch balance excluded s s' result)
    (hsupply : 0 < s.token.totalSupply) : s.holdings.RateLe s'.holdings := by
  cases h with
  | idle => exact .refl _
  | reward reward feeLst pos _ _ fee_le feeLst_eq =>
      have hfee : s.holdings.assets * feeLst ≤ s.feeOn reward * s.holdings.shares := by
        rcases Nat.eq_zero_or_pos s.holdings.assets with hnone | hstaked
        · rw [hnone, zero_mul]
          exact Nat.zero_le _
        · have hstake : 0 < s.statistics.totalStakedAmount := hstaked
          have hlst : feeLst = s.feeOn reward * s.holdings.shares /
              (s.holdings.assets + (reward - s.feeOn reward)) := by
            rw [feeLst_eq]
            exact if_neg (by simp only [LiquidStakingToken.addStake_token,
              LiquidStakingToken.addStake_statistics_totalStakedAmount]; omega)
          calc s.holdings.assets * feeLst
              ≤ (s.holdings.assets + (reward - s.feeOn reward)) * feeLst :=
                Nat.mul_le_mul_right _ (Nat.le_add_right _ _)
            _ ≤ s.feeOn reward * s.holdings.shares := hlst ▸ assets_mul_floor_le _ _ _
      refine (Holdings.rateLe_deposit_iff.mpr hfee).trans (Holdings.rateLe_of_le ?_ le_rfl
        (Nat.zero_le _) (Nat.zero_le _)) (Nat.zero_le _)
        (Nat.lt_of_lt_of_le hsupply (Nat.le_add_right _ _)) (Nat.zero_le _)
      show s.statistics.totalStakedAmount + s.feeOn reward ≤
        s.statistics.totalStakedAmount + reward
      omega

/-- An unstake redeems its LST at the rate of the synced state. -/
theorem Unstakes.rateLe {message : UnstakeMessage} {s₁ : LiquidStakingToken H}
    {u : UnstakeOrder H} (h : Unstakes host env s message s₁ u)
    (hsupply : 0 < s.token.totalSupply) : s.holdings.RateLe (u.burn host s₁).holdings := by
  obtain ⟨result, synced⟩ := h.synced
  refine (synced.rateLe hsupply).trans (Holdings.rateLe_redeem (a := u.nearAmount)
    (l := u.lstAmount) (Nat.sub_add_cancel h.near_le) (Nat.sub_add_cancel h.supply_le) ?_)
    (Nat.zero_le _) (Nat.lt_of_lt_of_le h.lst_pos h.supply_le) (Nat.zero_le _)
  rw [h.near_eq]
  exact Nat.div_mul_le_self _ _

/-- A resolver gives no LST out of nothing. -/
theorem FungibleToken.Resolved.totalSupply_le {unused amount used burned : ℕ}
    {sender receiver : AccountId} {t t' : FungibleToken}
    (h : FungibleToken.Resolved unused amount sender receiver t t' used burned) :
    t'.totalSupply ≤ t.totalSupply := by
  cases h with
  | kept | returned => exact le_rfl
  | burned => exact Nat.sub_le _ _

/-- With the sender still there, it burns nothing. -/
theorem FungibleToken.Resolved.totalSupply_eq {unused amount used burned : ℕ}
    {sender receiver : AccountId} {t t' : FungibleToken}
    (h : FungibleToken.Resolved unused amount sender receiver t t' used burned)
    (hsender : t.isRegistered sender = true) : t'.totalSupply = t.totalSupply := by
  cases h with
  | kept | returned => rfl
  | burned refund refund_eq pos gone =>
      rw [hsender] at gone
      cases gone

/-- A stake minted for its quote keeps the rate exactly if the quote is worth at
most the stake. -/
theorem StakeOrder.rateLe_mint_iff {o : StakeOrder} :
    s.holdings.RateLe (o.mint host s).holdings ↔
      s.statistics.totalStakedAmount * o.lstTokens ≤ o.stakeAmount * s.token.totalSupply :=
  Holdings.rateLe_deposit_iff

variable [DecidableEq H]

/-- A call from outside keeps the rate: it may sync, and burn LST that somebody
gives up. -/
theorem Entry.rateLe {m : Method H} {p : Phase H} {side : List (Receipt H)}
    (hentry : Entry host env s m s' p side) (hsupply : 0 < s.token.totalSupply) :
    s.holdings.RateLe s'.holdings := by
  cases hentry with
  | stake args s₁ result o synced => exact synced.rateLe hsupply
  | pingIdle result s₁ synced | ping reward s₁ synced => exact synced.rateLe hsupply
  | setFee feeBps s₁ result _ _ _ synced => exact synced.rateLe hsupply
  | setKey key s₁ result _ _ synced => exact synced.rateLe (s := s.withKey key) hsupply
  | storageNew accountId registrationOnly fresh =>
      refine Holdings.rateLe_of_le le_rfl ?_ (Nat.zero_le _) (Nat.zero_le _)
      show (s.registerIfNew _).token.totalSupply ≤ s.token.totalSupply
      rw [LiquidStakingToken.registerIfNew_token, fresh]
      exact le_rfl
  | unregister =>
      exact Holdings.rateLe_of_le le_rfl (Nat.sub_le _ _) (Nat.zero_le _) (Nat.zero_le _)
  | _ => exact .refl _

/-- The stake amount and the LST about to be minted. -/
def Phase.minting : Phase H → Option (ℕ × ℕ)
  | .batching o _ => some (o.stakeAmount, o.lstTokens)
  | _ => none

/-- The validator action the phase has the result of failed. -/
def Phase.validatorFailed : Phase H → Bool
  | .restaked _ r | .unstaked _ _ r => !resultOk r
  | _ => false

/-- A callback keeps the rate, unless it mints or takes back what a failed
action did. -/
theorem Advance.rateLe {p p' : Phase H} {side : List (Receipt H)}
    (hadvance : Advance host env s p s' p' side) (hfailed : p.validatorFailed = false)
    (hmint : ∀ o refundTo, p ≠ .batching o refundTo)
    (hbalanced : s.token.Balanced) (hpool : s.token.isRegistered host.currentAccountId = true)
    (hsupply : 0 < s.token.totalSupply) : s.holdings.RateLe s'.holdings := by
  cases hadvance with
  | unwrapQuoted ok s₁ result o synced => exact synced.rateLe hsupply
  | unwrapRejected ok s₁ result synced => exact synced.rateLe hsupply
  | minted | mintedRegistering => exact absurd rfl (hmint _ _)
  | rolledBack failed | undone failed =>
      rw [Phase.validatorFailed, failed] at hfailed
      cases hfailed
  | handedOver ok registered escrow | handedOverCall ok registered escrow =>
      refine Holdings.rateLe_of_le le_rfl (Nat.sub_add_cancel ?_).le (Nat.zero_le _) (Nat.zero_le _)
      exact escrow.trans (hbalanced.ftBalanceOf_le _)
  | nothingRefused message _ t used burned resolved | resolved t used burned resolved =>
      exact Holdings.rateLe_of_le le_rfl resolved.totalSupply_le (Nat.zero_le _) (Nat.zero_le _)
  | refused message _ t used burned resolved s₁ u _ _ unstakes =>
      have hsame := resolved.totalSupply_eq hpool
      have hrefused := unstakes.rateLe (hsame ▸ hsupply)
      unfold LiquidStakingToken.holdings at hrefused ⊢
      rwa [LiquidStakingToken.retokenBoth_token, hsame] at hrefused
  | unstakeRequested message _ s₁ u _ _ unstakes => exact unstakes.rateLe hsupply
  | _ => exact .refl _

omit [DecidableEq H] in
/-- A mint keeps the rate exactly if its quote still stands.

What the stake buys is rounded down in both states, and the equivalence holds
all the same. -/
theorem Quoted.mint_iff {s₀ : LiquidStakingToken H} {o : StakeOrder} (h : Quoted s₀ o)
    (hsupply : 0 < s.token.totalSupply) (hstake : 0 < s.statistics.totalStakedAmount) :
    s.statistics.totalStakedAmount * o.lstTokens ≤ o.stakeAmount * s.token.totalSupply ↔
      s₀.lstFor o.stakeAmount ≤ s.lstFor o.stakeAmount := by
  have hquote : s.lstFor o.stakeAmount =
      o.stakeAmount * s.token.totalSupply / s.statistics.totalStakedAmount :=
    if_neg (by omega)
  rw [← le_floor_iff hstake, hquote, h.lst_eq]

/-- Minting, after the receiver was registered if need be, moves the rate the
same way. -/
theorem Advance.minted_rateLe_iff {o : StakeOrder} {refundTo : Option AccountId} {p' : Phase H}
    {side : List (Receipt H)} (h : Advance host env s (.batching o refundTo) s' p' side) :
    s.holdings.RateLe s'.holdings ↔
      s.statistics.totalStakedAmount * o.lstTokens ≤ o.stakeAmount * s.token.totalSupply := by
  cases h with
  | minted => exact StakeOrder.rateLe_mint_iff
  | mintedRegistering =>
      have hsame : (s.registerIfNew o.args.receiverId).holdings = s.holdings := by
        unfold LiquidStakingToken.holdings
        rw [LiquidStakingToken.registerIfNew_token]
        split_ifs <;> rfl
      rw [← hsame, StakeOrder.rateLe_mint_iff]
      exact iff_of_eq (congrArg (fun p : Holdings ℕ =>
        p.assets * o.lstTokens ≤ o.stakeAmount * p.shares) hsame)

/-- Calls from outside mint no stake. -/
theorem Entry.mints_eq {m : Method H} {p : Phase H} {side : List (Receipt H)}
    (hentry : Entry host env s m s' p side) {t : Receipt H} {deposit gas : ℕ}
    (htask : t.actions = [.call m deposit gas]) : t.mints = none := by
  unfold Receipt.mints
  rw [htask]
  cases hentry <;> rfl

omit [DecidableEq H] in
/-- Only the batch of a stake mints. -/
theorem Phase.mints_eq {wnear : AccountId} {p : Phase H} {t : Receipt H} {rest : List (Receipt H)}
    (h : p.tasks host wnear = t :: rest) : t.mints = p.minting := by
  cases p with
  | continuing k r =>
      cases k with
      | finish => cases h
      | resolve | notify =>
          obtain ⟨rfl, -⟩ := List.cons.inj h
          rfl
  | batching o refundTo =>
      obtain ⟨rfl, -⟩ := List.cons.inj h
      simp [Receipt.mints, StakeOrder.batch, Phase.minting]
  | deliveringWnear a =>
      obtain ⟨rfl, -⟩ := List.cons.inj h
      show (a.batch host wnear).mints = none
      unfold Receipt.mints Attempt.batch LiquidStakingToken.deliveryActions
      cases a.msg <;> split_ifs <;> rfl
  | _ =>
      obtain ⟨rfl, -⟩ := List.cons.inj h
      rfl

end Steps

/-! ## Runs -/

section Reaches

variable {H : Type} [DecidableEq H] {host : Host H} {d : Deployment host}
  {events : List (PoolEvent H)} {sys : PoolSystem H} {c : PoolChain H} {e : PoolExecution H}

/-- Where validator actions succeed, no chain has the result of a failed one. -/
theorem Deployment.validator_succeeded (run : d.Reaches events sys)
    (hvalidator : ∀ ev ∈ events, validatorFails ev = false) :
    ∀ c ∈ sys.chains, ∀ p, Describes host d.wnearId c p → p.validatorFailed = false := by
  refine d.forall_phase (K := fun _ p => p.validatorFailed = false)
    (fun _ _ _ _ => rfl) ?_ ?_ ?_ ?_ run hvalidator
  · intro events s c e s₀ s₁ m p side turn fresh task before after entry
    cases entry <;> rfl
  · intro events s c e s₀ s₁ p p' side turn now hp verdict before after advance
    cases advance with
    | @rolledBack m r => cases m.depositToken <;> rfl
    | _ => rfl
  · intro events s c e p turn now hp here verdict
    cases p <;> first | rfl | cases here
  · intro events s c e p r turn now hp away verdict
    cases p with
    | restaking m amount key | unstaking u amount key k =>
        obtain ⟨rest, htasks⟩ := turn.fires.tasks_eq
        obtain ⟨htask, -⟩ := List.cons.inj (htasks.symm.trans now.tasks_eq)
        have hok := turn.now
        simp only [validatorFails, verdict, htask] at hok
        exact hok
    | _ => rfl

/-- A stake about to be minted was quoted in the state its chain left last.

The chain is in its minting phase from its quote on, and the next receipt of it
is the mint. -/
theorem Deployment.quoted (run : d.Reaches events sys) :
    ∀ c ∈ sys.chains, ∀ p, Describes host d.wnearId c p → ∀ o refundTo,
      p = .batching o refundTo → ∃ s₀, quotedIn c = some s₀ ∧ Quoted s₀ o := by
  refine d.forall_phase (K := fun c p => ∀ o refundTo,
    p = .batching o refundTo → ∃ s₀, quotedIn c = some s₀ ∧ Quoted s₀ o)
    (fun _ _ _ _ _ _ h => (nomatch h)) ?_ ?_ ?_ ?_ run fun _ _ => trivial
  · intro events s c e s₀ s₁ m p side turn fresh task before after entry o refundTo hp
    refine ⟨s₁, by simp [quotedIn, after], ?_⟩
    cases entry with
    | stake args s₁ result o' synced quoted =>
        obtain ⟨rfl, -⟩ := Phase.batching.inj hp
        exact quoted
    | _ => cases hp
  · intro events s c e s₀ s₁ p p' side turn now _ verdict before after advance o refundTo hp
    refine ⟨s₁, by simp [quotedIn, after], ?_⟩
    cases advance with
    | unwrapQuoted ok s₁ result o' synced quoted =>
        obtain ⟨rfl, -⟩ := Phase.batching.inj hp
        exact quoted
    | @rolledBack m r => cases hdeposit : m.depositToken <;> rw [hdeposit] at hp <;> cases hp
    | _ => cases hp
  · intro events s c e p turn now _ here verdict o refundTo hp
    cases p <;> cases hp
  · intro events s c e p r turn now _ away verdict o refundTo hp
    cases p <;> cases hp

/-- What a mint does to the rate is decided by its quote. -/
theorem Advance.minted_keepsRate_iff {s₀ : LiquidStakingToken H} {o : StakeOrder}
    {refundTo : Option AccountId} {p' : Phase H} {side : List (Receipt H)}
    (h : Advance host e.context e.before (.batching o refundTo) e.after p' side)
    (quoted : Quoted s₀ o) (hquoted : quotedIn c = some s₀)
    (hmints : e.task.mints = some (o.stakeAmount, o.lstTokens))
    (hverdict : ∃ ret, e.verdict = .committed ret side) :
    (KeepsRate e ∧ MintsWithin e) ↔ QuoteStands ⟨c, e⟩ := by
  obtain ⟨ret, hverdict⟩ := hverdict
  have hrate := h.minted_rateLe_iff
  constructor
  · rintro ⟨-, hwithin⟩ _ _ stakeAmount lstTokens s₁ _ hmints' hquoted' hsupply hstake
    obtain ⟨rfl, rfl⟩ := Prod.mk.inj (Option.some.inj (hmints.symm.trans hmints'))
    obtain rfl := Option.some.inj (hquoted.symm.trans hquoted')
    refine (quoted.mint_iff hsupply hstake).mp ((le_floor_iff hstake).mp ?_)
    exact hwithin _ _ _ _ hverdict hmints hsupply hstake
  · intro hstands
    have hworth : 0 < e.before.token.totalSupply →
        0 < e.before.statistics.totalStakedAmount → e.before.statistics.totalStakedAmount *
          o.lstTokens ≤ o.stakeAmount * e.before.token.totalSupply := fun hsupply hstake =>
      (quoted.mint_iff hsupply hstake).mpr
        (hstands _ _ _ _ _ hverdict hmints hquoted hsupply hstake)
    refine ⟨fun hsupply _ => ?_, ?_⟩
    · rcases Nat.eq_zero_or_pos e.before.statistics.totalStakedAmount with hnone | hstake
      · rw [hnone, zero_mul]
        exact Nat.zero_le _
      · exact hrate.mpr (hworth hsupply hstake)
    · intro _ _ stakeAmount lstTokens _ hmints' hsupply hstake
      obtain ⟨rfl, rfl⟩ := Prod.mk.inj (Option.some.inj (hmints.symm.trans hmints'))
      exact (le_floor_iff hstake).mpr (hworth hsupply hstake)

/-- One event of a run whose validator actions succeed: it keeps the rate
exactly if it mints no outdated quote. -/
theorem Deployment.keepsRate_iff_turn
    (turn : d.Turn (fun ev => validatorFails ev = false) events sys c e) :
    (KeepsRate e ∧ MintsWithin e) ↔ QuoteStands ⟨c, e⟩ := by
  have hbefore := turn.fires.before_eq
  have hsound := d.sound turn.run
  have hpool := d.pool_registered turn.run
  -- Nothing but a mint can break either side, so elsewhere both are true.
  have hquiet : e.task.mints = none → (0 < e.before.token.totalSupply →
      e.before.holdings.RateLe e.after.holdings) →
      ((KeepsRate e ∧ MintsWithin e) ↔ QuoteStands ⟨c, e⟩) := by
    intro hnone hrate
    refine iff_of_true ⟨fun hsupply _ => hrate hsupply, ?_⟩ ?_
    · intro ret detached stakeAmount lstTokens _ hmints
      rw [hnone] at hmints
      cases hmints
    · intro ret detached stakeAmount lstTokens s₀ _ hmints
      rw [hnone] at hmints
      cases hmints
  have hstill : e.after = e.before → (∀ ret detached, e.verdict ≠ .committed ret detached) →
      ((KeepsRate e ∧ MintsWithin e) ↔ QuoteStands ⟨c, e⟩) := by
    intro hsame hnone
    refine iff_of_true ⟨fun _ _ => by rw [hsame], ?_⟩ ?_
    · intro ret detached _ _ hverdict
      exact absurd hverdict (hnone ret detached)
    · intro ret detached _ _ _ hverdict
      exact absurd hverdict (hnone ret detached)
  obtain ⟨rest, htasks⟩ := turn.fires.tasks_eq
  cases d.transition turn with
  | entered m p side deposit gas fresh task_eq deposit_eq external entry =>
      exact hquiet (entry.mints_eq task_eq) entry.rateLe
  | advanced p p' side now self advance next verdict =>
      have hmem := now.mem turn.origin
      have hmints := Phase.mints_eq (now.tasks_eq.symm.trans htasks)
      -- The quote was made in an earlier state, and the mint compares the two.
      by_cases hbatch : ∃ o refundTo, p = .batching o refundTo
      · obtain ⟨o, refundTo, rfl⟩ := hbatch
        obtain ⟨s₀, hquoted, quoted⟩ := d.quoted turn.run c hmem _ now o refundTo rfl
        exact advance.minted_keepsRate_iff quoted hquoted hmints verdict
      · push Not at hbatch
        refine hquiet ?_ fun hsupply => advance.rateLe
          (d.validator_succeeded turn.run turn.good c hmem p now) hbatch
          (hbefore ▸ hsound.balanced) (hbefore ▸ hpool) hsupply
        cases p <;> first | exact hmints | exact absurd rfl (hbatch _ _)
  | panicked p now here self verdict same =>
      exact hstill same fun _ _ => by simp [verdict]
  | answered p r now away verdict same =>
      exact hstill same fun _ _ => by simp [verdict]

/-- **Nothing but an outdated quote lowers the rate.**  In a run whose validator
actions succeed, an event keeps the NEAR at stake per LST, and mints at most
what the stake buys at that moment, exactly if it mints no quote that has become
too generous.

Syncs, unstakes and forced burns keep the rate, since each of them rounds in the
pool's favour at the rate it finds.  A mint rounds nothing: it hands out the LST
of its quote.

`QuoteStands` compares two states before the mint, the one it was quoted in and
the one it finds, so the condition can be told without looking at what the mint
does. -/
theorem Deployment.rate_kept_iff (run : d.Reaches events sys)
    (hvalidator : ∀ ev ∈ events, validatorFails ev = false) :
    ∀ ev ∈ events, (KeepsRate ev.execution ∧ MintsWithin ev.execution) ↔ QuoteStands ev :=
  run.forall_event (Q := fun ev =>
    (KeepsRate ev.execution ∧ MintsWithin ev.execution) ↔ QuoteStands ev)
    d.keepsRate_iff_turn hvalidator

/-- As long as no event raises it, the rate is at most what it was after
`quote`.

By induction over the events since; a state without LST in between is excluded,
as it counts as a rise. -/
theorem Deployment.rateLe_since {between rest : List (PoolEvent H)} {quote : PoolEvent H}
    (run : d.Reaches (between ++ quote :: rest) sys)
    (hquiet : ∀ ev ∈ between, ¬RaisesRate ev.execution) :
    sys.state = quote.execution.after ∨ (0 < quote.execution.after.token.totalSupply ∧
      sys.state.holdings.RateLe quote.execution.after.holdings) := by
  induction between generalizing sys with
  | nil =>
      cases run with
      | step run step => exact .inl step.state_eq
  | cons ev between ih =>
      cases run with
      | @step _ sys _ _ run step =>
          have hbefore := step.fires.before_eq
          have hlast := hquiet ev List.mem_cons_self
          simp only [RaisesRate, not_or, not_lt, hbefore] at hlast
          obtain ⟨hfound, -, hrate⟩ := hlast
          rw [step.state_eq]
          rcases ih run fun ev' mem => hquiet ev' (List.mem_cons_of_mem _ mem) with
            hsame | ⟨hpos, hle⟩
          · rw [hsame] at hfound hrate
            exact .inr ⟨Nat.pos_of_ne_zero hfound, hrate⟩
          · have hstep : ev.execution.after.holdings.RateLe sys.state.holdings := hrate
            exact .inr ⟨hpos, hstep.trans hle (Nat.zero_le _) (Nat.pos_of_ne_zero hfound)
              (Nat.zero_le _)⟩

omit [DecidableEq H] in
/-- Where the rate is no higher, a stake buys no less. -/
theorem LiquidStakingToken.lstFor_le_of_rateLe {s s₀ : LiquidStakingToken H}
    (hrate : s.holdings.RateLe s₀.holdings) (hsupply₀ : 0 < s₀.token.totalSupply)
    (hsupply : 0 < s.token.totalSupply) (hstake : 0 < s.statistics.totalStakedAmount) (near : ℕ) :
    s₀.lstFor near ≤ s.lstFor near := by
  have hstake₀ : 0 < s₀.statistics.totalStakedAmount := by
    rcases Nat.eq_zero_or_pos s₀.statistics.totalStakedAmount with hnone | hpos
    · have hnothing : s.statistics.totalStakedAmount * s₀.token.totalSupply ≤
          s₀.statistics.totalStakedAmount * s.token.totalSupply := hrate
      rw [hnone, zero_mul] at hnothing
      exact absurd hnothing (Nat.mul_pos hstake hsupply₀).not_ge
    · exact hpos
  unfold LiquidStakingToken.lstFor
  rw [if_neg (by omega), if_neg (by omega)]
  exact hrate.floor_le hstake hstake₀ near

/-- A quote stands if no event since has raised the rate. -/
theorem Deployment.quoteStands_of_quiet (run : d.Reaches events sys) {ev : PoolEvent H}
    (hbefore : ev.execution.before = sys.state) {between : List (PoolEvent H)}
    (hsince : SinceQuote ev events between)
    (hquiet : ∀ ev' ∈ between, ¬RaisesRate ev'.execution) : QuoteStands ev := by
  obtain ⟨quote, rest, rfl, hlast⟩ := hsince
  intro ret detached stakeAmount lstTokens s₀ _ _ hquoted hsupply hstake
  obtain rfl : quote.execution.after = s₀ := by
    rw [quotedIn, hlast] at hquoted
    exact Option.some.inj hquoted
  rcases d.rateLe_since run hquiet with hsame | ⟨hpos, hrate⟩
  · rw [hbefore, hsame]
  · rw [← hbefore] at hrate
    exact LiquidStakingToken.lstFor_le_of_rateLe hrate hpos hsupply hstake stakeAmount

/-- **The rate falls only if it has risen before**: an event that lowers the
rate, or mints more than the stake buys at that moment, mints a stake that was
quoted before, and between the quote and this mint some event has raised the
rate.

So a stake that is minted while the rate stands still, or while other stakes and
unstakes run that do not move it, costs the other holders nothing. -/
theorem Deployment.rate_raised_between (run : d.Reaches events sys)
    (hvalidator : ∀ ev ∈ events, validatorFails ev = false) :
    ∀ ev older, ev :: older <:+ events →
      ¬(KeepsRate ev.execution ∧ MintsWithin ev.execution) →
      (∃ between, SinceQuote ev older between) ∧
        ∀ between, SinceQuote ev older between → ∃ ev' ∈ between, RaisesRate ev'.execution := by
  refine run.forall_suffix (Q := fun ev older =>
    ¬(KeepsRate ev.execution ∧ MintsWithin ev.execution) →
      (∃ between, SinceQuote ev older between) ∧
        ∀ between, SinceQuote ev older between → ∃ ev' ∈ between, RaisesRate ev'.execution)
    ?_ hvalidator
  intro events s c e turn hlowers
  have hfalls : ¬QuoteStands ⟨c, e⟩ := fun hstands =>
    hlowers ((d.keepsRate_iff_turn turn).mpr hstands)
  constructor
  · simp only [QuoteStands, not_forall] at hfalls
    obtain ⟨-, -, -, -, s₀, -, -, hquoted, -⟩ := hfalls
    obtain ⟨quote, hlast, -⟩ := Option.map_eq_some_iff.mp hquoted
    have hchain : c ∈ s.chains := by
      cases turn.origin with
      | fresh eq accepted commits =>
          rw [eq] at hlast
          cases hlast
      | inFlight mem resumed => exact mem
    have hran := turn.run.forall_trace (Q := fun e => ∃ c', (⟨c', e⟩ : PoolEvent H) ∈ events)
      (by simp [Deployment.genesis]) (fun ev mem => ⟨ev.chain, mem⟩) c hchain quote
      (List.mem_of_mem_head? hlast)
    obtain ⟨c', hquote⟩ := hran
    obtain ⟨between, rest, rfl⟩ := List.append_of_mem hquote
    exact ⟨between, _, rest, rfl, hlast⟩
  · intro between hsince
    by_contra hquiet
    push Not at hquiet
    exact hfalls (d.quoteStands_of_quiet turn.run turn.fires.before_eq hsince hquiet)

end Reaches

/-! ## An outdated quote

With 100 at stake against 100 LST, a stake of 10 is quoted 10 LST.  A reward of
100 is recognized before they are minted, and the rate falls from 2 to 210/110. -/

section Sample

/-- A stake of 10 that is minted after a reward of 100 was synced; both
validator actions succeed. -/
def sampleLateMint : List (Platform.Move Env (Receipt UnstakeMessage) Payload) :=
  let args : StakeMessage := ⟨"treasury", none, none, false, none, none⟩
  let env := sampleEnv 200 1000 1 "pool" 0
  [.enter (sampleEnv 100 1010 0 "alice" 10) (.call "pool" (.stake args) 10 0),
    .enter (sampleEnv 200 1000 1 "bob" 0) (.call "pool" .ping 0 0),
    .fire 0 env, .fire 0 env, .answer 0 env (.successful .empty), .fire 0 env,
    .answer 1 env (.successful .empty), .fire 1 env]

/-- The same stake, minted before the reward is synced. -/
private def sampleTimelyMint : List (Platform.Move Env (Receipt UnstakeMessage) Payload) :=
  let args : StakeMessage := ⟨"treasury", none, none, false, none, none⟩
  let env := sampleEnv 200 1000 0 "pool" 0
  [.enter (sampleEnv 100 1010 0 "alice" 10) (.call "pool" (.stake args) 10 0),
    .fire 0 env, .enter (sampleEnv 200 1010 1 "bob" 0) (.call "pool" .ping 0 0)]

/-- In time, every event keeps the rate; too late, some quote does not stand. -/
theorem Deployment.rate_kept_iff_sample :
    (∀ ev ∈ (samplePool.played sampleTimelyMint (by decide +kernel)).1,
        KeepsRate ev.execution ∧ MintsWithin ev.execution) ∧
      (∃ ev ∈ (samplePool.played sampleTimelyMint (by decide +kernel)).1,
        mintedBy ev.execution = some (10, 10)) ∧
      ¬∀ ev ∈ (samplePool.played sampleLateMint rfl).1, QuoteStands ev := by
  refine ⟨fun ev hev => ?_, by decide +kernel, fun hstands => ?_⟩
  · have hstands : ∀ ev ∈ (samplePool.played sampleTimelyMint (by decide +kernel)).1,
        QuoteStands ev := by
      decide +kernel
    exact (samplePool.rate_kept_iff (samplePool.played_reaches _ (by decide +kernel))
      (by decide +kernel) ev hev).mpr (hstands ev hev)
  · have hkept : ∀ ev ∈ (samplePool.played sampleLateMint rfl).1, KeepsRate ev.execution :=
      fun ev hev => ((samplePool.rate_kept_iff (samplePool.played_reaches _ rfl)
        (by decide +kernel) ev hev).mpr (hstands ev hev)).1
    exact absurd hkept (by decide +kernel)

/-- **The rate can go down**, although every validator action succeeded: a
reachable system in which the stake of 10 has bought 10 LST, of which it would
buy 5 at that moment. -/
theorem rate_falls_sample :
    samplePool.Reaches (samplePool.played sampleLateMint rfl).1
        (samplePool.played sampleLateMint rfl).2 ∧
      (∀ ev ∈ (samplePool.played sampleLateMint rfl).1, validatorFails ev = false) ∧
      ∃ ev ∈ (samplePool.played sampleLateMint rfl).1, ¬KeepsRate ev.execution ∧
        ¬MintsWithin ev.execution ∧ mintedBy ev.execution = some (10, 10) ∧
        ev.execution.before.lstFor 10 = 5 :=
  ⟨samplePool.played_reaches _ rfl, by decide +kernel⟩

end Sample

end LiquidStaking
