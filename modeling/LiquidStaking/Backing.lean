import LiquidStaking.Rate

/-!
# One LST is backed by one NEAR

`new` mints the genesis supply one to one against the stake it finds, and from
then on the stake covers the supply (`Backed`): rewards only add to the stake, a
stake is minted at most one to one, and an unstake takes out its share.

Quotes are minted in a later receipt than they are made in, so the invariant has
a second half, about the chains: a stake about to be minted was quoted at most
as many LST as NEAR.  `Deployment.backed` proves both halves together.

Under this invariant the conversions cannot fail: neither the products nor the
quotients leave the machine word, and what an unstake pays out is positive and
covered.  `conversionPanics` lists the panics that are ruled out.
-/

namespace LiquidStaking

open Checked PromiseChain

/-! ## A backed state -/

/-- The stake covers the LST at one NEAR each. -/
structure Backed {H : Type} (s : LiquidStakingToken H) : Prop where
  supply_le : s.token.totalSupply ≤ s.statistics.totalStakedAmount
  stake_lt : s.statistics.totalStakedAmount < 2 ^ 128
  fee_le : s.statistics.protocolFeeBps ≤ maxProtocolFeeBps

/-- The panics of the conversions, and of the checks an unstake makes on what it
converted. -/
def conversionPanics : List String :=
  ["Division by zero in mul_div_floor", "Overflow in mul_div_floor",
    "Unstake amount in NEAR must be more than 0", "Attempt to unstake more than staked"]

section Conversions

variable {H : Type} {s : LiquidStakingToken H}

/-- A quotient that fits in a word is computed, however large the product. -/
theorem mulDivFloor_ok {a b c : ℕ} (hc : 0 < c) (hfits : a * b / c < 2 ^ 128) :
    LiquidStakingToken.mulDivFloor a b c = .ok (a * b / c) := by
  unfold LiquidStakingToken.mulDivFloor
  rw [require_bind_eq_ok]
  refine ⟨hc, ?_⟩
  cases hproduct : checkedMul 128 a b with
  | none =>
      dsimp only
      rw [if_pos hfits]
      rfl
  | some product =>
      obtain ⟨-, rfl⟩ := checkedMul_eq_some.mp hproduct
      rfl

/-- A stake buys at most its NEAR in LST. -/
theorem Backed.lstFor_le (h : Backed s) (near : ℕ) : s.lstFor near ≤ near := by
  unfold LiquidStakingToken.lstFor
  split_ifs with hempty
  · exact le_rfl
  · refine Nat.div_le_of_le_mul ?_
    rw [mul_comm]
    exact Nat.mul_le_mul_right near h.supply_le

theorem Backed.nearToLst_eq (h : Backed s) {near : ℕ} (hnear : near < 2 ^ 128) :
    s.nearToLst near = .ok (s.lstFor near) := by
  have hle := h.lstFor_le near
  unfold LiquidStakingToken.nearToLst LiquidStakingToken.lstFor at *
  split_ifs at hle ⊢ with hempty
  · rfl
  · exact mulDivFloor_ok (by omega) (lt_of_le_of_lt hle hnear)

/-- LST that are part of the supply are worth at most the whole stake. -/
theorem nearFor_le {lst : ℕ} (hlst : lst ≤ s.token.totalSupply) :
    s.nearFor lst ≤ s.statistics.totalStakedAmount :=
  Nat.div_le_of_le_mul (Nat.mul_le_mul_right _ hlst)

/-- LST that are part of the supply are worth at least as much NEAR. -/
theorem Backed.le_nearFor (h : Backed s) {lst : ℕ} (hlst : lst ≤ s.token.totalSupply) :
    lst ≤ s.nearFor lst := by
  rcases Nat.eq_zero_or_pos s.token.totalSupply with hnone | hpos
  · omega
  · exact (Nat.le_div_iff_mul_le hpos).mpr (Nat.mul_le_mul_left lst h.supply_le)

theorem Backed.lstToNear_eq (h : Backed s) {lst : ℕ} (hlst : lst ≤ s.token.totalSupply) :
    s.lstToNear lst = .ok (s.nearFor lst) := by
  have hfits := lt_of_le_of_lt (nearFor_le hlst) h.stake_lt
  unfold LiquidStakingToken.lstToNear LiquidStakingToken.nearFor at *
  split_ifs with hnone
  · rw [hnone, Nat.div_zero]
  · exact mulDivFloor_ok (by omega) hfits

theorem mulDivFloor_ne_division {a b c : ℕ} (hc : 0 < c) :
    LiquidStakingToken.mulDivFloor a b c ≠ .error "Division by zero in mul_div_floor" := by
  intro herror
  simp only [LiquidStakingToken.mulDivFloor, bind_eq_error, require_eq_error] at herror
  rcases herror with ⟨hzero, -⟩ | ⟨_, -, herror⟩
  · exact hzero hc
  · split at herror
    · exact pure_ne_error herror
    · exact absurd (expect_eq_error.mp herror).2 (by decide)

/-- No conversion divides by zero, whatever the state and the amount. -/
theorem conversions_ne_division (s : LiquidStakingToken H) (n : ℕ) :
    s.nearToLst n ≠ .error "Division by zero in mul_div_floor" ∧
      s.lstToNear n ≠ .error "Division by zero in mul_div_floor" := by
  unfold LiquidStakingToken.nearToLst LiquidStakingToken.lstToNear
  constructor
  · split_ifs with hempty
    · simp
    · exact mulDivFloor_ne_division (by omega)
  · split_ifs with hempty
    · simp
    · exact mulDivFloor_ne_division (by omega)

/-- The fee on a reward is computed, and is part of the reward. -/
theorem Backed.splitProtocolFee_ok (h : Backed s) {reward : ℕ} (hreward : reward < 2 ^ 128) :
    s.feeOn reward ≤ reward ∧
      s.splitProtocolFee reward = .ok (reward - s.feeOn reward, s.feeOn reward) := by
  have hfee : s.feeOn reward ≤ reward := by
    refine Nat.div_le_of_le_mul ?_
    rw [mul_comm]
    exact Nat.mul_le_mul_right reward (h.fee_le.trans (by decide))
  refine ⟨hfee, ?_⟩
  unfold LiquidStakingToken.splitProtocolFee
  split_ifs with hzero
  · have hnone : s.feeOn reward = 0 := by simp [LiquidStakingToken.feeOn, hzero]
    rw [hnone]
    rfl
  · have hsplit := mulDivFloor_ok (a := reward) (b := s.statistics.protocolFeeBps)
      (by decide : 0 < bpsDenominator) (lt_of_le_of_lt hfee hreward)
    simp only [hsplit, ok_bind, bind_eq_ok, expect_eq_ok, checkedSub_eq_some, pure_eq_ok]
    exact ⟨_, ⟨hfee, rfl⟩, rfl⟩

end Conversions

/-! ## Each step keeps the state backed -/

section Steps

variable {H : Type} {host : Host H} {env : Env} {s s' : LiquidStakingToken H}

/-- A stake about to be minted was quoted at most one to one. -/
def Phase.QuotesWithin (p : Phase H) : Prop :=
  ∀ stakeAmount lstTokens, p.minting = some (stakeAmount, lstTokens) → lstTokens ≤ stakeAmount

/-- A sync burns nothing. -/
theorem LiquidStakingToken.Synced.totalSupply_le {epoch balance excluded : ℕ}
    {result : LiquidStakingToken.SyncRewardsResult}
    (hsync : LiquidStakingToken.Synced epoch balance excluded s s' result) :
    s.token.totalSupply ≤ s'.token.totalSupply := by
  cases hsync with
  | idle => exact le_rfl
  | reward => exact Nat.le_add_right _ _

/-- The reward comes in whole, and its fee is minted at most one to one. -/
theorem LiquidStakingToken.Synced.backed {epoch balance excluded : ℕ}
    {result : LiquidStakingToken.SyncRewardsResult}
    (hsync : LiquidStakingToken.Synced epoch balance excluded s s' result) (h : Backed s) :
    Backed s' := by
  cases hsync with
  | idle => exact h
  | reward reward feeLst pos _ _ fee_le feeLst_eq supply_bounded stake_bounded =>
      have hnet : Backed (s.addStake (reward - s.feeOn reward)) := by
        refine ⟨h.supply_le.trans (Nat.le_add_right _ _), ?_, h.fee_le⟩
        rw [LiquidStakingToken.addStake_statistics_totalStakedAmount]
        omega
      have hminted : feeLst ≤ reward := by
        rw [feeLst_eq]
        exact (hnet.lstFor_le _).trans fee_le
      refine ⟨?_, stake_bounded, h.fee_le⟩
      show s.token.totalSupply + feeLst ≤ s.statistics.totalStakedAmount + reward
      exact Nat.add_le_add h.supply_le hminted

/-- An unstake takes out its share, rounded down. -/
theorem Unstakes.backed {message : UnstakeMessage} {s₁ : LiquidStakingToken H}
    {u : UnstakeOrder H} (hunstakes : Unstakes host env s message s₁ u) (h : Backed s) :
    Backed (u.burn host s₁) := by
  obtain ⟨result, synced⟩ := hunstakes.synced
  have h₁ := synced.backed h
  refine ⟨?_, lt_of_le_of_lt (Nat.sub_le _ _) h₁.stake_lt, h₁.fee_le⟩
  show s₁.token.totalSupply - u.lstAmount ≤ s₁.statistics.totalStakedAmount - u.nearAmount
  have hpos := Nat.lt_of_lt_of_le hunstakes.lst_pos hunstakes.supply_le
  have hrest : s₁.nearFor u.lstAmount + s₁.nearFor (s₁.token.totalSupply - u.lstAmount) ≤
      s₁.statistics.totalStakedAmount := by
    refine Nat.div_add_div_le_add_div.trans ?_
    rw [← Nat.add_mul, Nat.add_sub_cancel' hunstakes.supply_le, Nat.mul_div_cancel_left _ hpos]
  have hleft := h₁.le_nearFor (Nat.sub_le s₁.token.totalSupply u.lstAmount)
  rw [hunstakes.near_eq]
  omega

/-- Less supply against the same stake. -/
theorem Backed.of_supply_le {t : LiquidStakingToken H} (h : Backed s)
    (hsupply : t.token.totalSupply ≤ s.token.totalSupply)
    (hstake : t.statistics.totalStakedAmount = s.statistics.totalStakedAmount)
    (hfee : t.statistics.protocolFeeBps = s.statistics.protocolFeeBps) : Backed t :=
  ⟨hstake ▸ hsupply.trans h.supply_le, hstake ▸ h.stake_lt, hfee ▸ h.fee_le⟩

/-- A mint of a quote that is within the stake. -/
theorem StakeOrder.mint_backed {o : StakeOrder} (h : Backed s)
    (hquote : o.lstTokens ≤ o.stakeAmount)
    (hfits : o.MintFits s) : Backed (o.mint host s) :=
  ⟨Nat.add_le_add h.supply_le hquote, hfits.stake, h.fee_le⟩

theorem registerIfNew_totalSupply (s : LiquidStakingToken H) (a : AccountId) :
    (s.registerIfNew a).token.totalSupply = s.token.totalSupply := by
  rw [LiquidStakingToken.registerIfNew_token]
  split_ifs <;> rfl

variable [DecidableEq H]

omit [DecidableEq H] in
/-- A quote made in a backed state is within the stake. -/
theorem Quoted.within {o : StakeOrder} (hquoted : Quoted s o) (h : Backed s)
    (refundTo : Option AccountId) : (Phase.batching o refundTo : Phase H).QuotesWithin := by
  intro stakeAmount lstTokens hminting
  obtain ⟨rfl, rfl⟩ := Prod.mk.inj (Option.some.inj hminting)
  rw [hquoted.lst_eq]
  exact h.lstFor_le _

omit [DecidableEq H] in
/-- A phase that mints nothing has nothing to show. -/
theorem Phase.quotesWithin_of_none {p : Phase H} (h : p.minting = none) : p.QuotesWithin := by
  intro stakeAmount lstTokens hminting
  rw [h] at hminting
  cases hminting

theorem Entry.backed {m : Method H} {p : Phase H} {side : List (Receipt H)}
    (hentry : Entry host env s m s' p side) (h : Backed s) : Backed s' ∧ p.QuotesWithin := by
  cases hentry with
  | stake args s₁ result o synced quoted =>
      exact ⟨synced.backed h, quoted.within (synced.backed h) _⟩
  | pingIdle result s₁ synced | ping reward s₁ synced =>
      exact ⟨synced.backed h, Phase.quotesWithin_of_none rfl⟩
  | setFee feeBps s₁ result _ _ capped synced =>
      have h₁ := synced.backed h
      exact ⟨⟨h₁.supply_le, h₁.stake_lt, capped⟩, Phase.quotesWithin_of_none rfl⟩
  | setKey key s₁ result _ _ synced =>
      exact ⟨synced.backed (h.of_supply_le le_rfl rfl rfl), Phase.quotesWithin_of_none rfl⟩
  | storageNew accountId =>
      exact ⟨h.of_supply_le (registerIfNew_totalSupply s _).le rfl rfl,
        Phase.quotesWithin_of_none rfl⟩
  | unregister =>
      exact ⟨h.of_supply_le (Nat.sub_le _ _) rfl rfl, Phase.quotesWithin_of_none rfl⟩
  | _ => exact ⟨h.of_supply_le le_rfl rfl rfl, Phase.quotesWithin_of_none rfl⟩

/-- A callback keeps the state backed, unless it takes back what a failed
validator action did.

A mint raises stake and supply by a quote that is within its stake, and a burn
redeems at a rate that is at least one. -/
theorem Advance.backed {p p' : Phase H} {side : List (Receipt H)}
    (hadvance : Advance host env s p s' p' side) (hfailed : p.validatorFailed = false)
    (hquote : p.QuotesWithin) (hsound : s.token.Balanced) (h : Backed s) :
    Backed s' ∧ p'.QuotesWithin := by
  cases hadvance with
  | unwrapQuoted ok s₁ result o synced quoted =>
      exact ⟨synced.backed h, quoted.within (synced.backed h) _⟩
  | unwrapRejected ok s₁ result synced =>
      exact ⟨(synced.backed h).of_supply_le le_rfl rfl rfl, Phase.quotesWithin_of_none rfl⟩
  | minted plain registered pool room bounded =>
      exact ⟨StakeOrder.mint_backed h (hquote _ _ rfl) bounded, Phase.quotesWithin_of_none rfl⟩
  | @mintedRegistering o refundTo storage registered covered pool room bounded =>
      refine ⟨StakeOrder.mint_backed ?_ (hquote _ _ rfl) ⟨bounded.stake, ?_⟩,
        Phase.quotesWithin_of_none rfl⟩
      · exact h.of_supply_le (registerIfNew_totalSupply s _).le rfl rfl
      · rw [registerIfNew_totalSupply]
        exact bounded.supply
  | handedOver ok registered escrow | handedOverCall ok registered escrow =>
      refine ⟨h.of_supply_le ?_ rfl rfl, Phase.quotesWithin_of_none rfl⟩
      exact (Nat.sub_add_cancel (escrow.trans (hsound.ftBalanceOf_le _))).le
  | rolledBack failed | undone failed =>
      rw [Phase.validatorFailed, failed] at hfailed
      cases hfailed
  | nothingRefused message _ t used burned resolved | resolved t used burned resolved =>
      exact ⟨h.of_supply_le resolved.totalSupply_le rfl rfl, Phase.quotesWithin_of_none rfl⟩
  | refused message _ t used burned resolved s₁ u _ _ unstakes =>
      exact ⟨unstakes.backed (h.of_supply_le resolved.totalSupply_le rfl rfl),
        Phase.quotesWithin_of_none rfl⟩
  | unstakeRequested message _ s₁ u _ _ unstakes =>
      exact ⟨unstakes.backed h, Phase.quotesWithin_of_none rfl⟩
  | _ => exact ⟨h.of_supply_le le_rfl rfl rfl, Phase.quotesWithin_of_none rfl⟩

end Steps

/-! ## Runs -/

section Panics

variable {H : Type} {host : Host H} {env : Env} {s : LiquidStakingToken H}

/-- A sync of a backed state converts without a panic. -/
theorem Backed.syncRewardsInternal_error (h : Backed s) {excluded : Option ℕ} {msg : String}
    (herror : s.syncRewardsInternal env excluded = .error msg) : msg ∉ conversionPanics := by
  unfold LiquidStakingToken.syncRewardsInternal at herror
  split_ifs at herror with hsynced
  · exact absurd herror pure_ne_error
  rcases bind_eq_error.mp herror with herror | ⟨balance, hbalance, herror⟩
  · rw [← (expect_eq_error.mp herror).2]
    decide
  simp only [expect_eq_ok, Option.bind_eq_some_iff, checkedAdd_eq_some, checkedSub_eq_some]
    at hbalance
  obtain ⟨_, ⟨hfits, rfl⟩, -, rfl⟩ := hbalance
  split at herror
  · exact absurd herror pure_ne_error
  next reward hreward =>
  obtain ⟨-, rfl⟩ := checkedSub_eq_some.mp hreward
  split_ifs at herror with hnone
  · exact absurd herror pure_ne_error
  obtain ⟨hfee, hsplit⟩ := h.splitProtocolFee_ok (lt_of_le_of_lt
    ((Nat.sub_le _ _).trans (Nat.sub_le _ _)) hfits)
  rw [hsplit, ok_bind] at herror
  rcases bind_eq_error.mp herror with herror | ⟨s₁, hstake, herror⟩
  · exact LiquidStakingToken.increaseStakeAmount_avoids (by decide) _ herror
  obtain ⟨hroom, rfl⟩ := LiquidStakingToken.increaseStakeAmount_eq_ok.mp hstake
  have hnet : Backed (s.addStake _) :=
    ⟨h.supply_le.trans (Nat.le_add_right _ _), hroom, h.fee_le⟩
  rw [hnet.nearToLst_eq (by omega), ok_bind] at herror
  rcases bind_eq_error.mp herror with herror | ⟨s₂, -, herror⟩
  · exact LiquidStakingToken.internalDeposit_avoids (by decide) _ herror
  rcases bind_eq_error.mp herror with herror | ⟨s₃, -, herror⟩
  · exact LiquidStakingToken.increaseStakeAmount_avoids (by decide) _ herror
  · exact absurd herror pure_ne_error

/-- A positive unstake covered by the supply passes every check on what it
converts to.

It may still fail for other reasons, which are not about the rate. -/
theorem Backed.handleUnstaking_error (h : Backed s) {lst : ℕ} {message : UnstakeMessage}
    {trigger : UnstakeTrigger} {msg : String} (hpos : 0 < lst) (hlst : lst ≤ s.token.totalSupply)
    (herror : s.handleUnstaking host env lst message trigger = .error msg) :
    msg ∉ conversionPanics := by
  unfold LiquidStakingToken.handleUnstaking at herror
  rcases bind_eq_error.mp herror with herror | ⟨_, -, herror⟩
  · exact absurd hpos (require_eq_error.mp herror).1
  rcases bind_eq_error.mp herror with herror | ⟨⟨s₁, result⟩, hsync, herror⟩
  · exact h.syncRewardsInternal_error herror
  have hsynced := LiquidStakingToken.syncRewardsInternal_eq_ok hsync
  have h₁ := hsynced.backed h
  have hlst₁ : lst ≤ s₁.token.totalSupply := hlst.trans hsynced.totalSupply_le
  have hnear := h₁.le_nearFor hlst₁
  dsimp only at herror
  rw [h₁.lstToNear_eq hlst₁, ok_bind] at herror
  rcases bind_eq_error.mp herror with herror | ⟨_, -, herror⟩
  · exact absurd (Nat.lt_of_lt_of_le hpos hnear) (require_eq_error.mp herror).1
  rcases bind_eq_error.mp herror with herror | ⟨_, -, herror⟩
  · exact absurd (nearFor_le hlst₁) (require_eq_error.mp herror).1
  rcases bind_eq_error.mp herror with herror | ⟨_, -, herror⟩
  · rcases bind_eq_error.mp herror with herror | ⟨_, -, herror⟩
    · exact LiquidStakingToken.decreaseStakeAmount_avoids (by decide) _ herror
    · exact LiquidStakingToken.internalWithdraw_avoids (fun _ => by decide) (by decide) _ herror
  · exact absurd herror pure_ne_error

end Panics

section Reaches

variable {H : Type} [DecidableEq H] {host : Host H} {d : Deployment host}
  {events : List (PoolEvent H)} {sys : PoolSystem H}

omit [DecidableEq H] in
/-- A contract just initialized is backed one to one. -/
theorem Deployment.initial_backed (d : Deployment host) : Backed d.state where
  supply_le := by rw [d.initial.supply_eq, d.initial.stake_eq]
  stake_lt := by
    have hcreated := d.created
    simp only [LiquidStakingToken.new, bind_eq_ok, expect_eq_ok, checkedAdd_eq_some] at hcreated
    obtain ⟨_, -, _, -, _, ⟨hfits, -⟩, -⟩ := hcreated
    rw [d.initial.stake_eq]
    omega
  fee_le := by
    rw [d.initial.fee_eq]
    exact Nat.zero_le _

/-- The stake covers the supply, and every quote in flight is within its stake.

The second half is what a mint needs: the LST of a quote are at most the NEAR
that is staked for them, although the rate may have changed since. -/
theorem Deployment.backed (run : d.Reaches events sys)
    (hvalidator : ∀ ev ∈ events, validatorFails ev = false) :
    Backed sys.state ∧
      ∀ c ∈ sys.chains, ∀ p, Describes host d.wnearId c p → p.QuotesWithin := by
  refine d.invariant (I := Backed) (K := fun _ p => p.QuotesWithin) d.initial_backed
    (fun _ _ _ _ => Phase.quotesWithin_of_none rfl) ?_ ?_ ?_ ?_ run hvalidator
  · intro events s c e s₀ s₁ m p side turn h fresh task before after entry
    exact entry.backed h
  · intro events s c e s₀ s₁ p p' side turn h now hquote verdict before after advance
    have hbalanced := (d.sound turn.run).balanced
    rw [← turn.fires.before_eq, before] at hbalanced
    exact advance.backed
      (d.validator_succeeded turn.run turn.good c (now.mem turn.origin) p now) hquote hbalanced h
  · intro events s c e p turn now hquote here verdict
    refine Phase.quotesWithin_of_none ?_
    cases p <;> rfl
  · intro events s c e p r turn now hquote away verdict
    refine Phase.quotesWithin_of_none ?_
    cases p <;> rfl

/-- **An LST is worth at least one NEAR** in every run whose validator actions
succeed, and under this rate the conversions never fail.

The last parts are about every call that may come next: whatever its environment
and its arguments, a sync or an unstake does not panic on what it converts.
Nothing is assumed of gas, of receivers or of other answers.  A failed validator
action is excluded, since its rollback takes out of the books what was quoted
once, at whatever rate has come about since. -/
theorem Deployment.lst_backed (run : d.Reaches events sys)
    (hvalidator : ∀ ev ∈ events, validatorFails ev = false) :
    sys.state.token.totalSupply ≤ sys.state.statistics.totalStakedAmount ∧
      (∀ near < 2 ^ 128, ∃ lst ≤ near, sys.state.nearToLst near = .ok lst) ∧
      (∀ lst, 0 < lst → lst ≤ sys.state.token.totalSupply →
        ∃ near, sys.state.lstToNear lst = .ok near ∧ 0 < near ∧
          near ≤ sys.state.statistics.totalStakedAmount) ∧
      (∀ n, sys.state.nearToLst n ≠ .error "Division by zero in mul_div_floor" ∧
        sys.state.lstToNear n ≠ .error "Division by zero in mul_div_floor") ∧
      (∀ env excluded msg, sys.state.syncRewardsInternal env excluded = .error msg →
        msg ∉ conversionPanics) ∧
      ∀ env lst message trigger msg, 0 < lst → lst ≤ sys.state.token.totalSupply →
        sys.state.handleUnstaking host env lst message trigger = .error msg →
          msg ∉ conversionPanics := by
  have h := (d.backed run hvalidator).1
  refine ⟨h.supply_le, fun near hnear => ⟨_, h.lstFor_le near, h.nearToLst_eq hnear⟩,
    fun lst hpos hlst => ⟨_, h.lstToNear_eq hlst, ?_, nearFor_le hlst⟩,
    conversions_ne_division _, ?_, ?_⟩
  · exact Nat.lt_of_lt_of_le hpos (h.le_nearFor hlst)
  · intro env excluded msg herror
    exact h.syncRewardsInternal_error herror
  · intro env lst message trigger msg hpos hlst herror
    exact h.handleUnstaking_error hpos hlst herror

/-- After the treasury unstaked 40 of its 100 LST, the 60 left are worth 60
NEAR. -/
theorem Deployment.lst_backed_sample :
    (samplePool.played (sampleUnstake "native") rfl).2.state.token.totalSupply = 60 ∧
      ∃ near, (samplePool.played (sampleUnstake "native") rfl).2.state.lstToNear 60 = .ok near ∧
        0 < near ∧ near ≤ 60 := by
  obtain ⟨-, -, hworth, -⟩ := samplePool.lst_backed
    (samplePool.played_reaches (sampleUnstake "native") rfl) (by decide +kernel)
  exact ⟨rfl, hworth 60 (by decide) (by decide +kernel)⟩

end Reaches

end LiquidStaking
