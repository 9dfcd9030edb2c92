import LiquidStaking.Reachable

/-!
# The holder count

`num_delegators` is kept next to the ledger: each method samples which of the
accounts it touches are empty before and after, and moves the count by the
difference.  It equals the number of accounts with a positive balance
(`CountsHolders`), in every reachable state.

On the ledger side, writing one balance moves the number of holders by what that
balance was and is (`positive`).  On the side of the count, `recount` does the
same as long as it does not clamp, and it never does: an account that is about
to be emptied is one of those counted.  A transfer and a resolver recount two
accounts one after the other, which is the same, unless both are one account,
whose balance then stays.
-/

namespace LiquidStaking

open Checked PromiseChain

/-! ## Holders of a ledger -/

/-- One for a positive balance. -/
def positive (n : ℕ) : ℕ := if 0 < n then 1 else 0

@[simp] theorem positive_zero : positive 0 = 0 := rfl

namespace FungibleToken

/-- The number of accounts with a positive balance. -/
def holders (t : FungibleToken) : ℕ := Store.total positive t.accounts

variable {t t' : FungibleToken} {a b : AccountId}

private theorem weight_lookup (t : FungibleToken) (a : AccountId) :
    Store.weight positive (t.accounts.lookup a) = positive (t.ftBalanceOf a) := by
  unfold ftBalanceOf
  cases t.accounts.lookup a <;> rfl

/-- Writing one balance moves the number of holders at that account only.

What the account counted before is added on the left, so that nothing is
subtracted. -/
private theorem holders_insert (t : FungibleToken) (a : AccountId) (n supply : ℕ) :
    holders ⟨t.accounts.insert a n, supply⟩ + positive (t.ftBalanceOf a) =
      t.holders + positive n := by
  rw [← weight_lookup]
  exact Store.total_insert positive t.accounts a n

/-- A mint may add a holder. -/
theorem holders_mint (t : FungibleToken) (a : AccountId) (n : ℕ) :
    (t.mint a n).holders + positive (t.ftBalanceOf a) =
      t.holders + positive (t.ftBalanceOf a + n) := holders_insert t a _ _

/-- A burn may take one away. -/
theorem holders_burn (t : FungibleToken) (a : AccountId) (n : ℕ) :
    (t.burn a n).holders + positive (t.ftBalanceOf a) =
      t.holders + positive (t.ftBalanceOf a - n) := holders_insert t a _ _

/-- A move changes the number of holders at the two accounts. -/
theorem holders_move (hne : a ≠ b) (n : ℕ) :
    (t.move a b n).holders + positive (t.ftBalanceOf a) + positive (t.ftBalanceOf b) =
      t.holders + positive (t.ftBalanceOf a - n) + positive (t.ftBalanceOf b + n) := by
  have hburn := holders_burn t a n
  have hmint := holders_mint (t.burn a n) b n
  have hsame : (t.burn a n).ftBalanceOf b = t.ftBalanceOf b := by
    rw [ftBalanceOf_burn, if_neg hne.symm]
  have hmove : (t.move a b n).holders = ((t.burn a n).mint b n).holders := rfl
  rw [hsame] at hmint
  omega

/-- A move from an account to itself changes nothing. -/
theorem holders_move_self {n : ℕ} (hn : n ≤ t.ftBalanceOf a) :
    (t.move a a n).holders = t.holders := by
  have hburn := holders_burn t a n
  have hmint := holders_mint (t.burn a n) a n
  have hmove : (t.move a a n).holders = ((t.burn a n).mint a n).holders := rfl
  rw [ftBalanceOf_burn_self, Nat.sub_add_cancel hn] at hmint
  omega

/-- A new account has no balance. -/
theorem holders_register (h : t.isRegistered a = false) : (t.register a).holders = t.holders := by
  have hins := holders_insert t a 0 t.totalSupply
  rw [ftBalanceOf_of_not_isRegistered h] at hins
  exact hins

/-- An account that is removed is no holder any more. -/
theorem holders_unregister (t : FungibleToken) (a : AccountId) :
    (t.unregister a).holders + positive (t.ftBalanceOf a) = t.holders := by
  rw [← weight_lookup]
  exact Store.total_erase positive t.accounts a

/-- An account with a positive balance is one of the holders. -/
theorem positive_le_holders (t : FungibleToken) (a : AccountId) :
    positive (t.ftBalanceOf a) ≤ t.holders := by
  rw [← weight_lookup]
  exact Store.weight_lookup_le positive t.accounts a

/-- So are two different ones. -/
theorem positive_add_le_holders (t : FungibleToken) (hne : a ≠ b) :
    positive (t.ftBalanceOf a) + positive (t.ftBalanceOf b) ≤ t.holders := by
  by_cases ha : t.isRegistered a = true
  · by_cases hb : t.isRegistered b = true
    · exact Store.add_le_total hne (lookup_of_isRegistered ha) (lookup_of_isRegistered hb)
    · rw [ftBalanceOf_of_not_isRegistered (a := b) (by simpa using hb)]
      exact t.positive_le_holders a
  · rw [ftBalanceOf_of_not_isRegistered (by simpa using ha), positive_zero, Nat.zero_add]
    exact t.positive_le_holders b

end FungibleToken

namespace LiquidStakingToken

variable {H : Type} {s s' : LiquidStakingToken H} {a b : AccountId}

/-- A recount that does not clamp moves the count by what the balance was and
is. -/
theorem recount_eq {k m n : ℕ} (h : 0 < m → 0 < k) :
    recount k (decide (m = 0)) (decide (n = 0)) + positive m = k + positive n := by
  unfold positive
  by_cases hold : m = 0 <;> by_cases hnew : n = 0 <;>
    simp only [hold, hnew, decide_true, decide_false, recount, Nat.lt_irrefl, if_false] <;> grind

/-- The holder count is the number of accounts with a positive balance. -/
def CountsHolders (s : LiquidStakingToken H) : Prop :=
  s.statistics.numDelegators = s.token.holders

/-- With a holder the count is positive, so that it can be lowered. -/
theorem CountsHolders.pos (h : s.CountsHolders) (ha : 0 < s.token.ftBalanceOf a) :
    0 < s.statistics.numDelegators := by
  have hle := s.token.positive_le_holders a
  rw [CountsHolders] at h
  simp only [positive, ha, if_true] at hle
  omega

/-- The second of two recounts does not clamp either. -/
theorem CountsHolders.recount_pos (h : s.CountsHolders) (hne : a ≠ b) (n : ℕ)
    (hb : 0 < s.token.ftBalanceOf b) :
    0 < recount s.statistics.numDelegators (s.isZeroBalance a) (decide (n = 0)) := by
  have htwo := s.token.positive_add_le_holders hne
  have hrecount := recount_eq (k := s.statistics.numDelegators) (n := n)
    fun ha : 0 < s.token.ftBalanceOf a => h.pos ha
  have hpos : positive (s.token.ftBalanceOf b) = 1 := if_pos hb
  rw [CountsHolders] at h
  unfold isZeroBalance
  omega

/-- One account written, and recounted. -/
theorem CountsHolders.retoken (h : s.CountsHolders) {t : FungibleToken}
    (ht : t.holders + positive (s.token.ftBalanceOf a) =
      s.token.holders + positive (t.ftBalanceOf a)) : (s.retoken t a).CountsHolders := by
  have hrecount := recount_eq (k := s.statistics.numDelegators) (n := t.ftBalanceOf a)
    fun ha : 0 < s.token.ftBalanceOf a => h.pos ha
  unfold CountsHolders at *
  rw [retoken_token, retoken_statistics_numDelegators]
  unfold isZeroBalance
  omega

/-- One account credited. -/
theorem CountsHolders.credit (h : s.CountsHolders) (a : AccountId) (n : ℕ) :
    (s.credit a n).CountsHolders :=
  h.retoken (by rw [FungibleToken.ftBalanceOf_mint_self]; exact s.token.holders_mint a n)

/-- One account debited. -/
theorem CountsHolders.debit (h : s.CountsHolders) (a : AccountId) (n : ℕ) :
    (s.debit a n).CountsHolders :=
  h.retoken (by rw [FungibleToken.ftBalanceOf_burn_self]; exact s.token.holders_burn a n)

/-- Two different accounts written, and recounted one after the other.

The second recount starts from the count that the first has left, so the
accounts have to be different. -/
theorem CountsHolders.retokenBoth (h : s.CountsHolders) {t : FungibleToken} (hne : a ≠ b)
    (ht : t.holders + positive (s.token.ftBalanceOf a) + positive (s.token.ftBalanceOf b) =
      s.token.holders + positive (t.ftBalanceOf a) + positive (t.ftBalanceOf b)) :
    (s.retokenBoth t a b).CountsHolders := by
  have hfirst := recount_eq (k := s.statistics.numDelegators) (n := t.ftBalanceOf a)
    fun ha : 0 < s.token.ftBalanceOf a => h.pos ha
  have hsecond := recount_eq (n := t.ftBalanceOf b) fun hb : 0 < s.token.ftBalanceOf b =>
    h.recount_pos hne (t.ftBalanceOf a) hb
  unfold CountsHolders at *
  rw [retokenBoth_token, retokenBoth_statistics_numDelegators]
  unfold isZeroBalance at *
  omega

/-- Nothing written that counts. -/
theorem CountsHolders.of_eq {t : LiquidStakingToken H} (h : s.CountsHolders)
    (htoken : t.token.holders = s.token.holders)
    (hcount : t.statistics.numDelegators = s.statistics.numDelegators) : t.CountsHolders := by
  unfold CountsHolders at *
  rw [hcount, htoken, h]

/-- A transfer between two accounts. -/
theorem CountsHolders.move (h : s.CountsHolders) (hne : a ≠ b) {n : ℕ}
    (hn : n ≤ s.token.ftBalanceOf a) : (s.retokenBoth (s.token.move a b n) a b).CountsHolders := by
  refine h.retokenBoth hne ?_
  rw [FungibleToken.ftBalanceOf_move _ _ _ _ a hn, FungibleToken.ftBalanceOf_move _ _ _ _ b hn,
    if_neg hne, if_neg hne, if_neg hne, if_pos rfl, if_pos rfl]
  exact FungibleToken.holders_move hne n

/-- A resolver returns LST to the sender, or burns them for it; when both are
the same account, nothing happens to its balance. -/
theorem CountsHolders.resolve (h : s.CountsHolders) {unused amount used burned : ℕ}
    {t : FungibleToken}
    (hresolved : FungibleToken.Resolved unused amount a b s.token t used burned) :
    (s.retokenBoth t a b).CountsHolders := by
  cases hresolved with
  | kept =>
      rw [retokenBoth_self]
      exact h
  | returned refund refund_eq =>
      have hle : refund ≤ s.token.ftBalanceOf b := refund_eq ▸ min_le_left _ _
      by_cases hsame : a = b
      · subst hsame
        have hbalance : (s.token.move a a refund).ftBalanceOf a = s.token.ftBalanceOf a := by
          rw [FungibleToken.ftBalanceOf_move _ _ _ _ a hle, if_pos rfl]
        refine h.of_eq (FungibleToken.holders_move_self hle) ?_
        rw [retokenBoth_statistics_numDelegators, hbalance]
        cases hzero : s.isZeroBalance a <;> simp only [isZeroBalance] at hzero <;>
          rw [hzero] <;> rfl
      · refine h.retokenBoth hsame ?_
        rw [FungibleToken.ftBalanceOf_move _ _ _ _ a hle,
          FungibleToken.ftBalanceOf_move _ _ _ _ b hle, if_neg (Ne.symm hsame),
          if_neg (Ne.symm hsame), if_neg (Ne.symm hsame), if_pos rfl, if_pos rfl]
        have hmove := FungibleToken.holders_move (t := s.token) (Ne.symm hsame) refund
        omega
  | burned _ refund_eq pos gone =>
      have hreceiver : 0 < s.token.ftBalanceOf b := by omega
      have hnone := FungibleToken.ftBalanceOf_of_not_isRegistered gone
      have hne : a ≠ b := fun hsame => by rw [hsame] at hnone; omega
      refine h.retokenBoth hne ?_
      have hburn := s.token.holders_burn b burned
      rw [FungibleToken.ftBalanceOf_burn, if_neg hne, FungibleToken.ftBalanceOf_burn_self]
      omega

/-- An account registered. -/
theorem CountsHolders.registerIfNew (h : s.CountsHolders) (a : AccountId) :
    (s.registerIfNew a).CountsHolders := by
  refine h.of_eq ?_ rfl
  rw [registerIfNew_token]
  split_ifs with hreg
  · rfl
  · exact FungibleToken.holders_register (by simpa using hreg)

/-- An account removed, with or without a balance. -/
theorem CountsHolders.unregister (h : s.CountsHolders) (a : AccountId) :
    (s.withToken (s.token.unregister a) (if s.token.ftBalanceOf a = 0 then
      s.statistics.numDelegators else s.statistics.numDelegators - 1)).CountsHolders := by
  have hgone := s.token.holders_unregister a
  unfold CountsHolders positive at *
  simp only [withToken_token, withToken_statistics_numDelegators]
  split_ifs at hgone ⊢ <;> omega

/-- The fee of a reward goes to the treasury, be it nothing. -/
theorem Synced.countsHolders {epoch balance excluded : ℕ} {result : SyncRewardsResult}
    (hsync : Synced epoch balance excluded s s' result) (h : s.CountsHolders) :
    s'.CountsHolders := by
  cases hsync with
  | idle => exact h
  | reward reward feeLst => exact (h.credit s.treasuryId feeLst).of_eq rfl rfl

end LiquidStakingToken

/-! ## Each step -/

section Steps

variable {H : Type} {host : Host H} {env : Env} {s s' : LiquidStakingToken H}

/-- An unstake syncs and then burns the escrow. -/
theorem Unstakes.countsHolders {message : UnstakeMessage} {s₁ : LiquidStakingToken H}
    {u : UnstakeOrder H} (hunstakes : Unstakes host env s message s₁ u) (h : s.CountsHolders) :
    (u.burn host s₁).CountsHolders := by
  obtain ⟨result, synced⟩ := hunstakes.synced
  have h₁ : (s₁.subStake u.nearAmount).CountsHolders := synced.countsHolders h
  exact h₁.debit host.currentAccountId u.lstAmount

variable [DecidableEq H]

/-- **A call from outside** keeps the count exact. -/
theorem Entry.countsHolders {m : Method H} {p : Phase H} {side : List (Receipt H)}
    (hentry : Entry host env s m s' p side) (h : s.CountsHolders) : s'.CountsHolders := by
  cases hentry with
  | stake args s₁ result o synced => exact synced.countsHolders h
  | pingIdle result s₁ synced | ping reward s₁ synced => exact synced.countsHolders h
  | setFee feeBps s₁ result _ _ _ synced => exact (synced.countsHolders h).of_eq rfl rfl
  | setKey key s₁ result _ _ synced => exact synced.countsHolders (h.of_eq rfl rfl)
  | transfer receiverId amount memo moved | transferCall receiverId amount memo msg moved =>
      obtain ⟨hne, -, -, -, hle, -⟩ := LiquidStakingToken.transferTokens_eq_ok moved
      exact h.move hne hle
  | storageNew accountId registrationOnly fresh => exact (h.registerIfNew _).of_eq rfl rfl
  | unregister force holders yocto registered ordinary forced covered holders_eq =>
      rw [holders_eq]
      exact (h.unregister env.predecessorAccountId).of_eq rfl rfl
  | _ => exact h.of_eq rfl rfl

/-- **A callback** keeps the count exact. -/
theorem Advance.countsHolders {p p' : Phase H} {side : List (Receipt H)}
    (hadvance : Advance host env s p s' p' side) (h : s.CountsHolders) : s'.CountsHolders := by
  cases hadvance with
  | unwrapQuoted ok s₁ result o synced => exact synced.countsHolders h
  | unwrapRejected ok s₁ result synced => exact (synced.countsHolders h).of_eq rfl rfl
  | @minted o => exact (h.of_eq (t := (s.addBalance _).addStake o.stakeAmount) rfl rfl).credit _ _
  | @mintedRegistering o =>
      exact ((h.registerIfNew o.args.receiverId).of_eq
        (t := ((s.registerIfNew o.args.receiverId).addBalance _).addStake o.stakeAmount)
          rfl rfl).credit _ _
  | handedOver | handedOverCall => exact (h.debit _ _).credit _ _
  | rolledBack => exact (h.debit _ _).of_eq rfl rfl
  | nothingRefused message _ t used burned resolved | resolved t used burned resolved =>
      exact h.resolve resolved
  | refused message _ t used burned resolved s₁ u _ _ unstakes =>
      exact unstakes.countsHolders (h.resolve resolved)
  | unstakeRequested message _ s₁ u _ _ unstakes => exact unstakes.countsHolders h
  | @undone u => exact (h.of_eq (t := s.addStake u.nearAmount) rfl rfl).credit _ _
  | _ => exact h.of_eq rfl rfl

end Steps

/-! ## Runs -/

section Reaches

variable {H : Type} [DecidableEq H] {host : Host H} {d : Deployment host}
  {events : List (PoolEvent H)} {sys : PoolSystem H}

omit [DecidableEq H] in
/-- `new` registers the pool and the treasury, and counts the treasury if it
holds something. -/
theorem Deployment.initial_countsHolders (d : Deployment host) : d.state.CountsHolders := by
  have hcreated := d.created
  simp only [LiquidStakingToken.new, bind_eq_ok] at hcreated
  obtain ⟨t₁, hpool, t, htreasury, total, -, hcreated⟩ := hcreated
  obtain ⟨hfresh, rfl⟩ := FungibleToken.internalRegisterAccount_eq_ok.mp hpool
  have hempty : t.holders = 0 := by
    by_cases hsame : host.currentAccountId = d.treasuryId
    · rw [onlyIf_neg (not_not.mpr hsame)] at htreasury
      obtain rfl := Except.ok.inj htreasury
      exact FungibleToken.holders_register hfresh
    · rw [onlyIf_pos hsame] at htreasury
      obtain ⟨hnew, rfl⟩ := FungibleToken.internalRegisterAccount_eq_ok.mp htreasury
      rw [FungibleToken.holders_register hnew]
      exact FungibleToken.holders_register hfresh
  split_ifs at hcreated with hlocked
  · obtain ⟨-, -, -, -, hstate⟩ := LiquidStakingToken.internalDeposit_eq_ok.mp hcreated
    rw [← hstate]
    refine LiquidStakingToken.CountsHolders.credit ?_ _ _
    exact hempty.symm
  · rw [← pure_eq_ok.mp hcreated]
    exact hempty.symm

/-- **The holder count is exact** in every reachable state.  Whatever ledger a
method then installs, the recount of one account, or of two, takes nothing from
a count of zero.

The code lowers the count with a saturating subtraction; the last two parts say
that it never saturates, so that the count does not drift away from the ledger. -/
theorem Deployment.holders_counted (run : d.Reaches events sys) :
    sys.state.statistics.numDelegators = sys.state.token.holders ∧
      (∀ a, 0 < sys.state.token.ftBalanceOf a → 0 < sys.state.statistics.numDelegators) ∧
      ∀ (t : FungibleToken) a b, a ≠ b → 0 < sys.state.token.ftBalanceOf b →
        0 < LiquidStakingToken.recount sys.state.statistics.numDelegators
          (sys.state.isZeroBalance a) (decide (t.ftBalanceOf a = 0)) := by
  have h : sys.state.CountsHolders := by
    refine run.forall_state (I := LiquidStakingToken.CountsHolders) d.initial_countsHolders
      (fun turn ih => ?_) fun _ _ => trivial
    cases d.transition turn with
    | entered m p side deposit gas fresh task_eq deposit_eq external entry =>
        exact entry.countsHolders ih
    | advanced p p' side now self advance => exact advance.countsHolders ih
    | panicked p now here self verdict same => exact same ▸ ih
    | answered p r now away verdict same => exact same ▸ ih
  exact ⟨h, fun a ha => h.pos ha, fun t a b hne hb => h.recount_pos hne _ hb⟩

/-- The treasury stays the only holder when it unstakes a part of its LST. -/
theorem Deployment.holders_counted_sample :
    (samplePool.played (sampleUnstake "native") rfl).2.state.statistics.numDelegators = 1 ∧
      (samplePool.played (sampleUnstake "native") rfl).2.state.token.holders = 1 := by
  have hcounted := (samplePool.holders_counted
    (samplePool.played_reaches (sampleUnstake "native") rfl)).1
  exact ⟨rfl, hcounted ▸ rfl⟩

end Reaches

end LiquidStaking
