import LiquidStaking.Lib.Settling
import LiquidStaking.Solvency

/-!
# The exit is open

Unregistering is not gated by a pause: an account must always be able to recover
its storage deposit and leave.  The call can only fail in the books, where the
price of the registration leaves `latest_total_balance`; and there it is
covered, since the tracked balance covers every registration
(`LiquidStaking.Solvency`).  Unregistering keeps what the books have beyond the
registrations, so the others can still leave afterwards, one after the other.
-/

namespace LiquidStaking

open Checked PromiseChain

section Definitions

variable {H : Type}

/-- The call with which an account leaves, whatever it holds.

With force, so that a balance is burned instead of standing in the way. -/
def Receipt.leave (host : Host H) (gas : ℕ) : Receipt H :=
  .call host.currentAccountId (.storageUnregister (some true)) oneYocto gas

/-- `env` is a call by `a` that brings the one yoctoNEAR and enough gas, at
`now` or later. -/
structure Env.Leaves (env : Env) (a : AccountId) (now : ℕ) : Prop where
  predecessor_eq : env.predecessorAccountId = a
  deposit_eq : env.attachedDeposit = oneYocto
  has_gas : env.gasExhausted = false
  now_le : now ≤ env.epochHeight

/-- The environment `env` with such a call in it. -/
theorem Env.leaves (env : Env) (a : AccountId) (now : ℕ) : Env.Leaves { env with
    predecessorAccountId := a
    attachedDeposit := oneYocto
    gasExhausted := false
    epochHeight := now } a now := ⟨rfl, rfl, rfl, le_rfl⟩

/-- The event is a call with which somebody leaves. -/
def IsLeave (host : Host H) (ev : PoolEvent H) : Prop :=
  ∃ gas, ev.execution.task = .leave host gas

end Definitions

section Calls

variable {H : Type} {host : Host H} {env : Env} {s : LiquidStakingToken H}

/-- Without an account, the ledger without `a`; what is left of the holder
count. -/
def LiquidStakingToken.without (host : Host H) (s : LiquidStakingToken H) (a : AccountId) :
    LiquidStakingToken H :=
  (s.withToken (s.token.unregister a)
    (if s.token.ftBalanceOf a = 0 then s.statistics.numDelegators
      else s.statistics.numDelegators - 1)).subBalance host.storageBalanceMin

/-- **Unregistering by force** succeeds as soon as the books cover the price.

All other checks are about the caller, and none of them looks at what is paused. -/
theorem LiquidStakingToken.storageUnregister_force {a : AccountId}
    (hcaller : env.predecessorAccountId = a) (hyocto : env.attachedDeposit = oneYocto)
    (hpool : a ≠ host.currentAccountId) (htreasury : a ≠ s.treasuryId)
    (hregistered : s.token.isRegistered a = true) (hbalanced : s.token.Balanced)
    (hcovered : host.storageBalanceMin ≤ s.statistics.latestTotalBalance) :
    s.storageUnregister host env.arriving (some true) =
      .ok ⟨s.without host a, .value (.json 4), detachedPay a (host.storageBalanceMin + 1)⟩ := by
  subst hcaller
  obtain ⟨balance, hlookup⟩ := Option.isSome_iff_exists.mp hregistered
  have hbalance : s.token.ftBalanceOf env.predecessorAccountId = balance := by
    simp [FungibleToken.ftBalanceOf, hlookup]
  have hsupply : balance ≤ s.token.totalSupply := hbalance ▸ hbalanced.ftBalanceOf_le _
  have hledger : s.token.storageUnregister env.arriving (some true) =
      .ok (s.token.unregister env.predecessorAccountId, true) := by
    have hpaid : env.arriving.attachedDeposit = oneYocto := hyocto
    simp only [FungibleToken.storageUnregister, Env.assertOneYocto, hpaid,
      Env.arriving_predecessorAccountId, hlookup]
    simp [FungibleToken.unregister, hbalance, hsupply, checkedSub, require, expect]
  have hexternal : LiquidStakingToken.isExternalCall host env.arriving = true :=
    isExternalCall_arriving hpool
  have hordinary : env.predecessorAccountId ≠ host.currentAccountId ∧
      env.predecessorAccountId ≠ s.treasuryId := ⟨hpool, htreasury⟩
  simp only [LiquidStakingToken.storageUnregister, bind_eq_ok, require_eq_ok, Prod.exists]
  refine ⟨(), hordinary, _, true, hledger, _, ?_, rfl⟩
  rw [onlyIf_pos hexternal, if_pos rfl, LiquidStakingToken.decreaseTotalBalance_eq_ok]
  by_cases hzero : s.token.ftBalanceOf env.predecessorAccountId = 0
  · have hempty : s.isZeroBalance env.arriving.predecessorAccountId = true := decide_eq_true hzero
    simp only [hempty, Bool.not_true, Bool.and_false, Bool.false_eq_true, if_false]
    refine ⟨hcovered, ?_⟩
    rw [LiquidStakingToken.without, if_pos hzero]
    rfl
  · have hholder : s.isZeroBalance env.arriving.predecessorAccountId = false :=
      decide_eq_false hzero
    simp only [hholder, decide_true, Bool.not_false, Bool.and_self, if_true]
    refine ⟨hcovered, ?_⟩
    rw [LiquidStakingToken.without, if_neg hzero]
    rfl

end Calls

section Reaches

variable {H : Type} [DecidableEq H] {host : Host H} {d : Deployment host}
  {events : List (PoolEvent H)} {sys sys' : PoolSystem H} {ev : PoolEvent H}
  {messages : Set UnstakeMessage} {a : AccountId}

/-- A run whose books cover every registration: no forced release, different
hashes, and an initial balance that pays for the external deliveries.

The structure is kept by a call that leaves, so that accounts can leave one
after the other. -/
structure Deployment.Covers (d : Deployment host) (messages : Set UnstakeMessage)
    (events : List (PoolEvent H)) (sys : PoolSystem H) : Prop where
  run : d.Reaches events sys
  hash_inj : Set.InjOn host.hash messages
  orderly : ∀ ev ∈ events, Orderly messages ev
  /-- Each external wNEAR delivery costs the books a yoctoNEAR. -/
  deliveries_le : events.countP (settlesExternally host) ≤ d.env.accountBalance

/-- The price of a registration is in the books.

The tracker covers all registrations, so it covers one. -/
theorem Deployment.Covers.price_le (h : d.Covers messages events sys)
    (hregistered : sys.state.token.isRegistered a = true) (hkeeper : a ∉ d.keepers) :
    host.storageBalanceMin ≤ sys.state.statistics.latestTotalBalance := by
  have hsolvent := d.solvent h.hash_inj h.run h.orderly
  have hdeliveries := h.deliveries_le
  have hsplit := WithdrawalRequests.total_sub_residual (q := sys.state.withdrawalRequests)
    fun hash l mem => (d.covered h.hash_inj h.run h.orderly hash l mem).residual_le
  have hcount := FungibleToken.registrations_unregister hregistered hkeeper
  have hprice : host.storageBalanceMin ≤
      host.storageBalanceMin * sys.state.token.registrations d.keepers :=
    Nat.le_mul_of_pos_right _ (by omega)
  unfold slack owed at hsolvent
  zify at hprice ⊢
  omega

/-- A registered account can leave. -/
theorem Deployment.Covers.leave (h : d.Covers messages events sys)
    (hregistered : sys.state.token.isRegistered a = true) (hkeeper : a ∉ d.keepers) {env : Env}
    (henv : env.Leaves a sys.now) (gas : ℕ) :
    ∃ ev sys', (platform host).Step sys ev sys' ∧ ev.execution.context = env ∧
      ev.execution.task = .leave host gas ∧ sys'.state = sys.state.without host a ∧
      Chain.single (.pay a (host.storageBalanceMin + 1)) ∈ sys'.chains := by
  have hpool : a ≠ host.currentAccountId := by
    rintro rfl
    exact hkeeper (by simp [Deployment.keepers])
  have htreasury : a ≠ sys.state.treasuryId := by
    rw [(d.phased h.run).treasuryId_eq]
    rintro rfl
    exact hkeeper (by simp [Deployment.keepers])
  have hcommits := LiquidStakingToken.storageUnregister_force henv.predecessor_eq henv.deposit_eq
    hpool htreasury hregistered (d.sound h.run).balanced (h.price_le hregistered hkeeper)
  let e : PoolExecution H := ⟨env, .leave host gas, none, sys.state, sys.state.without host a,
    .committed (.value (.json 4)) (detachedPay a (host.storageBalanceMin + 1))⟩
  have hfires : (platform host).Fires sys (Chain.single e.task) e :=
    { before_eq := rfl
      input_eq := rfl
      tasks_eq := ⟨[], rfl⟩
      legal := ⟨by simp [e, platform, Receipt.leave, Receipt.call, Action.isCall],
        henv.has_gas, by
          show callMethod host (env.forCall oneYocto none) sys.state _ = _
          rw [← henv.deposit_eq]
          exact hcommits⟩
      clock_le := henv.now_le }
  refine ⟨_, _, .enter e hfires ?_ ⟨_, _, rfl⟩, rfl, rfl, rfl, ?_⟩
  · simp [e, platform, Receipt.leave, Receipt.call, henv.predecessor_eq, henv.deposit_eq, hpool]
  · simp [e, Execution.spawned, detachedPay, Chain.single]

/-- Afterwards the books cover those who are left. -/
theorem Deployment.Covers.step_leave (h : d.Covers messages events sys)
    (hstep : (platform host).Step sys ev sys') (hleave : IsLeave host ev) :
    d.Covers messages (ev :: events) sys' := by
  obtain ⟨gas, htask⟩ := hleave
  refine ⟨h.run.step hstep, h.hash_inj, ?_, ?_⟩
  · refine List.forall_mem_cons.mpr ⟨⟨?_, ?_⟩, h.orderly⟩
    · simp [Unforced, htask, Receipt.leave, Receipt.call, Receipt.releasesByHand]
    · rintro args ⟨deposit, gas', hactions⟩
      rw [htask] at hactions
      cases hactions
  · have hquiet : settlesExternally host ev = false := by
      simp only [settlesExternally, htask, Receipt.leave, Receipt.call]
      split <;> simp_all
    rw [List.countP_cons_of_neg (by simp [hquiet])]
    exact h.deliveries_le

/-- Somebody who is no keeper is registered while registrations are counted. -/
theorem FungibleToken.exists_of_registrations_pos {t : FungibleToken} {keepers : List AccountId}
    (h : 0 < t.registrations keepers) : ∃ a, t.isRegistered a = true ∧ a ∉ keepers := by
  obtain ⟨a, ha⟩ := List.exists_mem_of_length_pos h
  obtain ⟨hkey, hkeeper⟩ := List.mem_filter.mp ha
  exact ⟨a, FungibleToken.mem_keys_iff.mp hkey, by simpa using hkeeper⟩

/-- Only the keepers are registered once no registration is counted. -/
theorem FungibleToken.Sound.registered_iff {t : FungibleToken} {keepers : List AccountId}
    (hsound : t.Sound keepers) (h : t.registrations keepers = 0) (a : AccountId) :
    t.isRegistered a = true ↔ a ∈ keepers := by
  constructor
  · intro ha
    by_contra hkeeper
    have hcount := FungibleToken.registrations_unregister ha hkeeper
    omega
  · exact hsound.registered a

/-- Everybody can leave, one after the other: by induction on how many are
registered. -/
theorem Deployment.Covers.exists_emptied (h : d.Covers messages events sys) :
    ∃ newer sys', (platform host).Run sys newer sys' ∧ (∀ ev ∈ newer, IsLeave host ev) ∧
      ∀ a, sys'.state.token.isRegistered a = true ↔ a ∈ d.keepers := by
  generalize hcount : sys.state.token.registrations d.keepers = n
  induction n generalizing events sys with
  | zero =>
      exact ⟨[], sys, .start, by simp, (d.sound h.run).registered_iff hcount⟩
  | succ n ih =>
      have hpos : 0 < sys.state.token.registrations d.keepers := by omega
      obtain ⟨a, hregistered, hkeeper⟩ := FungibleToken.exists_of_registrations_pos hpos
      obtain ⟨ev, sys₁, hstep, -, htask, hstate, -⟩ :=
        h.leave hregistered hkeeper (d.env.leaves a sys.now) 0
      have hfewer : sys₁.state.token.registrations d.keepers = n := by
        have hone := FungibleToken.registrations_unregister hregistered hkeeper
        rw [hstate]
        show (sys.state.token.unregister a).registrations d.keepers = n
        omega
      obtain ⟨newer, sys', hrest, hleave, hempty⟩ := ih (h.step_leave hstep ⟨0, htask⟩) hfewer
      refine ⟨newer ++ [ev], sys', Platform.Run.append (.step .start hstep) hrest, ?_, hempty⟩
      intro ev' hmem
      rcases List.mem_append.mp hmem with hnewer | hfirst
      · exact hleave ev' hnewer
      · rw [List.mem_singleton.mp hfirst]
        exact ⟨0, htask⟩

/-- **The exit is always open.**  As long as nobody releases locks by hand, the
messages withdrawn for have different hashes, and there have been no more
external wNEAR deliveries than the pool was created with yoctoNEAR, every
registered account but the pool and the treasury can leave at any moment,
whatever is paused and whatever is in flight: the call commits, burns what the
account holds and nothing else, leaves the stake and the queue alone, and pays
the price of the registration back.  And they can all leave, one after the
other.

LST that leave in this way are not unstaked: what they were worth stays in the
stake, for the others.  The three conditions are those under which the books are
solvent (`Deployment.books_solvent`), with the yoctoNEAR paid out of the initial
balance. -/
theorem Deployment.exit_always_open (run : d.Reaches events sys)
    (hforce : ∀ ev ∈ events, Unforced ev) (hinj : Set.InjOn host.hash (withdrawn events))
    (hdeliveries : events.countP (settlesExternally host) ≤ d.env.accountBalance) :
    (∀ a, sys.state.token.isRegistered a = true → a ≠ host.currentAccountId →
      a ≠ d.treasuryId → ∀ env : Env, env.Leaves a sys.now → ∀ gas,
        ∃ ev sys', (platform host).Step sys ev sys' ∧ ev.execution.context = env ∧
          ev.execution.task = .leave host gas ∧
          (∀ b, sys'.state.token.isRegistered b = true ↔
            b ≠ a ∧ sys.state.token.isRegistered b = true) ∧
          (∀ b ≠ a, sys'.state.token.ftBalanceOf b = sys.state.token.ftBalanceOf b) ∧
          sys'.state.token.totalSupply + sys.state.token.ftBalanceOf a =
            sys.state.token.totalSupply ∧
          sys'.state.statistics.totalStakedAmount = sys.state.statistics.totalStakedAmount ∧
          sys'.state.withdrawalRequests = sys.state.withdrawalRequests ∧
          Chain.single (.pay a (host.storageBalanceMin + 1)) ∈ sys'.chains) ∧
    ∃ newer sys', (platform host).Run sys newer sys' ∧ (∀ ev ∈ newer, IsLeave host ev) ∧
      ∀ a, sys'.state.token.isRegistered a = true ↔
        a = host.currentAccountId ∨ a = d.treasuryId := by
  -- The tracker covers the price of every registration, so it can be paid back.
  have hcovers : d.Covers (withdrawn events) events sys :=
    ⟨run, hinj, orderly_withdrawn hforce, hdeliveries⟩
  constructor
  · intro a hregistered hpool htreasury env henv gas
    obtain ⟨ev, sys', hstep, hcontext, htask, hstate, hpaid⟩ :=
      hcovers.leave hregistered (by simp [Deployment.keepers, hpool, htreasury]) henv gas
    have htoken : sys'.state.token = sys.state.token.unregister a := by
      rw [hstate]
      rfl
    refine ⟨ev, sys', hstep, hcontext, htask, ?_, ?_, ?_, ?_, ?_, hpaid⟩
    · intro b
      rw [htoken, FungibleToken.isRegistered_unregister]
      simp
    · intro b hne
      rw [htoken, FungibleToken.ftBalanceOf_unregister, if_neg hne]
    · have hle := (d.sound run).balanced.ftBalanceOf_le a
      rw [htoken, FungibleToken.unregister_totalSupply]
      omega
    · rw [hstate]
      rfl
    · rw [hstate]
      rfl
  · obtain ⟨newer, sys', rest, hleave, hempty⟩ := hcovers.exists_emptied
    exact ⟨newer, sys', rest, hleave, fun a => (hempty a).trans (by simp [Deployment.keepers])⟩

/-- `alice` registers while the unstake of the treasury waits in the queue. -/
def sampleRegistration : List (Platform.Move Env (Receipt UnstakeMessage) Payload) :=
  sampleUnstake "native" ++
    [.enter (sampleEnv 60 1040 1 "alice" ftStorageDeposit)
      (.call "pool" (.storageDeposit none none) ftStorageDeposit 0)]

/-- She can leave in the next epoch, and only the pool and the treasury remain. -/
theorem Deployment.exit_always_open_sample :
    ∃ ev sys', (platform sampleHost).Step (samplePool.played sampleRegistration rfl).2 ev sys' ∧
      ¬sys'.state.token.isRegistered "alice" = true ∧
      Chain.single (.pay "alice" (ftStorageDeposit + 1)) ∈ sys'.chains := by
  obtain ⟨hleave, -⟩ := samplePool.exit_always_open
    (samplePool.played_reaches sampleRegistration rfl) (by decide +kernel)
    (fun _ _ _ _ h => h) (by decide +kernel)
  obtain ⟨ev, sys', hstep, -, -, hregistered, -, -, -, -, hpaid⟩ :=
    hleave "alice" (by decide +kernel) (by decide) (by decide)
      (sampleEnv 60 1040 2 "alice" oneYocto) ⟨rfl, rfl, rfl, by decide +kernel⟩ 0
  exact ⟨ev, sys', hstep, fun h => ((hregistered "alice").mp h).1 rfl, hpaid⟩

end Reaches

end LiquidStaking
