import LiquidStaking.Custody

/-!
# A transfer call settles

`ft_transfer_call` to an account other than the pool is a chain of three
receipts: the transfer, the receiver's `ft_on_transfer`, and the resolver that
reads its answer.  Other chains run in between, and the receiver may have spent
what it got, so the resolver takes back what is unused and still there.

`CallStage` lists where such a chain can be; when it is done
(`Deployment.transfer_call_settles`) the receiver has kept what it used, and the
rest is back with the sender, or burned because the sender is gone.  A resolver
that is cut off leaves everything with the receiver, and that happens for want
of gas or of room in the holder count only.
-/

namespace LiquidStaking

open Checked Movements PromiseChain

section Definitions

variable {H : Type} (host : Host H) (sender receiver : AccountId) (amount : ℕ)

/-- The transfer that such a chain begins with. -/
structure SentTo (e : PoolExecution H) : Prop where
  sender_ne : sender ≠ receiver
  moves : Moves e.before e.after [.transfer sender receiver amount]

/-- The receiver was asked what it makes of the LST, and answered `r`. -/
structure AskedFor (r : PromiseResult) (e : PoolExecution H) : Prop where
  asks : e.task.Asks receiver amount
  answer : e.verdict = .answered r
  same : e.after = e.before

/-- The receipt that such a chain ends with. -/
def resolverCall : Receipt H :=
  .call host.currentAccountId (.ftResolveTransfer sender receiver amount) 0 ftResolveTransferGas

/-- The executions of a transfer call so far, newest first, and the phase they
led to. -/
inductive CallStage : List (PoolExecution H) → Phase H → Prop
  /-- The LST are with the receiver. -/
  | sent {e₀ : PoolExecution H} (msg : String) (gas : ℕ) (sent : SentTo sender receiver amount e₀) :
      CallStage [e₀] (.sending receiver sender amount msg gas (.resolve sender receiver amount))
  /-- The receiver has answered, with a number or not. -/
  | answered {e₀ e₁ : PoolExecution H} (r : PromiseResult) (sent : SentTo sender receiver amount e₀)
      (asked : AskedFor receiver amount r e₁) :
      CallStage [e₁, e₀] (.continuing (.resolve sender receiver amount) r)
  /-- The resolver ran. -/
  | resolved {e₀ e₁ e₂ : PoolExecution H} (r : PromiseResult)
      (sent : SentTo sender receiver amount e₀) (asked : AskedFor receiver amount r e₁)
      (used burned : ℕ) (t : FungibleToken) (commits : e₂.verdict ≠ .panicked)
      (resolved : FungibleToken.Resolved (FungibleToken.unusedAmount (some r) amount) amount
        sender receiver e₂.before.token t used burned)
      (after_eq : e₂.after = e₂.before.retokenBoth t sender receiver) :
      CallStage [e₂, e₁, e₀] (.continuing .finish (.successful (.ofU128 used)))
  /-- The resolver panicked. -/
  | cut {e₀ e₁ e₂ : PoolExecution H} (r : PromiseResult) (sent : SentTo sender receiver amount e₀)
      (asked : AskedFor receiver amount r e₁)
      (task : e₂.task = resolverCall host sender receiver amount)
      (panicked : e₂.verdict = .panicked) (unchanged : e₂.after = e₂.before) :
      CallStage [e₂, e₁, e₀] (.continuing .finish .failed)

end Definitions

section Settlements

variable {H : Type} (sender receiver : AccountId) (amount : ℕ)

/-- The receiver keeps what it used, and `refund` is back with its sender, or
burned.

The balances are what the chain itself has changed; the receiver may have spent
its LST meanwhile. -/
structure CallSettled (refund : ℕ) (registered : Bool) (c : PoolChain H) : Prop where
  /-- No other account is touched. -/
  balance_eq : ∀ a, c.net (fun s => s.token.ftBalanceOf a) =
    (if a = receiver then amount - refund else 0 : ℕ) -
      (if a = sender then amount - (if registered then refund else 0) else 0 : ℕ)
  /-- The supply shrinks by what is burned. -/
  supply_eq : c.net (fun s => s.token.totalSupply) = -(if registered then 0 else refund : ℕ)
  /-- LST that were burned are reported as used. -/
  reported : c.input =
    some (.successful (.ofU128 (if registered then amount - refund else amount)))

/-- The receiver keeps everything, and nothing is reported. -/
structure CallKept (c : PoolChain H) : Prop where
  balance_eq : ∀ a, c.net (fun s => s.token.ftBalanceOf a) =
    (if a = receiver then amount else 0 : ℕ) - (if a = sender then amount else 0 : ℕ)
  supply_eq : c.net (fun s => s.token.totalSupply) = 0
  reported : c.input = some .failed

/-- The chain started with a transfer call of `amount` to `receiver`. -/
def StartedCall (c : PoolChain H) (e₀ : PoolExecution H) : Prop :=
  c.trace.getLast? = some e₀ ∧ ∃ memo msg deposit gas, e₀.task.actions =
    [.call (.ftTransferCall receiver amount memo msg) deposit gas]

end Settlements

/-! ## The resolver runs -/

section Resolver

variable {H : Type} {host : Host H} {env : Env} {s : LiquidStakingToken H}

/-- A refund fits where the supply fits. -/
theorem FungibleToken.internalFtResolveTransfer_isOk (env : Env) (amount : ℕ) {t : FungibleToken}
    {sender receiver : AccountId} (hne : sender ≠ receiver) (hbalanced : t.Balanced)
    (hsupply : t.totalSupply < 2 ^ 128) :
    ∃ out, t.internalFtResolveTransfer env sender receiver amount = .ok out := by
  have htwo := hbalanced.add_le hne
  unfold FungibleToken.internalFtResolveTransfer
  dsimp only
  generalize FungibleToken.unusedAmount env.promiseResults.head? amount = unused
  have hrefund : min (t.ftBalanceOf receiver) unused ≤ t.ftBalanceOf receiver := min_le_left _ _
  split
  · have hlook : (t.accounts.insert receiver
        (t.ftBalanceOf receiver - min (t.ftBalanceOf receiver) unused)).lookup sender =
        t.accounts.lookup sender := AList.lookup_insert_ne hne
    rw [hlook]
    split
    · next balance hbalance =>
        have hheld : t.ftBalanceOf sender = balance := by
          rw [FungibleToken.ftBalanceOf, hbalance]
          rfl
        have hadd : checkedAdd 128 balance (min (t.ftBalanceOf receiver) unused) =
            some (balance + min (t.ftBalanceOf receiver) unused) :=
          checkedAdd_eq_some.mpr ⟨by omega, rfl⟩
        rw [hadd]
        exact ⟨_, rfl⟩
    · have hsub : checkedSub t.totalSupply (min (t.ftBalanceOf receiver) unused) =
            some (t.totalSupply - min (t.ftBalanceOf receiver) unused) :=
          checkedSub_eq_some.mpr ⟨by omega, rfl⟩
      rw [hsub]
      exact ⟨_, rfl⟩
  · exact ⟨_, rfl⟩

/-- **A resolver panics** for want of gas or of room in the holder count only.

It takes back no more than is there, and what it gives to the sender fits where
the supply does. -/
theorem ftResolveTransfer_runs {sender receiver : AccountId} {n : ℕ}
    {keepers : List AccountId} (hself : env.predecessorAccountId = host.currentAccountId)
    (hne : sender ≠ receiver) (hsound : s.token.Sound keepers)
    (hsupply : s.token.totalSupply < 2 ^ 128) (hroom : s.statistics.numDelegators + 2 < 2 ^ 64) :
    ∃ o, s.ftResolveTransfer host env sender receiver n = .ok o := by
  have hprivate : env.requirePrivate host.currentAccountId = .ok () := require_eq_ok.mpr hself
  obtain ⟨⟨t, used, burned⟩, htransfer⟩ := FungibleToken.internalFtResolveTransfer_isOk env n
    hne hsound.balanced hsupply
  unfold LiquidStakingToken.ftResolveTransfer LiquidStakingToken.resolveTransfer
  rw [hprivate, ok_bind, htransfer, ok_bind]
  dsimp only
  rw [LiquidStakingToken.updateBoth_ok _ _ _ hroom]
  exact ⟨_, rfl⟩

end Resolver

/-! ## The end of such a chain -/

section Settled

variable {H : Type} {host : Host H} {sender receiver : AccountId} {amount : ℕ}
  {c : PoolChain H}

/-- What a resolver has settled. -/
theorem callSettled_of_moved {refund : ℕ} {registered : Bool} (hle : refund ≤ amount)
    (hmoved : Moved c.trace ((if registered then [.transfer receiver sender refund]
      else [.destroy receiver refund]) ++ ([] ++ ([.transfer sender receiver amount] ++ []))))
    (hinput : c.input =
      some (.successful (.ofU128 (if registered then amount - refund else amount)))) :
    CallSettled sender receiver amount refund registered c := by
  obtain ⟨hbalance, hsupply⟩ := hmoved.net_eq
  refine ⟨fun a => ?_, ?_, hinput⟩
  · rw [hbalance a]
    cases registered <;>
    · simp only [if_true, Bool.false_eq_true, if_false, List.cons_append, List.nil_append,
        effect_cons, effect_nil, Movement.effect_transfer, Movement.effect_destroy]
      split_ifs <;> omega
  · rw [hsupply]
    cases registered <;> simp

/-- A stage with nothing left to run.

There are two, the resolver that ran and the one that was cut off. -/
theorem CallStage.settles {r' : PromiseResult}
    (h : CallStage host sender receiver amount c.trace (.continuing .finish r'))
    (hinput : c.input = some r') (hbalanced : ∀ e ∈ c.trace, e.before.token.Balanced) :
    ∃ e₀ e₁ e₂ r, c.trace = [e₂, e₁, e₀] ∧ AskedFor receiver amount r e₁ ∧
      ((e₂.verdict ≠ .panicked ∧ CallSettled sender receiver amount
          (e₂.before.refundOf receiver amount r) (e₂.before.token.isRegistered sender) c) ∨
        (e₂.verdict = .panicked ∧ e₂.task = resolverCall host sender receiver amount ∧
          sender ≠ receiver ∧ CallKept sender receiver amount c)) := by
  generalize htrace : c.trace = trace at h
  cases h with
  | @resolved e₀ e₁ e₂ r sent asked used burned t commits resolved after_eq =>
      have hle : e₂.before.refundOf receiver amount r ≤ amount :=
        (min_le_right _ _).trans (FungibleToken.unusedAmount_le _ _)
      have hback := resolved.moves (hbalanced e₂ (by simp [htrace]))
        (show e₂.after.token = t by rw [after_eq]; rfl)
      -- The sender is told what was used; where the LST were burned for a
      -- sender who is gone, all of it.
      have hused : used = if e₂.before.token.isRegistered sender then
          amount - e₂.before.refundOf receiver amount r else amount := by
        unfold LiquidStakingToken.refundOf at *
        cases resolved with
        | kept none =>
            split
            · omega
            · rfl
        | returned refund refund_eq pos registered => rw [if_pos registered, refund_eq]
        | burned refund refund_eq pos gone => rw [gone, if_neg Bool.false_ne_true]
      refine ⟨e₀, e₁, e₂, r, rfl, asked, .inl ⟨commits, callSettled_of_moved hle ?_ ?_⟩⟩
      · rw [htrace]
        exact .cons hback (.cons (.quiet (congrArg _ asked.same)) (.cons sent.moves .nil))
      · rw [hinput, hused]
  | @cut e₀ e₁ e₂ r sent asked task panicked unchanged =>
      have hmoved : Moved c.trace ([] ++ ([] ++ ([.transfer sender receiver amount] ++ []))) := by
        rw [htrace]
        exact .cons (.quiet (congrArg _ unchanged))
          (.cons (.quiet (congrArg _ asked.same)) (.cons sent.moves .nil))
      obtain ⟨hbalance, hsupply⟩ := hmoved.net_eq
      refine ⟨e₀, e₁, e₂, r, rfl, asked, .inr ⟨panicked, task, sent.sender_ne, fun a => ?_, ?_,
        hinput⟩⟩
      · rw [hbalance a]
        simp
      · rw [hsupply]
        simp

end Settled

/-! ## Runs -/

section Reaches

variable {H : Type} [DecidableEq H] {host : Host H} {d : Deployment host}
  {events : List (PoolEvent H)} {sys : PoolSystem H} {c : PoolChain H} {e : PoolExecution H}

/-- Such a chain is in one of its stages. -/
theorem Deployment.callStage (run : d.Reaches events sys) :
    ∀ c ∈ sys.chains, ∀ p, Describes host d.wnearId c p → ∀ e₀ receiver amount,
      StartedCall receiver amount c e₀ → receiver ≠ host.currentAccountId →
        CallStage host e₀.context.predecessorAccountId receiver amount c.trace p := by
  have hstages := d.forall_started (K := fun e₀ trace p => ∀ receiver amount,
    (∃ memo msg deposit gas, e₀.task.actions =
      [.call (.ftTransferCall receiver amount memo msg) deposit gas]) →
    receiver ≠ host.currentAccountId →
      CallStage host e₀.context.predecessorAccountId receiver amount trace p)
    ?_ ?_ ?_ ?_ run fun _ _ => trivial
  · rintro c hc p hp e₀ receiver amount ⟨hlast, memo, msg, deposit, gas, htask⟩ hne
    exact hstages c hc p hp e₀ _ deposit gas hlast htask receiver amount
      ⟨memo, msg, deposit, gas, htask⟩ hne
  · rintro events s c e s₀ s₁ m p side deposit gas turn htask next verdict fresh before after entry
      receiver amount ⟨memo, msg, deposit', gas', htask'⟩ hne
    rw [htask] at htask'
    obtain ⟨rfl, -⟩ := Action.call.inj (List.cons.inj htask').1
    cases entry with
    | transferCall _ _ _ _ moved =>
        obtain ⟨hsender, -, -, -, hle, -⟩ := LiquidStakingToken.transferTokens_eq_ok moved
        subst before
        exact .sent msg 0 ⟨hsender, .transfer hle (by rw [after]; rfl)⟩
  · intro events s c e e₀ s₀ s₁ p p' side turn now hstage verdict before after advance receiver
      amount hcalls hne
    have hstage := hstage receiver amount hcalls hne
    obtain ⟨ret, hverdict⟩ := verdict
    subst before
    generalize c.trace = trace at hstage
    cases hstage with
    | sent msg gas sent =>
        cases advance with
        -- The pool answers its own transfers only.
        | unstakeRequested => exact absurd rfl hne
    | answered r sent asked =>
        cases advance with
        | resolved t used burned resolved =>
            exact .resolved r sent asked used burned t (by simp [hverdict]) resolved after
    | resolved | cut => cases advance
  · intro events s c e e₀ p turn now hstage here verdict same receiver amount hcalls hne
    have hstage := hstage receiver amount hcalls hne
    obtain ⟨rest, htasks⟩ := turn.fires.tasks_eq
    generalize c.trace = trace at hstage
    cases hstage with
    | sent msg gas sent =>
        rw [Phase.place, if_neg hne] at here
        cases here
    | answered r sent asked =>
        obtain ⟨htask, -⟩ := List.cons.inj (htasks.symm.trans now.tasks_eq)
        -- A resolver that panics leaves the transfer as it is.
        exact .cut r sent asked htask verdict same
    | resolved | cut => cases here
  · intro events s c e e₀ p r turn now hstage away verdict same receiver amount hcalls hne
    have hstage := hstage receiver amount hcalls hne
    obtain ⟨rest, htasks⟩ := turn.fires.tasks_eq
    generalize c.trace = trace at hstage
    cases hstage with
    | sent msg gas sent =>
        obtain ⟨htask, -⟩ := List.cons.inj (htasks.symm.trans now.tasks_eq)
        exact .answered r sent ⟨by rw [htask]; exact ⟨rfl, _, msg, 0, gas, rfl⟩, verdict, same⟩
    | answered | resolved | cut => cases away

/-- A resolver that is not cut off runs to its end, whoever the receiver is. -/
theorem Deployment.resolver_commits (turn : d.Turn CallbacksRun events sys c e)
    {sender receiver : AccountId} {amount : ℕ}
    (htask : e.task = resolverCall host sender receiver amount) (hne : sender ≠ receiver) :
    e.verdict ≠ .panicked := by
  intro hverdict
  have hunstake : ∀ ev ∈ events, UnstakeRuns ev := fun ev hev => (turn.good ev hev).1
  have hsupply := d.supply_lt turn.run hunstake
  rw [← turn.fires.before_eq] at hsupply
  have hruns := turn.now.2
  simp only [ResolverRuns, htask, resolverCall, Receipt.call] at hruns
  obtain ⟨hgas, hroom⟩ := hruns
  have hlegal := turn.fires.legal
  simp only [Platform.Legal, hverdict] at hlegal
  obtain ⟨-, -, hexhausted | ⟨msg, herror⟩⟩ := hlegal
  · exact absurd (hgas.symm.trans hexhausted) (by decide)
  · have hself : (e.context.forCall 0 e.input).predecessorAccountId = host.currentAccountId :=
      d.self_of_panicked turn hverdict
    obtain ⟨o, hok⟩ := ftResolveTransfer_runs (n := amount) hself hne (d.turn_sound turn) hsupply
      hroom
    rw [htask] at herror
    cases hok.symm.trans herror

/-- **A transfer call settles.**  When the chain of an `ft_transfer_call` to an
account other than the pool is done, the receiver was asked once, after it had
the LST, and answered.  The resolver took back what was unused and still there:
that is with the sender again, or burned when the sender is no longer
registered, and the chain reports what counts as used.  If the resolver
panicked, the receiver keeps everything, and the chain fails; with its gas and
room in the holder count it does not panic.

The receiver is arbitrary code: its answer `r` may be a failure, a number larger
than the amount, or no number at all, and `refundOf` says what each of these
counts as. -/
theorem Deployment.transfer_call_settles (run : d.Reaches events sys) (hmem : c ∈ sys.chains)
    (hdone : c.tasks = []) {e₀ : PoolExecution H} {receiver : AccountId} {amount : ℕ}
    (hstarted : StartedCall receiver amount c e₀) (hne : receiver ≠ host.currentAccountId) :
    ∃ e₁ e₂ r, c.trace = [e₂, e₁, e₀] ∧ AskedFor receiver amount r e₁ ∧
      ((e₂.verdict ≠ .panicked ∧ CallSettled e₀.context.predecessorAccountId receiver amount
          (e₂.before.refundOf receiver amount r)
          (e₂.before.token.isRegistered e₀.context.predecessorAccountId) c) ∨
        (e₂.verdict = .panicked ∧ CallKept e₀.context.predecessorAccountId receiver amount c)) ∧
      ((∀ ev ∈ events, CallbacksRun ev) → e₂.verdict ≠ .panicked) := by
  obtain ⟨p, hnow⟩ := (d.phased run).described c hmem
  have hstage := d.callStage run c hmem p hnow e₀ receiver amount hstarted hne
  have htasks := hnow.tasks_eq.symm.trans hdone
  have hbalanced : ∀ e ∈ c.trace, e.before.token.Balanced :=
    run.forall_trace (Q := fun e => e.before.token.Balanced) (by simp [Deployment.genesis])
      (run.forall_event (Q := fun ev => ev.execution.before.token.Balanced)
        (fun (turn : d.Turn (fun _ => True) _ _ _ _) => (d.turn_sound turn).balanced)
        fun _ _ => trivial) c hmem
  -- A chain without receipts is past its resolver.
  have hend : ∃ r', p = .continuing .finish r' := by
    generalize c.trace = trace at hstage
    cases hstage with
    | sent | answered => cases htasks
    | resolved | cut => exact ⟨_, rfl⟩
  obtain ⟨r', rfl⟩ := hend
  obtain ⟨e₀', e₁, e₂, r, htrace, hasked, hends⟩ := hstage.settles hnow.input_eq hbalanced
  have hfirst : e₀' = e₀ := by
    have hlast := hstarted.1
    rw [htrace] at hlast
    exact Option.some.inj hlast
  subst hfirst
  refine ⟨e₁, e₂, r, htrace, hasked, ?_, fun hruns hpanicked => ?_⟩
  · rcases hends with hsettled | ⟨hpanicked, -, -, hkept⟩
    · exact .inl hsettled
    · exact .inr ⟨hpanicked, hkept⟩
  · rcases hends with ⟨hcommits, -⟩ | ⟨-, htask, hsender, -⟩
    · exact hcommits hpanicked
    · -- With the gas reserved for it the resolver commits, in every chain and
      -- at any time.
      have hall := run.forall_trace (Q := fun e => ∀ sender receiver amount,
        e.task = resolverCall host sender receiver amount → sender ≠ receiver →
          e.verdict ≠ .panicked) (by simp [Deployment.genesis])
        (run.forall_event (Q := fun ev => ∀ sender receiver amount,
          ev.execution.task = resolverCall host sender receiver amount → sender ≠ receiver →
            ev.execution.verdict ≠ .panicked)
          (fun (turn : d.Turn CallbacksRun _ _ _ _) sender receiver amount htask hne =>
            d.resolver_commits turn htask hne) hruns) c hmem e₂ (by simp [htrace])
      exact hall _ _ _ htask hsender hpanicked

/-- `bob` answers that he has not used 15 of the 40: the treasury has them back. -/
theorem Deployment.transfer_call_settles_sample :
    ∃ c ∈ (samplePool.played (sampleTransferCall (.successful (.ofU128 15))) rfl).2.chains,
      CallSettled "treasury" "bob" 40 15 true c := by
  have hfound : ∃ c ∈
      (samplePool.played (sampleTransferCall (.successful (.ofU128 15))) rfl).2.chains,
      c.tasks = [] ∧ c.input = some (.successful (.ofU128 25)) ∧
        (c.trace.getLast?.map fun e => (e.context.predecessorAccountId, e.task.actions)) =
          some ("treasury", [.call (.ftTransferCall "bob" 40 none "hello") oneYocto 0]) := by
    decide +kernel
  obtain ⟨c, hmem, hdone, hinput, hfirst⟩ := hfound
  obtain ⟨e₀, hlast, hcall⟩ := Option.map_eq_some_iff.mp hfirst
  obtain ⟨hsender, hactions⟩ := Prod.mk.inj hcall
  obtain ⟨e₁, e₂, r, -, -, ⟨-, hsettled⟩ | ⟨-, hkept⟩, -⟩ := samplePool.transfer_call_settles
    (samplePool.played_reaches (sampleTransferCall (.successful (.ofU128 15))) rfl) hmem hdone
    ⟨hlast, none, "hello", oneYocto, 0, hactions⟩ (by decide)
  · have hreported := ofU128_inj (Option.some.inj (hsettled.reported.symm.trans hinput))
    rw [hsender] at hsettled hreported
    generalize e₂.before.refundOf "bob" 40 r = refund at hsettled hreported
    cases hregistered : e₂.before.token.isRegistered "treasury" with
    | true =>
        rw [hregistered] at hsettled hreported
        obtain rfl : refund = 15 := by
          rw [if_pos rfl] at hreported
          omega
        exact ⟨c, hmem, hsettled⟩
    | false =>
        rw [hregistered] at hreported
        cases hreported
  · cases hkept.reported.symm.trans hinput

end Reaches

end LiquidStaking
