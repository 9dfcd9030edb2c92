import LiquidStaking.WnearAccount

/-!
# What a wNEAR stake returns

The value a stake hands to the resolver of its wNEAR transfer comes out of one
of eight callbacks.  `Phase.Returning` says for each phase what the chain has
done on wNEAR so far and what it is therefore going to return: the deposit if
the unwrap failed, what was wrapped again after a failed mint or validator
action, and nothing once the NEAR is staked, whatever happens to the LST later.

`Deployment.Held.returning` proves it of every run with a correct wNEAR account,
for chains none of whose callbacks panicked.  The minting batch and a receiver's
`ft_on_transfer` may.
-/

namespace LiquidStaking

open Checked PromiseChain

section Definitions

variable {H : Type}

/-- The callbacks of a stake. -/
def Method.isStakeCallback : Method H → Bool
  | .onNearWithdraw .. | .restakeOrRefund .. | .onRestakeOrRefund .. | .refundWnearDeposit _
  | .onFtOnTransfer .. | .onUnstake .. => true
  | _ => false

/-- The receipt is one of these callbacks. -/
def Receipt.callsBack (t : Receipt H) : Bool :=
  match t.actions with
  | [.call method _ _] => method.isStakeCallback
  | _ => false

/-- A callback of a stake panicked. -/
def callbackPanicked (e : PoolExecution H) : Bool :=
  match e.verdict with
  | .panicked => e.task.callsBack
  | _ => false

/-- No callback of the chain has panicked. -/
def CallbacksCommit (c : PoolChain H) : Prop := ∀ e ∈ c.trace, callbackPanicked e = false

/-- The unwrap failed. -/
def unwrapFailed (e : PoolExecution H) : Bool :=
  match e.verdict, e.task.actions with
  | .answered .failed, [.call (.nearWithdraw _) _ _] => true
  | _, _ => false

/-- The NEAR that was wrapped again. -/
def rewrapped (e : PoolExecution H) : ℕ :=
  match e.verdict, e.task.actions with
  | .answered (.successful _), [.call .nearDeposit deposit _] => deposit
  | _, _ => 0

/-- What a stake of `amount` wNEAR returns: all of it if the unwrap failed,
otherwise what was wrapped again. -/
def wnearReturned (amount : ℕ) (c : PoolChain H) : ℕ :=
  if c.trace.any unwrapFailed then amount else (c.trace.map rewrapped).sum

/-- What a stake of `amount` wNEAR left on the pool's account, or put back on
it. -/
def wnearLeft (wnear : AccountId) (amount : ℕ) (c : PoolChain H) : ℤ :=
  amount + (c.trace.map (answerGain wnear)).sum

/-- What a stake of `amount` wNEAR has done on wNEAR by now, and is going to
return: if the unwrap failed, what was wrapped again, and what is left of the
amount on the account.

The phases of a stake are all listed, and every other phase excludes that the
chain is one. -/
def Phase.Returning (amount : ℕ) (failed : Bool) (back : ℕ) (left : ℤ) : Phase H → Prop
  | .unwrapping _ n _ => n = amount ∧ failed = false ∧ back = 0 ∧ left = amount
  | .unwrapped _ n _ r =>
      n = amount ∧ failed = !resultOk r ∧ back = 0 ∧ left = if resultOk r then 0 else amount
  | .batching o _ | .batched o _ =>
      o.depositToken = .wnear ∧ o.depositAmount = amount ∧ failed = false ∧ back = 0 ∧ left = 0
  | .restaking m _ _ | .restaked m _ =>
      m.depositToken = .wnear ∧ m.stakeAmount ≤ amount ∧ failed = false ∧ back = 0 ∧ left = 0
  | .rewrapping n => n ≤ amount ∧ failed = false ∧ back = 0 ∧ left = 0
  | .rewrapped n r =>
      n ≤ amount ∧ failed = false ∧ back = (if resultOk r then n else 0) ∧ left = back
  | .sending _ _ _ _ _ k =>
      (∃ lst args, k = .notify lst args) ∧ failed = false ∧ back = 0 ∧ left = 0
  | .unstaking u _ _ k | .unstaked u k _ =>
      ((∃ lst args, k = .notify lst args) ∨ (k = .finish ∧ u.trigger = .refundByContract)) ∧
        failed = false ∧ back = 0 ∧ left = 0
  | .continuing (.notify _ _) _ => failed = false ∧ back = 0 ∧ left = 0
  | .continuing .finish r =>
      ∃ n, r = .successful (.ofU128 n) ∧ n ≤ amount ∧ (n = if failed then amount else back) ∧
        left = n
  | _ => False

end Definitions

/-! ## The history of a stake -/

section Histories

variable {H : Type} [DecidableEq H] {host : Host H} {d : Deployment host}
  {sys : PoolSystem H} {events : List (PoolEvent H)} {c : PoolChain H} {e : PoolExecution H}
  {wnear : AccountId} {p p' : Phase H} {amount back : ℕ} {failed : Bool} {left : ℤ}

/-- What a chain waits for was scheduled by the pool. -/
theorem Describes.self (h : Describes host wnear c p)
    (horigin : (platform host).Origin sys c e) :
    e.context.predecessorAccountId = host.currentAccountId := by
  cases horigin with
  | fresh eq accepted commits =>
      have hnone : carried host (fun _ => 1) c = 0 := eq ▸ carried_single (fun _ => 1) accepted
      rw [h.carried_eq] at hnone
      cases hnone
  | inFlight mem resumed => simpa [platform] using resumed

omit [DecidableEq H] in
/-- What the pool schedules takes nothing over from wNEAR. -/
theorem transferTaken_eq_none (hself : e.context.predecessorAccountId = host.currentAccountId)
    (hne : wnear ≠ host.currentAccountId) : transferTaken wnear e = none := by
  unfold transferTaken
  split
  · rw [if_neg (hself ▸ hne.symm)]
  · rfl

omit [DecidableEq H] in
/-- A chain goes on with the wNEAR it started with. -/
theorem stakedWnear_resume (hself : e.context.predecessorAccountId = host.currentAccountId)
    (hne : wnear ≠ host.currentAccountId) :
    stakedWnear wnear (c.resume e) = stakedWnear wnear c := by
  have hnone := transferTaken_eq_none hself hne
  unfold stakedWnear
  rw [Chain.resume_trace]
  cases htrace : c.trace with
  | nil => simpa using hnone
  | cons e' trace => rw [List.getLast?_cons_cons]

omit [DecidableEq H] in
/-- No callback of a chain has panicked so far, if none has by now. -/
theorem CallbacksCommit.of_resume (h : CallbacksCommit (c.resume e)) :
    CallbacksCommit c ∧ callbackPanicked e = false := by
  unfold CallbacksCommit at h
  rw [Chain.resume_trace] at h
  exact ⟨fun e' mem => h e' (List.mem_cons_of_mem _ mem), h e List.mem_cons_self⟩

/-- The chain is a stake of `amount` wNEAR whose callbacks committed, on its way
to what it returns. -/
def Returns (wnear : AccountId) (c : PoolChain H) (p : Phase H) : Prop :=
  ∀ amount, stakedWnear wnear c = some amount → CallbacksCommit c →
    p.Returning amount (c.trace.any unwrapFailed) (c.trace.map rewrapped).sum
      (wnearLeft wnear amount c)

omit [DecidableEq H] in
/-- A stake goes on as one execution changes what it has done on wNEAR. -/
theorem Returns.resume (h : Returns wnear c p)
    (hself : e.context.predecessorAccountId = host.currentAccountId)
    (hne : wnear ≠ host.currentAccountId)
    (hnext : ∀ {amount failed back left}, p.Returning amount failed back left →
      callbackPanicked e = false → p'.Returning amount (unwrapFailed e || failed)
        (rewrapped e + back) (left + answerGain wnear e)) :
    Returns wnear (c.resume e) p' := by
  intro amount hstaked hcommit
  obtain ⟨hcommit, hpanicked⟩ := hcommit.of_resume
  rw [stakedWnear_resume hself hne] at hstaked
  have hreturning := hnext (h amount hstaked hcommit) hpanicked
  have hleft : wnearLeft wnear amount (c.resume e) =
      wnearLeft wnear amount c + answerGain wnear e := by
    simp only [wnearLeft, Chain.resume_trace, List.map_cons, List.sum_cons]
    omega
  rw [hleft]
  simpa only [Chain.resume_trace, List.any_cons, List.map_cons, List.sum_cons] using hreturning

omit [DecidableEq H] in
/-- In particular after an execution that wNEAR has no part in. -/
theorem Returns.quiet (h : Returns wnear c p)
    (hself : e.context.predecessorAccountId = host.currentAccountId)
    (hne : wnear ≠ host.currentAccountId)
    (hquiet : unwrapFailed e = false ∧ rewrapped e = 0 ∧ answerGain wnear e = 0)
    (hnext : ∀ {amount failed back left}, p.Returning amount failed back left →
      callbackPanicked e = false → p'.Returning amount failed back left) :
    Returns wnear (c.resume e) p' := by
  refine h.resume hself hne fun hreturning hpanicked => ?_
  obtain ⟨hunwrap, hrewrap, hgain⟩ := hquiet
  rw [hunwrap, hrewrap, hgain, Bool.false_or, Nat.zero_add, add_zero]
  exact hnext hreturning hpanicked

omit [DecidableEq H] in
/-- What runs here is no answer of wNEAR. -/
theorem quiet_of_local (wnear : AccountId) (h : ∀ r, e.verdict ≠ .answered r) :
    unwrapFailed e = false ∧ rewrapped e = 0 ∧ answerGain wnear e = 0 := by
  unfold unwrapFailed rewrapped answerGain
  cases hverdict : e.verdict with
  | answered r => exact absurd hverdict (h r)
  | committed | panicked => exact ⟨rfl, rfl, rfl⟩

/-- **A callback that commits** leaves the stake on its way.

The callbacks do not act on wNEAR themselves; they schedule what does. -/
theorem Advance.returning {env : Env} {s s' : LiquidStakingToken H} {side : List (Receipt H)}
    (h : Advance host env s p s' p' side) (hvalid : p.Valid host)
    (hreturning : p.Returning amount failed back left) : p'.Returning amount failed back left := by
  cases h with
  | unwrapFailed failed covered =>
      obtain ⟨rfl, rfl, rfl, rfl⟩ := hreturning
      refine ⟨_, rfl, le_refl _, ?_, ?_⟩ <;> simp [failed]
  | unwrapQuoted ok s₁ result o synced quoted sender_eq args_eq deposit_eq wnear =>
      obtain ⟨rfl, rfl, rfl, rfl⟩ := hreturning
      exact ⟨wnear, deposit_eq, by simp [ok], rfl, by simp [ok]⟩
  | unwrapRejected ok s₁ result synced covered =>
      obtain ⟨rfl, rfl, rfl, rfl⟩ := hreturning
      exact ⟨le_refl _, by simp [ok], rfl, by simp [ok]⟩
  | minted | mintedRegistering => exact hreturning
  | @restake o r ok =>
      obtain ⟨hwnear, rfl, hrest⟩ := hreturning
      -- What a registration has cost is not given back.
      have hdeposit := hvalid.deposit_eq
      exact ⟨hwnear, by omega, hrest⟩
  | restakeRefund failed wnear covered =>
      obtain ⟨-, rfl, hrest⟩ := hreturning
      exact ⟨le_refl _, hrest⟩
  | keptOnPool | handedOver =>
      obtain ⟨-, -, rfl, rfl, rfl⟩ := hreturning
      exact ⟨0, rfl, Nat.zero_le _, rfl, rfl⟩
  | handedOverCall =>
      obtain ⟨-, -, hrest⟩ := hreturning
      exact ⟨⟨_, _, rfl⟩, hrest⟩
  | @rolledBack m r failed escrow supply staked tracked =>
      obtain ⟨hwnear, hle, hrest⟩ := hreturning
      rw [hwnear]
      exact ⟨hle, hrest⟩
  | @rewrapped n r =>
      obtain ⟨hle, rfl, rfl, rfl⟩ := hreturning
      refine ⟨_, rfl, ?_, rfl, rfl⟩
      split_ifs <;> omega
  | acceptedAsIs | nothingRefused =>
      obtain ⟨rfl, rfl, rfl⟩ := hreturning
      exact ⟨0, rfl, Nat.zero_le _, rfl, rfl⟩
  -- From here on the chain is one that unstakes for a refund.
  | refused message _ t used burned _ s₁ u lst_eq trigger_eq unstakes =>
      exact ⟨.inr ⟨rfl, trigger_eq⟩, hreturning⟩
  | unstakeRequested =>
      obtain ⟨hk, hrest⟩ := hreturning
      exact ⟨.inl hk, hrest⟩
  | queued =>
      obtain ⟨⟨lst, args, rfl⟩ | ⟨rfl, -⟩, hrest⟩ := hreturning
      · exact hrest
      · obtain ⟨rfl, rfl, rfl⟩ := hrest
        exact ⟨0, rfl, Nat.zero_le _, rfl, rfl⟩
  -- An unstake that fails gives its LST back itself, so to wNEAR the whole
  -- transfer counts as used.
  | undone =>
      obtain ⟨⟨lst, args, rfl⟩ | ⟨rfl, htrigger⟩, hrest⟩ := hreturning
      · exact hrest
      · obtain ⟨rfl, rfl, rfl⟩ := hrest
        rw [htrigger]
        exact ⟨0, rfl, Nat.zero_le _, rfl, rfl⟩
  | resolved | paidNative | unpaidNative | paidWnear | unpaidWnear | pinged | stop =>
      exact hreturning.elim

omit [DecidableEq H] in
/-- A panic of the minting batch or of a receiver that is the pool itself is
taken as a failure; the other receipts of a stake that run here are its
callbacks. -/
theorem Phase.Returning.panicked {t : Receipt H} {rest : List (Receipt H)}
    (h : p.Returning amount failed back left) (hhere : p.place host = .here)
    (htasks : p.tasks host wnear = t :: rest) (hcalls : t.callsBack = false) :
    (p.settle .failed).Returning amount failed back left := by
  cases p with
  | batching => exact h
  | sending receiver senderId n msg gas k =>
      obtain ⟨⟨lst, args, rfl⟩, hrest⟩ := h
      exact hrest
  | continuing k r =>
      cases k with
      | finish => cases hhere
      | resolve => exact h.elim
      | notify =>
          obtain ⟨rfl, -⟩ := List.cons.inj htasks
          cases hcalls
  | unwrapped | batched | restaked | rewrapped | unstaked =>
      obtain ⟨rfl, -⟩ := List.cons.inj htasks
      cases hcalls
  | _ => first | exact h.elim | cases hhere

/-- The methods of wNEAR return nothing, apart from its transfer calls. -/
def AnswersVoid (wnear : AccountId) (ev : PoolEvent H) : Prop :=
  ∀ v, ev.execution.verdict = .answered (.successful v) → ev.execution.task.receiver = wnear →
    ev.execution.task.callAmount = none → v.length ≤ 0

/-- With a correct wNEAR account, the answers of wNEAR are void. -/
theorem Deployment.Held.answersVoid {w : WnearAccount H} (h : d.Held events sys w) :
    ∀ ev ∈ events, AnswersVoid d.wnearId ev := by
  induction h with
  | deploy n => simp
  | act run move acts ih => exact ih
  | step run step after ih =>
      intro ev' hmem
      rcases List.mem_cons.mp hmem with rfl | hold
      · intro v hverdict hreceiver hcall
        obtain ⟨w₂, hbind, -⟩ := Option.map_eq_some_iff.mp after
        obtain ⟨w₁, -, hanswered⟩ := Option.bind_eq_some_iff.mp hbind
        simp only [WnearAccount.answered, hverdict, hreceiver, if_true, WnearAccount.answeredWith,
          hcall] at hanswered
        split_ifs at hanswered with hvoid
        exact hvoid
      · exact ih ev' hold

end Histories

/-! ## Stakes in runs -/

section Reaches

variable {H : Type} [DecidableEq H] {host : Host H} {d : Deployment host}
  {events : List (PoolEvent H)} {sys : PoolSystem H} {c : PoolChain H} {e : PoolExecution H}
  {p : Phase H} {r : PromiseResult} {w : WnearAccount H}

/-- **An answer from elsewhere** moves a stake on as its amounts on wNEAR say. -/
theorem Returns.answered (h : Returns d.wnearId c p)
    (turn : d.Turn (AnswersVoid d.wnearId) events sys c e) (hnow : Describes host d.wnearId c p)
    (haway : p.place host = .away) (hverdict : e.verdict = .answered r) :
    Returns d.wnearId (c.resume e) (p.settle r) := by
  have hself := hnow.self turn.origin
  obtain ⟨rest, htasks⟩ := turn.fires.tasks_eq
  have hhead := htasks.symm.trans hnow.tasks_eq
  have hvoid := turn.now
  -- The receipts on wNEAR come first; the others leave the wNEAR of the stake
  -- alone.
  cases p with
  | unwrapping senderId n args =>
      obtain ⟨htask, -⟩ := List.cons.inj hhead
      refine h.resume hself d.wnear_ne ?_
      rintro amount failed back left ⟨rfl, rfl, rfl, rfl⟩ -
      cases r with
      | failed =>
          refine ⟨rfl, ?_, ?_, ?_⟩ <;>
            simp [unwrapFailed, rewrapped, answerGain, Receipt.wnearGain, Receipt.callAmount,
              hverdict, htask, Receipt.call, resultOk]
      | successful v =>
          have hok : resultOk (.successful v) = true :=
            decide_eq_true (hvoid v hverdict (by rw [htask]; rfl) (by rw [htask]; rfl))
          refine ⟨rfl, ?_, ?_, ?_⟩ <;>
            simp [unwrapFailed, rewrapped, answerGain, Receipt.wnearGain, Receipt.callAmount,
              Receipt.wnearCost, Action.wnearCost, hverdict, htask, Receipt.call, hok]
  | rewrapping n =>
      obtain ⟨htask, -⟩ := List.cons.inj hhead
      refine h.resume hself d.wnear_ne ?_
      rintro amount failed back left ⟨hle, rfl, rfl, rfl⟩ -
      cases r with
      | failed =>
          refine ⟨hle, ?_, ?_, ?_⟩ <;>
            simp [unwrapFailed, rewrapped, answerGain, Receipt.wnearGain, Receipt.callAmount,
              hverdict, htask, Receipt.call, resultOk]
      | successful v =>
          have hok : resultOk (.successful v) = true :=
            decide_eq_true (hvoid v hverdict (by rw [htask]; rfl) (by rw [htask]; rfl))
          refine ⟨hle, ?_, ?_, ?_⟩ <;>
            simp [unwrapFailed, rewrapped, answerGain, Receipt.wnearGain, Receipt.callAmount,
              Receipt.wnearCost, Action.wnearCost, hverdict, htask, Receipt.call, hok]
  | restaking m n key | unstaking u n key k =>
      obtain ⟨htask, -⟩ := List.cons.inj hhead
      have hquiet : unwrapFailed e = false ∧ rewrapped e = 0 ∧ answerGain d.wnearId e = 0 := by
        refine ⟨?_, ?_, ?_⟩ <;>
          simp [unwrapFailed, rewrapped, answerGain, hverdict, htask, d.wnear_ne.symm]
      exact h.quiet hself d.wnear_ne hquiet fun hreturning _ => hreturning
  | sending receiver senderId n msg gas k =>
      obtain ⟨htask, -⟩ := List.cons.inj hhead
      have hgain : (Receipt.call receiver (.ftOnTransfer senderId n msg) 0 gas :
          Receipt H).wnearGain r = 0 := by
        cases r <;>
          simp [Receipt.wnearGain, Receipt.callAmount, Receipt.wnearCost, Action.wnearCost,
            Receipt.call]
      have hquiet : unwrapFailed e = false ∧ rewrapped e = 0 ∧ answerGain d.wnearId e = 0 := by
        refine ⟨?_, ?_, ?_⟩
        · simp [unwrapFailed, hverdict, htask, Receipt.call]
        · simp [rewrapped, hverdict, htask, Receipt.call]
        · simp only [answerGain, hverdict, htask, hgain, ite_self]
      refine h.quiet hself d.wnear_ne hquiet ?_
      rintro amount failed back left ⟨⟨lst, args, rfl⟩, hrest⟩ -
      exact hrest
  | continuing k r' => cases k <;> cases haway
  | paying | deliveringNative | deliveringWnear | pinging | stopping | addingKey =>
      intro amount hstaked hcommit
      rw [stakedWnear_resume hself d.wnear_ne] at hstaked
      exact (h amount hstaked hcommit.of_resume.1).elim
  | _ => cases haway

/-- The stakes of a run are on their way to what they return. -/
theorem Deployment.returns (run : d.Reaches events sys)
    (hvoid : ∀ ev ∈ events, AnswersVoid d.wnearId ev) :
    ∀ c ∈ sys.chains, ∀ p, Describes host d.wnearId c p → Returns d.wnearId c p := by
  refine (d.invariant_turn (I := fun _ => True) (K := fun c p => Returns d.wnearId c p) trivial
    ?_ ?_ run hvoid).2
  · intro c receiver amount htrace amount' hstaked
    simp [stakedWnear, htrace] at hstaked
  · intro events s c e turn _ ih
    refine ⟨trivial, fun p' hp' => ?_⟩
    cases d.transition turn with
    | entered m p side deposit gas fresh task_eq deposit_eq external entry next verdict spawned =>
        obtain rfl := hp'.unique next
        obtain ⟨ret, hverdict⟩ := verdict
        intro amount hstaked hcommit
        have htrace : (c.resume e).trace = [e] := by rw [Chain.resume_trace, fresh]; rfl
        -- A call runs here, so it moves no wNEAR of the pool.
        have hanswered : ∀ r, e.verdict ≠ .answered r := fun r h => by rw [hverdict] at h; cases h
        obtain ⟨hunwrap, hrewrap, hgain⟩ := quiet_of_local d.wnearId hanswered
        simp only [stakedWnear, htrace, List.getLast?_singleton, Option.bind_some, transferTaken,
          task_eq] at hstaked
        generalize e.before = s₀, e.after = s₁ at entry
        cases entry with
        | book senderId n msg args fromWnear room =>
            simp only [wnearLeft, htrace, List.any_cons, List.any_nil, List.map_cons, List.map_nil,
              List.sum_cons, List.sum_nil, hunwrap, hrewrap, hgain]
            split_ifs at hstaked
            obtain rfl := Option.some.inj hstaked
            exact ⟨rfl, rfl, rfl, by omega⟩
        | _ => cases hstaked
    | advanced p p'' side now self advance next verdict spawned =>
        obtain rfl := hp'.unique next
        obtain ⟨ret, hverdict⟩ := verdict
        exact (ih p now).quiet self d.wnear_ne
          (quiet_of_local _ fun r hanswered => by rw [hverdict] at hanswered; cases hanswered)
          fun hreturning _ => advance.returning now.valid hreturning
    | panicked p now here self verdict same next spawned =>
        obtain rfl := hp'.unique next
        obtain ⟨rest, htasks⟩ := turn.fires.tasks_eq
        refine (ih p now).quiet self d.wnear_ne
          (quiet_of_local _ fun r hanswered => by rw [verdict] at hanswered; cases hanswered)
          fun hreturning hcalls => ?_
        simp only [callbackPanicked, verdict] at hcalls
        exact hreturning.panicked here (now.tasks_eq.symm.trans htasks) hcalls
    | answered p r now away verdict same next spawned =>
        obtain rfl := hp'.unique next
        exact (ih p now).answered turn now away verdict

/-- **What a stake returns** is what it left on the pool's account, or put back
on it.

The first equation is about the value that its chain hands to the resolver, the
second about the balance. -/
theorem Deployment.Held.returned_eq (h : d.Held events sys w) (hmem : c ∈ sys.chains)
    {amount : ℕ} (hstaked : stakedWnear d.wnearId c = some amount) (hdone : c.tasks = [])
    (hcommit : CallbacksCommit c) :
    c.input = some (.successful (.ofU128 (wnearReturned amount c))) ∧
      (wnearReturned amount c : ℤ) = wnearLeft d.wnearId amount c := by
  obtain ⟨p, hnow⟩ := (d.phased h.reaches).described c hmem
  have hreturning := d.returns h.reaches h.answersVoid c hmem p hnow amount hstaked hcommit
  have htasks := hnow.tasks_eq.symm.trans hdone
  cases p with
  | continuing k r =>
      cases k with
      | finish =>
          obtain ⟨n, rfl, -, hn, hleft⟩ := hreturning
          have hreturned : wnearReturned amount c = n := hn.symm
          rw [hreturned]
          exact ⟨hnow.input_eq, hleft.symm⟩
      | resolve | notify => cases htasks
  | _ => cases htasks

end Reaches

end LiquidStaking
