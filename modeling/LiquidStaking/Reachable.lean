import LiquidStaking.Entries

/-!
# Runs, phase by phase

In every reachable system the chains are in phases, and every execution of a run
is one of four things: a call from outside that commits (`Entry`), a receipt of
some chain that commits (`Advance`), a receipt that panics, or an answer from
elsewhere.  `Transition` says so, with the phases before and after, and
`Deployment.transition` proves it for every turn of a run; the accounts of
the later files are inductions over runs by these four cases.

`phaseOf` reads the phase back off a chain, so that a chain is in at most one
phase and a weight given phase by phase is a weight on chains (`carried`).
-/

namespace LiquidStaking

open Checked PromiseChain

/-- What the platform lets in: one call on the pool's account, by somebody else,
with the deposit it names. -/
theorem accepts_eq_true {H : Type} [DecidableEq H] {host : Host H} {env : Env} {t : Receipt H}
    (h : (platform host).accepts env t = true) :
    ∃ m deposit gas, t.actions = [.call m deposit gas] ∧
      t.receiver = host.currentAccountId ∧ env.predecessorAccountId ≠ host.currentAccountId ∧
      env.attachedDeposit = deposit := by
  simp only [platform] at h
  split at h
  · next m deposit gas hactions =>
      simp only [Bool.and_eq_true, decide_eq_true_eq] at h
      exact ⟨m, deposit, gas, hactions, h.1.1, h.1.2, h.2⟩
  · cases h

section PhaseOf

variable {H : Type} [DecidableEq H] (host : Host H)

/-- What waits at the end of a chain, read off its receipts. -/
def continuationOf : List (Receipt H) → Option Continuation
  | [] => some .finish
  | t :: _ =>
      match t.actions with
      | [.call (.ftResolveTransfer senderId receiverId amount) _ _] =>
          some (.resolve senderId receiverId amount)
      | [.call (.onFtOnTransfer lstTokens args) _ _] => some (.notify lstTokens args)
      | _ => none

/-- The phase of a chain whose next receipt has a result to read.

The method of the receipt determines the phase, and its arguments are the data
of the phase. -/
def phaseOfCallback (attempt : Option Attempt) (r : PromiseResult) (tasks : List (Receipt H)) :
    Option (Phase H) :=
  match tasks with
  | [] => some (.continuing .finish r)
  | t :: rest =>
      match t.actions with
      | [.call (.onNearWithdraw senderId amount args) _ _] =>
          some (.unwrapped senderId amount args r)
      | [.call (.restakeOrRefund senderId depositAmount stakeAmount lstTokens args token) _ _] =>
          some (.batched ⟨⟨senderId, args, stakeAmount, lstTokens, token⟩, depositAmount⟩ r)
      | [.call (.onRestakeOrRefund senderId stakeAmount lstTokens args token) _ _] =>
          some (.restaked ⟨senderId, args, stakeAmount, lstTokens, token⟩ r)
      | [.call (.refundWnearDeposit amount) _ _] => some (.rewrapped amount r)
      | [.call (.onUnstake lstAmount nearAmount hash trigger) _ _] =>
          (continuationOf rest).map fun k => .unstaked ⟨lstAmount, nearAmount, hash, trigger⟩ k r
      | [.call (.onWithdrawNative _ _) _ _] => attempt.map fun a => .deliveredNative a r
      | [.call (.onWithdrawWnear _ _ _ _ _) _ _] => attempt.map fun a => .deliveredWnear a r
      | [.call .onRestake _ _] => some (.pinged r)
      | _ => (continuationOf (t :: rest)).map fun k => .continuing k r

/-- The phase of a chain whose next receipt waits for nothing.

That receipt may run elsewhere, so the phase is read off the callback behind it,
if there is one. -/
def phaseOfCall (attempt : Option Attempt) : List (Receipt H) → Option (Phase H)
  | [] => none
  | [t] =>
      match t.actions with
      | [.transfer amount] => some (.paying t.receiver amount)
      | [.stake _ key] => some (.stopping key)
      | [.addFullAccessKey key] => some (.addingKey key)
      | _ => none
  | t :: u :: rest =>
      match t.actions, u.actions with
      | _, [.call (.onNearWithdraw senderId amount args) _ _] =>
          some (.unwrapping senderId amount args)
      | _, [.call (.restakeOrRefund senderId depositAmount stakeAmount lstTokens args token) _ _] =>
          some (.batching ⟨⟨senderId, args, stakeAmount, lstTokens, token⟩, depositAmount⟩
            t.refundTo)
      | [.stake amount key],
          [.call (.onRestakeOrRefund senderId stakeAmount lstTokens args token) _ _] =>
          some (.restaking ⟨senderId, args, stakeAmount, lstTokens, token⟩ amount key)
      | _, [.call (.refundWnearDeposit amount) _ _] => some (.rewrapping amount)
      | [.stake amount key], [.call (.onUnstake lstAmount nearAmount hash trigger) _ _] =>
          (continuationOf rest).map fun k =>
            .unstaking ⟨lstAmount, nearAmount, hash, trigger⟩ amount key k
      | _, [.call (.onWithdrawNative _ _) _ _] => attempt.map .deliveringNative
      | _, [.call (.onWithdrawWnear _ _ _ _ _) _ _] => attempt.map .deliveringWnear
      | [.stake amount key], [.call .onRestake _ _] => some (.pinging amount key)
      | [.call (.ftOnTransfer senderId amount msg) _ gas], _ =>
          (continuationOf (u :: rest)).map (.sending t.receiver senderId amount msg gas)
      | _, _ => none

/-- The phase of a chain.

It is computable, so that samples can be decided; the proofs only use that it
inverts `Describes`. -/
def phaseOf (c : PoolChain H) : Option (Phase H) :=
  match c.input with
  | some r => phaseOfCallback (attemptOf host c.trace) r c.tasks
  | none => phaseOfCall (attemptOf host c.trace) c.tasks

variable {host} {wnear : AccountId} {c : PoolChain H} {p : Phase H}

/-- **The phase of a chain is determined** by its receipts and where it began. -/
theorem Describes.phaseOf_eq (h : Describes host wnear c p) : phaseOf host c = some p := by
  obtain ⟨htasks, hinput, hattempt, hvalid⟩ := h
  unfold phaseOf
  rw [htasks, hinput]
  cases p with
  | continuing k r => cases k <;> rfl
  | unstaking u amount key k | unstaked u k r => cases k <;> rfl
  | sending receiver senderId amount msg gas k =>
      cases k with
      | finish => exact hvalid.1.elim
      | resolve | notify => rfl
  | deliveringNative a | deliveringWnear a | deliveredNative a r | deliveredWnear a r =>
      rw [hattempt a rfl]
      rfl
  | _ => rfl

/-- A chain is in one phase only. -/
theorem Describes.unique {p' : Phase H} (h : Describes host wnear c p)
    (h' : Describes host wnear c p') : p = p' :=
  Option.some.inj (h.phaseOf_eq.symm.trans h'.phaseOf_eq)

section Carried

variable {G : Type} [Zero G]

/-- A weight given phase by phase, on chains. -/
def carried (host : Host H) (w : Phase H → G) (c : PoolChain H) : G :=
  match phaseOf host c with
  | some p => w p
  | none => 0

/-- On a chain in a phase it is the weight of the phase. -/
theorem Describes.carried_eq (h : Describes host wnear c p) (w : Phase H → G) :
    carried host w c = w p := by
  unfold carried
  rw [h.phaseOf_eq]

/-- A call from outside carries nothing before it runs. -/
theorem carried_call {t : Receipt H} {m : Method H} {deposit gas : ℕ} (w : Phase H → G)
    (h : t.actions = [.call m deposit gas]) : carried host w (Chain.single t) = 0 := by
  have hnone : phaseOf host (Chain.single t : PoolChain H) = none := by
    simp only [phaseOf, Chain.single, phaseOfCall, h]
  unfold carried
  rw [hnone]

/-- So does whatever the platform lets in. -/
theorem carried_single {env : Env} {t : Receipt H} (w : Phase H → G)
    (h : (platform host).accepts env t = true) : carried host w (Chain.single t) = 0 := by
  obtain ⟨m, deposit, gas, hactions, -⟩ := accepts_eq_true h
  exact carried_call w hactions

/-- A weight counted against another one. -/
theorem carried_neg_cast (w : Phase H → ℕ) (c : PoolChain H) :
    carried host (fun p => -(w p : ℤ)) c = -((carried host w c : ℕ) : ℤ) := by
  unfold carried
  split <;> simp

end Carried

end PhaseOf

/-! ## One execution of a run -/

/-- Where the next receipt of a chain runs. -/
inductive Place where
  /-- On the contract. -/
  | here
  /-- On another contract, on the validator's account, or as a payment. -/
  | away
  /-- There is none. -/
  | done
  deriving DecidableEq, Repr

section Place

variable {H : Type} [DecidableEq H] (host : Host H)

/-- Where the next receipt of a chain in this phase runs. -/
def Phase.place : Phase H → Place
  | .continuing .finish _ => .done
  | .continuing _ _ | .unwrapped _ _ _ _ | .batching _ _ | .batched _ _ | .restaked _ _
  | .rewrapped _ _ | .unstaked _ _ _ | .deliveredNative _ _ | .deliveredWnear _ _
  | .pinged _ => .here
  | .sending receiver _ _ _ _ _ => if receiver = host.currentAccountId then .here else .away
  | _ => .away

variable {host} {wnear : AccountId} {p : Phase H} {t : Receipt H} {rest : List (Receipt H)}

/-- The minting batch calls the pool. -/
theorem StakeOrder.batch_isLocal (o : StakeOrder) (refundTo : Option AccountId) :
    (platform host).isLocal (o.batch host refundTo) = true := by
  simp [platform, StakeOrder.batch, Action.isCall]

/-- The next receipt of a chain runs where its phase says. -/
theorem Phase.isLocal_eq (hwnear : wnear ≠ host.currentAccountId)
    (h : p.tasks host wnear = t :: rest) :
    p.place host = if (platform host).isLocal t then .here else .away := by
  cases p with
  | continuing k r =>
      cases k with
      | finish => cases h
      | resolve | notify =>
          obtain ⟨rfl, -⟩ := List.cons.inj h
          simp [platform, Phase.place, Receipt.call, Action.isCall]
  | batching o refundTo =>
      obtain ⟨rfl, -⟩ := List.cons.inj h
      rw [o.batch_isLocal]
      rfl
  | sending receiver senderId amount msg gas k =>
      obtain ⟨rfl, -⟩ := List.cons.inj h
      simp [platform, Phase.place, Receipt.call, Action.isCall]
  | unwrapping | rewrapping | deliveringWnear =>
      obtain ⟨rfl, -⟩ := List.cons.inj h
      simp [platform, Phase.place, Receipt.call, Attempt.batch, hwnear]
  | _ =>
      obtain ⟨rfl, -⟩ := List.cons.inj h
      simp [platform, Phase.place, Receipt.call, Receipt.pay, Action.isCall,
        StakeOrder.restakeCall, MintedStake.settleCall, LiquidStakingToken.onUnstakeCall,
        LiquidStakingToken.onWithdrawWnearCall, LiquidStakingToken.onRestakeCall]

end Place

section Transition

variable {H : Type} [DecidableEq H] (host : Host H) (wnear : AccountId)

/-- What one execution of a run does, in terms of phases.

The four cases are all there is, and the last two leave the state as it was.
Invariants of the contract are proved by going through them. -/
inductive Transition (c : PoolChain H) (e : PoolExecution H) : Prop
  /-- A call from outside that committed; its chain begins here. -/
  | entered (m : Method H) (p : Phase H) (side : List (Receipt H)) (deposit gas : ℕ)
      (fresh : c = Chain.single e.task) (task_eq : e.task.actions = [.call m deposit gas])
      (deposit_eq : e.context.attachedDeposit = deposit)
      (external : e.context.predecessorAccountId ≠ host.currentAccountId)
      (entry : Entry host e.context e.before m e.after p side)
      (next : Describes host wnear (c.resume e) p)
      (verdict : ∃ ret, e.verdict = .committed ret side)
      (spawned : e.spawned = side.map Chain.single)
  /-- A callback, or a batch, that committed. -/
  | advanced (p p' : Phase H) (side : List (Receipt H)) (now : Describes host wnear c p)
      (self : e.context.predecessorAccountId = host.currentAccountId)
      (advance : Advance host e.context e.before p e.after p' side)
      (next : Describes host wnear (c.resume e) p')
      (verdict : ∃ ret, e.verdict = .committed ret side)
      (spawned : e.spawned = side.map Chain.single)
  /-- A receipt that ran here and panicked: its changes are undone, and the
  chain goes on with a failure. -/
  | panicked (p : Phase H) (now : Describes host wnear c p) (here : p.place host = .here)
      (self : e.context.predecessorAccountId = host.currentAccountId)
      (verdict : e.verdict = .panicked) (same : e.after = e.before)
      (next : Describes host wnear (c.resume e) (p.settle .failed)) (spawned : e.spawned = [])
  /-- A receipt that ran elsewhere, with any result. -/
  | answered (p : Phase H) (r : PromiseResult) (now : Describes host wnear c p)
      (away : p.place host = .away) (verdict : e.verdict = .answered r)
      (same : e.after = e.before)
      (next : Describes host wnear (c.resume e) (p.settle r)) (spawned : e.spawned = [])

variable {host wnear} {c : PoolChain H} {e : PoolExecution H}

/-- The accounts the contract was deployed with stay.

There is no method that changes them. -/
theorem Entry.accounts_eq {env : Env} {s s' : LiquidStakingToken H} {m : Method H} {p : Phase H}
    {side : List (Receipt H)} (h : Entry host env s m s' p side) :
    s'.wnearId = s.wnearId ∧ s'.treasuryId = s.treasuryId := by
  cases h with
  | stake args s₁ result o synced => exact ⟨synced.wnearId_eq, synced.treasuryId_eq⟩
  | pingIdle result s₁ synced | ping reward s₁ synced =>
      exact ⟨synced.wnearId_eq, synced.treasuryId_eq⟩
  | setFee feeBps s₁ result _ _ _ synced => exact ⟨synced.wnearId_eq, synced.treasuryId_eq⟩
  | setKey key s₁ result _ _ synced => exact ⟨synced.wnearId_eq, synced.treasuryId_eq⟩
  | _ => exact ⟨rfl, rfl⟩

/-- Nor does a callback change them. -/
theorem Advance.accounts_eq {env : Env} {s s' : LiquidStakingToken H} {p p' : Phase H}
    {side : List (Receipt H)} (h : Advance host env s p s' p' side) :
    s'.wnearId = s.wnearId ∧ s'.treasuryId = s.treasuryId := by
  cases h with
  | unwrapQuoted ok s₁ result o synced => exact ⟨synced.wnearId_eq, synced.treasuryId_eq⟩
  | unwrapRejected ok s₁ result synced => exact ⟨synced.wnearId_eq, synced.treasuryId_eq⟩
  | refused message _ t used burned _ s₁ u _ _ unstakes =>
      obtain ⟨result, synced⟩ := unstakes.synced
      exact ⟨synced.wnearId_eq, synced.treasuryId_eq⟩
  | unstakeRequested message _ s₁ u _ _ unstakes =>
      obtain ⟨result, synced⟩ := unstakes.synced
      exact ⟨synced.wnearId_eq, synced.treasuryId_eq⟩
  | _ => exact ⟨rfl, rfl⟩

/-- The attempt of a delivery is the tranche its `withdraw` locked. -/
theorem Entry.attemptOf_eq {m : Method H} {p : Phase H} {side : List (Receipt H)} {deposit gas : ℕ}
    (h : Entry host e.context e.before m e.after p side)
    (htask : e.task.actions = [.call m deposit gas]) {a : Attempt} (ha : p.attempt = some a) :
    attemptOf host [e] = some a := by
  have hlocks : m = .withdraw a.args ∧
      WithdrawalRequests.locksAt e.after.withdrawalRequests (a.hash host) = [a.tranche] := by
    generalize e.before = s, e.after = s' at h
    cases h with
    | withdrawNative a' q _ _ _ locked | withdrawWnear a' q _ _ _ locked =>
        obtain rfl := Option.some.inj ha
        exact ⟨rfl, locked⟩
    | _ => cases ha
  obtain ⟨rfl, hlocks⟩ := hlocks
  replace hlocks : WithdrawalRequests.locksAt e.after.withdrawalRequests (host.hash a.args) =
    [a.tranche] := hlocks
  simp only [attemptOf, List.getLast?_singleton, htask, hlocks, List.head?_cons, Option.map_some]

/-- A committed receipt leads to the phase its return value names. -/
theorem Leads.describes {p p' : Phase H} {ret : Return H} {detached : List (Receipt H)}
    (h : Leads host wnear p ret p') (hnow : Describes host wnear c p)
    (hverdict : e.verdict = .committed ret detached) : Describes host wnear (c.resume e) p' := by
  cases ret with
  | value v =>
      obtain rfl := h
      exact hnow.settle (by simp only [Chain.resume, hverdict])
        (by simp only [Chain.resume, hverdict]) (c.resume_trace e)
  | promise next =>
      obtain ⟨htasks, hinput, hattempt, hvalid⟩ := h
      refine ⟨?_, ?_, fun a ha => ?_, hvalid⟩
      · simp only [Chain.resume, hverdict, htasks, hnow.tasks_eq]
      · simp only [Chain.resume, hverdict, hinput]
      · rw [hattempt] at ha
        cases ha

/-- A receipt with one call runs that method. -/
theorem execute_call {env : Env} {input : Option PromiseResult} {t : Receipt H} {m : Method H}
    {deposit gas : ℕ} {s : LiquidStakingToken H} {o : Outcome H}
    (htask : t.actions = [.call m deposit gas])
    (h : (platform host).execute env input t s = .ok o) :
    callMethod host (env.forCall deposit input) s m = .ok o := by
  simpa only [platform, htask, runActions, runAction] using h

/-- **Whatever runs here in a chain** is one of the listed steps of its phase. -/
theorem Describes.isAdvance {p : Phase H} {t : Receipt H} {rest : List (Receipt H)}
    {env : Env} {s : LiquidStakingToken H} {o : Outcome H}
    (hwnear : s.wnearId ≠ host.currentAccountId) (hnow : Describes host s.wnearId c p)
    (htasks : c.tasks = t :: rest) (hself : env.predecessorAccountId = host.currentAccountId)
    (hlocal : (platform host).isLocal t = true)
    (h : (platform host).execute env c.input t s = .ok o) : IsAdvance host env s p o := by
  have hvalid := hnow.valid
  rw [hnow.tasks_eq] at htasks
  have hplace := Phase.isLocal_eq hwnear htasks
  rw [hlocal, if_pos rfl] at hplace
  rw [hnow.input_eq] at h
  cases p with
  | continuing k r =>
      cases k with
      | finish => cases htasks
      | resolve senderId receiverId amount =>
          obtain ⟨rfl, -⟩ := List.cons.inj htasks
          obtain ⟨_, -, hmethod⟩ := bind_eq_ok.mp (execute_call rfl h)
          exact ftResolveTransfer_isAdvance hmethod
      | notify lstTokens args =>
          obtain ⟨rfl, -⟩ := List.cons.inj htasks
          obtain ⟨_, -, hmethod⟩ := bind_eq_ok.mp (execute_call rfl h)
          exact onFtOnTransfer_isAdvance hmethod
  | batching order refundTo =>
      obtain ⟨rfl, -⟩ := List.cons.inj htasks
      exact batch_isAdvance hself h
  | sending receiver senderId amount msg gas k =>
      obtain ⟨rfl, -⟩ := List.cons.inj htasks
      have hreceiver : receiver = host.currentAccountId := by
        by_contra hne
        simp [Phase.place, hne] at hplace
      subst hreceiver
      obtain ⟨_, -, hmethod⟩ := bind_eq_ok.mp (execute_call rfl h)
      exact ftOnTransfer_isAdvance hself hwnear hvalid.1 hmethod
  | unwrapped senderId amount args r =>
      obtain ⟨rfl, -⟩ := List.cons.inj htasks
      obtain ⟨_, -, hmethod⟩ := bind_eq_ok.mp (execute_call rfl h)
      exact onNearWithdraw_isAdvance hmethod
  | batched order r =>
      obtain ⟨rfl, -⟩ := List.cons.inj htasks
      obtain ⟨_, -, hmethod⟩ := bind_eq_ok.mp (execute_call rfl h)
      exact restakeOrRefund_isAdvance hvalid hmethod
  | restaked m r =>
      obtain ⟨rfl, -⟩ := List.cons.inj htasks
      obtain ⟨_, -, hmethod⟩ := bind_eq_ok.mp (execute_call rfl h)
      exact onRestakeOrRefund_isAdvance hvalid hmethod
  | rewrapped amount r =>
      obtain ⟨rfl, -⟩ := List.cons.inj htasks
      obtain ⟨_, -, hmethod⟩ := bind_eq_ok.mp (execute_call rfl h)
      exact refundWnearDeposit_isAdvance hmethod
  | unstaked u k r =>
      obtain ⟨rfl, -⟩ := List.cons.inj htasks
      obtain ⟨_, -, hmethod⟩ := bind_eq_ok.mp (execute_call rfl h)
      exact onUnstake_isAdvance hmethod
  | deliveredNative a r =>
      obtain ⟨rfl, -⟩ := List.cons.inj htasks
      obtain ⟨_, -, hmethod⟩ := bind_eq_ok.mp (execute_call rfl h)
      exact onWithdrawNative_isAdvance hmethod
  | deliveredWnear a r =>
      obtain ⟨rfl, -⟩ := List.cons.inj htasks
      obtain ⟨_, -, hmethod⟩ := bind_eq_ok.mp (execute_call rfl h)
      exact onWithdrawWnear_isAdvance hmethod
  | pinged r =>
      obtain ⟨rfl, -⟩ := List.cons.inj htasks
      obtain ⟨_, -, hmethod⟩ := bind_eq_ok.mp (execute_call rfl h)
      exact onRestake_isAdvance hmethod
  | _ => cases hplace

/-- A chain in flight has a next phase after every execution. -/
theorem transition_of_inFlight {p : Phase H} {s : PoolSystem H}
    (hwnear : s.state.wnearId ≠ host.currentAccountId)
    (hnow : Describes host s.state.wnearId c p)
    (hfires : (platform host).Fires s c e) (hself : e.context.predecessorAccountId =
      host.currentAccountId) : Transition host s.state.wnearId c e := by
  obtain ⟨hbefore, hinput, ⟨rest, htasks⟩, hlegal, -⟩ := hfires
  have hplace := Phase.isLocal_eq hwnear (hnow.tasks_eq.symm.trans htasks)
  unfold Platform.Legal at hlegal
  split at hlegal
  · next ret detached hverdict =>
      obtain ⟨hlocal, -, hexec⟩ := hlegal
      rw [hinput, hbefore] at hexec
      obtain ⟨p', hadvance, hleads⟩ := hnow.isAdvance hwnear htasks hself hlocal hexec
      exact .advanced p p' detached hnow hself (hbefore ▸ hadvance) (hleads.describes hnow hverdict)
        ⟨ret, hverdict⟩ (by simp only [Execution.spawned, hverdict]; rfl)
  · next hverdict =>
      obtain ⟨hlocal, hsame, -⟩ := hlegal
      rw [hlocal, if_pos rfl] at hplace
      exact .panicked p hnow hplace hself hverdict hsame
        (hnow.settle (by simp only [Chain.resume, hverdict])
          (by simp only [Chain.resume, hverdict]) (c.resume_trace e))
        (by simp only [Execution.spawned, hverdict])
  · next r hverdict =>
      obtain ⟨hremote, hsame⟩ := hlegal
      rw [hremote, if_neg (by simp)] at hplace
      exact .answered p r hnow hplace hverdict hsame
        (hnow.settle (by simp only [Chain.resume, hverdict])
          (by simp only [Chain.resume, hverdict]) (c.resume_trace e))
        (by simp only [Execution.spawned, hverdict])

/-- A call from outside starts a chain. -/
theorem transition_of_fresh {s : PoolSystem H} (hfresh : c = Chain.single e.task)
    (hfires : (platform host).Fires s c e)
    (haccepts : (platform host).accepts e.context e.task = true)
    (hcommits : ∃ ret detached, e.verdict = .committed ret detached) :
    Transition host s.state.wnearId c e := by
  obtain ⟨hbefore, hinput, -, hlegal, -⟩ := hfires
  obtain ⟨ret, detached, hverdict⟩ := hcommits
  obtain ⟨m, deposit, gas, htask, -, hext, hdeposit⟩ := accepts_eq_true haccepts
  simp only [Platform.Legal, hverdict, hinput, hfresh, Chain.single, hbefore] at hlegal
  have hmethod := execute_call htask hlegal.2.2
  rw [← hdeposit] at hmethod
  obtain ⟨p, hentry, hstarts⟩ := callMethod_isEntry hext hmethod
  rw [← hbefore] at hentry
  refine .entered m p detached deposit gas hfresh htask hdeposit hext hentry ?_
    ⟨ret, hverdict⟩ (by simp only [Execution.spawned, hverdict]; rfl)
  subst hfresh
  cases ret with
  | value v =>
      obtain rfl := hstarts
      refine ⟨?_, ?_, fun _ ha => (nomatch ha), trivial⟩
      · simp only [Chain.resume, hverdict, Chain.single, List.tail_cons]
        rfl
      · simp only [Chain.resume, hverdict]
        rfl
  | promise next =>
      obtain ⟨htasks, hinput', hvalid⟩ := hstarts
      refine ⟨?_, ?_, fun a ha => ?_, hvalid⟩
      · simp only [Chain.resume, hverdict, htasks, Chain.single, List.tail_cons, List.append_nil]
      · simp only [Chain.resume, hverdict, hinput']
      · rw [Chain.resume_trace]
        exact hentry.attemptOf_eq htask ha

/-- Payments on the side.

They are the receipts that the code detaches; nobody waits for them. -/
def Paying (side : List (Receipt H)) : Prop :=
  ∀ t ∈ side, ∃ receiver amount, t = .pay receiver amount

omit [DecidableEq H] in
/-- A detached payment is one. -/
theorem detachedPay_paying (receiver : AccountId) (amount : ℕ) :
    Paying (detachedPay receiver amount : List (Receipt H)) := by
  intro t ht
  unfold detachedPay at ht
  split at ht
  · cases ht
  · exact ⟨receiver, amount, List.mem_singleton.mp ht⟩

/-- A call from outside detaches payments only. -/
theorem Entry.paying {env : Env} {s s' : LiquidStakingToken H} {m : Method H} {p : Phase H}
    {side : List (Receipt H)} (h : Entry host env s m s' p side) : Paying side := by
  cases h <;> first | exact detachedPay_paying _ _ | exact fun t ht => nomatch ht

/-- So does a callback. -/
theorem Advance.paying {env : Env} {s s' : LiquidStakingToken H} {p p' : Phase H}
    {side : List (Receipt H)} (h : Advance host env s p s' p' side) : Paying side := by
  cases h <;> first | exact detachedPay_paying _ _ | exact fun t ht => nomatch ht

/-- A payment on the side is a chain of its own. -/
theorem Paying.describes {side : List (Receipt H)} (h : Paying side) (wnear : AccountId)
    {c : PoolChain H}
    (hc : c ∈ (side.map Chain.single : List (PoolChain H))) :
    ∃ receiver amount, Describes host wnear c (.paying receiver amount) := by
  obtain ⟨t, ht, rfl⟩ := List.mem_map.mp hc
  obtain ⟨receiver, amount, rfl⟩ := h t ht
  exact ⟨receiver, amount, rfl, rfl, fun _ ha => (nomatch ha), trivial⟩

/-- The accounts the contract was deployed with stay, whatever happens. -/
theorem Transition.accounts_eq (h : Transition host wnear c e) :
    e.after.wnearId = e.before.wnearId ∧ e.after.treasuryId = e.before.treasuryId := by
  cases h with
  | entered m p side deposit gas fresh task_eq deposit_eq external entry =>
      exact entry.accounts_eq
  | advanced p p' side now self advance => exact advance.accounts_eq
  | panicked p now here self verdict same => rw [same]; exact ⟨rfl, rfl⟩
  | answered p r now away verdict same => rw [same]; exact ⟨rfl, rfl⟩

/-- The chain that ran is in a phase afterwards, and those it started are
payments. -/
theorem Transition.describes (h : Transition host wnear c e) :
    (∃ p, Describes host wnear (c.resume e) p) ∧ ∀ c' ∈ e.spawned,
      ∃ receiver amount, Describes host wnear c' (.paying receiver amount) := by
  cases h with
  | entered m p side deposit gas fresh task_eq deposit_eq external entry next verdict spawned =>
      exact ⟨⟨p, next⟩, fun c' hc' => entry.paying.describes wnear (spawned ▸ hc')⟩
  | advanced p p' side now self advance next verdict spawned =>
      exact ⟨⟨p', next⟩, fun c' hc' => advance.paying.describes wnear (spawned ▸ hc')⟩
  | panicked p now here self verdict same next spawned =>
      exact ⟨⟨_, next⟩, fun c' hc' => by rw [spawned] at hc'; cases hc'⟩
  | answered p r now away verdict same next spawned =>
      exact ⟨⟨_, next⟩, fun c' hc' => by rw [spawned] at hc'; cases hc'⟩

end Transition

/-! ## Reachable systems -/

section Reaches

variable {H : Type} [DecidableEq H] {host : Host H} {d : Deployment host}
  {events : List (PoolEvent H)} {s : PoolSystem H} {c : PoolChain H} {e : PoolExecution H}

/-- What every reachable system has: the accounts it was deployed with, and all
its chains in phases. -/
structure Phased (d : Deployment host) (s : PoolSystem H) : Prop where
  wnearId_eq : s.state.wnearId = d.wnearId
  treasuryId_eq : s.state.treasuryId = d.treasuryId
  /-- No chain is ever in a state that the phases do not list. -/
  described : ∀ c ∈ s.chains, ∃ p, Describes host d.wnearId c p

/-- What fires in a phased system makes one of the listed transitions. -/
theorem Phased.transition (h : Phased d s) (hfires : (platform host).Fires s c e)
    (horigin : (platform host).Origin s c e) : Transition host d.wnearId c e := by
  rw [← h.wnearId_eq]
  cases horigin with
  | fresh eq accepted commits => exact transition_of_fresh eq hfires accepted commits
  | inFlight mem resumed =>
      obtain ⟨p, hp⟩ := h.described c mem
      rw [← h.wnearId_eq] at hp
      exact transition_of_inFlight (h.wnearId_eq ▸ d.wnear_ne) hp hfires
        (by simpa [platform] using resumed)

omit [DecidableEq H] in
/-- The state after `new`. -/
theorem Deployment.initial (d : Deployment host) :
    LiquidStakingToken.Initial host d.env d.wnearId d.treasuryId d.state :=
  LiquidStakingToken.new_initial d.created

/-- Every reachable system is phased.

A call from outside starts a chain in a phase, and every turn takes a chain from
one phase to another. -/
theorem Deployment.phased (run : d.Reaches events s) : Phased d s := by
  have hgenesis : Phased d d.genesis :=
    ⟨d.initial.wnearId_eq, d.initial.treasuryId_eq, by simp [Deployment.genesis]⟩
  refine run.induction_turn (I := fun _ => Phased d) hgenesis ?_
    fun _ _ => trivial
  intro events s s' c e turn ih step
  have htransition := ih.transition turn.fires turn.origin
  obtain ⟨hwnear, htreasury⟩ := htransition.accounts_eq
  refine ⟨?_, ?_, fun c hc => ?_⟩
  · rw [step.state_eq, hwnear, turn.fires.before_eq, ih.wnearId_eq]
  · rw [step.state_eq, htreasury, turn.fires.before_eq, ih.treasuryId_eq]
  · rcases step.mem_chains hc with hold | rfl | hspawned
    · exact ih.described c hold
    · exact htransition.describes.1
    · obtain ⟨receiver, amount, hpay⟩ := htransition.describes.2 c hspawned
      exact ⟨_, hpay⟩

/-- A turn of a run of the deployed contract. -/
abbrev Deployment.Turn (d : Deployment host) (Good : PoolEvent H → Prop)
    (events : List (PoolEvent H)) (s : PoolSystem H) (c : PoolChain H) (e : PoolExecution H) :
    Prop :=
  (platform host).Turn d.genesis Good events s c e

/-- **Every turn of a run** makes one of the listed transitions.

So a fact about runs follows from the constructors of `Entry` and `Advance`, and
the code is not looked at again. -/
theorem Deployment.transition {Good : PoolEvent H → Prop} (turn : d.Turn Good events s c e) :
    Transition host d.wnearId c e :=
  (d.phased turn.run).transition turn.fires turn.origin

/-- A chain in a phase that fires is one of the chains in flight. -/
theorem Describes.mem {p : Phase H} {wnear : AccountId} (h : Describes host wnear c p)
    (horigin : (platform host).Origin s c e) : c ∈ s.chains := by
  cases horigin with
  | fresh eq accepted commits =>
      have hnone : carried host (fun _ => 1) c = 0 := eq ▸ carried_single (fun _ => 1) accepted
      rw [h.carried_eq] at hnone
      cases hnone
  | inFlight mem resumed => exact mem

/-- **An invariant of the state and of chains in their phases**, proved turn by
turn; the payments on the side have it from the start.

The other chains keep `K` on their own, as it speaks of a chain and its phase
only.  `Good` restricts the events of the run, for results that assume something
of the platform. -/
theorem Deployment.invariant_turn {Good : PoolEvent H → Prop} {I : LiquidStakingToken H → Prop}
    {K : PoolChain H → Phase H → Prop} (hinit : I d.state)
    (hside : ∀ c receiver amount, c.trace = [] → K c (.paying receiver amount))
    (hstep : ∀ {events s c e}, d.Turn Good events s c e → I e.before →
      (∀ p, Describes host d.wnearId c p → K c p) →
      I e.after ∧ ∀ p, Describes host d.wnearId (c.resume e) p → K (c.resume e) p)
    (run : d.Reaches events s) (hgood : ∀ ev ∈ events, Good ev) :
    I s.state ∧ ∀ c ∈ s.chains, ∀ p, Describes host d.wnearId c p → K c p := by
  refine run.induction_turn (I := fun _ s => I s.state ∧ ∀ c ∈ s.chains, ∀ p,
    Describes host d.wnearId c p → K c p) ⟨hinit, by simp [Deployment.genesis]⟩ ?_ hgood
  intro events s s' c e turn ih step
  obtain ⟨hstate, hchains⟩ := ih
  rw [← turn.fires.before_eq] at hstate
  obtain ⟨hafter, hnext⟩ := hstep turn hstate fun p hp => hchains c (hp.mem turn.origin) p hp
  refine ⟨step.state_eq ▸ hafter, fun c' hc' p hp => ?_⟩
  rcases step.mem_chains hc' with hold | rfl | hnew
  · exact hchains c' hold p hp
  · exact hnext p hp
  · obtain ⟨receiver, amount, hpay⟩ := (d.transition turn).describes.2 c' hnew
    obtain rfl := hp.unique hpay
    exact hside c' receiver amount (Execution.spawned_trace hnew)

/-- Such an invariant by the four ways a chain comes to a phase.

The states before and after are variables with an equation, so that the
constructors of `Entry` and `Advance` can be split on. -/
theorem Deployment.invariant {Good : PoolEvent H → Prop} {I : LiquidStakingToken H → Prop}
    {K : PoolChain H → Phase H → Prop} (hinit : I d.state)
    (hside : ∀ c receiver amount, c.trace = [] → K c (.paying receiver amount))
    (hentry : ∀ {events s c e s₀ s₁ m p side}, d.Turn Good events s c e → I s₀ →
      c = Chain.single e.task → (∃ deposit gas, e.task.actions = [.call m deposit gas]) →
      e.before = s₀ → e.after = s₁ → Entry host e.context s₀ m s₁ p side →
      I s₁ ∧ K (c.resume e) p)
    (hadvance : ∀ {events s c e s₀ s₁ p p' side}, d.Turn Good events s c e → I s₀ →
      Describes host d.wnearId c p → K c p → (∃ ret, e.verdict = .committed ret side) →
      e.before = s₀ → e.after = s₁ → Advance host e.context s₀ p s₁ p' side →
      I s₁ ∧ K (c.resume e) p')
    (hpanicked : ∀ {events s c e p}, d.Turn Good events s c e → Describes host d.wnearId c p →
      K c p → p.place host = .here → e.verdict = .panicked → K (c.resume e) (p.settle .failed))
    (hanswered : ∀ {events s c e p r}, d.Turn Good events s c e → Describes host d.wnearId c p →
      K c p → p.place host = .away → e.verdict = .answered r → K (c.resume e) (p.settle r))
    (run : d.Reaches events s) (hgood : ∀ ev ∈ events, Good ev) :
    I s.state ∧ ∀ c ∈ s.chains, ∀ p, Describes host d.wnearId c p → K c p := by
  refine d.invariant_turn hinit hside ?_ run hgood
  intro events s c e turn hstate hphase
  cases d.transition turn with
  | entered m p side deposit gas fresh task_eq deposit_eq external entry next verdict spawned =>
      obtain ⟨hafter, hp⟩ := hentry turn hstate fresh ⟨deposit, gas, task_eq⟩ rfl rfl entry
      exact ⟨hafter, fun p' hp' => hp'.unique next ▸ hp⟩
  | advanced p p' side now self advance next verdict spawned =>
      obtain ⟨hafter, hp⟩ := hadvance turn hstate now (hphase p now) verdict rfl rfl advance
      exact ⟨hafter, fun p'' hp'' => hp''.unique next ▸ hp⟩
  | panicked p now here self verdict same next spawned =>
      have hp := hpanicked turn now (hphase p now) here verdict
      exact ⟨same ▸ hstate, fun p' hp' => hp'.unique next ▸ hp⟩
  | answered p r now away verdict same next spawned =>
      have hp := hanswered turn now (hphase p now) away verdict
      exact ⟨same ▸ hstate, fun p' hp' => hp'.unique next ▸ hp⟩

/-- An invariant of chains and their phases alone.

Nothing is asked of the state, so panics and answers only move the phase. -/
theorem Deployment.forall_phase {Good : PoolEvent H → Prop} {K : PoolChain H → Phase H → Prop}
    (hside : ∀ c receiver amount, c.trace = [] → K c (.paying receiver amount))
    (hentry : ∀ {events s c e s₀ s₁ m p side}, d.Turn Good events s c e →
      c = Chain.single e.task → (∃ deposit gas, e.task.actions = [.call m deposit gas]) →
      e.before = s₀ → e.after = s₁ → Entry host e.context s₀ m s₁ p side → K (c.resume e) p)
    (hadvance : ∀ {events s c e s₀ s₁ p p' side}, d.Turn Good events s c e →
      Describes host d.wnearId c p → K c p → (∃ ret, e.verdict = .committed ret side) →
      e.before = s₀ → e.after = s₁ → Advance host e.context s₀ p s₁ p' side →
      K (c.resume e) p')
    (hpanicked : ∀ {events s c e p}, d.Turn Good events s c e → Describes host d.wnearId c p →
      K c p → p.place host = .here → e.verdict = .panicked → K (c.resume e) (p.settle .failed))
    (hanswered : ∀ {events s c e p r}, d.Turn Good events s c e → Describes host d.wnearId c p →
      K c p → p.place host = .away → e.verdict = .answered r → K (c.resume e) (p.settle r))
    (run : d.Reaches events s) (hgood : ∀ ev ∈ events, Good ev) :
    ∀ c ∈ s.chains, ∀ p, Describes host d.wnearId c p → K c p := by
  refine (d.invariant (I := fun _ => True) (K := K) trivial hside ?_ ?_ hpanicked hanswered
    run hgood).2
  · intro events s c e s₀ s₁ m p side turn _ fresh task before after entry
    exact ⟨trivial, hentry turn fresh task before after entry⟩
  · intro events s c e s₀ s₁ p p' side turn _ now hp verdict before after advance
    exact ⟨trivial, hadvance turn now hp verdict before after advance⟩

/-- An invariant of the chains that calls from outside have started, with the
execution of that call at hand.

`K` may compare the call that began the chain, the executions so far and the
phase; most results about what a chain has done are proved in this form. -/
theorem Deployment.forall_started {Good : PoolEvent H → Prop}
    {K : PoolExecution H → List (PoolExecution H) → Phase H → Prop}
    (hentry : ∀ {events s c e s₀ s₁ m p side deposit gas}, d.Turn Good events s c e →
      e.task.actions = [.call m deposit gas] → Describes host d.wnearId (c.resume e) p →
      (∃ ret, e.verdict = .committed ret side) → c = Chain.single e.task → e.before = s₀ →
      e.after = s₁ → Entry host e.context s₀ m s₁ p side → K e [e] p)
    (hadvance : ∀ {events s c e e₀ s₀ s₁ p p' side}, d.Turn Good events s c e →
      Describes host d.wnearId c p → K e₀ c.trace p → (∃ ret, e.verdict = .committed ret side) →
      e.before = s₀ → e.after = s₁ → Advance host e.context s₀ p s₁ p' side →
      K e₀ (e :: c.trace) p')
    (hpanicked : ∀ {events s c e e₀ p}, d.Turn Good events s c e → Describes host d.wnearId c p →
      K e₀ c.trace p → p.place host = .here → e.verdict = .panicked → e.after = e.before →
      K e₀ (e :: c.trace) (p.settle .failed))
    (hanswered : ∀ {events s c e e₀ p r}, d.Turn Good events s c e →
      Describes host d.wnearId c p → K e₀ c.trace p → p.place host = .away →
      e.verdict = .answered r → e.after = e.before → K e₀ (e :: c.trace) (p.settle r))
    (run : d.Reaches events s) (hgood : ∀ ev ∈ events, Good ev) :
    ∀ c ∈ s.chains, ∀ p, Describes host d.wnearId c p → ∀ e₀ m deposit gas,
      c.trace.getLast? = some e₀ → e₀.task.actions = [.call m deposit gas] →
        K e₀ c.trace p := by
  -- A chain without executions is a payment on the side, and no call has
  -- started it.
  have hresume : ∀ {c : PoolChain H} {e e₀ : PoolExecution H}, c.trace ≠ [] →
      (c.resume e).trace.getLast? = some e₀ → c.trace.getLast? = some e₀ := by
    intro c e e₀ hne hlast
    obtain ⟨e', trace, htrace⟩ := List.exists_cons_of_ne_nil hne
    rw [Chain.resume_trace, htrace, List.getLast?_cons_cons] at hlast
    rw [htrace]
    exact hlast
  intro c hc p hp
  refine ((d.invariant_turn (I := fun _ => True) (K := fun c p =>
    (c.trace = [] → ∃ receiver amount, p = .paying receiver amount) ∧ ∀ e₀ m deposit gas,
      c.trace.getLast? = some e₀ → e₀.task.actions = [.call m deposit gas] → K e₀ c.trace p)
    trivial ?_ ?_ run hgood).2 c hc p hp).2
  · intro c receiver amount htrace
    refine ⟨fun _ => ⟨receiver, amount, rfl⟩, fun e₀ m deposit gas hlast => ?_⟩
    rw [htrace] at hlast
    cases hlast
  intro events s c e turn _ hphase
  refine ⟨trivial, fun p₁ hp₁ => ⟨fun h => by simp at h, ?_⟩⟩
  intro e₀ m₀ deposit₀ gas₀ hlast htask₀
  cases d.transition turn with
  | entered m p side deposit gas fresh task_eq deposit_eq external entry next verdict spawned =>
      obtain rfl := hp₁.unique next
      have htrace : (c.resume e).trace = [e] := by rw [Chain.resume_trace, fresh]; rfl
      rw [htrace, List.getLast?_singleton] at hlast
      obtain rfl := Option.some.inj hlast
      rw [htrace]
      exact hentry turn task_eq next verdict fresh rfl rfl entry
  | advanced p p' side now self advance next verdict spawned =>
      obtain rfl := hp₁.unique next
      obtain ⟨hsides, hstarted⟩ := hphase p now
      have hne : c.trace ≠ [] := fun htrace => by
        obtain ⟨receiver, amount, rfl⟩ := hsides htrace
        cases advance
      rw [Chain.resume_trace]
      exact hadvance turn now (hstarted e₀ m₀ deposit₀ gas₀ (hresume hne hlast) htask₀) verdict
        rfl rfl advance
  | panicked p now here self verdict same next spawned =>
      obtain rfl := hp₁.unique next
      obtain ⟨hsides, hstarted⟩ := hphase p now
      have hne : c.trace ≠ [] := fun htrace => by
        obtain ⟨receiver, amount, rfl⟩ := hsides htrace
        cases here
      rw [Chain.resume_trace]
      exact hpanicked turn now (hstarted e₀ m₀ deposit₀ gas₀ (hresume hne hlast) htask₀) here
        verdict same
  | answered p r now away verdict same next spawned =>
      obtain rfl := hp₁.unique next
      obtain ⟨hsides, hstarted⟩ := hphase p now
      have hne : c.trace ≠ [] := fun htrace => by
        obtain ⟨receiver, amount, rfl⟩ := hsides htrace
        obtain ⟨rest, htasks⟩ := turn.fires.tasks_eq
        obtain ⟨hpays, -⟩ := List.cons.inj (htasks.symm.trans now.tasks_eq)
        rw [Chain.resume_trace, htrace, List.getLast?_singleton] at hlast
        obtain rfl := Option.some.inj hlast
        rw [hpays] at htask₀
        cases htask₀
      rw [Chain.resume_trace]
      exact hanswered turn now (hstarted e₀ m₀ deposit₀ gas₀ (hresume hne hlast) htask₀) away
        verdict same

/-- Payments on the side that carry nothing. -/
theorem carried_spawned {G : Type} [AddMonoid G] {w : Phase H → G} {side : List (Receipt H)}
    (hpaying : Paying side) (hspawned : e.spawned = side.map Chain.single)
    (hw : ∀ receiver amount, w (.paying receiver amount) = 0) :
    (e.spawned.map (carried host w)).sum = 0 := by
  refine List.sum_eq_zero fun x hx => ?_
  obtain ⟨c', hc', rfl⟩ := List.mem_map.mp hx
  obtain ⟨receiver, amount, hpay⟩ := hpaying.describes (default : AccountId)
    (hspawned ▸ hc')
  rw [hpay.carried_eq, hw]

end Reaches

end LiquidStaking
