import LiquidStaking.Reachable

/-!
# The pool's account on wNEAR

A run says how wNEAR answers, but not what wNEAR holds for the pool.  `Held` is
a run together with the pool's account on a correct token ledger.

* A transfer to the pool puts its amount on the account before `ft_on_transfer`
  runs, and the resolver of the transfer takes back what the chain reports
  unused, as far as it is there.
* A receipt of the pool moves what its actions say, all of them or none.
* A transfer call of the pool is two steps: the amount leaves when the receiver
  is called, and what the receiver did not use is back with the answer.

`WnearAccount.free` is what the account has beyond the transfers not settled
yet, with the calls on their way counted in; `Held.flow_le` bounds it below by
what the events alone tell (`wnearFlow`).  `Held.calls_le` says that the calls
on their way are those of different chains.
-/

namespace LiquidStaking

open Checked PromiseChain

section Definitions

variable {H : Type}

/-- What an action does to the balance of the pool on wNEAR.

`none` stands for an action that wNEAR refuses, as the balance does not cover
it. -/
def Action.onWnear : Action H → ℕ → Option ℕ
  | .call .nearDeposit deposit _, n => some (n + deposit)
  | .call (.nearWithdraw amount) _ _, n | .call (.ftTransfer _ amount _) _ _, n
  | .call (.ftTransferCall _ amount _ _) _ _, n => checkedSub n amount
  | _, n => some n

/-- What a receipt does to the balance, action by action. -/
def Receipt.onWnear (t : Receipt H) (n : ℕ) : Option ℕ :=
  t.actions.foldlM (fun n a => a.onWnear n) n

/-- What an action takes off the balance. -/
def Action.wnearCost : Action H → ℤ
  | .call .nearDeposit deposit _ => -deposit
  | .call (.nearWithdraw amount) _ _ | .call (.ftTransfer _ amount _) _ _
  | .call (.ftTransferCall _ amount _ _) _ _ => amount
  | _ => 0

/-- What a receipt takes off the balance. -/
def Receipt.wnearCost (t : Receipt H) : ℤ := (t.actions.map Action.wnearCost).sum

/-- The amount of the transfer call a receipt ends with; its result is what was
used of it. -/
def Receipt.callAmount (t : Receipt H) : Option ℕ :=
  match t.actions.getLast? with
  | some (.call (.ftTransferCall _ amount _ _) _ _) => some amount
  | _ => none

/-- The wNEAR an execution of `ft_on_transfer` took over. -/
def transferTaken (wnear : AccountId) (e : PoolExecution H) : Option ℕ :=
  match e.task.actions with
  | [.call (.ftOnTransfer _ amount _) _ _] =>
      if e.context.predecessorAccountId = wnear then some amount else none
  | _ => none

/-- The wNEAR a chain was started with, if it is the stake of a wNEAR transfer. -/
def stakedWnear (wnear : AccountId) (c : PoolChain H) : Option ℕ :=
  c.trace.getLast?.bind (transferTaken wnear)

/-- What the resolver of the transfer takes back once the chain is done.

wNEAR reads the result of the stake as any token library does. -/
def takenBackBy (wnear : AccountId) (c : PoolChain H) : Option ℕ :=
  if c.tasks.isEmpty then (stakedWnear wnear c).map (FungibleToken.unusedAmount c.input) else none

/-- The pool's account: its balance, the transfers to the pool that nobody has
taken over yet, the transfer calls of the pool on their way, and what resolvers
are about to take back.

The last three are kept as lists, since each of their entries is dealt with by a
step of its own. -/
structure WnearAccount (H : Type) where
  balance : ℕ
  incoming : List ℕ
  calls : List (Receipt H)
  resolving : List ℕ
  deriving DecidableEq, Repr

namespace WnearAccount

variable [DecidableEq H] (w : WnearAccount H) (wnear : AccountId)

/-- `ft_on_transfer` takes over a transfer to the pool. -/
def started (e : PoolExecution H) : Option (WnearAccount H) :=
  match transferTaken wnear e with
  | some amount =>
      if amount ∈ w.incoming then some { w with incoming := w.incoming.erase amount } else none
  | none => some w

/-- wNEAR answers a receipt.  A transfer call is answered by its resolver, with
what was used; it may fail before or after the amount left.  The other methods
return nothing. -/
def answeredWith (t : Receipt H) (r : PromiseResult) : Option (WnearAccount H) :=
  match t.callAmount, r with
  | some amount, .successful v =>
      match v.u128 with
      | some used =>
          if used ≤ amount ∧ t ∈ w.calls then
            some { w with balance := w.balance + (amount - used), calls := w.calls.erase t }
          else none
      | none => none
  | some _, .failed => some { w with calls := w.calls.erase t }
  | none, .successful v =>
      if v.length ≤ 0 then (t.onWnear w.balance).map fun n => { w with balance := n } else none
  | none, .failed => some w

/-- The account after an execution, if it was a receipt of wNEAR. -/
def answered (e : PoolExecution H) : Option (WnearAccount H) :=
  match e.verdict with
  | .answered r => if e.task.receiver = wnear then w.answeredWith e.task r else some w
  | _ => some w

/-- A stake that is done leaves its result to the resolver of the transfer. -/
def finished (c : PoolChain H) : WnearAccount H :=
  { w with resolving := (takenBackBy wnear c).toList ++ w.resolving }

/-- The account after an event of the run. -/
def after (ev : PoolEvent H) : Option (WnearAccount H) :=
  ((w.started wnear ev.execution).bind fun w => w.answered wnear ev.execution).map fun w =>
    w.finished wnear (ev.chain.resume ev.execution)

end WnearAccount

/-- What happens on wNEAR between two events of the run. -/
inductive WnearMove (H : Type) where
  /-- Somebody else's wNEAR arrives for good. -/
  | credit (n : ℕ)
  /-- A transfer to the pool, whose `ft_on_transfer` is to run. -/
  | receive (n : ℕ)
  /-- The `ft_on_transfer` of such a transfer panicked. -/
  | reject (n : ℕ)
  /-- A resolver takes back what was unused. -/
  | resolve (n : ℕ)
  /-- The batch of a transfer call runs, and its receiver is called. -/
  | call (t : Receipt H)

/-- The chains whose next receipt is `t`. -/
def waitsFor [DecidableEq H] (t : Receipt H) (c : PoolChain H) : Bool := c.tasks.head? == some t

/-- The account after a move. -/
def WnearAccount.act [DecidableEq H] (w : WnearAccount H) (wnear : AccountId) (sys : PoolSystem H) :
    WnearMove H → Option (WnearAccount H)
  | .credit n => some { w with balance := w.balance + n }
  | .receive n => some { w with balance := w.balance + n, incoming := n :: w.incoming }
  | .reject n =>
      if n ∈ w.incoming then
        some { w with incoming := w.incoming.erase n, resolving := n :: w.resolving }
      else none
  | .resolve n =>
      if n ∈ w.resolving then
        some { w with balance := w.balance - min n w.balance, resolving := w.resolving.erase n }
      else none
  | .call t =>
      if t.receiver = wnear ∧ t.callAmount.isSome ∧ w.calls.count t < sys.chains.countP (waitsFor t)
      then (t.onWnear w.balance).map fun n => { w with balance := n, calls := t :: w.calls }
      else none

end Definitions

/-! ## Runs with the account -/

section Runs

variable {H : Type} [DecidableEq H] {host : Host H}

/-- A run from deployment, with the pool's account on wNEAR. -/
inductive Deployment.Held (d : Deployment host) :
    List (PoolEvent H) → PoolSystem H → WnearAccount H → Prop
  /-- The account may hold some wNEAR already. -/
  | deploy (n : ℕ) : d.Held [] d.genesis ⟨n, [], [], []⟩
  /-- Something happens on wNEAR. -/
  | act {events : List (PoolEvent H)} {sys : PoolSystem H} {w w' : WnearAccount H}
      (run : d.Held events sys w) (move : WnearMove H)
      (acts : w.act d.wnearId sys move = some w') : d.Held events sys w'
  /-- Something happens in the system, and on wNEAR as far as it is a receipt of
  wNEAR. -/
  | step {events : List (PoolEvent H)} {sys sys' : PoolSystem H} {w w' : WnearAccount H}
      {ev : PoolEvent H} (run : d.Held events sys w) (step : (platform host).Step sys ev sys')
      (after : w.after d.wnearId ev = some w') : d.Held (ev :: events) sys' w'

/-- One move of a schedule with the account. -/
inductive HeldMove (H : Type) where
  | act (move : WnearMove H)
  | run (move : Platform.Move Env (Receipt H) Payload)

/-- Replay a schedule with the account. -/
def replayHeld (host : Host H) (wnear : AccountId) (events : List (PoolEvent H))
    (sys : PoolSystem H) (w : WnearAccount H) :
    List (HeldMove H) → Option (List (PoolEvent H) × PoolSystem H × WnearAccount H)
  | [] => some (events, sys, w)
  | .act move :: moves =>
      match w.act wnear sys move with
      | some w' => replayHeld host wnear events sys w' moves
      | none => none
  | .run move :: moves =>
      match (platform host).replayStep sys move with
      | some (ev, sys') =>
          match w.after wnear ev with
          | some w' => replayHeld host wnear (ev :: events) sys' w' moves
          | none => none
      | none => none

/-- **A replayed schedule is a run with the account.** -/
theorem replayHeld_held {d : Deployment host} {events events' : List (PoolEvent H)}
    {sys sys' : PoolSystem H} {w w' : WnearAccount H} {moves : List (HeldMove H)}
    (run : d.Held events sys w)
    (h : replayHeld host d.wnearId events sys w moves = some (events', sys', w')) :
    d.Held events' sys' w' := by
  induction moves generalizing events sys w with
  | nil =>
      obtain ⟨rfl, rfl, rfl⟩ := Option.some.inj h
      exact run
  | cons move moves ih =>
      cases move with
      | act move =>
          unfold replayHeld at h
          split at h
          · next w'' hacts => exact ih (run.act move hacts) h
          · cases h
      | run move =>
          unfold replayHeld at h
          split at h
          · next ev sys'' hstep =>
              split at h
              · next w'' hafter => exact ih (run.step (Platform.replayStep_step hstep) hafter) h
              · cases h
          · cases h

/-- Replay a schedule from deployment, with `n` wNEAR on the account. -/
def Deployment.hold (d : Deployment host) (n : ℕ) (moves : List (HeldMove H)) :
    Option (List (PoolEvent H) × PoolSystem H × WnearAccount H) :=
  replayHeld host d.wnearId [] d.genesis ⟨n, [], [], []⟩ moves

/-- The events, the system and the account of a schedule that can be replayed. -/
def Deployment.held (d : Deployment host) (n : ℕ) (moves : List (HeldMove H))
    (h : (d.hold n moves).isSome = true) : List (PoolEvent H) × PoolSystem H × WnearAccount H :=
  (d.hold n moves).get h

/-- They are a run with the account. -/
theorem Deployment.held_run (d : Deployment host) (n : ℕ) (moves : List (HeldMove H))
    (h : (d.hold n moves).isSome = true) :
    d.Held (d.held n moves h).1 (d.held n moves h).2.1 (d.held n moves h).2.2 :=
  replayHeld_held (.deploy n) (Option.some_get h).symm

/-- A run with the account is a run. -/
theorem Deployment.Held.reaches {d : Deployment host} {events : List (PoolEvent H)}
    {sys : PoolSystem H} {w : WnearAccount H} (h : d.Held events sys w) : d.Reaches events sys := by
  induction h with
  | deploy n => exact .start
  | act run move acts ih => exact ih
  | step run step after ih => exact ih.step step

end Runs

/-! ## What the account has left -/

section Free

variable {H : Type} {t : Receipt H} {w w' : WnearAccount H} {wnear : AccountId} {m n : ℕ}

/-- The balance beyond the transfers that are not settled yet, with the calls on
their way.

A call on its way has left the balance, but its chain still accounts for it; so
its amount is added. -/
def WnearAccount.free (w : WnearAccount H) : ℤ :=
  w.balance - w.incoming.sum - w.resolving.sum + (w.calls.map Receipt.wnearCost).sum

/-- What an answer of wNEAR adds at least, whichever way the account went. -/
def Receipt.wnearGain (t : Receipt H) (r : PromiseResult) : ℤ :=
  match t.callAmount, r with
  | some amount, .successful v => (amount - v.u128.getD 0 : ℕ) - t.wnearCost
  | some _, .failed => -max t.wnearCost 0
  | none, .successful _ => -t.wnearCost
  | none, .failed => 0

/-- What an answer of wNEAR adds to the free balance at least. -/
def answerGain (wnear : AccountId) (e : PoolExecution H) : ℤ :=
  match e.verdict with
  | .answered r => if e.task.receiver = wnear then e.task.wnearGain r else 0
  | _ => 0

/-- What an event adds to the free balance, as far as the event tells. -/
def wnearFlow (wnear : AccountId) (ev : PoolEvent H) : ℤ :=
  (transferTaken wnear ev.execution).getD 0 + answerGain wnear ev.execution -
    (takenBackBy wnear (ev.chain.resume ev.execution)).getD 0

/-- An action that goes through costs what it costs. -/
theorem Action.onWnear_eq {a : Action H} (h : a.onWnear n = some m) :
    (m : ℤ) = n - a.wnearCost := by
  have hsame : n = m → (m : ℤ) = n - 0 := by omega
  cases a with
  | call method deposit gas =>
      cases method with
      | nearDeposit =>
          obtain rfl := Option.some.inj h
          simp [Action.wnearCost]
      | nearWithdraw | ftTransfer | ftTransferCall =>
          obtain ⟨hle, rfl⟩ := checkedSub_eq_some.mp h
          simp only [Action.wnearCost]
          omega
      | _ => exact hsame (Option.some.inj h)
  | _ => exact hsame (Option.some.inj h)

/-- A receipt that goes through costs what its actions cost. -/
theorem Receipt.onWnear_eq (h : t.onWnear n = some m) : (m : ℤ) = n - t.wnearCost := by
  unfold Receipt.onWnear at h
  unfold Receipt.wnearCost
  generalize t.actions = actions at h
  induction actions generalizing n with
  | nil =>
      obtain rfl := Option.some.inj h
      simp
  | cons a actions ih =>
      rw [List.foldlM_cons] at h
      obtain ⟨k, hfirst, hrest⟩ := Option.bind_eq_some_iff.mp h
      have hk := Action.onWnear_eq hfirst
      have hm := ih hrest
      rw [List.map_cons, List.sum_cons]
      omega

/-- Of the transfers on the account, one is settled. -/
theorem sum_erase_add {l : List ℕ} (h : n ∈ l) : (l.erase n).sum + n = l.sum := by
  have hsum := (List.perm_cons_erase h).sum_eq
  rw [List.sum_cons] at hsum
  omega

/-- Of the calls on their way, one is done. -/
theorem calls_erase_add [DecidableEq H] {l : List (Receipt H)} (h : t ∈ l) :
    ((l.erase t).map Receipt.wnearCost).sum + t.wnearCost = (l.map Receipt.wnearCost).sum := by
  have hsum := ((List.perm_cons_erase h).map Receipt.wnearCost).sum_eq
  rw [List.map_cons, List.sum_cons] at hsum
  omega

/-- A transfer that is taken over is free. -/
theorem WnearAccount.started_free {e : PoolExecution H} (h : w.started wnear e = some w') :
    w'.free = w.free + (transferTaken wnear e).getD 0 := by
  unfold WnearAccount.started at h
  split at h
  · next amount htaken =>
      split_ifs at h with hmem
      obtain rfl := Option.some.inj h
      have hsum := sum_erase_add hmem
      simp only [WnearAccount.free, htaken, Option.getD_some]
      omega
  · next hnone =>
      obtain rfl := Option.some.inj h
      simp [hnone]

/-- What is about to be taken back is not. -/
theorem WnearAccount.finished_free (c : PoolChain H) :
    (w.finished wnear c).free = w.free - (takenBackBy wnear c).getD 0 := by
  simp only [WnearAccount.free, WnearAccount.finished, List.sum_append]
  cases takenBackBy wnear c with
  | none => simp
  | some n =>
      simp only [Option.toList_some, List.sum_cons, List.sum_nil, Option.getD_some]
      omega

variable [DecidableEq H]

/-- **An answer of wNEAR** adds what it tells, or more. -/
theorem WnearAccount.answeredWith_free {r : PromiseResult} (h : w.answeredWith t r = some w') :
    w.free + t.wnearGain r ≤ w'.free := by
  unfold WnearAccount.answeredWith at h
  unfold Receipt.wnearGain
  split at h
  · next amount v hcall =>
      split at h
      · next used hused =>
          split_ifs at h with hreturned
          obtain rfl := Option.some.inj h
          obtain ⟨hle, hmem⟩ := hreturned
          have hsum := calls_erase_add hmem
          simp only [WnearAccount.free, hused, Option.getD_some]
          omega
      · cases h
  · next hcall =>
      obtain rfl := Option.some.inj h
      simp only [WnearAccount.free]
      -- The amount has left if the call is on its way; otherwise the batch
      -- itself failed.
      by_cases hmem : t ∈ w.calls
      · have hsum := calls_erase_add hmem
        omega
      · rw [List.erase_of_not_mem hmem]
        omega
  · next v hcall =>
      split_ifs at h with hempty
      obtain ⟨n, hsent, rfl⟩ := Option.map_eq_some_iff.mp h
      have hn := Receipt.onWnear_eq hsent
      simp only [WnearAccount.free]
      omega
  · obtain rfl := Option.some.inj h
    simp

/-- An execution adds what its answer tells, or more. -/
theorem WnearAccount.answered_free {e : PoolExecution H} (h : w.answered wnear e = some w') :
    w.free + answerGain wnear e ≤ w'.free := by
  unfold WnearAccount.answered at h
  unfold answerGain
  cases hverdict : e.verdict with
  | answered r =>
      simp only [hverdict] at h
      split_ifs at h ⊢ with hreceiver
      · exact answeredWith_free h
      · obtain rfl := Option.some.inj h
        rw [add_zero]
  | committed | panicked =>
      simp only [hverdict] at h
      obtain rfl := Option.some.inj h
      rw [add_zero]

/-- **The free balance after an event.** -/
theorem WnearAccount.after_free {ev : PoolEvent H} (h : w.after wnear ev = some w') :
    w.free + wnearFlow wnear ev ≤ w'.free := by
  obtain ⟨w₂, hbind, rfl⟩ := Option.map_eq_some_iff.mp h
  obtain ⟨w₁, hstarted, hanswered⟩ := Option.bind_eq_some_iff.mp hbind
  have hfirst := started_free hstarted
  have hsecond := answered_free hanswered
  rw [finished_free]
  unfold wnearFlow
  omega

/-- What happens between the events never lowers the free balance. -/
theorem WnearAccount.act_free {sys : PoolSystem H} {move : WnearMove H}
    (h : w.act wnear sys move = some w') : w.free ≤ w'.free := by
  cases move with
  | credit n =>
      obtain rfl := Option.some.inj h
      simp only [WnearAccount.free]
      omega
  | receive n =>
      obtain rfl := Option.some.inj h
      simp only [WnearAccount.free, List.sum_cons]
      omega
  | reject n =>
      simp only [WnearAccount.act] at h
      split_ifs at h with hmem
      obtain rfl := Option.some.inj h
      have hsum := sum_erase_add hmem
      simp only [WnearAccount.free, List.sum_cons]
      omega
  | resolve n =>
      simp only [WnearAccount.act] at h
      split_ifs at h with hmem
      obtain rfl := Option.some.inj h
      have hsum := sum_erase_add hmem
      simp only [WnearAccount.free]
      omega
  | call t =>
      simp only [WnearAccount.act] at h
      split_ifs at h with hwaiting
      obtain ⟨n, hsent, rfl⟩ := Option.map_eq_some_iff.mp h
      have hn := Receipt.onWnear_eq hsent
      simp only [WnearAccount.free, List.map_cons, List.sum_cons]
      omega

end Free

section Reaches

variable {H : Type} [DecidableEq H] {host : Host H} {d : Deployment host}
  {events : List (PoolEvent H)} {sys : PoolSystem H} {w : WnearAccount H}

/-- **The free balance of a run** is at least what its events tell.

By induction over the run; what happens on wNEAR in between never lowers it. -/
theorem Deployment.Held.flow_le (h : d.Held events sys w) :
    (events.map (wnearFlow d.wnearId)).sum ≤ w.free := by
  induction h with
  | deploy n => simp [WnearAccount.free]
  | act run move acts ih => exact ih.trans (WnearAccount.act_free acts)
  | step run step after ih =>
      have hfree := WnearAccount.after_free after
      rw [List.map_cons, List.sum_cons]
      omega

/-! ## The calls on their way -/

/-- The calls on their way are transfer calls on wNEAR that chains wait for. -/
structure CallsWait (wnear : AccountId) (sys : PoolSystem H) (w : WnearAccount H) : Prop where
  /-- They are transfer calls. -/
  isCall : ∀ t ∈ w.calls, t.receiver = wnear ∧ t.callAmount.isSome
  /-- Equal calls are waited for by as many chains. -/
  waiting : ∀ t, w.calls.count t ≤ sys.chains.countP (waitsFor t)

/-- An answer takes its call off those on their way. -/
theorem WnearAccount.answeredWith_calls {w' : WnearAccount H} {t : Receipt H} {r : PromiseResult}
    (h : w.answeredWith t r = some w') :
    w'.calls = if t.callAmount.isSome then w.calls.erase t else w.calls := by
  unfold WnearAccount.answeredWith at h
  split at h
  · next amount v hcall =>
      split at h
      · split_ifs at h
        obtain rfl := Option.some.inj h
        simp [hcall]
      · cases h
  · next hcall =>
      obtain rfl := Option.some.inj h
      simp [hcall]
  · next v hcall =>
      split_ifs at h
      obtain ⟨n, -, rfl⟩ := Option.map_eq_some_iff.mp h
      simp [hcall]
  · next hcall =>
      obtain rfl := Option.some.inj h
      simp [hcall]

/-- An event takes a call off those on their way when it is the answer to it. -/
theorem WnearAccount.after_calls {wnear : AccountId} {w' : WnearAccount H} {ev : PoolEvent H}
    (h : w.after wnear ev = some w') :
    w'.calls.Sublist w.calls ∧ ∀ r, ev.execution.verdict = .answered r →
      ev.execution.task.receiver = wnear → ev.execution.task.callAmount.isSome →
        w'.calls = w.calls.erase ev.execution.task := by
  obtain ⟨w₂, hbind, rfl⟩ := Option.map_eq_some_iff.mp h
  obtain ⟨w₁, hstarted, hanswered⟩ := Option.bind_eq_some_iff.mp hbind
  have hfirst : w₁.calls = w.calls := by
    unfold WnearAccount.started at hstarted
    split at hstarted
    · split_ifs at hstarted
      obtain rfl := Option.some.inj hstarted
      rfl
    · obtain rfl := Option.some.inj hstarted
      rfl
  show w₂.calls.Sublist w.calls ∧ ∀ r, _ → _ → _ → w₂.calls = _
  rw [← hfirst]
  unfold WnearAccount.answered at hanswered
  cases hverdict : ev.execution.verdict with
  | answered r =>
      simp only [hverdict] at hanswered
      split_ifs at hanswered with hreceiver
      · rw [answeredWith_calls hanswered]
        refine ⟨?_, fun _ _ _ hcall => if_pos hcall⟩
        split_ifs
        · exact List.erase_sublist
        · exact List.Sublist.refl _
      · obtain rfl := Option.some.inj hanswered
        exact ⟨List.Sublist.refl _, fun _ _ h => absurd h hreceiver⟩
  | committed | panicked =>
      simp only [hverdict] at hanswered
      obtain rfl := Option.some.inj hanswered
      exact ⟨List.Sublist.refl _, fun r h => by cases h⟩

/-- **The calls on their way** are waited for, each by a chain of its own. -/
theorem Deployment.Held.callsWait (h : d.Held events sys w) : CallsWait d.wnearId sys w := by
  induction h with
  | deploy n => exact ⟨by simp, by simp⟩
  | @act events sys w w' run move acts ih =>
      have hkept : w'.calls = w.calls → CallsWait d.wnearId sys w' := by
        intro heq
        exact ⟨heq ▸ ih.isCall, heq ▸ ih.waiting⟩
      cases move with
      | credit | receive =>
          obtain rfl := Option.some.inj acts
          exact hkept rfl
      | reject | resolve =>
          simp only [WnearAccount.act] at acts
          split_ifs at acts
          obtain rfl := Option.some.inj acts
          exact hkept rfl
      | call t =>
          simp only [WnearAccount.act] at acts
          split_ifs at acts with hwaiting
          obtain ⟨n, -, rfl⟩ := Option.map_eq_some_iff.mp acts
          obtain ⟨hreceiver, hcall, hlt⟩ := hwaiting
          refine ⟨?_, fun t' => ?_⟩
          · intro t' hmem
            rcases List.mem_cons.mp hmem with rfl | hold
            · exact ⟨hreceiver, hcall⟩
            · exact ih.isCall t' hold
          · have hle := ih.waiting t'
            rw [List.count_cons]
            split_ifs with heq
            · obtain rfl := beq_iff_eq.mp heq
              omega
            · omega
  | @step events sys sys' w w' ev run step after ih =>
      obtain ⟨hsublist, hanswered⟩ := WnearAccount.after_calls after
      refine ⟨fun t hmem => ih.isCall t (hsublist.subset hmem), fun t => ?_⟩
      have hle := ih.waiting t
      have hchains := step.countP_le (waitsFor t)
      have hcount := hsublist.count_le t
      split_ifs at hchains with hhead
      · obtain ⟨rest, htasks⟩ := step.fires.tasks_eq
        have htask : ev.execution.task = t := by simpa [waitsFor, htasks] using hhead
        by_cases hmem : t ∈ w.calls
        · -- The chain that waited for the call has its answer.
          obtain ⟨hreceiver, hcall⟩ := ih.isCall t hmem
          have hlegal := step.fires.legal
          cases hverdict : ev.execution.verdict with
          | answered r =>
              rw [hanswered r hverdict (htask ▸ hreceiver) (htask ▸ hcall), htask,
                List.count_erase_self]
              omega
          | committed ret detached | panicked =>
              simp only [Platform.Legal, hverdict] at hlegal
              have hlocal := hlegal.1
              rw [htask] at hlocal
              simp [platform, hreceiver, d.wnear_ne] at hlocal
        · rw [List.count_eq_zero_of_not_mem hmem] at hcount
          omega
      · omega

/-- What the next receipt of a chain takes off the account. -/
def headCost (c : PoolChain H) : ℤ := c.tasks.head?.elim 0 fun t => max t.wnearCost 0

/-- **What the calls have taken**, the chains that wait for them account for. -/
theorem CallsWait.sum_le {wnear : AccountId} (h : CallsWait wnear sys w) :
    (w.calls.map Receipt.wnearCost).sum ≤ (sys.chains.map headCost).sum := by
  -- Different calls wait in different chains, so they are among the heads of
  -- the chains.
  have hheads : w.calls.Subperm (sys.chains.filterMap fun c => c.tasks.head?) := by
    refine List.subperm_ext_iff.mpr fun t _ => ?_
    rw [List.count_filterMap]
    exact h.waiting t
  obtain ⟨l, hperm, hsublist⟩ := hheads
  have hchains : ∀ l : List (PoolChain H), ((l.filterMap fun c => c.tasks.head?).map
      fun t => max t.wnearCost 0).sum = (l.map headCost).sum := by
    intro l
    induction l with
    | nil => rfl
    | cons c l ih =>
        rw [List.map_cons, List.sum_cons, ← ih, List.filterMap_cons]
        unfold headCost
        cases c.tasks.head? with
        | none => simp
        | some t => simp
  calc (w.calls.map Receipt.wnearCost).sum
      ≤ (w.calls.map fun t => max t.wnearCost 0).sum :=
        List.sum_le_sum fun t _ => le_max_left t.wnearCost 0
    _ = (l.map fun t => max t.wnearCost 0).sum := ((hperm.map _).sum_eq).symm
    _ ≤ ((sys.chains.filterMap fun c => c.tasks.head?).map fun t => max t.wnearCost 0).sum := by
        refine (hsublist.map _).sum_le_sum fun n hn => ?_
        obtain ⟨t, -, rfl⟩ := List.mem_map.mp hn
        exact le_max_right t.wnearCost 0
    _ = (sys.chains.map headCost).sum := hchains sys.chains

end Reaches

end LiquidStaking
