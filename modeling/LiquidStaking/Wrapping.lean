import LiquidStaking.Registration

/-!
# Retries of a wNEAR delivery

A wNEAR delivery wraps NEAR, pays a registration if the message asks for one,
and transfers the wNEAR.  What the receiver gives back stays with the contract
as wNEAR: the residual of the tranche, which the next attempt sends without
wrapping it again.

The amounts are read off the receipts: the deposits of the batch on wNEAR, and
the amount its settlement reads from the result.  Under the hash of a wNEAR
message `Deployment.wrapped_once` says

* what was wrapped was consumed or is a residual,
* what was wrapped or paid for registrations was unstaked and is in no tranche
  any more, beyond the residuals,
* between two full deliveries at most one registration is paid.

The last one is about the flag of a tranche, which merges pass on: `Flagged`
says where in a vector a tranche with a paid registration can be.
-/

namespace LiquidStaking

open Checked PromiseChain

section Definitions

variable {H : Type} [DecidableEq H]

/-- The NEAR an action wraps. -/
def Action.wraps : Action H → ℕ
  | .call .nearDeposit deposit _ => deposit
  | _ => 0

/-- The NEAR an action pays for a registration. -/
def Action.registers : Action H → ℕ
  | .call (.storageDeposit _ _) deposit _ => deposit
  | _ => 0

/-- What the last receipt of the chain spent, as `f` counts its actions. -/
def spentBy (f : Action H → ℕ) (c : PoolChain H) : ℕ :=
  match c.trace.head? with
  | some e => (e.task.actions.map f).sum
  | none => 0

/-- A wNEAR delivery settled as delivered. -/
structure Settlement (H : Type) where
  hash : H
  amountToSend : ℕ
  consumed : ℕ

/-- The delivery an event settles as delivered.

What was consumed is read off the result by the code's own function, and a
delivery that is to be repeated settles nothing. -/
def settledWnear (ev : PoolEvent H) : Option (Settlement H) :=
  match ev.execution.verdict, ev.execution.task.actions with
  | .committed _ _, [.call (.onWithdrawWnear hash amountToSend _ _ isCall) deposit _] =>
      match LiquidStakingToken.consumedAmount
        (ev.execution.context.forCall deposit ev.execution.input) amountToSend isCall with
      | .ok (some consumed) => some ⟨hash, amountToSend, consumed⟩
      | _ => none
  | _, _ => none

/-- An amount of the deliveries settled under `hash`. -/
def settledUnder (hash : H) (f : Settlement H → ℕ) (ev : PoolEvent H) : ℕ :=
  match settledWnear ev with
  | some d => if d.hash = hash then f d else 0
  | none => 0

/-- The NEAR wrapped for a delivery that was settled. -/
def wrappedUnder (hash : H) (ev : PoolEvent H) : ℕ :=
  settledUnder hash (fun _ => spentBy Action.wraps ev.chain) ev

/-- The NEAR paid for the registration with a delivery that was settled. -/
def registeredUnder (hash : H) (ev : PoolEvent H) : ℕ :=
  settledUnder hash (fun _ => spentBy Action.registers ev.chain) ev

/-- The wNEAR consumed of a delivery that was settled. -/
def consumedUnder (hash : H) (ev : PoolEvent H) : ℕ := settledUnder hash Settlement.consumed ev

/-- What a settled delivery swept that none before it had wrapped. -/
def firstSweptUnder (host : Host H) (hash : H) (ev : PoolEvent H) : ℕ :=
  settledUnder hash (fun _ =>
    ((lockedBy host ev.chain).map fun t => t.withdrawalAmount - t.wnearResidual).getD 0) ev

/-- The event settles a delivery under `hash` in full. -/
def deliversAll (hash : H) (ev : PoolEvent H) : Bool :=
  match settledWnear ev with
  | some d => decide (d.hash = hash) && decide (d.consumed = d.amountToSend)
  | none => false

/-- Registrations paid with the event. -/
def registrations (hash : H) (ev : PoolEvent H) : ℕ := if 0 < registeredUnder hash ev then 1 else 0

/-- Registrations paid since the last full delivery, newest event first.

It is defined by recursion on the events, with a full delivery starting over. -/
def openRegistrations (hash : H) : List (PoolEvent H) → ℕ
  | [] => 0
  | ev :: older => if deliversAll hash ev then 0 else registrations hash ev +
      openRegistrations hash older

/-- The wNEAR that is left of earlier deliveries. -/
def residualUnder (hash : H) (q : WithdrawalRequests H) : ℕ :=
  Tranches.sum Tranche.wnearResidual (WithdrawalRequests.tranchesAt q hash)

/-- What is queued and was in no settled delivery. -/
def unsweptUnder (hash : H) (q : WithdrawalRequests H) : ℕ :=
  Tranches.sum (fun t => t.withdrawalAmount - t.wnearResidual)
    (WithdrawalRequests.tranchesAt q hash)

/-- A tranche that an attempt for `args` can deliver. -/
structure Retryable (host : Host H) (args : UnstakeMessage) (t : Tranche) : Prop where
  /-- The wNEAR kept of it fits its amount. -/
  residual_le : t.wnearResidual ≤ t.withdrawalAmount
  /-- If wNEAR is kept of it, an attempt has paid for the registration that the
  message asks for. -/
  paid : (⟨args, t⟩ : Attempt).asksStorage = true → 0 < t.wnearResidual → t.storageWasPaid = true
  /-- A delivery to the pool itself has no transfer, so nothing comes back. -/
  self : args.receiverId = host.currentAccountId → t.wnearResidual = 0

/-- The messages that do not share their hash with `args`, and `args`. -/
def distinctFrom (host : Host H) (args : UnstakeMessage) : Set UnstakeMessage :=
  {other | host.hash other = host.hash args → other = args}

end Definitions

/-! ## Deliveries in the receipts -/

section Receipts

variable {H : Type} [DecidableEq H] {host : Host H} {wnear : AccountId} {c : PoolChain H}
  {e : PoolExecution H} {a : Attempt} {r : PromiseResult} {hash : H}

/-- The settlement reads off the result what was consumed. -/
theorem Delivery.consumedAmount_eq {n : ℕ} {isCall : Bool} {x : Option ℕ}
    (h : Delivery n isCall r x) (env : Env) (deposit : ℕ) :
    LiquidStakingToken.consumedAmount (env.forCall deposit (some r)) n isCall = .ok x := by
  unfold LiquidStakingToken.consumedAmount Env.promiseResultChecked
  cases h with
  | sent v plain short => simp [Env.forCall, plain, short]
  | reported v used call short parsed => simp [Env.forCall, call, short, parsed]
  | writtenOff call => simp [Env.forCall, call]
  | returned plain => simp [Env.forCall, plain]

/-- The settlement of a delivery in flight. -/
theorem Describes.settledWnear_eq {x : Option ℕ} {ret : Return H} {side : List (Receipt H)}
    (hnow : Describes host wnear c (.deliveredWnear a r))
    (htasks : ∃ rest, c.tasks = e.task :: rest)
    (hinput : e.input = c.input) (hverdict : e.verdict = .committed ret side)
    (hdelivery : Delivery a.amountToSend (a.isCall host) r x) :
    settledWnear ⟨c, e⟩ = x.map fun consumed => ⟨a.hash host, a.amountToSend, consumed⟩ := by
  obtain ⟨rest, htasks⟩ := htasks
  obtain ⟨htask, -⟩ := List.cons.inj (htasks.symm.trans hnow.tasks_eq)
  have hread : e.input = some r := hinput.trans hnow.input_eq
  have hconsumed := hdelivery.consumedAmount_eq e.context 0
  simp only [settledWnear, hverdict, htask, hread, LiquidStakingToken.onWithdrawWnearCall,
    Receipt.call, hconsumed]
  cases x <;> rfl

/-- A receipt that settles nothing settles no wNEAR delivery. -/
theorem settledWnear_of_settles (h : ∀ hash, e.task.settles hash = false) :
    settledWnear ⟨c, e⟩ = none := by
  unfold settledWnear
  split
  · next ret detached h' n cost storage isCall deposit gas hverdict hactions =>
      have hsettles := h h'
      unfold Receipt.settles at hsettles
      rw [hactions] at hsettles
      simp at hsettles
  · rfl

/-- The settlement of a native payment settles no wNEAR delivery. -/
theorem Describes.settledWnear_native (hnow : Describes host wnear c (.deliveredNative a r))
    (htasks : ∃ rest, c.tasks = e.task :: rest) : settledWnear ⟨c, e⟩ = none := by
  obtain ⟨rest, htasks⟩ := htasks
  obtain ⟨htask, -⟩ := List.cons.inj (htasks.symm.trans hnow.tasks_eq)
  unfold settledWnear
  rw [htask]
  cases e.verdict <;> rfl

/-- A chain that delivers nothing settles nothing. -/
theorem Describes.task_settles {p : Phase H} (hnow : Describes host wnear c p)
    (htasks : ∃ rest, c.tasks = e.task :: rest) (hp : p.attempt = none) (k : H) :
    e.task.settles k = false := by
  obtain ⟨rest, htasks⟩ := htasks
  have hany := p.any_settles host wnear k
  rw [hp, ← hnow.tasks_eq, htasks, List.any_cons, Bool.or_eq_false_iff] at hany
  exact hany.1

/-- Nor does a call from outside. -/
theorem Entry.task_settles {m : Method H} {p : Phase H} {side : List (Receipt H)}
    {deposit gas : ℕ} (h : Entry host e.context e.before m e.after p side)
    (htask : e.task.actions = [.call m deposit gas]) (k : H) : e.task.settles k = false := by
  unfold Receipt.settles
  rw [htask]
  generalize e.before = s, e.after = s' at h
  cases h <;> rfl

/-- A receipt that settles nothing delivers nothing. -/
theorem deliveredUnder_of_settles {ev : PoolEvent H}
    (h : ev.execution.task.settles hash = false) : deliveredUnder hash ev = 0 := by
  unfold deliveredUnder Receipt.delivered
  unfold Receipt.settles at h
  split
  · split
    · next hactions _ =>
        rw [hactions] at h
        exact if_neg fun hmatch => of_decide_eq_false h hmatch.1
    · next hactions _ =>
        rw [hactions] at h
        exact if_neg (of_decide_eq_false h)
    · rfl
  · rfl

omit [DecidableEq H] in
/-- What the batch of an attempt wraps, and what it pays for a registration. -/
theorem Attempt.batch_spends (wnear : AccountId) (hfits : a.Fits host) :
    ((a.batch host wnear).actions.map Action.wraps).sum = a.amountToNearDeposit ∧
      ((a.batch host wnear).actions.map Action.registers).sum = a.storageToPay := by
  have hself : a.isSelf host = true → a.storageToPay = 0 := fun hself => by
    unfold Attempt.storageToPay
    rw [hfits.self_storage hself]
    simp
  unfold Attempt.batch LiquidStakingToken.deliveryActions
  simp only [List.map_append, List.sum_append]
  constructor
  · have hpay : ∀ b : Prop, [Decidable b] → (((if b then [Action.call (.storageDeposit
        (some a.args.receiverId) none) a.storageToPay storageDepositGas] else [] :
          List (Action H))).map Action.wraps).sum = 0 := fun b _ => by split_ifs <;> rfl
    rw [hpay]
    by_cases hwrap : 0 < a.amountToNearDeposit
    · rw [if_pos hwrap]
      cases a.isSelf host <;> cases a.msg <;> rfl
    · rw [if_neg hwrap, Nat.eq_zero_of_not_pos hwrap]
      cases a.isSelf host <;> cases a.msg <;> rfl
  · have hwrap : ∀ b : Prop, [Decidable b] → (((if b then [Action.call .nearDeposit
        a.amountToNearDeposit nearDepositGas] else [] : List (Action H))).map
          Action.registers).sum = 0 := fun b _ => by split_ifs <;> rfl
    rw [hwrap]
    by_cases hpay : 0 < a.storageToPay ∧ a.isSelf host = false
    · rw [if_pos hpay, hpay.2]
      cases a.msg <;> simp [Action.registers]
    · have hnone : a.storageToPay = 0 := by
        cases hs : a.isSelf host with
        | true => exact hself hs
        | false => exact Nat.eq_zero_of_not_pos fun hpos => hpay ⟨hpos, hs⟩
      rw [if_neg hpay, hnone]
      cases a.isSelf host <;> cases a.msg <;> rfl

end Receipts

/-! ## The tranches of one message -/

section Retryable

variable {H : Type} [DecidableEq H] {host : Host H} {args : UnstakeMessage}

omit [DecidableEq H] in
/-- Merges and appends keep it so. -/
theorem retryable_closed (host : Host H) (args : UnstakeMessage) :
    Tranches.Closed (Retryable host args) where
  zero := ⟨le_rfl, fun _ h => absurd h (lt_irrefl 0), fun _ => rfl⟩
  new _ _ := ⟨Nat.zero_le _, fun _ h => absurd h (lt_irrefl 0), fun _ => rfl⟩
  merge {t t'} ht ht' := by
    refine ⟨Nat.add_le_add ht.residual_le ht'.residual_le, fun hasks hpos => ?_, fun hself => ?_⟩
    · -- One of the two residuals is positive, and the merge passes on its flag.
      rcases Nat.eq_zero_or_pos t.wnearResidual with hnone | hfirst
      · have hsecond : 0 < t'.wnearResidual := by
          have hsum : 0 < t.wnearResidual + t'.wnearResidual := hpos
          omega
        show (t.storageWasPaid || t'.storageWasPaid) = true
        rw [ht'.paid hasks hsecond, Bool.or_true]
      · show (t.storageWasPaid || t'.storageWasPaid) = true
        rw [ht.paid hasks hfirst, Bool.true_or]
    · show t.wnearResidual + t'.wnearResidual = 0
      rw [ht.self hself, ht'.self hself]
  grow n ht := ⟨ht.residual_le.trans (Nat.le_add_right _ n), ht.paid, ht.self⟩

/-- What comes back of an attempt can be sent again. -/
theorem Retryable.left {s : LiquidStakingToken H} {a : Attempt} {r : PromiseResult}
    {consumed delivered : ℕ} {t : Tranche} (hqueue : QueueSound s) (hfits : a.Fits host)
    (hown : WithdrawalRequests.locksAt s.withdrawalRequests (a.hash host) = [a.tranche])
    (hlocked : WithdrawalRequests.lockedTranche s.withdrawalRequests (a.hash host) = .ok t)
    (hdelivery : Delivery a.amountToSend (a.isCall host) r (some consumed))
    (hdelivered : delivered = NearToken.satAdd consumed a.storageToPay) :
    Retryable host a.args { t with
      withdrawalAmount := t.withdrawalAmount - delivered
      wnearResidual := a.amountToSend - consumed
      storageWasPaid := t.storageWasPaid || decide (0 < a.storageToPay) } where
  residual_le := (hqueue.left_eq hfits hown hlocked hdelivery hdelivered).ge
  paid hasks _ := by
    obtain ⟨rfl, -⟩ := hqueue.own_tranche hown hlocked
    show (a.tranche.storageWasPaid || decide (0 < a.storageToPay)) = true
    cases hpaid : a.tranche.storageWasPaid with
    | true => rfl
    | false =>
        have hpays : a.storageToPay = ftStorageDeposit := by
          have hasks' : a.asksStorage = true := hasks
          simp [Attempt.storageToPay, hpaid, hasks']
        rw [hpays]
        decide
  self hself := by
    have hplain : a.isCall host = false := by simp [Attempt.isCall, Attempt.isSelf, hself]
    generalize hx : some consumed = x at hdelivery
    cases hdelivery with
    | sent v plain short =>
        obtain rfl := Option.some.inj hx
        exact Nat.sub_self _
    | reported v used call | writtenOff call =>
        rw [hplain] at call
        cases call
    | returned => cases hx

end Retryable

section Reaches

variable {H : Type} [DecidableEq H] {host : Host H} {d : Deployment host}
  {events : List (PoolEvent H)} {sys : PoolSystem H} {c : PoolChain H} {e : PoolExecution H}
  {args : UnstakeMessage}

/-- **Every tranche of the message can be delivered.** -/
theorem Deployment.retryable (run : d.Reaches events sys)
    (hgood : ∀ ev ∈ events, Orderly (distinctFrom host args) ev) :
    WithdrawalRequests.AllAt (fun hash t => hash = host.hash args → Retryable host args t)
      sys.state.withdrawalRequests := by
  have hclosed : ∀ hash : H, Tranches.Closed fun t => hash = host.hash args →
      Retryable host args t := fun hash => by
    have hbase := retryable_closed host args
    exact ⟨fun _ => hbase.zero, fun n e _ => hbase.new n e,
      fun ha hb heq => hbase.merge (ha heq) (hb heq), fun n ht heq => hbase.grow n (ht heq)⟩
  refine run.forall_state (I := fun s => WithdrawalRequests.AllAt (fun hash t =>
    hash = host.hash args → Retryable host args t) s.withdrawalRequests) ?_
    (fun turn ih => ?_) hgood
  · show WithdrawalRequests.AllAt _ d.state.withdrawalRequests
    rw [d.initial.queue_eq]
    exact WithdrawalRequests.allAt_empty
  · have hbefore := turn.fires.before_eq
    have hforce := fun ev hev => (turn.good ev hev).unforced
    cases d.transition turn with
    | entered m p side deposit gas fresh task_eq deposit_eq external entry =>
        exact entry.allAt hclosed ih
    | advanced p p' side now self advance =>
        refine advance.allAt hclosed ?_ ih
        rintro a r consumed delivered t rfl delivery locked delivered_eq hhash
        have hmem := now.mem turn.origin
        have hargs : a.args = args := d.attempt_mem turn.run turn.good hmem now rfl hhash
        exact hargs ▸ Retryable.left (hbefore ▸ d.queueSound turn.run) now.valid.2
          (hbefore ▸ d.locksAt_eq turn.run hforce hmem now rfl) locked delivery delivered_eq
    | panicked p now here self verdict same => exact same ▸ ih
    | answered p r now away verdict same => exact same ▸ ih

/-- The delivery whose settlement runs next has sent its batch. -/
theorem Deployment.batch_sent (run : d.Reaches events sys) :
    ∀ c ∈ sys.chains, ∀ p, Describes host d.wnearId c p → ∀ a r, p = .deliveredWnear a r →
      ∀ f : Action H → ℕ, spentBy f c = ((a.batch host d.wnearId).actions.map f).sum := by
  refine d.forall_phase (K := fun c p => ∀ a r, p = .deliveredWnear a r → ∀ f : Action H → ℕ,
    spentBy f c = ((a.batch host d.wnearId).actions.map f).sum)
    (fun _ _ _ _ _ _ h => (nomatch h)) ?_ ?_ ?_ ?_ run fun _ _ => trivial
  · intro events s c e s₀ s₁ m p side turn fresh task before after entry a r hp
    cases entry <;> cases hp
  · intro events s c e s₀ s₁ p p' side turn now _ verdict before after advance a r hp
    cases advance with
    | @rolledBack m r' => cases hdeposit : m.depositToken <;> rw [hdeposit] at hp <;> cases hp
    | _ => cases hp
  · intro events s c e p turn now _ here verdict a r hp
    cases p with
    | deliveringWnear => cases here
    | _ => cases hp
  · intro events s c e p r' turn now _ away verdict a r hp f
    cases p with
    | deliveringWnear a' =>
        cases hp
        obtain ⟨rest, htasks⟩ := turn.fires.tasks_eq
        obtain ⟨htask, -⟩ := List.cons.inj (htasks.symm.trans now.tasks_eq)
        simp only [spentBy, Chain.resume_trace, List.head?_cons, htask]
    | _ => cases hp

end Reaches

/-! ## The amounts -/

section Amounts

variable {H : Type} [DecidableEq H] {host : Host H} {d : Deployment host} {env : Env}
  {events : List (PoolEvent H)} {sys : PoolSystem H} {s s' : LiquidStakingToken H}
  {args : UnstakeMessage} {hash : H}

/-- What is left of a delivery replaces what was left before it. -/
theorem residualUnder_settled {a : Attempt} {q : WithdrawalRequests H} {t : Tranche}
    {consumed delivered : ℕ} (hown : WithdrawalRequests.locksAt s.withdrawalRequests
      (a.hash host) = [t])
    (hleft : t.withdrawalAmount - delivered = a.amountToSend - consumed)
    (hq : q = if t.withdrawalAmount - delivered = 0 then
        WithdrawalRequests.removeRequest s.withdrawalRequests (a.hash host)
      else WithdrawalRequests.writeLockedTranche s.withdrawalRequests (a.hash host)
        { t with
          withdrawalAmount := t.withdrawalAmount - delivered
          wnearResidual := a.amountToSend - consumed
          storageWasPaid := t.storageWasPaid || decide (0 < a.storageToPay) }) :
    residualUnder (a.hash host) (WithdrawalRequests.releaseLock q (a.hash host)).1 +
        t.wnearResidual =
      residualUnder (a.hash host) s.withdrawalRequests + (a.amountToSend - consumed) := by
  have heffect : WithdrawalRequests.Effect Tranche.wnearResidual s.withdrawalRequests
      (WithdrawalRequests.releaseLock q (a.hash host)).1 (a.hash host) []
      (a.amountToSend - consumed) 0 := by
    subst hq
    split_ifs with hzero
    · rw [← hleft, hzero]
      exact WithdrawalRequests.settled_effect _ _
    · exact WithdrawalRequests.shrunk_effect _ hown
  have hsum := heffect.sum_eq
  rw [hown] at hsum
  simpa [residualUnder] using hsum

/-- The other callbacks settle no delivery. -/
theorem Advance.attempt_eq_none {p p' : Phase H} {side : List (Receipt H)}
    (h : Advance host env s p s' p' side) (hp : p.queues = false) : p.attempt = none := by
  cases h <;> first | rfl | cases hp

/-- **What a callback does to the residuals** under a hash no native message
has. -/
theorem Advance.residualUnder_eq {p p' : Phase H} {side : List (Receipt H)}
    (h : Advance host env s p s' p' side) (hvalid : p.Valid host) (hqueue : QueueSound s)
    (hlocked : ∀ a, p.attempt = some a →
      WithdrawalRequests.locksAt s.withdrawalRequests (a.hash host) = [a.tranche])
    (hcover : WithdrawalRequests.AllAt (fun _ t => t.wnearResidual ≤ t.withdrawalAmount)
      s.withdrawalRequests) (hnative : ∀ a r, p = .deliveredNative a r → a.hash host ≠ hash) :
    (∃ a r consumed, p = .deliveredWnear a r ∧ a.hash host = hash ∧
        Delivery a.amountToSend (a.isCall host) r (some consumed) ∧
        residualUnder hash s'.withdrawalRequests + a.tranche.wnearResidual =
          residualUnder hash s.withdrawalRequests + (a.amountToSend - consumed)) ∨
      residualUnder hash s'.withdrawalRequests = residualUnder hash s.withdrawalRequests ∧
        ∀ a r, p = .deliveredWnear a r → ∃ x, Delivery a.amountToSend (a.isCall host) r x ∧
          (x = none ∨ a.hash host ≠ hash) := by
  have hsame : p.queues = false → residualUnder hash s'.withdrawalRequests =
      residualUnder hash s.withdrawalRequests ∧ ∀ a r, p = .deliveredWnear a r →
        ∃ x, Delivery a.amountToSend (a.isCall host) r x ∧ (x = none ∨ a.hash host ≠ hash) := by
    intro hp
    refine ⟨by rw [h.queue_eq hp], ?_⟩
    rintro a r rfl
    cases hp
  -- A released tranche goes back to the vector as it was.
  have hreleased : ∀ k, residualUnder hash
      (WithdrawalRequests.releaseLock s.withdrawalRequests k).1 =
        residualUnder hash s.withdrawalRequests := by
    intro k
    obtain ⟨gain, heffect, rfl⟩ := hqueue.oneLock.released_effect (f := Tranche.wnearResidual) k
    simpa [residualUnder] using heffect.sum_at hash
  cases h with
  | @queued u k r ok q appended room =>
      have heffect := WithdrawalRequests.appendRequest_effect Tranches.additive_wnearResidual
        (fun t mem hzero => ?_) appended
      · refine .inr ⟨?_, by simp⟩
        simpa [residualUnder, Tranche.new] using heffect.sum_at hash
      · -- A tranche that is worth nothing has no residual either, so a collapse
        -- that drops it drops nothing.
        have hle := (Tranches.forall_iff (p := fun t => t.wnearResidual ≤ t.withdrawalAmount)
          |>.mp (hcover u.hash)).1 t mem
        omega
  | undone => exact .inr ⟨rfl, by simp⟩
  | @paidNative a r ok t locked =>
      refine .inr ⟨?_, by simp⟩
      have heffect := WithdrawalRequests.settled_effect (f := Tranche.wnearResidual)
        s.withdrawalRequests (a.hash host)
      simpa [residualUnder, hnative a r rfl] using heffect.sum_at hash
  | unpaidNative => exact .inr ⟨hreleased _, by simp⟩
  | @unpaidWnear a r delivery =>
      refine .inr ⟨hreleased _, fun a' r' heq => ?_⟩
      obtain ⟨rfl, rfl⟩ := Phase.deliveredWnear.inj heq
      exact ⟨none, delivery, .inl rfl⟩
  | @paidWnear a r consumed delivery t locked delivered delivered_eq claimed q q_eq =>
      by_cases hhash : a.hash host = hash
      · have hown := hlocked a rfl
        obtain ⟨rfl, -⟩ := hqueue.own_tranche hown locked
        have hleft := hqueue.left_eq hvalid.2 hown locked delivery delivered_eq
        refine .inl ⟨a, r, consumed, rfl, hhash, delivery, ?_⟩
        exact hhash ▸ residualUnder_settled hown hleft q_eq
      · refine .inr ⟨?_, fun a' r' heq => ?_⟩
        · -- The settlement of another hash.
          have hrest : ∀ q₁, (∃ ts, WithdrawalRequests.Replaces s.withdrawalRequests
              (a.hash host) ts q₁) → WithdrawalRequests.tranchesAt
                (WithdrawalRequests.releaseLock q₁ (a.hash host)).1 hash =
                  WithdrawalRequests.tranchesAt s.withdrawalRequests hash := by
            rintro q₁ ⟨ts, hrep⟩
            rw [(WithdrawalRequests.releaseLock_replaces q₁ _).others hash (Ne.symm hhash),
              hrep.others hash (Ne.symm hhash)]
          show Tranches.sum _ (WithdrawalRequests.tranchesAt
            (WithdrawalRequests.releaseLock q (a.hash host)).1 hash) = _
          rw [hrest q]
          · rfl
          · subst q_eq
            split_ifs
            · exact ⟨_, WithdrawalRequests.removeRequest_replaces _ _⟩
            · exact ⟨_, WithdrawalRequests.writeLockedTranche_replaces _ _ _⟩
        · obtain ⟨rfl, rfl⟩ := Phase.deliveredWnear.inj heq
          exact ⟨some consumed, delivery, .inr hhash⟩
  | _ => exact .inr (hsame rfl)

/-- The amounts of the delivery an event settles. -/
structure Settles (host : Host H) (a : Attempt) (consumed : ℕ) (k : H) (ev : PoolEvent H) :
    Prop where
  consumed_le : consumed ≤ a.amountToSend
  wrapped : wrappedUnder k ev = a.amountToNearDeposit
  registered : registeredUnder k ev = a.storageToPay
  consumed_eq : consumedUnder k ev = consumed
  swept : firstSweptUnder host k ev = a.tranche.withdrawalAmount - a.tranche.wnearResidual
  delivered : deliveredUnder k ev = consumed + a.storageToPay
  all : deliversAll k ev = decide (consumed = a.amountToSend)

/-- The event settles no delivery under the hash. -/
structure Passes (k : H) (ev : PoolEvent H) : Prop where
  other : ∀ x, settledWnear ev = some x → x.hash ≠ k
  delivered : deliveredUnder k ev = 0

/-- An event that passes a hash by adds nothing to any amount of it. -/
theorem Passes.settledUnder {ev : PoolEvent H} (h : Passes hash ev) (f : Settlement H → ℕ) :
    settledUnder hash f ev = 0 := by
  unfold LiquidStaking.settledUnder
  split
  · next x hsettled => exact if_neg (h.other x hsettled)
  · rfl

/-- Nor does it deliver anything in full. -/
theorem Passes.deliversAll {ev : PoolEvent H} (h : Passes hash ev) :
    deliversAll hash ev = false := by
  unfold LiquidStaking.deliversAll
  split
  · next x hsettled => simp [h.other x hsettled]
  · rfl

/-- An event that settles nothing passes every hash by. -/
theorem passes_of_none {ev : PoolEvent H} (h : settledWnear ev = none)
    (hdelivered : deliveredUnder hash ev = 0) : Passes hash ev where
  other x hx := by
    rw [h] at hx
    cases hx
  delivered := hdelivered

/-- So does a receipt that is no settlement. -/
theorem passes_of_settles {c : PoolChain H} {e : PoolExecution H}
    (h : ∀ k, e.task.settles k = false) : Passes hash ⟨c, e⟩ :=
  passes_of_none (settledWnear_of_settles h) (deliveredUnder_of_settles (h hash))

/-- And so does a settlement under another hash. -/
theorem passes_of_ne {ev : PoolEvent H} {x : Settlement H} (h : settledWnear ev = some x)
    (hne : x.hash ≠ hash) (hdelivered : deliveredUnder hash ev = 0) : Passes hash ev where
  other y hy := by
    obtain rfl := Option.some.inj (h.symm.trans hy)
    exact hne
  delivered := hdelivered

/-- **A delivery that is settled** has spent what its attempt says.

What was wrapped and registered for is read off the batch that the chain has
sent. -/
theorem Deployment.settles_turn {c : PoolChain H} {e : PoolExecution H} {a : Attempt}
    {r : PromiseResult} {consumed : ℕ} {ret : Return H} {side : List (Receipt H)}
    (turn : d.Turn Good events sys c e) (now : Describes host d.wnearId c (.deliveredWnear a r))
    (hverdict : e.verdict = .committed ret side)
    (hdelivery : Delivery a.amountToSend (a.isCall host) r (some consumed)) :
    Settles host a consumed (a.hash host) ⟨c, e⟩ := by
  have hsettled := now.settledWnear_eq turn.fires.tasks_eq turn.fires.input_eq hverdict hdelivery
  have hunder : ∀ f : Settlement H → ℕ, settledUnder (a.hash host) f ⟨c, e⟩ =
      f ⟨a.hash host, a.amountToSend, consumed⟩ := by
    intro f
    unfold settledUnder
    rw [hsettled]
    exact if_pos rfl
  obtain ⟨hwraps, hregisters⟩ := Attempt.batch_spends d.wnearId now.valid.2
  have hsent := d.batch_sent turn.run c (now.mem turn.origin) _ now a r rfl
  refine ⟨?_, ?_, ?_, ?_, ?_, ?_, ?_⟩
  · exact (hdelivery.delivered_eq a.storageToPay).2
  · exact (hunder _).trans ((hsent _).trans hwraps)
  · exact (hunder _).trans ((hsent _).trans hregisters)
  · exact hunder _
  · refine (hunder _).trans ?_
    rw [lockedBy, now.attempt_eq a rfl]
    rfl
  · rw [← (hdelivery.delivered_eq a.storageToPay).1]
    obtain ⟨rest, htasks⟩ := turn.fires.tasks_eq
    obtain ⟨htask, -⟩ := List.cons.inj (htasks.symm.trans now.tasks_eq)
    have hread : e.input = some r := turn.fires.input_eq.trans now.input_eq
    simp only [deliveredUnder, hverdict, htask, hread, Receipt.delivered,
      LiquidStakingToken.onWithdrawWnearCall, Receipt.call, if_true]
  · simp [deliversAll, hsettled]

/-- A callback that settles nothing under the hash: it is none of a delivery, or
its delivery did not arrive, or is one of another hash. -/
theorem Deployment.passes_turn {c : PoolChain H} {e : PoolExecution H} {p p' : Phase H}
    {ret : Return H} {side : List (Receipt H)} (turn : d.Turn Good events sys c e)
    (now : Describes host d.wnearId c p)
    (advance : Advance host e.context e.before p e.after p' side)
    (hverdict : e.verdict = .committed ret side)
    (hnative : ∀ a r, p = .deliveredNative a r → a.hash host ≠ hash)
    (hpasses : ∀ a r, p = .deliveredWnear a r →
      ∃ x, Delivery a.amountToSend (a.isCall host) r x ∧ (x = none ∨ a.hash host ≠ hash)) :
    Passes hash ⟨c, e⟩ := by
  cases p with
  | deliveredWnear a r =>
      obtain ⟨x, hdelivery, hx⟩ := hpasses a r rfl
      have hsettled := now.settledWnear_eq turn.fires.tasks_eq turn.fires.input_eq hverdict
        hdelivery
      have hdelivered : deliveredUnder hash ⟨c, e⟩ =
          if a.hash host = hash then
            wnearDelivered a.amountToSend a.storageToPay (a.isCall host) r else 0 := by
        obtain ⟨rest, htasks⟩ := turn.fires.tasks_eq
        obtain ⟨htask, -⟩ := List.cons.inj (htasks.symm.trans now.tasks_eq)
        have hread : e.input = some r := turn.fires.input_eq.trans now.input_eq
        simp only [deliveredUnder, hverdict, htask, hread]
        rfl
      cases x with
      | none =>
          refine passes_of_none hsettled ?_
          rw [hdelivered, hdelivery.delivered_eq_zero]
          exact ite_self 0
      | some consumed =>
          have hne := hx.resolve_left (by simp)
          exact passes_of_ne hsettled hne (hdelivered.trans (if_neg hne))
  | deliveredNative a r =>
      refine passes_of_none (now.settledWnear_native turn.fires.tasks_eq)
        (deliveredUnder_of_settles ?_)
      obtain ⟨rest, htasks⟩ := turn.fires.tasks_eq
      obtain ⟨htask, -⟩ := List.cons.inj (htasks.symm.trans now.tasks_eq)
      dsimp only
      rw [htask]
      exact decide_eq_false (hnative a r rfl)
  | _ =>
      exact passes_of_settles (now.task_settles turn.fires.tasks_eq
        (by first | rfl | exact advance.attempt_eq_none rfl))

/-- **One event of a run** settles a delivery under the hash of `args`, or
passes it by. -/
theorem Deployment.residual_turn {c : PoolChain H} {e : PoolExecution H}
    (hwrapped : args.withdrawTokens ≠ .native) (hhash : host.hash args = hash)
    (turn : d.Turn (Orderly (distinctFrom host args)) events sys c e) :
    (∃ a r consumed, Describes host d.wnearId c (.deliveredWnear a r) ∧
        WithdrawalRequests.locksAt e.before.withdrawalRequests hash = [a.tranche] ∧
        a.Fits host ∧ Settles host a consumed hash ⟨c, e⟩ ∧
        (∃ p side, Advance host e.context e.before (.deliveredWnear a r) e.after p side) ∧
        a.hash host = hash ∧ Delivery a.amountToSend (a.isCall host) r (some consumed) ∧
        residualUnder hash e.after.withdrawalRequests + a.tranche.wnearResidual =
          residualUnder hash e.before.withdrawalRequests +
            (a.amountToSend - consumed)) ∨
      Passes hash ⟨c, e⟩ ∧
        residualUnder hash e.after.withdrawalRequests =
          residualUnder hash e.before.withdrawalRequests := by
  subst hhash
  have hbefore := turn.fires.before_eq
  have hforce := fun ev hev => (turn.good ev hev).unforced
  have hqueue := d.queueSound turn.run
  cases d.transition turn with
  | entered m p side deposit gas fresh task_eq deposit_eq external entry =>
      refine .inr ⟨passes_of_settles (entry.task_settles task_eq), ?_⟩
      exact entry.sum_eq Tranches.additive_wnearResidual (hbefore ▸ hqueue.oneLock) _
  | advanced p p' side now self advance next verdict =>
      obtain ⟨ret, hverdict⟩ := verdict
      have hmem := now.mem turn.origin
      -- The attempt of the chain holds the only lock under its hash.
      have hown := fun a (ha : p.attempt = some a) => d.locksAt_eq turn.run hforce hmem now ha
      -- A native attempt under this hash would be one of `args`, which is not
      -- native.
      have hnative : ∀ a r, p = .deliveredNative a r → a.hash host ≠ host.hash args := by
        rintro a r rfl hhash
        have hargs : a.args = args := d.attempt_mem turn.run turn.good hmem now rfl hhash
        exact hwrapped (hargs ▸ now.valid)
      rcases advance.residualUnder_eq now.valid (hbefore ▸ hqueue) (hbefore ▸ hown)
        (hbefore ▸ d.residual_le turn.run hforce) hnative with
        ⟨a, r, consumed, rfl, hhash, hdelivery, hresidual⟩ | ⟨hresidual, hpasses⟩
      · refine .inl ⟨a, r, consumed, now, ?_, now.valid.2,
          hhash ▸ d.settles_turn turn now hverdict hdelivery, ⟨p', side, advance⟩, hhash, hdelivery,
          hresidual⟩
        rw [hbefore, ← hhash]
        exact hown a rfl
      · exact .inr ⟨d.passes_turn turn now advance hverdict hnative hpasses, hresidual⟩
  | panicked p now here self verdict same =>
      exact .inr ⟨passes_of_none (by simp [settledWnear, verdict])
        (by simp [deliveredUnder, verdict]), by rw [same]⟩
  | answered p r now away verdict same =>
      exact .inr ⟨passes_of_none (by simp [settledWnear, verdict])
        (by simp [deliveredUnder, verdict]), by rw [same]⟩

/-- What a settled delivery wraps and pays for the registration is what it swept
for the first time, and it counts as delivered what was consumed and that
registration. -/
theorem Deployment.settled_sums (hwrapped : args.withdrawTokens ≠ .native)
    (hhash : host.hash args = hash) (run : d.Reaches events sys)
    (hgood : ∀ ev ∈ events, Orderly (distinctFrom host args) ev) :
    (events.map (wrappedUnder hash)).sum + (events.map (registeredUnder hash)).sum =
        (events.map (firstSweptUnder host hash)).sum ∧
      (events.map (deliveredUnder hash)).sum =
        (events.map (consumedUnder hash)).sum + (events.map (registeredUnder hash)).sum := by
  have hevent := run.forall_event (Q := fun ev =>
    wrappedUnder hash ev + registeredUnder hash ev = firstSweptUnder host hash ev ∧
      deliveredUnder hash ev = consumedUnder hash ev + registeredUnder hash ev)
    (fun {events s c e} turn => ?_) hgood
  · rw [← List.sum_map_add, ← List.sum_map_add]
    exact ⟨congrArg List.sum (List.map_congr_left fun ev mem => (hevent ev mem).1),
      congrArg List.sum (List.map_congr_left fun ev mem => (hevent ev mem).2)⟩
  · rcases d.residual_turn hwrapped hhash turn with ⟨a, r, consumed, -, -, hfits, hsettles, -⟩ |
      ⟨hpasses, -⟩
    · have hwraps : a.amountToNearDeposit + a.tranche.wnearResidual = a.amountToSend :=
        Nat.sub_add_cancel hfits.residual_le
      have hamount := hfits.amount_eq
      rw [hsettles.wrapped, hsettles.registered, hsettles.swept, hsettles.consumed_eq,
        hsettles.delivered]
      omega
    · have hzero := hpasses.settledUnder
      rw [wrappedUnder, registeredUnder, firstSweptUnder, consumedUnder, hzero, hzero, hzero, hzero,
        hpasses.delivered]
      exact ⟨rfl, rfl⟩

/-- **Every yoctoNEAR is wrapped once.**  What was wrapped was consumed or is a
residual; what was wrapped or paid for registrations is what settled deliveries
swept for the first time; and that, with what no settled delivery has swept yet,
is what was unstaked. -/
theorem Deployment.wrapped_tally (hwrapped : args.withdrawTokens ≠ .native)
    (hhash : host.hash args = hash) (run : d.Reaches events sys)
    (hgood : ∀ ev ∈ events, Orderly (distinctFrom host args) ev) :
    (events.map (wrappedUnder hash)).sum = (events.map (consumedUnder hash)).sum +
        residualUnder hash sys.state.withdrawalRequests ∧
      (events.map (wrappedUnder hash)).sum + (events.map (registeredUnder hash)).sum =
        (events.map (firstSweptUnder host hash)).sum ∧
      (events.map (firstSweptUnder host hash)).sum +
          unsweptUnder hash sys.state.withdrawalRequests =
        (events.map (appendedUnder hash)).sum := by
  have hforce := fun ev hev => (hgood ev hev).unforced
  -- The residual grows by what is wrapped, and shrinks by what is consumed.
  have hresidual := run.tally_eq (fun s => residualUnder hash s.withdrawalRequests)
    (wrappedUnder hash) (consumedUnder hash) (fun {events s c e} turn => ?_) hgood
  · have hgenesis : residualUnder hash d.genesis.state.withdrawalRequests = 0 := by
      show residualUnder hash d.state.withdrawalRequests = 0
      rw [d.initial.queue_eq]
      rfl
    obtain ⟨hswept, hdelivered⟩ := d.settled_sums hwrapped hhash run hgood
    have happended := d.queued_add_delivered run hforce hash
    have hsplit : unsweptUnder hash sys.state.withdrawalRequests +
        residualUnder hash sys.state.withdrawalRequests =
          queuedUnder hash sys.state.withdrawalRequests := by
      unfold unsweptUnder residualUnder queuedUnder Tranches.sum
      rw [← List.sum_map_add]
      refine congrArg List.sum (List.map_congr_left fun l mem => ?_)
      exact Nat.sub_add_cancel (d.residual_le run hforce _ l mem)
    refine ⟨?_, hswept, ?_⟩
    · omega
    · omega
  · rcases d.residual_turn hwrapped hhash turn with
      ⟨a, r, consumed, -, -, hfits, hsettles, -, -, -, hleft⟩ | ⟨hpasses, hsame⟩
    · have hwraps : a.amountToNearDeposit + a.tranche.wnearResidual = a.amountToSend :=
        Nat.sub_add_cancel hfits.residual_le
      have hle := hsettles.consumed_le
      rw [hsettles.wrapped, hsettles.consumed_eq]
      omega
    · rw [wrappedUnder, consumedUnder, hpasses.settledUnder, hpasses.settledUnder, hsame]

/-! ## Registrations -/

/-- A result is settled in one way. -/
theorem Delivery.unique {n : ℕ} {isCall : Bool} {r : PromiseResult} {x y : Option ℕ}
    (h : Delivery n isCall r x) (h' : Delivery n isCall r y) : x = y := by
  cases h <;> cases h' <;> simp_all

/-- What a settlement in part leaves has the flag of the registrations paid so
far. -/
theorem Advance.holdsPaid_part {p : Phase H} {side : List (Receipt H)} {a : Attempt}
    {r : PromiseResult} {consumed : ℕ}
    (hadvance : Advance host env s (.deliveredWnear a r) s' p side)
    (h : Recorded env.epochHeight s.withdrawalRequests) (hqueue : QueueSound s)
    (hfits : a.Fits host)
    (hown : WithdrawalRequests.locksAt s.withdrawalRequests (a.hash host) = [a.tranche])
    (hdelivery : Delivery a.amountToSend (a.isCall host) r (some consumed))
    (hpart : consumed < a.amountToSend)
    (hpaid : 0 < a.storageToPay ∨
      WithdrawalRequests.HoldsPaid s.withdrawalRequests (a.hash host)) :
    WithdrawalRequests.HoldsPaid s'.withdrawalRequests (a.hash host) := by
  cases hadvance with
  | paidWnear consumed' delivery t locked delivered delivered_eq claimed q q_eq =>
      obtain rfl := Option.some.inj (delivery.unique hdelivery)
      have hleft := hqueue.left_eq hfits hown locked delivery delivered_eq
      obtain ⟨rfl, -⟩ := hqueue.own_tranche hown locked
      have hrun : (Call.settle (a.hash host) delivered (a.amountToSend - consumed')
          (decide (0 < a.storageToPay))).run env.epochHeight s.withdrawalRequests = .ok q :=
        q_eq ▸ Call.run_settle locked claimed
      have hless : ∀ t ∈ WithdrawalRequests.locksAt s.withdrawalRequests (a.hash host),
          delivered < t.withdrawalAmount := by
        rw [hown]
        intro t mem
        rw [List.mem_singleton.mp mem]
        omega
      -- The mark comes from this delivery or from one before, and a tranche
      -- that is delivered in part keeps it.
      have hkept : WithdrawalRequests.HoldsPaid q (a.hash host) := by
        rcases hpaid with hpays | hbefore
        · rw [decide_eq_true hpays] at hrun
          exact WithdrawalRequests.holdsPaid_settle hrun hless
        · refine h.holdsPaid hrun (fun _ htakes => ?_) hbefore
          obtain ⟨t, mem, hle⟩ := htakes
          exact Nat.not_lt.mpr hle (hless t mem)
      have hsettled : Recorded env.epochHeight q := h.call (c := .settle _ _ _ _) trivial hrun
      exact hsettled.holdsPaid_release _ hkept
  | unpaidWnear delivery => cases delivery.unique hdelivery

/-- **One event of a run** pays for a registration only if no tranche has the
flag, and leaves the flag on what it does not deliver. -/
theorem Deployment.registered_turn {c : PoolChain H} {e : PoolExecution H}
    (hwrapped : args.withdrawTokens ≠ .native) (hhash : host.hash args = hash)
    (turn : d.Turn (Orderly (distinctFrom host args)) events sys c e)
    (hle : openRegistrations hash events ≤ 1)
    (hopen : 0 < openRegistrations hash events →
      WithdrawalRequests.HoldsPaid e.before.withdrawalRequests hash) :
    registrations hash ⟨c, e⟩ + openRegistrations hash events ≤ 1 ∧
      (0 < openRegistrations hash (⟨c, e⟩ :: events) →
        WithdrawalRequests.HoldsPaid e.after.withdrawalRequests hash) := by
  have hbefore := turn.fires.before_eq
  have hrecorded : Recorded e.context.epochHeight e.before.withdrawalRequests :=
    hbefore ▸ (d.recorded turn.run).later turn.fires.clock_le
  rcases d.residual_turn hwrapped hhash turn with
    ⟨a, r, consumed, now, hown, hfits, hsettles, ⟨p, side, advance⟩, rfl, hdelivery, -⟩ |
    ⟨hpasses, -⟩
  · -- Who pays has an unmarked tranche locked, and while a registration is open
    -- the locked tranche is marked.
    have hpays : 0 < a.storageToPay → openRegistrations (a.hash host) events = 0 := by
      intro hpos
      have hunpaid : a.tranche.storageWasPaid = false := by
        by_contra hpaid
        simp [Attempt.storageToPay, hpaid] at hpos
      by_contra hne
      exact hrecorded.marked.not_holdsPaid hown hunpaid (hopen (Nat.pos_of_ne_zero hne))
    constructor
    · unfold registrations
      rw [hsettles.registered]
      split_ifs with hpos
      · rw [hpays hpos]
      · rwa [Nat.zero_add]
    · intro hstill
      rw [openRegistrations, hsettles.all] at hstill
      split_ifs at hstill with hall
      · cases hstill
      · -- Not all of it was consumed, so the rest of the tranche keeps its
        -- mark.
        have hpart : consumed < a.amountToSend := by
          have hconsumed := hsettles.consumed_le
          have hne : consumed ≠ a.amountToSend := by simpa using hall
          omega
        refine advance.holdsPaid_part hrecorded (hbefore ▸ d.queueSound turn.run) hfits hown
          hdelivery hpart ?_
        rw [registrations, hsettles.registered] at hstill
        by_cases hpos : 0 < a.storageToPay
        · exact .inl hpos
        · rw [if_neg hpos, Nat.zero_add] at hstill
          exact .inr (hopen hstill)
  · have hnone : registrations hash ⟨c, e⟩ = 0 := by
      rw [registrations, registeredUnder, hpasses.settledUnder]
      rfl
    rw [openRegistrations, hpasses.deliversAll, hnone]
    refine ⟨by omega, fun hstill => ?_⟩
    have hpaid := hopen (by simpa using hstill)
    cases d.transition turn with
    | entered m p side deposit gas fresh task_eq deposit_eq external entry =>
        exact entry.holdsPaid hrecorded hpaid
    | advanced p p' side now self advance next verdict =>
        obtain ⟨ret, hverdict⟩ := verdict
        refine advance.holdsPaid now.valid hrecorded ?_ ?_ hpaid
        · rintro a r rfl hsame
          have hargs : a.args = args := d.attempt_mem turn.run turn.good
            (now.mem turn.origin) now rfl (hsame.trans hhash.symm)
          exact hwrapped (hargs ▸ now.valid)
        · rintro a r consumed rfl hdelivery
          exact hpasses.other _ (now.settledWnear_eq turn.fires.tasks_eq turn.fires.input_eq
            hverdict hdelivery)
    | panicked p now here self verdict same => exact same ▸ hpaid
    | answered p r now away verdict same => exact same ▸ hpaid

/-- **Between two full deliveries at most one registration is paid.** -/
theorem Deployment.registered_once (hwrapped : args.withdrawTokens ≠ .native)
    (hhash : host.hash args = hash) (run : d.Reaches events sys)
    (hgood : ∀ ev ∈ events, Orderly (distinctFrom host args) ev) :
    ∀ ev older, ev :: older <:+ events →
      registrations hash ev + openRegistrations hash older ≤ 1 := by
  have hinv := run.induction_turn (I := fun events sys =>
    (∀ ev older, ev :: older <:+ events →
      registrations hash ev + openRegistrations hash older ≤ 1) ∧
    (0 < openRegistrations hash events →
      WithdrawalRequests.HoldsPaid sys.state.withdrawalRequests hash)) ?_ ?_ hgood
  · exact hinv.1
  · refine ⟨fun ev older h => ?_, fun h => absurd h (lt_irrefl 0)⟩
    cases List.suffix_nil.mp h
  · intro events s s' c e turn ih step
    have hle : openRegistrations hash events ≤ 1 := by
      cases events with
      | nil => exact Nat.zero_le 1
      | cons ev older =>
          have hlast := ih.1 ev older List.suffix_rfl
          unfold openRegistrations
          split_ifs
          · exact Nat.zero_le 1
          · exact hlast
    obtain ⟨hone, hafter⟩ := d.registered_turn hwrapped hhash turn hle
      (turn.fires.before_eq ▸ ih.2)
    refine ⟨fun ev older h => ?_, fun h => ?_⟩
    · rcases List.suffix_cons_iff.mp h with heq | hold
      · obtain ⟨rfl, rfl⟩ := List.cons.inj heq
        exact hone
      · exact ih.1 ev older hold
    · rw [step.state_eq]
      exact hafter h

/-! ## The panics -/

omit [DecidableEq H] in
/-- A settlement never counts more as consumed than was sent. -/
theorem LiquidStakingToken.consumedAmount_le {n consumed : ℕ} {isCall : Bool}
    (h : LiquidStakingToken.consumedAmount env n isCall = .ok (some consumed)) : consumed ≤ n := by
  unfold LiquidStakingToken.consumedAmount at h
  repeat' split at h
  all_goals cases h
  · exact Nat.min_le_right _ _
  · exact Nat.le_refl _
  · exact Nat.le_refl _

/-- What can stop the delivery of a tranche that can be sent again. -/
theorem Retryable.withdrawWnear_error {t : Tranche} {isStorageDeposit : Bool}
    {msg memo : Option String} {minGas : Option ℕ} {m : String} (h : Retryable host args t)
    (htokens : args.withdrawTokens = .wnear isStorageDeposit msg memo minGas)
    (hlocked : WithdrawalRequests.lockedTranche s.withdrawalRequests hash = .ok t)
    (hpos : 0 < t.withdrawalAmount)
    (herror : s.withdrawWnear host args.receiverId isStorageDeposit msg memo minGas
      t.withdrawalAmount hash = .error m) :
    m = "There couldn't be a storage_deposit for the current account withdrawal" ∨
      m = "Storage deposit exceeds the withdrawal amount" := by
  simp only [LiquidStakingToken.withdrawWnear, hlocked, bind_eq_error, require_eq_error,
    expect_eq_error, expect_eq_ok, checkedSub_eq_none, checkedSub_eq_some, pure_ne_error, and_false,
    exists_false, or_false, reduceCtorEq, false_or, Except.ok.injEq, exists_eq_left'] at herror
  rcases herror with ⟨-, hmsg⟩ | ⟨_, hself, ⟨-, hmsg⟩ | ⟨_, ⟨hstorage, rfl⟩, hrest⟩⟩
  · exact .inl hmsg.symm
  · exact .inr hmsg.symm
  · exfalso
    have hasks : (⟨args, t⟩ : Attempt).asksStorage = isStorageDeposit := by
      simp [Attempt.asksStorage, htokens]
    rcases hrest with ⟨hresidual, -⟩ | ⟨_, ⟨hresidual, rfl⟩, hempty, -⟩
    · -- A residual means that the registration is paid, so all of the claim is sent.
      have hpaid : (!t.storageWasPaid && isStorageDeposit) = false := by
        cases hsd : isStorageDeposit with
        | false => simp
        | true =>
            have hpositive : 0 < t.wnearResidual := Nat.zero_lt_of_lt hresidual
            simp [h.paid (hasks.trans hsd) hpositive]
      rw [hpaid] at hresidual
      exact absurd h.residual_le (Nat.not_le.mpr hresidual)
    · rw [not_not] at hempty
      simp only [LiquidStakingToken.deliveryActions, List.append_eq_nil_iff] at hempty
      obtain ⟨⟨hwrap, -⟩, htransfer⟩ := hempty
      by_cases hreceiver : args.receiverId = host.currentAccountId
      · have hplain : isStorageDeposit = false := by
          cases hsd : isStorageDeposit with
          | false => rfl
          | true => exact absurd ⟨by simp [hreceiver], hsd⟩ (require_eq_ok.mp hself)
        rw [h.self hreceiver, hplain] at hwrap
        simp [hpos.ne'] at hwrap
      · rw [if_neg (by simp [hreceiver])] at htransfer
        cases msg <;> cases htransfer

theorem WithdrawalRequests.amountOfMaturedTranches_error {q : WithdrawalRequests H} {e : ℕ}
    {m : String} (h : WithdrawalRequests.amountOfMaturedTranches q e hash = .error m) :
    m = "Unstake request is already in progress" ∨
      m = "Overflow while collapsing withdrawal amount" ∨
      m = "Overflow while collapsing residuals" := by
  unfold WithdrawalRequests.amountOfMaturedTranches at h
  split at h
  · cases h
  · rcases bind_eq_error.mp h with hsweep | ⟨_, -, hpure⟩
    · rcases bind_eq_error.mp hsweep with hlocked | ⟨_, -, hrest⟩
      · exact .inl (require_eq_error.mp hlocked).2.symm
      · rcases bind_eq_error.mp hrest with hcollapse | ⟨⟨o, kept⟩, -, hout⟩
        · exact .inr (Tranches.collapseMaturedTranches_error hcollapse)
        · cases o <;> cases hout
    · exact absurd hpure pure_ne_error

/-- **A withdrawal of the message** is not stopped by its residual. -/
theorem Deployment.withdraw_error {m : String} (run : d.Reaches events sys)
    (hgood : ∀ ev ∈ events, Orderly (distinctFrom host args) ev) (env : Env)
    (herror : callMethod host env sys.state (.withdraw args) = .error m) :
    m ≠ "wNEAR residual exceeds the deliverable amount" ∧
      m ≠ "Nothing to deliver: claim is already fully held as wNEAR by the contract" := by
  have hall := d.retryable run hgood
  have hclosed : Tranches.Closed fun t => host.hash args = host.hash args →
      Retryable host args t := by
    have hbase := retryable_closed host args
    exact ⟨fun _ => hbase.zero, fun n e _ => hbase.new n e,
      fun ha hb heq => hbase.merge (ha heq) (hb heq), fun n ht heq => hbase.grow n (ht heq)⟩
  simp only [callMethod, LiquidStakingToken.withdraw, Env.requireNotPaused, Env.assertGas,
    bind_eq_error, require_eq_error, Prod.exists] at herror
  -- The checks in the order of the source, each with its own message.
  rcases herror with ⟨-, rfl⟩ | ⟨_, -, ⟨-, rfl⟩ | ⟨_, -, ⟨-, rfl⟩ | ⟨_, -, hrest⟩⟩⟩
  · exact ⟨by decide, by decide⟩
  · exact ⟨by decide, by decide⟩
  · exact ⟨by decide, by decide⟩
  rcases hrest with hsweep | ⟨amount, q, hsweep, ⟨-, rfl⟩ | ⟨_, hamount, hrest⟩⟩
  · rcases WithdrawalRequests.amountOfMaturedTranches_error hsweep with rfl | rfl | rfl
    · exact ⟨by decide, by decide⟩
    · exact ⟨by decide, by decide⟩
    · exact ⟨by decide, by decide⟩
  · exact ⟨by decide, by decide⟩
  · obtain ⟨-, t, rfl, heffect⟩ :=
      WithdrawalRequests.amountOfMaturedTranches_effect hsweep (require_eq_ok.mp hamount)
    have hlocks : WithdrawalRequests.locksAt q (host.hash args) = [t] :=
      List.perm_singleton.mp (heffect Tranches.additive_withdrawalAmount).locks
    -- What the sweep has locked can be retried, since everything it merged can.
    have hretry : Retryable host args t :=
      (hall.sweep hclosed hsweep (require_eq_ok.mp hamount)).locked
        (hlocks ▸ List.mem_singleton_self t) rfl
    cases htokens : args.withdrawTokens with
    | native =>
        rw [htokens] at hrest
        exact absurd hrest pure_ne_error
    | wnear isStorageDeposit msg memo minGas =>
        rw [htokens] at hrest
        simp only [bind_eq_error, pure_ne_error, and_false, exists_false, or_false] at hrest
        have hlocked : WithdrawalRequests.lockedTranche (sys.state.withQueue q).withdrawalRequests
            (host.hash args) = .ok t := by
          rw [WithdrawalRequests.lockedTranche_eq_ok]
          exact hlocks ▸ rfl
        rcases hretry.withdrawWnear_error htokens hlocked (require_eq_ok.mp hamount) hrest with
          rfl | rfl
        · exact ⟨by decide, by decide⟩
        · exact ⟨by decide, by decide⟩

/-- A settlement of the attempt that locked the tranche takes out no more than
it holds. -/
theorem QueueSound.settles_claim {a : Attempt} (h : QueueSound s) (env : Env) (cost : ℕ)
    (isCall : Bool) (hfits : a.Fits host)
    (hown : WithdrawalRequests.locksAt s.withdrawalRequests (a.hash host) = [a.tranche]) :
    s.onWithdrawWnear host env (a.hash host) a.amountToSend cost a.storageToPay isCall ≠
      .error "Inconsistent state: delivered exceeds queued claim" := by
  intro herror
  simp only [LiquidStakingToken.onWithdrawWnear, Env.requirePrivate, bind_eq_error,
    require_eq_error] at herror
  -- Each step of the callback can fail, and only the subtraction from the
  -- tranche has this message.
  rcases herror with ⟨-, hmsg⟩ | ⟨_, -, ⟨-, hmsg⟩ | ⟨_, -, hread | ⟨consumed, hread, herror⟩⟩⟩
  · exact absurd hmsg (by decide)
  · exact absurd hmsg (by decide)
  · unfold LiquidStakingToken.consumedAmount at hread
    repeat' split at hread
    all_goals first | cases hread | exact absurd (Except.error.inj hread) (by decide)
  · cases consumed with
    | none => exact absurd herror pure_ne_error
    | some consumed =>
        have hle := LiquidStakingToken.consumedAmount_le hread
        simp only [LiquidStakingToken.modifyStateAfterWithdraw, bind_eq_error, expect_eq_error,
          checkedSub_eq_none, onlyIf_eq_error, pure_ne_error, and_false, exists_false,
          or_false] at herror
        rcases herror with hlookup | ⟨t, hlocked, ⟨hless, -⟩ | ⟨_, -, hpending | ⟨_, -, -, hspent⟩⟩⟩
        · simp [WithdrawalRequests.lockedTranche, bind_eq_error, expect_eq_error] at hlookup
        · obtain ⟨rfl, -⟩ := h.own_tranche hown hlocked
          have hamount := hfits.amount_eq
          have hsat := saturatingAdd_le 128 consumed a.storageToPay
          have hdelivered :
              a.tranche.withdrawalAmount < saturatingAdd 128 consumed a.storageToPay := hless
          omega
        · exact absurd (LiquidStakingToken.decreasePendingWithdrawals_eq_error.mp hpending).2
            (by decide)
        · simp only [LiquidStakingToken.decreaseTotalBalance, bind_eq_error, expect_eq_error,
            pure_ne_error, and_false, exists_false, or_false] at hspent
          exact absurd hspent.2 (by decide)

/-- **No settlement of the message** finds less than it delivered. -/
theorem Deployment.settlement_ne_error (hwrapped : args.withdrawTokens ≠ .native)
    (run : d.Reaches events sys)
    (hgood : ∀ ev ∈ events, Orderly (distinctFrom host args) ev) (env : Env) {c : PoolChain H}
    {t : Receipt H} {rest : List (Receipt H)} (mem : c ∈ sys.chains) (htasks : c.tasks = t :: rest)
    (hsettles : t.settles (host.hash args) = true) :
    (platform host).execute env c.input t sys.state ≠
      .error "Inconsistent state: delivered exceeds queued claim" := by
  obtain ⟨p, now⟩ := (d.phased run).described c mem
  have hhead := htasks.symm.trans now.tasks_eq
  have hforce := fun ev hev => (hgood ev hev).unforced
  cases hattempt : p.attempt with
  | none =>
      have hany := p.any_settles host d.wnearId (host.hash args)
      rw [hattempt, ← now.tasks_eq, htasks, List.any_cons, hsettles] at hany
      cases hany
  | some a =>
      have hown := d.locksAt_eq run hforce mem now hattempt
      cases p with
      | deliveredWnear a' r =>
          obtain rfl := Option.some.inj hattempt
          obtain ⟨rfl, -⟩ := List.cons.inj hhead
          intro herror
          -- At most the amount to send was delivered, and that is the locked
          -- tranche.
          refine (d.queueSound run).settles_claim (env.forCall 0 c.input) (a'.cost host)
            (a'.isCall host) now.valid.2 hown ?_
          simpa [platform, runActions, runAction, callMethod, Method.isPayable, Env.forCall,
            LiquidStakingToken.onWithdrawWnearCall, Receipt.call, require] using herror
      | deliveredNative a' r =>
          obtain rfl := Option.some.inj hattempt
          obtain ⟨rfl, -⟩ := List.cons.inj hhead
          have hsame : a'.hash host = host.hash args := by
            simpa [Receipt.settles, Receipt.call] using hsettles
          have hargs : a'.args = args := d.attempt_mem run hgood mem now rfl hsame
          have hnative : a'.args.withdrawTokens = .native := now.valid
          exact absurd (hargs ▸ hnative) hwrapped
      | deliveringNative a' =>
          obtain ⟨rfl, -⟩ := List.cons.inj hhead
          cases hsettles
      | deliveringWnear a' =>
          obtain ⟨rfl, -⟩ := List.cons.inj hhead
          rw [a'.batch_settles] at hsettles
          cases hsettles
      | _ => cases hattempt

/-- **The retries of a wNEAR delivery** neither wrap again nor lose anything.
Residuals fit their tranches, and those of the message come with a paid
registration if it asks for one; what settled deliveries wrapped or paid for
registrations is what they swept for the first time, and what they wrapped was
consumed or is the residual; between two full deliveries at most one
registration is paid; and neither a withdrawal nor a settlement of the message
stops at an amount that does not fit.

`honly` asks that no other message of the run has the hash of this one: another
message with another receiver or another token could not be told apart in the
queue.  Everything is said of the events of the run, so a retry may come at any
time and from anybody. -/
theorem Deployment.wrapped_once (run : d.Reaches events sys)
    (hforce : ∀ ev ∈ events, Unforced ev) (args : UnstakeMessage)
    (hwrapped : args.withdrawTokens ≠ .native)
    (honly : ∀ other ∈ withdrawn events, host.hash other = host.hash args → other = args) :
    (∀ hash, ∀ l ∈ WithdrawalRequests.tranchesAt sys.state.withdrawalRequests hash,
      l.value.wnearResidual ≤ l.value.withdrawalAmount) ∧
    (∀ msg memo minGas, args.withdrawTokens = .wnear true msg memo minGas →
      ∀ l ∈ WithdrawalRequests.tranchesAt sys.state.withdrawalRequests (host.hash args),
        0 < l.value.wnearResidual → l.value.storageWasPaid = true) ∧
    (events.map (wrappedUnder (host.hash args))).sum +
        (events.map (registeredUnder (host.hash args))).sum =
      (events.map (firstSweptUnder host (host.hash args))).sum ∧
    (events.map (firstSweptUnder host (host.hash args))).sum +
        unsweptUnder (host.hash args) sys.state.withdrawalRequests =
      (events.map (appendedUnder (host.hash args))).sum ∧
    (events.map (wrappedUnder (host.hash args))).sum =
      (events.map (consumedUnder (host.hash args))).sum +
        residualUnder (host.hash args) sys.state.withdrawalRequests ∧
    (∀ ev older, ev :: older <:+ events →
      registrations (host.hash args) ev + openRegistrations (host.hash args) older ≤ 1) ∧
    (∀ env m, callMethod host env sys.state (.withdraw args) = .error m →
      m ≠ "wNEAR residual exceeds the deliverable amount" ∧
        m ≠ "Nothing to deliver: claim is already fully held as wNEAR by the contract") ∧
    (∀ c ∈ sys.chains, ∀ t rest env, c.tasks = t :: rest →
      t.settles (host.hash args) = true →
        (platform host).execute env c.input t sys.state ≠
          .error "Inconsistent state: delivered exceeds queued claim") := by
  have hgood : ∀ ev ∈ events, Orderly (distinctFrom host args) ev := fun ev hev =>
    ⟨hforce ev hev, fun other h => honly other ⟨ev, hev, h⟩⟩
  obtain ⟨hconsumed, hswept, happended⟩ := d.wrapped_tally hwrapped rfl run hgood
  refine ⟨fun hash l mem => d.residual_le run hforce hash l mem, ?_, hswept, happended, hconsumed,
    d.registered_once hwrapped rfl run hgood, ?_, ?_⟩
  · intro msg memo minGas htokens l mem hpos
    refine (d.retryable run hgood _ l mem rfl).paid ?_ hpos
    simp [Attempt.asksStorage, htokens]
  · intro env m herror
    exact d.withdraw_error run hgood env herror
  · intro c mem t rest env htasks hsettles
    exact d.settlement_ne_error hwrapped run hgood env mem htasks hsettles

/-- Deliveries that call the receiver. -/
private def sampleCalling : UnstakeMessage := ⟨"bob", .wnear false (some "spend") none none⟩

private def sampleCallingHost : Host UnstakeMessage :=
  { sampleHost with parseUnstakeMessage := fun _ => some sampleCalling }

private def sampleCallingPool : Deployment sampleCallingHost where
  env := samplePool.env
  ownerId := "owner"
  wnearId := "wnear"
  treasuryId := "treasury"
  validatorPublicKey := "key"
  state := samplePool.state
  created := rfl
  wnear_ne := by decide

/-- `bob` takes 30 of the 40 yoctoNEAR, and the other 10 with the second
attempt. -/
private def sampleRetry : List (Platform.Move Env (Receipt UnstakeMessage) Payload) :=
  let env := sampleEnv 60 1010 5 "pool" 0
  sampleUnstake "" ++ sampleWithdrawal sampleCalling (.successful (.ofU128 30)) ++
    [.enter (sampleEnv 60 1010 5 "bob" 0) (.call "pool" (.withdraw sampleCalling) 0 0),
      .answer 2 env (.successful (.ofU128 10)), .fire 2 env]

/-- Both attempts together wrap 40 yoctoNEAR. -/
theorem Deployment.wrapped_once_sample :
    ((sampleCallingPool.played sampleRetry rfl).1.map (wrappedUnder sampleCalling)).sum = 40 ∧
      ((sampleCallingPool.played sampleRetry rfl).1.map
        (consumedUnder sampleCalling)).sum = 40 := by
  have honce := (sampleCallingPool.wrapped_once
    (sampleCallingPool.played_reaches sampleRetry rfl) (by decide +kernel) sampleCalling (by decide)
    fun _ _ h => h).2.2.2.2.1
  have hresidual : residualUnder sampleCalling
      (sampleCallingPool.played sampleRetry rfl).2.state.withdrawalRequests = 0 := by
    decide +kernel
  have hwrapped : ((sampleCallingPool.played sampleRetry rfl).1.map
      (wrappedUnder sampleCalling)).sum = 40 := by
    decide +kernel
  refine ⟨hwrapped, ?_⟩
  rw [← hwrapped]
  exact ((congrArg _ hresidual).symm.trans honce.symm).trans rfl

end Amounts

end LiquidStaking
