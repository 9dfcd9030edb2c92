import LiquidStaking.AllOrNothing
import LiquidStaking.Lib.Movements
import LiquidStaking.Rollback

/-!
# The LST journal

Every receipt moves LST in a few ways only, and which ones can be read off the
phase of its chain: `Phase.journal` for a callback, `Method.journal` for a call
from outside, and `journal` for an event, where the fee of a recognized reward
comes first.

Adding up the journals of a run gives the balance of every account and the
supply (`Deployment.ledger_eq_journal`).  Going through the movements one by one
shows who can make an account lose LST (`Deployment.lst_custody`): its owner,
and a transfer call that takes back what it has just brought and the receiver
did not use.
-/

namespace LiquidStaking

open Checked Movements PromiseChain

section Definitions

variable {H : Type} [DecidableEq H] (host : Host H)

/-- What a resolver takes back from the receiver of a transfer call.

It is what was reported unused, as the token library reads the report, and not
more than the receiver still holds. -/
def LiquidStakingToken.refundOf (s : LiquidStakingToken H) (receiverId : AccountId)
    (amount : ℕ) (r : PromiseResult) : ℕ :=
  min (s.token.ftBalanceOf receiverId) (FungibleToken.unusedAmount (some r) amount)

/-- The LST that the next receipt of a phase moves, when it runs here and
commits.

The fee of a sync is not listed; it is common to all receipts. -/
def Phase.journal (s : LiquidStakingToken H) : Phase H → List (Movement AccountId)
  | .batching o _ => [.create host.currentAccountId o.lstTokens]
  | .restaked m r =>
      if resultOk r then
        if s.isRegistered host m.args.receiverId then
          [.transfer host.currentAccountId m.args.receiverId m.lstTokens]
        else []
      else [.destroy host.currentAccountId m.lstTokens]
  | .continuing (.resolve senderId receiverId amount) r =>
      if s.token.isRegistered senderId then
        [.transfer receiverId senderId (s.refundOf receiverId amount r)]
      else [.destroy receiverId (s.refundOf receiverId amount r)]
  | .continuing (.notify lstTokens args) r =>
      if args.refundMessage.isSome then
        [.transfer args.receiverId host.currentAccountId (s.refundOf args.receiverId lstTokens r),
          .destroy host.currentAccountId (s.refundOf args.receiverId lstTokens r)]
      else []
  | .sending _ _ amount _ _ _ => [.destroy host.currentAccountId amount]
  | .unstaked u _ r => if resultOk r then [] else [.create host.currentAccountId u.lstAmount]
  | _ => []

/-- The LST that a call from outside moves between `s` and `s'`.

A forced `storage_unregister` burns what the account has; without force there is
nothing to burn. -/
def Method.journal (env : Env) (s s' : LiquidStakingToken H) :
    Method H → List (Movement AccountId)
  | .ftTransfer receiverId amount _ | .ftTransferCall receiverId amount _ _ =>
      [.transfer env.predecessorAccountId receiverId amount]
  | .storageUnregister force =>
      [.destroy env.predecessorAccountId (Method.burns env s s' (.storageUnregister force))]
  | _ => []

/-- The movements of an event: the fee of a recognized reward, then its
receipt's own. -/
def journal (ev : PoolEvent H) : List (Movement AccountId) :=
  match ev.execution.verdict with
  | .committed _ _ =>
      .create ev.execution.before.treasuryId (feeMintedBy ev) ::
        match phaseOf host ev.chain, ev.execution.task.actions with
        | some p, _ => p.journal host ev.execution.before
        | none, [.call m _ _] =>
            m.journal ev.execution.context ev.execution.before ev.execution.after
        | none, _ => []
  | _ => []

end Definitions

/-! ## One receipt -/

section Steps

variable {H : Type} {host : Host H} {env : Env} {s s' s₁ : LiquidStakingToken H}
  {p p' : Phase H} {side : List (Receipt H)} {excluded : ℕ}

/-- The ledgers of two states differ by a journal. -/
structure Moves (s s' : LiquidStakingToken H) (moves : List (Movement AccountId)) : Prop where
  /-- Each account, by what the movements do to it. -/
  balance : ∀ a, (s'.token.ftBalanceOf a : ℤ) = s.token.ftBalanceOf a + effect moves a
  /-- The supply, by what they create and destroy. -/
  supply : s'.token.totalSupply + destroyed moves = s.token.totalSupply + created moves

/-- A ledger that stays. -/
theorem Moves.quiet (h : s'.token = s.token) : Moves s s' [] where
  balance a := by simp [h]
  supply := by simp [h]

/-- One journal after the other. -/
theorem Moves.trans {s₂ : LiquidStakingToken H} {moves moves' : List (Movement AccountId)}
    (h : Moves s s₁ moves) (h' : Moves s₁ s₂ moves') : Moves s s₂ (moves ++ moves') where
  balance a := by rw [h'.balance a, h.balance a, effect_append, add_assoc]
  supply := by
    have hfirst := h.supply
    have hthen := h'.supply
    rw [created_append, destroyed_append]
    omega

/-- The order of a journal does not matter. -/
theorem Moves.perm {moves moves' : List (Movement AccountId)} (h : Moves s s' moves)
    (hperm : moves.Perm moves') : Moves s s' moves' where
  balance a := by rw [← effect_perm hperm, h.balance a]
  supply := by rw [← created_perm hperm, ← destroyed_perm hperm, h.supply]

/-- Movements of nothing may be added. -/
theorem Moves.cons_zero {moves : List (Movement AccountId)} (h : Moves s s' moves)
    {m : Movement AccountId} (hzero : m.amount = 0) : Moves s s' (m :: moves) where
  balance a := by rw [h.balance a, effect_cons, m.effect_of_amount hzero, zero_add]
  supply := by
    rw [destroyed_cons, created_cons, m.destroys_of_amount hzero, m.creates_of_amount hzero,
      zero_add, zero_add, h.supply]

/-- A transfer, as a journal. -/
theorem Moves.transfer {a b : AccountId} {n : ℕ} (h : n ≤ s.token.ftBalanceOf a)
    (htoken : s'.token = s.token.move a b n) : Moves s s' [.transfer a b n] where
  balance c := by
    have hmove := ftBalanceOf_move_sub (b := b) h c
    rw [effect_cons, effect_nil, Movement.effect_transfer, htoken]
    omega
  supply := by simp [htoken]

/-- A burn, as a journal. -/
theorem Moves.destroy {a : AccountId} {n : ℕ} (h : n ≤ s.token.ftBalanceOf a)
    (hsupply : n ≤ s.token.totalSupply) (htoken : s'.token = s.token.burn a n) :
    Moves s s' [.destroy a n] where
  balance c := by
    have hburn := ftBalanceOf_burn_sub h c
    rw [effect_cons, effect_nil, Movement.effect_destroy, htoken]
    omega
  supply := by
    have hburned : s'.token.totalSupply = s.token.totalSupply - n := by rw [htoken]; rfl
    simp only [destroyed_cons, destroyed_nil, Movement.destroys_destroy, created_cons,
      created_nil, Movement.creates_destroy]
    omega

/-- A mint, as a journal. -/
theorem Moves.create {a : AccountId} {n : ℕ} (htoken : s'.token = s.token.mint a n) :
    Moves s s' [.create a n] where
  balance c := by
    have hmint := ftBalanceOf_mint_sub (t := s.token) (a := a) (n := n) c
    rw [effect_cons, effect_nil, Movement.effect_create, htoken]
    omega
  supply := by simp [htoken]

/-- LST leave with the account that unregisters. -/
theorem Moves.unregister {a : AccountId} (h : s.token.ftBalanceOf a ≤ s.token.totalSupply)
    (htoken : s'.token = s.token.unregister a) :
    Moves s s' [.destroy a (s.token.ftBalanceOf a)] where
  balance c := by
    rw [effect_cons, effect_nil, Movement.effect_destroy, htoken,
      FungibleToken.ftBalanceOf_unregister]
    split_ifs with hc
    · rw [hc]
      omega
    · omega
  supply := by
    have hburned : s'.token.totalSupply = s.token.totalSupply - s.token.ftBalanceOf a := by
      rw [htoken]
      rfl
    simp only [destroyed_cons, destroyed_nil, Movement.destroys_destroy, created_cons,
      created_nil, Movement.creates_destroy]
    omega

/-- Nothing moves when an account is registered. -/
theorem Moves.registerIfNew (a : AccountId) (htoken : s'.token = (s.registerIfNew a).token) :
    Moves s s' [] where
  balance c := by
    have hsame : s'.token.ftBalanceOf c = s.token.ftBalanceOf c := by
      rw [htoken, LiquidStakingToken.registerIfNew_token]
      split
      · rfl
      · next hnew =>
          rw [FungibleToken.ftBalanceOf_register]
          split_ifs with hc
          · rw [hc, FungibleToken.ftBalanceOf_of_not_isRegistered (by simpa using hnew)]
          · rfl
    rw [effect_nil, add_zero, hsame]
  supply := by
    rw [htoken, registerIfNew_totalSupply]
    simp only [destroyed_nil, created_nil]

/-- A sync mints its fee. -/
theorem LiquidStakingToken.Synced.moves {result : LiquidStakingToken.SyncRewardsResult}
    (h : LiquidStakingToken.Synced env.epochHeight
      (env.accountLockedBalance + env.accountBalance) excluded s s₁ result) :
    Moves s s₁ [.create s.treasuryId (s.feeMinted (rewardIn env excluded s s₁))] := by
  rw [h.rewardIn_eq]
  cases h with
  | idle result none =>
      have hzero : result.recognized = 0 := by
        cases result with
        | rewardsSynced reward => exact absurd rfl (none reward)
        | _ => rfl
      rw [hzero, LiquidStakingToken.feeMinted_zero]
      exact .cons_zero (.quiet rfl) rfl
  | reward reward feeLst _ _ _ _ feeLst_eq =>
      subst feeLst_eq
      exact .create rfl

/-- Without a sync there is no fee. -/
theorem Moves.unsynced {moves : List (Movement AccountId)} (h : Moves s s' moves)
    (hsame : s'.statistics.lastEpochSynced = s.statistics.lastEpochSynced) :
    Moves s s' (.create s.treasuryId (s.feeMinted (rewardIn env excluded s s')) :: moves) := by
  rw [rewardIn_eq_zero hsame, LiquidStakingToken.feeMinted_zero]
  exact h.cons_zero rfl

/-- The executions of a trace moved what a journal lists, the newest first. -/
inductive Moved : List (PoolExecution H) → List (Movement AccountId) → Prop
  /-- Without an execution nothing moved. -/
  | nil : Moved [] []
  /-- The last execution, and what came before it. -/
  | cons {e : PoolExecution H} {trace : List (PoolExecution H)}
      {moves moves' : List (Movement AccountId)} (last : Moves e.before e.after moves)
      (earlier : Moved trace moves') : Moved (e :: trace) (moves ++ moves')

/-- What a chain has changed in the ledger is its journal. -/
theorem Moved.net_eq {c : PoolChain H} {moves : List (Movement AccountId)}
    (h : Moved c.trace moves) :
    (∀ a, c.net (fun s => s.token.ftBalanceOf a) = effect moves a) ∧
      c.net (fun s => s.token.totalSupply) =
        (Movements.created moves : ℤ) - Movements.destroyed moves := by
  unfold Chain.net
  generalize c.trace = trace at h
  induction h with
  | nil => exact ⟨fun _ => rfl, rfl⟩
  | cons last earlier ih =>
      refine ⟨fun a => ?_, ?_⟩
      · have hlast := last.balance a
        rw [List.map_cons, List.sum_cons, ih.1 a, effect_append]
        dsimp only
        omega
      · have hlast := last.supply
        rw [List.map_cons, List.sum_cons, ih.2, created_append, destroyed_append]
        dsimp only
        omega

/-- A resolver takes back what is unused and still there. -/
theorem FungibleToken.Resolved.moves {t : FungibleToken} {amount used burned : ℕ}
    {sender receiver : AccountId} {r : PromiseResult}
    (h : FungibleToken.Resolved (FungibleToken.unusedAmount (some r) amount) amount sender
      receiver s.token t used burned) (hbalanced : s.token.Balanced) (htoken : s'.token = t) :
    Moves s s' (if s.token.isRegistered sender then
      [.transfer receiver sender (s.refundOf receiver amount r)]
    else [.destroy receiver (s.refundOf receiver amount r)]) := by
  cases h with
  | kept none =>
      have hzero : s.refundOf receiver amount r = 0 := by
        unfold LiquidStakingToken.refundOf
        omega
      rw [hzero]
      split <;> exact .cons_zero (.quiet htoken) rfl
  | returned refund refund_eq pos registered =>
      rw [if_pos registered]
      subst refund_eq
      exact .transfer (min_le_left _ _) htoken
  | burned refund refund_eq pos gone =>
      rw [gone, if_neg Bool.false_ne_true]
      subst refund_eq
      exact .destroy (min_le_left _ _) ((min_le_left _ _).trans (hbalanced.ftBalanceOf_le _))
        htoken

/-- What a resolver reports as used is what it does not take back. -/
theorem FungibleToken.Resolved.refund_eq {t : FungibleToken} {amount used burned : ℕ}
    {sender receiver : AccountId} {r : PromiseResult}
    (h : FungibleToken.Resolved (FungibleToken.unusedAmount (some r) amount) amount sender
      receiver s.token t used burned) (hregistered : s.token.isRegistered sender = true) :
    amount - used = s.refundOf receiver amount r := by
  have hle := FungibleToken.unusedAmount_le (some r) amount
  cases h with
  | kept none =>
      unfold LiquidStakingToken.refundOf
      omega
  | returned refund refund_eq pos registered =>
      unfold LiquidStakingToken.refundOf
      omega
  | burned refund refund_eq pos gone =>
      rw [hregistered] at gone
      cases gone

/-- Burned here and minted there is moved. -/
theorem FungibleToken.mint_burn_eq_move {t : FungibleToken} {a b : AccountId} {n : ℕ}
    (h : n ≤ t.totalSupply) : (t.burn a n).mint b n = t.move a b n := by
  simp only [FungibleToken.move, FungibleToken.mint, FungibleToken.burn, Nat.sub_add_cancel h]

/-- An unstake mints the fee of its sync, and burns its LST. -/
theorem Unstakes.moves {message : UnstakeMessage} {u : UnstakeOrder H}
    (h : Unstakes host env s message s₁ u) :
    Moves s (u.burn host s₁)
      [.create s.treasuryId (s.feeMinted (rewardIn env 0 s (u.burn host s₁))),
        .destroy host.currentAccountId u.lstAmount] := by
  obtain ⟨result, synced⟩ := h.synced
  exact Moves.trans synced.moves (.destroy h.lst_le h.supply_le rfl)

variable [DecidableEq H]

/-- **The journal of a call from outside.**

The first movement is the fee of its sync, which is zero when there was none. -/
theorem Entry.moves {m : Method H} (h : Entry host env s m s' p side)
    (hbalanced : s.token.Balanced) :
    Moves s s' (.create s.treasuryId
        (s.feeMinted (rewardIn env (m.excludes env.attachedDeposit) s s')) ::
      m.journal env s s') := by
  cases h with
  | stake args s₁ result o synced => exact synced.moves
  | pingIdle result s₁ synced | ping reward s₁ synced => exact synced.moves
  | setFee feeBps s₁ result admin yocto capped synced =>
      exact ⟨synced.moves.balance, synced.moves.supply⟩
  | setKey key s₁ result admin yocto synced =>
      exact ⟨synced.moves.balance, synced.moves.supply⟩
  | transfer receiverId amount memo moved | transferCall receiverId amount memo msg moved =>
      obtain ⟨-, -, -, -, hle, -⟩ := LiquidStakingToken.transferTokens_eq_ok moved
      exact Moves.unsynced (.transfer hle rfl) rfl
  | storageNew accountId registrationOnly fresh => exact Moves.unsynced (.registerIfNew _ rfl) rfl
  | unregister force holders =>
      have hgone : ((s.withToken (s.token.unregister env.predecessorAccountId)
          holders).subBalance host.storageBalanceMin).token.isRegistered
            env.predecessorAccountId = false := by
        show (s.token.unregister env.predecessorAccountId).isRegistered _ = false
        simp [FungibleToken.isRegistered_unregister]
      refine Moves.unsynced ?_ rfl
      unfold Method.journal Method.burns
      dsimp only
      rw [hgone, if_neg Bool.false_ne_true]
      exact .unregister (hbalanced.ftBalanceOf_le _) rfl
  | unregisterNone force =>
      have hsame : Moves s (s.addBalance oneYocto) [] := .quiet rfl
      refine Moves.unsynced (hsame.cons_zero ?_) rfl
      show (if s.token.isRegistered env.predecessorAccountId then 0
        else s.token.ftBalanceOf env.predecessorAccountId) = 0
      cases hregistered : s.token.isRegistered env.predecessorAccountId with
      | true => rfl
      | false => exact FungibleToken.ftBalanceOf_of_not_isRegistered hregistered
  | _ => exact Moves.unsynced (.quiet rfl) rfl

/-- **The journal of a callback.**

A resolver is the only one whose movement depends on the ledger it finds. -/
theorem Advance.moves (h : Advance host env s p s' p' side) (hbalanced : s.token.Balanced)
    (hpool : s.token.isRegistered host.currentAccountId = true) :
    Moves s s' (.create s.treasuryId (s.feeMinted (rewardIn env 0 s s')) :: p.journal host s) := by
  cases h with
  | unwrapQuoted ok s₁ result o synced => exact synced.moves
  | unwrapRejected ok s₁ result synced => exact ⟨synced.moves.balance, synced.moves.supply⟩
  | minted => exact Moves.unsynced (.create rfl) rfl
  | @mintedRegistering o =>
      have hregister : Moves s (s.registerIfNew o.args.receiverId) [] := .registerIfNew _ rfl
      exact Moves.unsynced (hregister.trans (.create rfl)) rfl
  | keptOnPool ok gone =>
      refine Moves.unsynced ?_ rfl
      simp only [Phase.journal, ok, gone, if_true, Bool.false_eq_true, if_false]
      exact .quiet rfl
  | handedOver ok registered escrow | handedOverCall ok registered escrow =>
      refine Moves.unsynced ?_ rfl
      simp only [Phase.journal, ok, registered, if_true]
      exact .transfer escrow
        (FungibleToken.mint_burn_eq_move (escrow.trans (hbalanced.ftBalanceOf_le _)))
  | rolledBack failed escrow supply =>
      refine Moves.unsynced ?_ rfl
      simp only [Phase.journal, failed, Bool.false_eq_true, if_false]
      exact .destroy escrow supply rfl
  | acceptedAsIs noRefund =>
      refine Moves.unsynced ?_ rfl
      simp only [Phase.journal, noRefund, Option.isSome_none, Bool.false_eq_true, if_false]
      exact .quiet rfl
  -- The receiver used everything, so the journal has a transfer of nothing.
  | @nothingRefused lstTokens args r message message_eq t used burned resolved all =>
      have hback : Moves s (s.retokenBoth t host.currentAccountId args.receiverId) _ :=
        resolved.moves hbalanced rfl
      have hnone : s.refundOf args.receiverId lstTokens r = 0 := by
        rw [← resolved.refund_eq hpool, Nat.sub_eq_zero_of_le all]
      rw [if_pos hpool] at hback
      refine Moves.unsynced ?_ rfl
      simp only [Phase.journal, message_eq, Option.isSome_some, if_true]
      exact (hback.cons_zero hnone).perm (.swap ..)
  | @refused lstTokens args r message message_eq t used burned resolved s₁ u lst_eq trigger_eq
      unstakes =>
      have hback : Moves s (s.retokenBoth t host.currentAccountId args.receiverId) _ :=
        resolved.moves hbalanced rfl
      -- The resolver comes first, and leaves the books that the fee depends on.
      have hfee : ∀ reward,
          (s.retokenBoth t host.currentAccountId args.receiverId).feeMinted reward =
            s.feeMinted reward :=
        LiquidStakingToken.feeMinted_congr ⟨rfl, rfl⟩ (resolved.totalSupply_eq hpool)
      have hunstake := unstakes.moves
      rw [hfee, lst_eq, resolved.refund_eq hpool] at hunstake
      rw [if_pos hpool] at hback
      simp only [Phase.journal, message_eq, Option.isSome_some, if_true]
      exact (hback.trans hunstake).perm (.swap ..)
  | resolved t used burned resolved => exact Moves.unsynced (resolved.moves hbalanced rfl) rfl
  | unstakeRequested message parsed s₁ u lst_eq trigger_eq unstakes =>
      have hmoves := unstakes.moves
      rw [lst_eq] at hmoves
      exact hmoves
  | queued ok =>
      refine Moves.unsynced ?_ rfl
      simp only [Phase.journal, ok, if_true]
      exact .quiet rfl
  | undone failed bounded =>
      refine Moves.unsynced ?_ rfl
      simp only [Phase.journal, failed, Bool.false_eq_true, if_false]
      exact .create rfl
  | _ => exact Moves.unsynced (.quiet rfl) rfl

end Steps

/-! ## Runs -/

section Reaches

variable {H : Type} [DecidableEq H] {host : Host H} {d : Deployment host}
  {events : List (PoolEvent H)} {sys : PoolSystem H} {c : PoolChain H} {e : PoolExecution H}
  {Good : PoolEvent H → Prop}

/-- **The journal of an event** is what it does to the ledger.

A receipt that panics or runs elsewhere has an empty one. -/
theorem Deployment.moves_turn (turn : d.Turn Good events sys c e) :
    Moves e.before e.after (journal host ⟨c, e⟩) := by
  have hsound := d.turn_sound turn
  obtain ⟨rest, hhead⟩ := turn.fires.tasks_eq
  have hread := turn.fires.input_eq
  have hfee : feeMintedBy ⟨c, e⟩ =
      e.before.feeMinted (rewardIn e.context (excludedBy e.task) e.before e.after) := rfl
  cases d.transition turn with
  | entered m p side deposit gas fresh task_eq deposit_eq external entry next verdict =>
      obtain ⟨ret, hverdict⟩ := verdict
      obtain ⟨-, -, hexcluded, -⟩ := entered_flow host (c := c) task_eq
        (hread.trans (by rw [fresh]; rfl)) hverdict
      have hphase : phaseOf host c = none := by
        rw [fresh]
        simp only [phaseOf, Chain.single, phaseOfCall, task_eq]
      have hentry := entry.moves hsound.balanced
      rw [deposit_eq, ← hexcluded, ← hfee] at hentry
      simpa only [journal, hverdict, hphase, task_eq] using hentry
  | advanced p p' side now self advance next verdict =>
      obtain ⟨ret, hverdict⟩ := verdict
      obtain ⟨-, -, hexcluded, -⟩ := Phase.committed_flow advance now.valid now.tasks_eq
        now.input_eq hhead hread hverdict
      have hadvance := advance.moves hsound.balanced
        (hsound.registered _ (List.mem_singleton_self _))
      rw [← hexcluded, ← hfee] at hadvance
      simpa only [journal, hverdict, now.phaseOf_eq] using hadvance
  | panicked p now here self verdict same | answered p r now away verdict same =>
      simp only [journal, verdict]
      exact .quiet (congrArg _ same)

/-- **The LST ledger is its journal.**  In every reachable state each account
holds what it held at first and what the movements of the run did to it, and the
supply has grown by what they created and shrunk by what they destroyed.

Nothing is assumed of the run.  The journal of an event is read off its phase,
its arguments and the result it waited for, and not off the change of the
ledger. -/
theorem Deployment.ledger_eq_journal (run : d.Reaches events sys) :
    Moves d.state sys.state (events.flatMap (journal host)) where
  balance a := by
    have htally := run.tally_eq (fun s => (s.token.ftBalanceOf a : ℤ))
      (fun ev => effect (journal host ev) a) (fun _ => 0)
      (fun (turn : d.Turn (fun _ => True) _ _ _ _) => by
        rw [add_zero]
        exact ((d.moves_turn turn).balance a).symm) fun _ _ => trivial
    rw [List.sum_map_zero, add_zero] at htally
    rw [effect_flatMap]
    exact htally.symm
  supply := by
    have htally := run.tally_eq (fun s => s.token.totalSupply)
      (fun ev => Movements.created (journal host ev))
      (fun ev => Movements.destroyed (journal host ev))
      (fun (turn : d.Turn (fun _ => True) _ _ _ _) => (d.moves_turn turn).supply.symm)
      fun _ _ => trivial
    rw [created_flatMap, destroyed_flatMap]
    exact htally.symm

/-- The treasury unstakes 40 of its 100 LST: they go to the pool and vanish
there. -/
theorem Deployment.ledger_eq_journal_sample :
    Moves samplePool.state (samplePool.played (sampleUnstake "native") rfl).2.state
      ((samplePool.played (sampleUnstake "native") rfl).1.flatMap (journal sampleHost)) ∧
    (samplePool.played (sampleUnstake "native") rfl).2.state.token.totalSupply = 60 :=
  ⟨samplePool.ledger_eq_journal (samplePool.played_reaches (sampleUnstake "native") rfl),
    by decide +kernel⟩

end Reaches

end LiquidStaking
