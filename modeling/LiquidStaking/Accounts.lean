import LiquidStaking.Reachable

/-!
# The LST ledger over runs

Whatever happens, the LST supply is what the accounts hold together, and the
pool and the treasury stay registered: nobody can unregister them, every mint
goes to a registered account, and no burn takes more than an account holds.
-/

namespace LiquidStaking

open Checked PromiseChain

section Steps

variable {H : Type} {host : Host H} {env : Env} {s s' : LiquidStakingToken H}
  {keepers : List AccountId}

/-- A sync mints at most to the treasury. -/
theorem LiquidStakingToken.Synced.sound {epoch balance excluded : ℕ}
    {result : LiquidStakingToken.SyncRewardsResult}
    (hsync : LiquidStakingToken.Synced epoch balance excluded s s' result)
    (h : s.token.Sound keepers) : s'.token.Sound keepers := by
  cases hsync with
  | idle => exact h
  | reward reward feeLst => exact h.mint s.treasuryId feeLst

/-- A registration adds an account without a balance. -/
theorem LiquidStakingToken.registerIfNew_sound (h : s.token.Sound keepers) (a : AccountId) :
    (s.registerIfNew a).token.Sound keepers := by
  rw [LiquidStakingToken.registerIfNew_token]
  split_ifs with hreg
  · exact h
  · exact h.register (by simpa using hreg)

variable [DecidableEq H]

/-- A call from outside keeps the ledger sound, unless a keeper that is not the
treasury calls; the pool does not call from outside. -/
theorem Entry.sound {m : Method H} {p : Phase H} {side : List (Receipt H)}
    (hentry : Entry host env s m s' p side)
    (hkeeper : env.predecessorAccountId ∈ keepers → env.predecessorAccountId = s.treasuryId)
    (h : s.token.Sound keepers) : s'.token.Sound keepers := by
  cases hentry with
  | stake args s₁ result o synced => exact synced.sound h
  | pingIdle result s₁ synced | ping reward s₁ synced => exact synced.sound h
  | setFee feeBps s₁ result _ _ _ synced => exact synced.sound h
  | setKey key s₁ result _ _ synced => exact synced.sound (s := s.withKey key) h
  | transfer receiverId amount memo moved | transferCall receiverId amount memo msg moved =>
      exact h.move (LiquidStakingToken.transferTokens_eq_ok moved).2.2.2.2.1
  | storageNew accountId registrationOnly fresh =>
      exact LiquidStakingToken.registerIfNew_sound h _
  | unregister force holders yocto registered ordinary =>
      exact h.unregister fun hmem => ordinary (hkeeper hmem)
  | _ => exact h

/-- So does a callback: it mints to the pool or the treasury, moves what is
there, and burns what is there. -/
theorem Advance.sound {p p' : Phase H} {side : List (Receipt H)}
    (hadvance : Advance host env s p s' p' side) (h : s.token.Sound keepers) :
    s'.token.Sound keepers := by
  cases hadvance with
  | unwrapQuoted ok s₁ result o synced => exact synced.sound h
  | unwrapRejected ok s₁ result synced => exact synced.sound h
  | minted => exact h.mint _ _
  | mintedRegistering => exact (LiquidStakingToken.registerIfNew_sound h _).mint _ _
  | handedOver ok registered escrow | handedOverCall ok registered escrow =>
      exact (h.burn escrow).mint _ _
  | rolledBack failed escrow => exact h.burn escrow
  | nothingRefused message _ t used burned resolved => exact resolved.sound h
  | resolved t used burned resolved => exact resolved.sound h
  | refused message _ t used burned resolved s₁ u _ _ unstakes =>
      obtain ⟨result, synced⟩ := unstakes.synced
      have hrefunded : t.Sound keepers := resolved.sound h
      exact (synced.sound hrefunded).burn unstakes.lst_le
  | unstakeRequested message _ s₁ u _ _ unstakes =>
      obtain ⟨result, synced⟩ := unstakes.synced
      exact (synced.sound h).burn unstakes.lst_le
  | undone => exact h.mint _ _
  | _ => exact h

end Steps

section Reaches

variable {H : Type} [DecidableEq H] {host : Host H} {d : Deployment host}
  {events : List (PoolEvent H)} {sys : PoolSystem H}

/-- The accounts nobody can remove. -/
def Deployment.keepers (d : Deployment host) : List AccountId :=
  [host.currentAccountId, d.treasuryId]

/-- One execution keeps the ledger sound. -/
theorem Transition.sound {c : PoolChain H} {e : PoolExecution H} {wnear : AccountId}
    (htransition : Transition host wnear c e) (htreasury : e.before.treasuryId = d.treasuryId)
    (h : e.before.token.Sound d.keepers) : e.after.token.Sound d.keepers := by
  cases htransition with
  | entered m p side deposit gas fresh task_eq deposit_eq external entry =>
      refine entry.sound (fun hmem => ?_) h
      rcases List.mem_cons.mp hmem with hpool | htreasury'
      · exact absurd hpool external
      · rw [htreasury, List.mem_singleton.mp htreasury']
  | advanced p p' side now self advance => exact advance.sound h
  | panicked p now here self verdict same => exact same ▸ h
  | answered p r now away verdict same => exact same ▸ h

/-- **The LST ledger is sound** in every reachable state.

In particular the pool and the treasury are registered, so a mint or a refund to
them does not panic. -/
theorem Deployment.sound (run : d.Reaches events sys) : sys.state.token.Sound d.keepers := by
  refine run.forall_state (I := fun s => s.token.Sound d.keepers) ?_
    (fun turn ih => ?_) fun _ _ => trivial
  · refine ⟨d.initial.balanced, fun a ha => (d.initial.registered_iff a).mpr ?_⟩
    simpa [Deployment.keepers] using ha
  · refine (d.transition turn).sound ?_ ih
    rw [turn.fires.before_eq, (d.phased turn.run).treasuryId_eq]

/-- The pool stays registered on its own token. -/
theorem Deployment.pool_registered (run : d.Reaches events sys) :
    sys.state.token.isRegistered host.currentAccountId = true :=
  (d.sound run).registered _ (by simp [Deployment.keepers])

end Reaches

end LiquidStaking
