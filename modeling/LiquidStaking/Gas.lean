import LiquidStaking.Reachable

/-!
# The gas check covers the whole chain

`stake`, `ft_on_transfer` from wNEAR and `withdraw` check their gas once, before
anything is sent; every later receipt of the chain has only the static gas that
the receipt before it attached.  `Affords` says that a receipt attaches to the
calls it schedules no more than it was promised itself, with `GAS_RESERVE` left
for its own work.

The reservation and the attachments are computed in different places of the
code, from the same message, with saturating additions.  What carries the
argument along a chain is `Phase.GasReady`: a sum that passed the check did not
saturate (`stakeGas_exact`), and the notification of a receiver gets at least
`FT_TRANSFER_CALL_GAS_MIN`, which is what the pool's own `ft_on_transfer` needs
when it is that receiver.
-/

namespace LiquidStaking

open Checked PromiseChain

/-! ## Gas of receipts -/

section Receipts

variable {H : Type}

/-- The static gas attached to an action. -/
def Action.gas : Action H → ℕ
  | .call _ _ gas => gas
  | _ => 0

/-- The static gas a receipt is promised. -/
def Receipt.gas (t : Receipt H) : ℕ := (t.actions.map Action.gas).sum

theorem Action.gas_single (m : Method H) (deposit gas : ℕ) :
    ([Action.call m deposit gas].map Action.gas).sum = gas := by
  simp [Action.gas]

@[simp] theorem Receipt.gas_call (receiver : AccountId) (m : Method H) (deposit gas : ℕ) :
    (Receipt.call receiver m deposit gas).gas = gas := Action.gas_single m deposit gas

theorem StakeOrder.batch_gas (host : Host H) (o : StakeOrder) (refundTo : Option AccountId) :
    (o.batch host refundTo).gas =
      (if o.args.isStorageDeposit then storageDepositGas else 0) + modifyStateAfterStakeGas := by
  unfold Receipt.gas StakeOrder.batch
  rw [List.map_append, List.map_append, List.sum_append, List.sum_append, Action.gas_single]
  congr 1
  cases o.depositToken with
  | native | wnear =>
      refine (zero_add _).trans ?_
      split_ifs
      · exact Action.gas_single _ _ _
      · rfl

/-- A receipt that calls a function. -/
def Receipt.isCall (t : Receipt H) : Bool := t.actions.any Action.isCall

/-- With calls among the receipts it schedules, a receipt needs their gas and
the reserve.

The reserve stands for the receipt's own work after it has scheduled them. -/
def Affords (promised : ℕ) (scheduled : List (Receipt H)) : Prop :=
  scheduled.any Receipt.isCall = true →
    (scheduled.map Receipt.gas).sum + gasReserve ≤ promised

/-- Payments and validator actions cost the receipt nothing. -/
theorem Affords.of_no_calls {promised : ℕ} {scheduled : List (Receipt H)}
    (h : scheduled.any Receipt.isCall = false) : Affords promised scheduled := by
  intro hcalls
  rw [h] at hcalls
  cases hcalls

/-- Payments on the side do not count. -/
theorem Affords.append_paying {promised : ℕ} {scheduled side : List (Receipt H)}
    (h : Affords promised scheduled) (hside : Paying side) :
    Affords promised (scheduled ++ side) := by
  have hpay : ∀ t ∈ side, t.isCall = false ∧ t.gas = 0 := by
    intro t ht
    obtain ⟨receiver, amount, rfl⟩ := hside t ht
    exact ⟨rfl, rfl⟩
  have hgas : (side.map Receipt.gas).sum = 0 := by
    refine List.sum_eq_zero fun n hn => ?_
    obtain ⟨t, ht, rfl⟩ := List.mem_map.mp hn
    exact (hpay t ht).2
  have hcall : side.any Receipt.isCall = false :=
    List.any_eq_false.mpr fun t ht => by simp [(hpay t ht).1]
  intro hcalls
  rw [List.any_append, hcall, Bool.or_false] at hcalls
  rw [List.map_append, List.sum_append, hgas]
  exact h hcalls

end Receipts

/-! ## Sums that do not saturate -/

/-- The largest amount of gas: `u64::MAX`. -/
def gasMax : ℕ := 2 ^ 64 - 1

/-- A sum below the maximum is exact. -/
theorem Gas.satAdd_eq {a b : ℕ} (h : Gas.satAdd a b < gasMax) : Gas.satAdd a b = a + b := by
  unfold Gas.satAdd saturatingAdd gasMax at *
  omega

theorem ftTransferCallGasMin_le (minGas : Option ℕ) :
    ftTransferCallGasMin ≤ calculateMinGas minGas true := le_max_right _ _

/-- The gas sums of a stake are those of its parts. -/
structure StakeGasExact (args : StakeMessage) : Prop where
  /-- What is set aside for the callback of the validator action. -/
  callback : onRestakeOrRefundGas args =
    if args.msg.isSome then
      gasReserve + calculateMinGas args.minGas true + onFtOnTransferGas
    else onRestakeOrRefundGasMin
  /-- What is set aside for the callback of the batch. -/
  restake : Gas.satAdd gasReserve (onRestakeOrRefundGas args) =
    gasReserve + onRestakeOrRefundGas args
  /-- What is checked at the start. -/
  total : stakeGas args =
    gasReserve + modifyStateAfterStakeGas + gasReserve + onRestakeOrRefundGas args +
      if args.isStorageDeposit then storageDepositGas else 0

/-- No addition in `stake_gas` saturates below the maximum.

Each sum is below the one that was compared with the gas, and that one is below
the maximum. -/
theorem stakeGas_exact {args : StakeMessage} (h : stakeGas args < gasMax) :
    StakeGasExact args := by
  have htotal : stakeGas args =
      Gas.satAdd (Gas.satAdd gasReserve modifyStateAfterStakeGas) gasReserve +
        onRestakeOrRefundGas args + if args.isStorageDeposit then storageDepositGas else 0 := by
    unfold stakeGas at h ⊢
    dsimp only at h ⊢
    split_ifs at h ⊢
    · have houter := Gas.satAdd_eq h
      rw [houter, Gas.satAdd_eq (a := Gas.satAdd (Gas.satAdd _ _) _) (by omega)]
    · rw [Gas.satAdd_eq h, Nat.add_zero]
  have hfixed : Gas.satAdd (Gas.satAdd gasReserve modifyStateAfterStakeGas) gasReserve =
      gasReserve + modifyStateAfterStakeGas + gasReserve := by decide
  have hcallback : onRestakeOrRefundGas args + gasReserve < gasMax := by
    omega
  refine ⟨?_, ?_, by rw [htotal, hfixed]⟩
  · unfold onRestakeOrRefundGas at hcallback ⊢
    split_ifs at hcallback ⊢
    · have hsum := Gas.satAdd_eq (b := onFtOnTransferGas) (show Gas.satAdd (Gas.satAdd gasReserve
        (calculateMinGas args.minGas true)) onFtOnTransferGas < gasMax by omega)
      rw [hsum, Gas.satAdd_eq (by omega)]
    · rfl
  · refine saturatingAdd_of_lt ?_
    unfold gasMax at hcallback
    omega

/-- The callback of the validator action can refund in wNEAR. -/
theorem StakeGasExact.reserve_le {args : StakeMessage} (h : StakeGasExact args) :
    2 * gasReserve ≤ onRestakeOrRefundGas args := by
  rw [h.callback]
  have hmin : 2 * gasReserve ≤ onRestakeOrRefundGasMin := by decide
  have hcall : gasReserve ≤ onFtOnTransferGas := by decide
  split_ifs <;> omega

/-- What a withdrawal attaches at most, its reserve included.

The delivery batch may leave out a step, and then attaches less. -/
def withdrawGasTotal {H : Type} (host : Host H) (args : UnstakeMessage) : ℕ :=
  gasReserve +
    match args.withdrawTokens with
    | .native => onWithdrawNativeGas
    | .wnear isStorageDeposit msg _ minGas =>
        nearDepositGas + onWithdrawWnearGas +
          if args.receiverId ≠ host.currentAccountId then
            calculateMinGas minGas msg.isSome + if isStorageDeposit then storageDepositGas else 0
          else 0

/-- No addition in `withdraw_gas` saturates below the maximum. -/
theorem withdrawGas_exact {H : Type} {host : Host H} {args : UnstakeMessage}
    (h : LiquidStakingToken.withdrawGas host args < gasMax) :
    LiquidStakingToken.withdrawGas host args = withdrawGasTotal host args := by
  unfold LiquidStakingToken.withdrawGas withdrawGasTotal at *
  dsimp only at h ⊢
  have houter := Gas.satAdd_eq h
  rw [houter] at h ⊢
  have hfixed : Gas.satAdd nearDepositGas onWithdrawWnearGas =
      nearDepositGas + onWithdrawWnearGas := by decide
  clear houter
  generalize args.withdrawTokens = tokens at h ⊢
  cases tokens with
  | native => rfl
  | wnear isStorageDeposit msg memo minGas =>
      dsimp only at h ⊢
      rw [hfixed] at h ⊢
      split_ifs at h ⊢
      · have hlast := Gas.satAdd_eq (show Gas.satAdd (Gas.satAdd (nearDepositGas +
          onWithdrawWnearGas) (calculateMinGas minGas msg.isSome)) storageDepositGas < gasMax
          by omega)
        rw [hlast, Gas.satAdd_eq (by omega)]
        omega
      · rw [Gas.satAdd_eq (by omega)]
        omega
      · rfl

/-! ## One receipt -/

section Steps

variable {H : Type} [DecidableEq H] {host : Host H} {env : Env} {s s' : LiquidStakingToken H}
  {p p' : Phase H} {side : List (Receipt H)} {wnear : AccountId}

/-- What is known of the gas in a phase: the sums of its message are exact, and
a notification has the minimum.

This is the invariant that the check at the start leaves behind for the
callbacks. -/
def Phase.GasReady : Phase H → Prop
  | .unwrapping _ _ args | .unwrapped _ _ args _ => StakeGasExact args
  | .batching o _ | .batched o _ => StakeGasExact o.args
  | .restaking m _ _ | .restaked m _ => StakeGasExact m.args
  | .sending _ _ _ _ gas _ => ftTransferCallGasMin ≤ gas
  | _ => True

omit [DecidableEq H] in
/-- The message does not change when a receipt ends. -/
theorem Phase.GasReady.settle (h : p.GasReady) (r : PromiseResult) : (p.settle r).GasReady := by
  cases p <;> first | exact h | trivial

/-- A callback hands its message on. -/
theorem Advance.gasReady (h : Advance host env s p s' p' side) (hready : p.GasReady) :
    p'.GasReady := by
  cases h with
  | unwrapQuoted ok s₁ result o synced quoted sender_eq args_eq =>
      show StakeGasExact o.args
      exact args_eq ▸ hready
  | handedOverCall ok registered escrow msg msg_eq => exact ftTransferCallGasMin_le _
  | @rolledBack m r =>
      cases m.depositToken with
      | native | wnear => trivial
  | minted | mintedRegistering | restake => exact hready
  | _ => trivial

omit [DecidableEq H] in
/-- A receipt that returned a value scheduled nothing. -/
theorem Phase.next_eq_nil {t : Receipt H} {rest next : List (Receipt H)} {r : PromiseResult}
    (htasks : p.tasks host wnear = t :: rest)
    (hnext : (p.settle r).tasks host wnear = next ++ rest) : next = [] := by
  rw [p.tasks_settle, htasks] at hnext
  exact List.self_eq_append_left.mp hnext

omit [DecidableEq H] in
/-- The two receipts of a refund in wNEAR. -/
theorem Affords.rewrapping {promised amount : ℕ} (h : 2 * gasReserve ≤ promised) :
    Affords promised ((Phase.rewrapping amount : Phase H).tasks host wnear) := by
  intro _
  simp only [Phase.tasks, List.map_cons, List.map_nil, List.sum_cons, List.sum_nil,
    Receipt.gas_call]
  have hgas : nearDepositGas + refundWnearDepositGas = gasReserve := by decide
  omega

omit [DecidableEq H] in
/-- The receipts of an unstake. -/
theorem Affords.unstaking (wnear : AccountId) {promised amount : ℕ} {key : PublicKey}
    {u : UnstakeOrder H}
    (h : ftTransferCallGasMin ≤ promised) :
    Affords promised ((Phase.unstaking u amount key .finish).tasks host wnear) := by
  intro _
  have hgas : onUnstakeGas + gasReserve = ftTransferCallGasMin := by decide
  simp only [Phase.tasks, Continuation.tasks, LiquidStakingToken.onUnstakeCall, List.map_cons,
    List.map_nil, List.sum_cons, List.sum_nil, Receipt.gas_call]
  have hstake : (⟨host.currentAccountId, [.stake amount key], none⟩ : Receipt H).gas = 0 := rfl
  omega

/-- **A callback attaches no more than it was promised**, with the reserve left.

A callback that goes on to the validator attaches gas to its own callback only,
since a validator action takes none. -/
theorem Advance.affords (h : Advance host env s p s' p' side) (hready : p.GasReady)
    {t : Receipt H} {rest next : List (Receipt H)} (htasks : p.tasks host wnear = t :: rest)
    (hnext : p'.tasks host wnear = next ++ rest) : Affords t.gas next := by
  cases h with
  | unwrapQuoted ok s₁ result o synced quoted sender_eq args_eq =>
      obtain ⟨rfl, rfl⟩ := List.cons.inj htasks
      rw [List.append_nil] at hnext
      subst hnext args_eq
      have htotal := hready.total
      have hrestake := hready.restake
      intro _
      simp only [Phase.tasks, List.map_cons, List.map_nil, List.sum_cons, List.sum_nil,
        Receipt.gas_call, StakeOrder.batch_gas, StakeOrder.restakeCall]
      omega
  | @unwrapRejected senderId amount args =>
      obtain ⟨rfl, rfl⟩ := List.cons.inj htasks
      rw [List.append_nil] at hnext
      subst hnext
      have htotal : stakeGas args = _ := hready.total
      refine .rewrapping ?_
      rw [Receipt.gas_call]
      omega
  | @restake o =>
      obtain ⟨rfl, rfl⟩ := List.cons.inj htasks
      rw [List.append_nil] at hnext
      subst hnext
      have hrestake : Gas.satAdd gasReserve (onRestakeOrRefundGas o.args) = _ := hready.restake
      intro _
      have hstake : (⟨host.currentAccountId, [.stake s.statistics.totalStakedAmount
        s.validatorPublicKey], none⟩ : Receipt H).gas = 0 := rfl
      simp only [Phase.tasks, List.map_cons, List.map_nil, List.sum_cons, List.sum_nil,
        MintedStake.settleCall, StakeOrder.restakeCall, Receipt.gas_call]
      omega
  | @restakeRefund o =>
      obtain ⟨rfl, rfl⟩ := List.cons.inj htasks
      rw [List.append_nil] at hnext
      subst hnext
      have hready : StakeGasExact o.args := hready
      refine .rewrapping ?_
      rw [StakeOrder.restakeCall, Receipt.gas_call, hready.restake]
      have hcallback := hready.reserve_le
      omega
  | @handedOverCall m r ok registered escrow msg msg_eq =>
      obtain ⟨rfl, rfl⟩ := List.cons.inj htasks
      rw [List.append_nil] at hnext
      subst hnext
      have hready : StakeGasExact m.args := hready
      intro _
      simp only [Phase.tasks, Continuation.tasks, List.map_cons, List.map_nil, List.sum_cons,
        List.sum_nil, MintedStake.settleCall, Receipt.gas_call, hready.callback, msg_eq,
        Option.isSome_some, if_true]
      omega
  | @rolledBack m =>
      obtain ⟨rfl, rfl⟩ := List.cons.inj htasks
      have hready : StakeGasExact m.args := hready
      rw [List.append_nil] at hnext
      subst hnext
      cases m.depositToken with
      | native => exact .of_no_calls rfl
      | wnear => exact .rewrapping hready.reserve_le
  | refused =>
      obtain ⟨rfl, rfl⟩ := List.cons.inj htasks
      rw [List.append_nil] at hnext
      subst hnext
      refine .unstaking wnear ?_
      rw [Receipt.gas_call]
      decide
  | unstakeRequested =>
      obtain ⟨rfl, rfl⟩ := List.cons.inj htasks
      -- The continuation behind the unstake is the rest of the old chain.
      obtain rfl := @List.append_cancel_right _ [_, _] _ _ hnext
      exact .unstaking wnear hready
  | stop =>
      obtain ⟨rfl, rfl⟩ := List.cons.inj htasks
      rw [List.append_nil] at hnext
      subst hnext
      exact .of_no_calls rfl
  | _ =>
      obtain rfl := Phase.next_eq_nil htasks hnext
      exact .of_no_calls rfl

omit [DecidableEq H] in
/-- An optional call costs at most its gas. -/
theorem Action.gas_optional_le (c : Prop) [Decidable c] (m : Method H) (deposit gas : ℕ) :
    ((if c then [Action.call m deposit gas] else []).map Action.gas).sum ≤ gas := by
  split_ifs
  · exact (Action.gas_single m deposit gas).le
  · exact Nat.zero_le _

omit [DecidableEq H] in
/-- The batch of a wNEAR delivery needs no more than was checked for. -/
theorem Attempt.batch_gas_le (host : Host H) (wnear : AccountId) {a : Attempt}
    (hwrapped : a.args.withdrawTokens ≠ .native) :
    (a.batch host wnear : Receipt H).gas + onWithdrawWnearGas + gasReserve ≤
      withdrawGasTotal host a.args := by
  obtain ⟨isStorageDeposit, msg, memo, minGas, htokens⟩ : ∃ isStorageDeposit msg memo minGas,
      a.args.withdrawTokens = .wnear isStorageDeposit msg memo minGas := by
    cases htokens : a.args.withdrawTokens with
    | native => exact absurd htokens hwrapped
    | wnear isStorageDeposit msg memo minGas => exact ⟨_, _, _, _, rfl⟩
  have hmsg : a.msg = msg := by simp [Attempt.msg, htokens]
  have hmin : a.minGas = minGas := by simp [Attempt.minGas, htokens]
  have hdeposit := Action.gas_optional_le (0 < a.amountToNearDeposit)
    (.nearDeposit : Method H) a.amountToNearDeposit nearDepositGas
  unfold withdrawGasTotal Receipt.gas Attempt.batch LiquidStakingToken.deliveryActions
  rw [htokens, List.map_append, List.map_append, List.sum_append, List.sum_append]
  dsimp only
  -- The batch has up to three actions, and the sum that `withdraw` checks has a
  -- term for each of them.
  by_cases hself : a.args.receiverId = host.currentAccountId
  · have hisSelf : a.isSelf host = true := decide_eq_true hself
    simp only [hisSelf, hself, ne_eq, not_true_eq_false, if_false, if_true, and_false,
      Bool.true_eq_false, List.map_nil, List.sum_nil]
    omega
  · have hisSelf : a.isSelf host = false := decide_eq_false hself
    have hstorage : ((if 0 < a.storageToPay ∧ a.isSelf host = false then
        [Action.call (.storageDeposit (some a.args.receiverId) none : Method H) a.storageToPay
          storageDepositGas] else []).map Action.gas).sum ≤
        if isStorageDeposit then storageDepositGas else 0 := by
      by_cases hasks : isStorageDeposit = true
      · rw [if_pos hasks]
        exact Action.gas_optional_le _ _ _ _
      · have hnone : a.storageToPay = 0 := by
          simp [Attempt.storageToPay, Attempt.asksStorage, htokens, hasks]
        simp [hnone]
    rw [hmsg, hmin, if_pos hself, if_neg (show ¬a.isSelf host = true by simp [hisSelf])]
    cases msg with
    | some text =>
        have hcall : a.isCall host = true := by simp [Attempt.isCall, hisSelf, hmsg]
        have htransfer := Action.gas_single (.ftTransferCall a.args.receiverId a.amountToSend
          a.memo text : Method H) oneYocto (calculateMinGas minGas true)
        simp only [hcall, Option.isSome_some]
        omega
    | none =>
        have hcall : a.isCall host = false := by simp [Attempt.isCall, hmsg]
        have htransfer := Action.gas_single (.ftTransfer a.args.receiverId a.amountToSend
          a.memo : Method H) oneYocto (calculateMinGas minGas false)
        simp only [hcall, Option.isSome_none]
        omega

/-- The methods that check their gas before they send anything. -/
def Method.ChecksGas : Method H → Prop
  | .stake _ | .ftOnTransfer _ _ _ | .withdraw _ => True
  | _ => False

/-- The sums such a method compares with its gas are exact. -/
def Method.GasExact (host : Host H) : Method H → Prop
  | .stake args => StakeGasExact args
  | .ftOnTransfer _ _ msg => ∃ args, host.parseStakeMessage msg = some args ∧
      StakeGasExact args ∧ Gas.satAdd (Gas.satAdd gasReserve nearWithdrawGas) (stakeGas args) =
        gasReserve + nearWithdrawGas + stakeGas args
  | .withdraw args => LiquidStakingToken.withdrawGas host args = withdrawGasTotal host args
  | _ => True

/-- A withdrawal that committed has passed its check. -/
theorem withdraw_gas_le {args : UnstakeMessage} {o : Outcome H}
    (h : s.withdraw host env.arriving args = .ok o) :
    LiquidStakingToken.withdrawGas host args ≤ env.prepaidGas - env.usedGas := by
  simp only [LiquidStakingToken.withdraw, bind_eq_ok] at h
  obtain ⟨_, -, _, hgas, -⟩ := h
  exact require_eq_ok.mp hgas

/-- **A call from outside** attaches no more than the gas it checked for.

Its gas is below the largest number of its word, and a sum that passed the check
is then exact. -/
theorem Entry.affords {m : Method H} {o : Outcome H}
    (h : Entry host env s m s' p side) (hcall : callMethod host env.arriving s m = .ok o)
    (hstarts : ∀ next, o.ret = .promise next → p.tasks host s.wnearId = next)
    (hchecks : m.ChecksGas) (hlimit : env.prepaidGas < gasMax) :
    m.GasExact host ∧ p.GasReady ∧
      Affords (env.prepaidGas - env.usedGas) (p.tasks host s.wnearId) := by
  simp only [callMethod, bind_eq_ok] at hcall
  obtain ⟨_, -, hcall⟩ := hcall
  cases h with
  | stake args s₁ result order synced quoted sender_eq args_eq =>
      subst args_eq
      simp only [LiquidStakingToken.stake, bind_eq_ok] at hcall
      obtain ⟨_, -, _, -, _, hgas, -⟩ := hcall
      -- The check compares with the saturated sum, and below the limit that is
      -- the sum.
      have hle : stakeGas order.args ≤ env.prepaidGas - env.usedGas := require_eq_ok.mp hgas
      have hexact := stakeGas_exact (show stakeGas order.args < gasMax by omega)
      refine ⟨hexact, hexact, ?_⟩
      intro _
      have htotal := hexact.total
      have hrestake := hexact.restake
      simp only [Phase.tasks, List.map_cons, List.map_nil, List.sum_cons, List.sum_nil,
        Receipt.gas_call, StakeOrder.batch_gas, StakeOrder.restakeCall]
      omega
  | book senderId amount msg args fromWnear room =>
      simp only [LiquidStakingToken.ftOnTransfer, bind_eq_ok] at hcall
      obtain ⟨_, -, hcall⟩ := hcall
      rw [if_pos (show env.arriving.predecessorAccountId = s.wnearId from fromWnear)] at hcall
      simp only [LiquidStakingToken.handleStaking, bind_eq_ok, expect_eq_ok, pure_eq_ok] at hcall
      obtain ⟨args', hparsed, _, -, _, hgas, s₁, -, rfl⟩ := hcall
      have htasks := hstarts _ rfl
      obtain ⟨-, rfl, -⟩ : s.wnearId = s₁.wnearId ∧ args = args' ∧
          stakeGas args = stakeGas args' := by
        simpa [Phase.tasks, Receipt.call] using htasks
      have hle : Gas.satAdd (Gas.satAdd gasReserve nearWithdrawGas) (stakeGas args) ≤
          env.prepaidGas - env.usedGas := require_eq_ok.mp hgas
      have hsum := Gas.satAdd_eq (show Gas.satAdd (Gas.satAdd gasReserve nearWithdrawGas)
        (stakeGas args) < gasMax by omega)
      -- A stake of wNEAR also has to pay for the unwrapping.
      have hfixed : Gas.satAdd gasReserve nearWithdrawGas = gasReserve + nearWithdrawGas := by
        decide
      rw [hfixed] at hsum hle
      have hexact := stakeGas_exact (show stakeGas args < gasMax by omega)
      refine ⟨⟨args, hparsed, hexact, hfixed ▸ hsum⟩, hexact, ?_⟩
      intro _
      simp only [Phase.tasks, List.map_cons, List.map_nil, List.sum_cons, List.sum_nil,
        Receipt.gas_call]
      omega
  | withdrawNative a q native =>
      have hle := withdraw_gas_le hcall
      have hexact := withdrawGas_exact (show LiquidStakingToken.withdrawGas host a.args < gasMax
        by omega)
      refine ⟨hexact, trivial, ?_⟩
      intro _
      have hpay : (Receipt.pay a.args.receiverId a.tranche.withdrawalAmount : Receipt H).gas = 0 :=
        rfl
      have htotal : withdrawGasTotal host a.args = gasReserve + onWithdrawNativeGas := by
        simp only [withdrawGasTotal, native]
      simp only [Phase.tasks, LiquidStakingToken.withdrawNative, List.map_cons, List.map_nil,
        List.sum_cons, List.sum_nil, Receipt.gas_call]
      omega
  | withdrawWnear a q wrapped =>
      have hle := withdraw_gas_le hcall
      have hexact := withdrawGas_exact (show LiquidStakingToken.withdrawGas host a.args < gasMax
        by omega)
      refine ⟨hexact, trivial, ?_⟩
      intro _
      have hbatch := Attempt.batch_gas_le host s.wnearId wrapped
      simp only [Phase.tasks, LiquidStakingToken.onWithdrawWnearCall, List.map_cons,
        List.map_nil, List.sum_cons, List.sum_nil, Receipt.gas_call]
      omega
  | _ => exact hchecks.elim

end Steps

/-! ## Whole chains -/

section Reaches

variable {H : Type} [DecidableEq H] {host : Host H} {d : Deployment host}
  {events : List (PoolEvent H)} {sys : PoolSystem H} {c : PoolChain H} {e : PoolExecution H}

/-- An execution schedules no more gas than it was promised. -/
def AffordsCalls (promised : ℕ) (e : PoolExecution H) : Prop :=
  Affords promised (e.next ++ e.detached)

/-- A call from outside to a method that checks its gas. -/
structure ChecksGas (host : Host H) (m : Method H) (e : PoolExecution H) : Prop where
  call : ∃ deposit gas, e.task.actions = [.call m deposit gas]
  checks : m.ChecksGas
  external : e.context.predecessorAccountId ≠ host.currentAccountId

/-- What holds of a chain in phase `p` that such a call started. -/
structure GasCovered (host : Host H) (m : Method H) (newer : List (PoolExecution H))
    (e₀ : PoolExecution H) (p : Phase H) : Prop where
  /-- Its callbacks can go on. -/
  ready : p.GasReady
  /-- The sums of its check are exact. -/
  exact : m.GasExact host
  /-- The call itself had enough. -/
  first : AffordsCalls (e₀.context.prepaidGas - e₀.context.usedGas) e₀
  /-- Every receipt so far had enough. -/
  later : ∀ e ∈ newer, AffordsCalls e.task.gas e

omit [DecidableEq H] in
/-- An execution that schedules nothing. -/
theorem AffordsCalls.of_not_committed (h : ∀ ret detached, e.verdict ≠ .committed ret detached)
    (promised : ℕ) : AffordsCalls promised e := by
  unfold AffordsCalls Execution.next Execution.detached
  cases hverdict : e.verdict with
  | committed ret detached => exact absurd hverdict (h ret detached)
  | panicked | answered r => exact .of_no_calls rfl

/-- The call that starts a chain. -/
theorem Deployment.gas_entered {Good : PoolEvent H → Prop} (turn : d.Turn Good events sys c e)
    {m m' : Method H} {p : Phase H} {side : List (Receipt H)} {deposit gas : ℕ}
    (fresh : c = Chain.single e.task) (htask : e.task.actions = [.call m deposit gas])
    (hdeposit : e.context.attachedDeposit = deposit)
    (entry : Entry host e.context e.before m e.after p side)
    (next : Describes host d.wnearId (c.resume e) p)
    (hverdict : ∃ ret, e.verdict = .committed ret side) (hchecks : ChecksGas host m' e)
    (hlimit : e.context.prepaidGas < gasMax) : GasCovered host m' [] e p := by
  obtain ⟨ret, hverdict⟩ := hverdict
  obtain ⟨_, _, htask'⟩ := hchecks.call
  obtain rfl : m = m' := by
    rw [htask] at htask'
    simp only [List.cons.injEq, Action.call.injEq, and_true] at htask'
    exact htask'.1
  obtain ⟨hbefore, hinput, -, hlegal, -⟩ := turn.fires
  simp only [Platform.Legal, hverdict, hinput, fresh, Chain.single] at hlegal
  have hcall := execute_call htask hlegal.2.2
  rw [← hdeposit] at hcall
  have hwnear : e.before.wnearId = d.wnearId := by
    rw [hbefore, (d.phased turn.run).wnearId_eq]
  have htasks : p.tasks host e.before.wnearId = e.next := by
    rw [hwnear, ← next.tasks_eq, Chain.resume_tasks, fresh]
    exact List.append_nil _
  obtain ⟨hexact, hready, haffords⟩ := entry.affords hcall
    (fun next' hret => by
      rw [htasks, Execution.next, hverdict]
      obtain rfl : ret = .promise next' := hret
      rfl) hchecks.checks hlimit
  refine ⟨hready, hexact, ?_, by simp⟩
  have hside : e.detached = side := by rw [Execution.detached, hverdict]
  unfold AffordsCalls
  rw [hside, ← htasks]
  exact haffords.append_paying entry.paying

/-- Every chain that such a call started is covered so far. -/
theorem Deployment.gas_ready (run : d.Reaches events sys) :
    ∀ c ∈ sys.chains, ∀ p, Describes host d.wnearId c p → ∀ newer e₀ m,
      c.trace = newer ++ [e₀] → ChecksGas host m e₀ → e₀.context.prepaidGas < gasMax →
        GasCovered host m newer e₀ p := by
  refine (d.invariant_turn (I := fun _ => True) (K := fun c p => ∀ newer e₀ m,
    c.trace = newer ++ [e₀] → ChecksGas host m e₀ → e₀.context.prepaidGas < gasMax →
      GasCovered host m newer e₀ p) trivial ?_ ?_ run fun _ _ => trivial).2
  · intro c receiver amount htrace newer e₀ m hsplit
    rw [htrace] at hsplit
    simp at hsplit
  intro events s c e turn _ ih
  -- A scheduled receipt is not the call that started the chain.
  have hlater : ∀ {p p'}, Describes host d.wnearId c p →
      e.context.predecessorAccountId = host.currentAccountId →
      (p.GasReady → p'.GasReady ∧ AffordsCalls e.task.gas e) → ∀ newer e₀ m,
      (c.resume e).trace = newer ++ [e₀] → ChecksGas host m e₀ → e₀.context.prepaidGas < gasMax →
        GasCovered host m newer e₀ p' := by
    intro p p' now hself hstep newer e₀ m htrace hchecks hlimit
    rw [Chain.resume_trace] at htrace
    cases newer with
    | nil =>
        obtain ⟨rfl, -⟩ := List.cons.inj htrace
        exact absurd hself hchecks.external
    | cons e' newer =>
        obtain ⟨rfl, htail⟩ := List.cons.inj htrace
        have hbefore := ih p now newer e₀ m htail hchecks hlimit
        obtain ⟨hready, haffords⟩ := hstep hbefore.ready
        refine ⟨hready, hbefore.exact, hbefore.first, fun e' hmem => ?_⟩
        rcases List.mem_cons.mp hmem with rfl | hmem
        · exact haffords
        · exact hbefore.later e' hmem
  have hself : (∀ ret detached, e.verdict ≠ .committed ret detached) →
      e.context.predecessorAccountId = host.currentAccountId := by
    intro hverdict
    cases turn.origin with
    | fresh eq accepted commits =>
        obtain ⟨ret, detached, hcommitted⟩ := commits
        exact absurd hcommitted (hverdict ret detached)
    | inFlight mem resumed => simpa [platform] using resumed
  refine ⟨trivial, fun p' hp' => ?_⟩
  cases d.transition turn with
  | entered m p side deposit gas fresh task_eq deposit_eq external entry next verdict spawned =>
      obtain rfl := hp'.unique next
      intro newer e₀ m' htrace hchecks hlimit
      rw [Chain.resume_trace, fresh] at htrace
      obtain ⟨rfl, rfl⟩ : newer = [] ∧ e₀ = e := by
        cases newer with
        | nil =>
            obtain ⟨rfl, -⟩ := List.cons.inj htrace
            exact ⟨rfl, rfl⟩
        | cons e' newer => simp [Chain.single] at htrace
      exact d.gas_entered turn fresh task_eq deposit_eq entry next verdict hchecks hlimit
  | advanced p p'' side now self advance next verdict spawned =>
      obtain rfl := hp'.unique next
      refine hlater now self fun hready => ⟨advance.gasReady hready, ?_⟩
      obtain ⟨ret, hverdict⟩ := verdict
      obtain ⟨rest, htasks⟩ := turn.fires.tasks_eq
      have hnext := next.tasks_eq
      rw [Chain.resume_tasks, htasks] at hnext
      have hside : e.detached = side := by rw [Execution.detached, hverdict]
      unfold AffordsCalls
      rw [hside]
      exact (advance.affords hready (now.tasks_eq.symm.trans htasks)
        hnext.symm).append_paying advance.paying
  | panicked p now here self verdict same next spawned =>
      obtain rfl := hp'.unique next
      have hverdict : ∀ ret detached, e.verdict ≠ .committed ret detached := by simp [verdict]
      exact hlater now self fun hready => ⟨hready.settle _, .of_not_committed hverdict _⟩
  | answered p r now away verdict same next spawned =>
      obtain rfl := hp'.unique next
      have hverdict : ∀ ret detached, e.verdict ≠ .committed ret detached := by simp [verdict]
      exact hlater now (hself hverdict) fun hready =>
        ⟨hready.settle _, .of_not_committed hverdict _⟩

/-- **The gas check covers the whole promise tree.**  In a chain that a `stake`,
a deposit of wNEAR or a `withdraw` started, the sums that were checked are
exact; the first receipt attaches to its calls at most the gas it had left when
it checked, and every later one at most its own static gas, `GAS_RESERVE`
included.

The chain may have run to any point, through failures and panics, and other
chains may have run in between.  The theorem is about static gas, as the code
counts it: what a receipt burns for its own instructions is what the reserve is
for. -/
theorem Deployment.gas_covered (run : d.Reaches events sys) (hmem : c ∈ sys.chains)
    {newer : List (PoolExecution H)} {e₀ : PoolExecution H} {m : Method H}
    (htrace : c.trace = newer ++ [e₀]) (hchecks : ChecksGas host m e₀)
    (hlimit : e₀.context.prepaidGas < gasMax) :
    m.GasExact host ∧ AffordsCalls (e₀.context.prepaidGas - e₀.context.usedGas) e₀ ∧
      ∀ e ∈ newer, AffordsCalls e.task.gas e := by
  obtain ⟨p, hp⟩ := (d.phased run).described c hmem
  have hcovered := d.gas_ready run c hmem p hp newer e₀ m htrace hchecks hlimit
  exact ⟨hcovered.exact, hcovered.first, hcovered.later⟩

/-- The withdrawal of the sample pool as wNEAR. -/
theorem Deployment.gas_covered_sample :
    ∃ c ∈ (samplePool.played samplePayout rfl).2.chains, ∃ newer e₀,
      c.trace = newer ++ [e₀] ∧ AffordsCalls (tgas 300) e₀ ∧
        ∀ e ∈ newer, AffordsCalls e.task.gas e := by
  have hmem : ∃ c ∈ (samplePool.played samplePayout rfl).2.chains, ∃ newer e₀,
      c.trace = newer ++ [e₀] ∧
        ChecksGas sampleHost (.withdraw ⟨"bob", .wnear false none none none⟩) e₀ ∧
        e₀.context.prepaidGas = tgas 300 ∧ e₀.context.usedGas = 0 :=
    ⟨_, .tail _ (.head _), [_, _], _, rfl, ⟨⟨0, 0, rfl⟩, trivial, by decide⟩, rfl, rfl⟩
  obtain ⟨c, hmem, newer, e₀, htrace, hchecks, hprepaid, hused⟩ := hmem
  obtain ⟨-, hfirst, hlater⟩ := samplePool.gas_covered
    (samplePool.played_reaches samplePayout rfl) hmem htrace hchecks (by rw [hprepaid]; decide)
  rw [hprepaid, hused] at hfirst
  exact ⟨c, hmem, newer, e₀, htrace, hfirst, hlater⟩

end Reaches

end LiquidStaking
