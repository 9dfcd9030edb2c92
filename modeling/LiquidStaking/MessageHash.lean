import LiquidStaking.Entitled
import LiquidStaking.Lib.Borsh

/-!
# The hash of a message

The key of the queue is the Keccak-256 of the Borsh bytes of the unstake
message.  The bytes give the message back, so two messages share a key only if
Keccak-256 has one digest for two different strings of bytes; everything the
queue does per hash, it then does per message.

For a native payout this can be said per account: there is one message that pays
an account natively, and the account is never paid more than was unstaked with
exactly this message.

* `UnstakeMessage.borsh_round_trip` — which messages have bytes, and that these
  are read back.
* `Deployment.receiver_paid_le` — what withdrawals pay an account.
-/

namespace LiquidStaking

open Checked PromiseChain Borsh

/-! ## The format -/

/-- The payout: no fields for the native token, and four for wNEAR.

The order of the fields and of the variants is that of their declarations, which
is what `derive` goes by. -/
def WithdrawTokens.codec : Codec WithdrawTokens :=
  (Codec.unit.sum (Codec.bool.pair (Codec.string.option.pair (Codec.string.option.pair
    (Codec.word 8).option)))).iso
    (fun | .inl _ => .native | .inr v => .wnear v.1 v.2.1 v.2.2.1 v.2.2.2)
    (fun
      | .native => .inl ()
      | .wnear isStorageDeposit msg memo minGas => .inr (isStorageDeposit, msg, memo, minGas))
    (by rintro (_ | _) <;> rfl) (by rintro (_ | _) <;> rfl)

/-- The message: the receiver, which the reader checks to be an account id, and
the payout. -/
def UnstakeMessage.codec (isAccountId : String → Bool) : Codec UnstakeMessage :=
  ((Codec.string.guarded isAccountId).pair WithdrawTokens.codec).iso
    (fun v => ⟨v.1, v.2⟩) (fun message => (message.receiverId, message.withdrawTokens))
    (fun _ => rfl) (fun _ => rfl)

/-- The lengths and the gas of a message fit their words. -/
def WithdrawTokens.Fits : WithdrawTokens → Prop
  | .native => True
  | .wnear _ msg memo minGas =>
      (∀ s ∈ msg, s.utf8ByteSize < 2 ^ 32) ∧ (∀ s ∈ memo, s.utf8ByteSize < 2 ^ 32) ∧
        ∀ gas ∈ minGas, gas < 2 ^ 64

/-- A message the contract can be given.

Its bytes carry lengths in words of four bytes, so no longer text has an
encoding. -/
structure UnstakeMessage.Fits (isAccountId : String → Bool) (message : UnstakeMessage) : Prop where
  isAccountId : isAccountId message.receiverId = true
  length_lt : message.receiverId.utf8ByteSize < 2 ^ 32
  tokens : message.withdrawTokens.Fits

section Format

variable {isAccountId : String → Bool} {message : UnstakeMessage}

/-- A payout has bytes exactly if its fields fit. -/
theorem WithdrawTokens.isSome_encode (tokens : WithdrawTokens) :
    (WithdrawTokens.codec.encode tokens).isSome = true ↔ tokens.Fits := by
  cases tokens with
  | native => simp [codec, Fits]
  | wnear isStorageDeposit msg memo minGas =>
      simp [codec, Fits, Option.all_eq_true]

/-- A message has bytes exactly if it fits. -/
theorem UnstakeMessage.isSome_encode :
    ((codec isAccountId).encode message).isSome = true ↔ message.Fits isAccountId := by
  have htokens := WithdrawTokens.isSome_encode message.withdrawTokens
  constructor
  · intro h
    simp only [codec, Codec.isSome_iso, Codec.isSome_pair, Codec.isSome_guarded,
      Codec.isSome_string, Bool.and_eq_true, decide_eq_true_eq] at h
    exact ⟨h.1.1, h.1.2, htokens.mp h.2⟩
  · rintro ⟨hid, hlength, hfits⟩
    simpa [codec, hid, htokens.mpr hfits] using hlength

/-- **The bytes of a message.** A message has bytes exactly if its account id is
one and its lengths fit their words.  Whatever follows them, the bytes are read
back as the message; what is read as a message begins with the bytes of that
message; and the bytes of one message do not begin those of another.

The last three are laws of every codec that is put together from lawful parts,
and the first is `UnstakeMessage.isSome_encode`. -/
theorem UnstakeMessage.borsh_round_trip (isAccountId : String → Bool) :
    (∀ message, (∃ bytes, (codec isAccountId).encode message = some bytes) ↔
      message.Fits isAccountId) ∧
    (∀ message bytes rest, (codec isAccountId).encode message = some bytes →
      (codec isAccountId).decode (bytes ++ rest) = some (message, rest)) ∧
    (∀ bytes message rest, (codec isAccountId).decode bytes = some (message, rest) →
      ∃ used, (codec isAccountId).encode message = some used ∧ bytes = used ++ rest) ∧
    ∀ message other x y, (codec isAccountId).encode message = some x →
      (codec isAccountId).encode other = some y → x <+: y → message = other := by
  refine ⟨?_, ?_, ?_, ?_⟩
  · intro message
    rw [← Option.isSome_iff_exists]
    exact isSome_encode
  · intro message bytes rest h
    exact (codec isAccountId).decode_encode h rest
  · intro bytes message rest h
    exact (codec isAccountId).encode_decode h
  · intro message other x y hx hy hbegins
    exact (codec isAccountId).prefix_free hx hy hbegins

/-- An account id has two to 64 characters; the separators are left out here. -/
private def sampleIsAccountId (s : String) : Bool :=
  decide (2 ≤ s.utf8ByteSize) && decide (s.utf8ByteSize ≤ 64) &&
    s.toList.all fun ch => ch.isLower || ch.isDigit

/-- The length and the characters of the account id, and the number of the
variant; then a byte that is not read. -/
theorem UnstakeMessage.borsh_round_trip_sample :
    (codec sampleIsAccountId).decode [3, 0, 0, 0, 98, 111, 98, 0, 7] =
      some (⟨"bob", .native⟩, [7]) :=
  (borsh_round_trip sampleIsAccountId).2.1 ⟨"bob", .native⟩ [3, 0, 0, 0, 98, 111, 98, 0] [7]
    (by decide +kernel)

end Format

/-! ## Payouts per account -/

section Reaches

variable {H : Type} {host : Host H} {isAccountId : String → Bool} {keccak : Bytes → H}
  {receiver : AccountId} {message : UnstakeMessage}

/-- `UnstakeMessage::hash`: the digest of the bytes.

Of a message without bytes nothing is said, since the contract cannot be given
one. -/
def HashesBytes (host : Host H) (isAccountId : String → Bool) (keccak : Bytes → H) : Prop :=
  ∀ message bytes, (UnstakeMessage.codec isAccountId).encode message = some bytes →
    host.hash message = keccak bytes

/-- The digest keeps the bytes of two messages apart.

This is asked for pairs of messages, since no digest keeps all of them apart. -/
def NoCollision (isAccountId : String → Bool) (keccak : Bytes → H)
    (message other : UnstakeMessage) : Prop :=
  ∀ x y, (UnstakeMessage.codec isAccountId).encode message = some x →
    (UnstakeMessage.codec isAccountId).encode other = some y → keccak x = keccak y → x = y

/-- A callback that settles a native payment. -/
def Receipt.settlesNative (t : Receipt H) : Bool :=
  match t.actions with
  | [.call (.onWithdrawNative _ _) _ _] => true
  | _ => false

/-- The NEAR that an event brings to an account from a native withdrawal.

A transfer counts if it succeeded and its chain goes on with
`on_withdraw_native`; refunds and what a registration did not cost do not. -/
def paidTo (receiver : AccountId) (ev : PoolEvent H) : ℕ :=
  match ev.execution.verdict, ev.execution.task.actions with
  | .answered r, [.transfer amount] =>
      if resultOk r = true ∧ ev.execution.task.receiver = receiver ∧
        ev.chain.tasks.tail.any Receipt.settlesNative = true then amount else 0
  | _, _ => 0

/-- Without a collision, messages with one hash are one message.

Equal bytes are read back as equal messages. -/
theorem HashesBytes.eq_of_hash (h : HashesBytes host isAccountId keccak) {other : UnstakeMessage}
    (hmessage : message.Fits isAccountId) (hother : other.Fits isAccountId)
    (hkeccak : NoCollision isAccountId keccak message other)
    (hhash : host.hash message = host.hash other) : message = other := by
  obtain ⟨x, hx⟩ := Option.isSome_iff_exists.mp (UnstakeMessage.isSome_encode.mpr hmessage)
  obtain ⟨y, hy⟩ := Option.isSome_iff_exists.mp (UnstakeMessage.isSome_encode.mpr hother)
  have hdigest : keccak x = keccak y := by rw [← h message x hx, ← h other y hy, hhash]
  obtain rfl := hkeccak x y hx hy hdigest
  exact (UnstakeMessage.codec isAccountId).encode_inj hx hy

variable [DecidableEq H] {d : Deployment host} {events : List (PoolEvent H)} {sys : PoolSystem H}

omit [DecidableEq H] in
/-- Only a native delivery waits for the settlement of a native payment. -/
theorem Phase.settlesNative_tail (host : Host H) (wnear : AccountId) (p : Phase H) :
    (∃ a, p = .deliveringNative a) ∨
      (p.tasks host wnear).tail.any Receipt.settlesNative = false := by
  cases p with
  | deliveringNative a => exact .inl ⟨a, rfl⟩
  | continuing k r | sending receiver senderId amount msg gas k | unstaking u amount key k
  | unstaked u k r => exact .inr (by cases k <;> rfl)
  | _ => exact .inr rfl

/-- What an account is paid natively is paid under the one message that asks for
it.

The message of a native payout has no other field than its receiver. -/
theorem Describes.paidTo_le {c : PoolChain H} {e : PoolExecution H} {wnear : AccountId}
    {p : Phase H} {r : PromiseResult} {rest : List (Receipt H)} (h : Describes host wnear c p)
    (hhead : c.tasks = e.task :: rest) (hverdict : e.verdict = .answered r) :
    paidTo receiver ⟨c, e⟩ ≤ paidUnder (host.hash ⟨receiver, .native⟩) ⟨c, e⟩ := by
  rcases p.settlesNative_tail host wnear with ⟨a, rfl⟩ | hnone
  · obtain ⟨htask, hrest⟩ := List.cons.inj (h.tasks_eq.symm.trans hhead)
    have hnative : a.args.withdrawTokens = .native := h.valid
    simp only [paidTo, paidUnder, hverdict, ← htask, Receipt.pay, hhead, List.tail_cons, ← hrest]
    split_ifs with hto hunder
    · exact le_rfl
    · -- The receiver and the payout are all there is to a message.
      refine absurd ⟨hto.1, ?_⟩ hunder
      have hargs : a.args = ⟨receiver, .native⟩ := by
        rw [← hto.2.1, ← hnative]
      simp [Receipt.settles, Receipt.call, Attempt.hash, hargs]
    · exact Nat.zero_le _
    · exact Nat.zero_le _
  · rw [← h.tasks_eq] at hnone
    have hzero : paidTo receiver ⟨c, e⟩ = 0 := by
      unfold paidTo
      split
      · exact if_neg (by simp [hnone])
      · rfl
    rw [hzero]
    exact Nat.zero_le _

/-- Every event of a run pays an account no more than it pays under that
message. -/
theorem Deployment.paidTo_le_paidUnder (run : d.Reaches events sys) (receiver : AccountId) :
    ∀ ev ∈ events, paidTo receiver ev ≤ paidUnder (host.hash ⟨receiver, .native⟩) ev := by
  refine run.forall_event (Q := fun ev => paidTo receiver ev ≤
    paidUnder (host.hash ⟨receiver, .native⟩) ev) ?_ fun _ _ => trivial
  intro events s c e (turn : d.Turn (fun _ => True) _ _ _ _)
  have hnone : (∀ r, e.verdict ≠ .answered r) → paidTo receiver ⟨c, e⟩ = 0 := by
    intro hne
    unfold paidTo
    split
    · next r _ hverdict _ => exact absurd hverdict (hne r)
    · rfl
  obtain ⟨rest, htasks⟩ := turn.fires.tasks_eq
  cases d.transition turn with
  | answered p r now away verdict => exact now.paidTo_le htasks verdict
  | entered m p side deposit gas fresh task_eq deposit_eq external entry next verdict
  | advanced p p' side now self advance next verdict =>
      obtain ⟨ret, verdict⟩ := verdict
      rw [hnone (by simp [verdict])]
      exact Nat.zero_le _
  | panicked p now here self verdict =>
      rw [hnone (by simp [verdict])]
      exact Nat.zero_le _

/-- **Nobody is paid what was not unstaked for them.** In every run without
forced releases of a pool that hashes the Borsh bytes of a message, as long as
the digest keeps the message that pays an account natively apart from the
messages of the run: the NEAR that withdrawals have brought to the account is at
most what was unstaked with exactly this message.

Per hash this is what the queue guarantees.  Without collisions the hash stands
for one message, and that message is the only one that pays the account
natively. -/
theorem Deployment.receiver_paid_le (run : d.Reaches events sys)
    (hforce : ∀ ev ∈ events, Unforced ev) (hhash : HashesBytes host isAccountId keccak)
    (receiver : AccountId) (hreceiver : UnstakeMessage.Fits isAccountId ⟨receiver, .native⟩)
    (hnamed : ∀ ev ∈ events, ∀ m ∈ ev.execution.task.names host, m.Fits isAccountId ∧
      NoCollision isAccountId keccak m ⟨receiver, .native⟩) :
    (events.map (paidTo receiver)).sum ≤
      (events.map (unstakedFor host ⟨receiver, .native⟩)).sum := by
  have hdistinct : ∀ ev ∈ events, Distinct host ⟨receiver, .native⟩ ev := by
    intro ev hev m hm hsame
    obtain ⟨hfits, hapart⟩ := hnamed ev hev m hm
    exact hhash.eq_of_hash hfits hreceiver hapart hsame
  have happended := d.appended_le run hdistinct
  have hdelivered := d.queued_add_delivered run hforce (host.hash ⟨receiver, .native⟩)
  have hpaid := d.paid_le run (host.hash ⟨receiver, .native⟩)
  have hunbooked := d.unbooked_le run hforce (host.hash ⟨receiver, .native⟩)
  rw [List.sum_map_add] at hpaid
  have hto := List.sum_le_sum (d.paidTo_le_paidUnder run receiver)
  omega

/-- A digest without collisions on messages: what the bytes are read as. -/
private def sampleKeccak (bytes : Bytes) : UnstakeMessage :=
  (((UnstakeMessage.codec sampleIsAccountId).decode bytes).map Prod.fst).getD ⟨"", .native⟩

/-- `bob` gets 40, and 40 were unstaked with the message that pays `bob`
natively. -/
theorem Deployment.receiver_paid_le_sample :
    ((samplePool.played (sampleUnstake "native" ++
        sampleWithdrawal ⟨"bob", .native⟩ (.successful .empty)) rfl).1.map (paidTo "bob")).sum =
          40 ∧
      40 ≤ ((samplePool.played (sampleUnstake "native" ++
        sampleWithdrawal ⟨"bob", .native⟩ (.successful .empty)) rfl).1.map
          (unstakedFor sampleHost ⟨"bob", .native⟩)).sum := by
  have hpaid : ((samplePool.played (sampleUnstake "native" ++
      sampleWithdrawal ⟨"bob", .native⟩ (.successful .empty)) rfl).1.map (paidTo "bob")).sum =
        40 := by
    decide +kernel
  have hnamed : ∀ ev ∈ (samplePool.played (sampleUnstake "native" ++
      sampleWithdrawal ⟨"bob", .native⟩ (.successful .empty)) rfl).1,
        ∀ m ∈ ev.execution.task.names sampleHost, m = ⟨"bob", .native⟩ := by
    decide +kernel
  have hbob : UnstakeMessage.Fits sampleIsAccountId ⟨"bob", .native⟩ :=
    ⟨by decide +kernel, by decide, trivial⟩
  have hhash : HashesBytes sampleHost sampleIsAccountId sampleKeccak := by
    intro message bytes hbytes
    have hread := (UnstakeMessage.codec sampleIsAccountId).decode_encode hbytes []
    rw [List.append_nil] at hread
    simp [sampleKeccak, hread, sampleHost]
  have hbound := samplePool.receiver_paid_le (samplePool.played_reaches (sampleUnstake "native" ++
    sampleWithdrawal ⟨"bob", .native⟩ (.successful .empty)) rfl) (by decide +kernel) hhash
      "bob" hbob fun ev hev m hm => by
        obtain rfl := hnamed ev hev m hm
        exact ⟨hbob, fun x y hx hy _ => Option.some.inj (hx.symm.trans hy)⟩
  exact ⟨hpaid, hpaid ▸ hbound⟩

end Reaches

end LiquidStaking
