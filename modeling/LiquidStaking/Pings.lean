import LiquidStaking.Pinger

/-!
# What the pinger does over a run

What the service is for is `changes`: how often the epoch id of the observed
blocks differs from the one before, beginning with the one in the file.  However
the two tasks interleave, every change is pinged for exactly once, or still
waits to be; a ping is tried until it succeeds, six times at most.  Once the
watcher has left its loop, the service stops after a bounded number of steps,
and by then nothing waits any more.  So a service that is stopped and started
again does what one service would have done.
-/

namespace LiquidStaking

namespace Pinger

/-! ## What the service is for -/

section Changes

variable {E : Type}

/-- The newest observation, or what was known before there was one; newest
first. -/
def latest (known : Option E) : List E → Option E
  | [] => known
  | id :: _ => some id

/-- How often an observation differs from what was known before it; newest
first.

An epoch id that comes back counts again, since the watcher compares with the
last one only. -/
def changes [DecidableEq E] (known : Option E) : List E → ℕ
  | [] => 0
  | id :: older => changes known older + if latest known older = some id then 0 else 1

/-- The newest of all is the newest of the newer ones, if there are any. -/
theorem latest_append (known : Option E) (newer older : List E) :
    latest known (newer ++ older) = latest (latest known older) newer := by
  cases newer <;> rfl

/-- Changes add up.

The newer observations begin with what the older ones left as known. -/
theorem changes_append [DecidableEq E] (known : Option E) (newer older : List E) :
    changes known (newer ++ older) =
      changes known older + changes (latest known older) newer := by
  induction newer with
  | nil => rfl
  | cons id newer ih => simp only [List.cons_append, changes, ih, latest_append, Nat.add_assoc]

end Changes

/-! ## What has happened -/

section History

variable {E B : Type} (codec : Codec E B)

/-- The epoch id of the block that the watcher handled, if it did and the block
was good. -/
def Act.observed : Act B → List E
  | .poll (.next msg) => (codec.currentEpochId msg).toList
  | _ => []

/-- The epoch ids of the blocks that were handled; newest first. -/
def observed (acts : List (Act B)) : List E := acts.flatMap (Act.observed codec)

/-- The results of the transactions, for one notification after the other;
newest first.

A round begins when the sender receives a notification, and every transaction
after that belongs to it. -/
def rounds : List (Act B) → List (List TxResult)
  | [] => []
  | .recv (some .epochChanged) :: older => [] :: rounds older
  | .attempt result :: older =>
      match rounds older with
      | [] => []
      | round :: before => (result :: round) :: before
  | _ :: older => rounds older

/-- How the last write of the file ended. -/
def lastSave : List (Act B) → Option WriteResult
  | [] => none
  | .save result :: _ => some result
  | _ :: older => lastSave older

/-- The last write of the file, if there was one, was successful. -/
def Saved (acts : List (Act B)) : Prop := ∀ left, lastSave acts ≠ some (.failed left)

/-- A round is over: its last transaction succeeded, or six failed. -/
def Ended (round : List TxResult) : Prop :=
  (∀ result ∈ round.tail, result.isOk = false) ∧ round.length ≤ maxTimes + 1 ∧
    ((∃ result ∈ round.head?, result.isOk = true) ∨
      (∀ result ∈ round, result.isOk = false) ∧ round.length = maxTimes + 1)

end History

/-! ## Steps -/

section Steps

variable {E B : Type} {codec : Codec E B} {s s' : Service E} {act : Act B}

/-- Everything a step can do.

Every case has what the state was like before, and the state afterwards. -/
inductive Took (codec : Codec E B) (s : Service E) : Act B → Service E → Prop
  /-- The awaited event changes nothing but the stream: any block is of the
  known epoch. -/
  | looked (stream : Bool) (ended : Poll B) (selecting : s.watcher.awaits = .selecting)
      (known : ∀ id ∈ (Act.poll ended).observed codec, s.watcher.epochId = some id) :
      Took codec s (.poll ended) { s with watcher := { s.watcher with stream } }
  /-- The epoch id of the block is a new one. -/
  | detected (stream : Bool) (msg : B) (id : E) (selecting : s.watcher.awaits = .selecting)
      (decoded : codec.currentEpochId msg = some id) (changed : s.watcher.epochId ≠ some id) :
      Took codec s (.poll (.next msg))
        { s with watcher := { s.watcher with stream, awaits := .notifying id } }
  /-- The signal came. -/
  | interrupted (selecting : s.watcher.awaits = .selecting) :
      Took codec s .interrupt { s with watcher := s.watcher.breakLoop }
  /-- The watcher sent the notification; `sent` is whether it went in. -/
  | notified (id : E) (channel : Channel Message 10) (sent : Bool)
      (notifying : s.watcher.awaits = .notifying id)
      (send : s.channel.send .epochChanged = some (channel, sent)) :
      Took codec s .send { s with
        channel, watcher := { s.watcher with epochId := some id, awaits := .saving id } }
  /-- The file was written, or was not; the loop goes on. -/
  | saved (id : E) (result : WriteResult) (saving : s.watcher.awaits = .saving id) :
      Took codec s (.save result) { s with
        file := saveEpochId codec id result
        watcher := { s.watcher with awaits := .selecting } }
  /-- Likewise after the loop. -/
  | savedLast (id : E) (result : WriteResult) (saving : s.watcher.awaits = .savingLast id) :
      Took codec s (.save result) { s with
        file := saveEpochId codec id result
        watcher := { s.watcher with awaits := .stopping } }
  /-- The shutdown message was sent, and the watcher ends. -/
  | stopped (channel : Channel Message 10) (sent : Bool) (stopping : s.watcher.awaits = .stopping)
      (send : s.channel.send .shutdown = some (channel, sent)) :
      Took codec s .send { s with
        channel := channel.dropSender, watcher := { s.watcher with awaits := .stopped } }
  /-- The sender took a message out of the channel. -/
  | received (channel : Channel Message 10) (message : Option Message)
      (receiving : s.sender = .receiving) (recv : s.channel.recv = some (channel, message)) :
      Took codec s (.recv message) { s with
        sender := .handle message
        channel := if TxSender.handle message = .stopped then channel.dropReceiver
          else channel }
  /-- A transaction ended. -/
  | attempted (failures : ℕ) (result : TxResult) (pinging : s.sender = .pinging failures) :
      Took codec s (.attempt result) { s with sender := .retry failures result }

/-- A step of the sender. -/
theorem senderStep_took {sender : TxSender} (hsender : s.sender = sender)
    (h : s.senderStep sender act = some s') : Took codec s act s' := by
  unfold Service.senderStep at h
  split at h
  · obtain ⟨⟨channel, message⟩, hrecv, hmatch⟩ := Option.bind_eq_some_iff.mp h
    dsimp only at hmatch
    split at hmatch
    · next hmessage =>
        subst hmessage
        obtain rfl := Option.some.inj hmatch
        exact .received channel _ hsender hrecv
    · cases hmatch
  · obtain rfl := Option.some.inj h
    exact .attempted _ _ hsender
  · cases h

variable [DecidableEq E]

/-- An event, while the watcher selects. -/
theorem took_poll {ended : Poll B} (hselecting : s.watcher.awaits = .selecting) {stream : Bool}
    {event : Event B} (h : nextEvent s.watcher.stream ended = some (stream, event)) :
    Took codec s (.poll ended)
      { s with watcher := { s.watcher with stream }.handleEvent codec event } := by
  cases ended with
  | next msg =>
      simp only [nextEvent, Option.ite_none_right_eq_some, Option.some.injEq, Prod.mk.injEq] at h
      obtain ⟨-, rfl, rfl⟩ := h
      simp only [EpochWatcher.handleEvent]
      split
      · next hbad => exact .looked _ _ hselecting (by simp [Act.observed, hbad])
      · next id hgood =>
          split_ifs with hsame
          · exact .looked _ _ hselecting (by simp [Act.observed, hgood, hsame])
          · exact .detected _ _ id hselecting hgood hsame
  | nextFailed | created | createFailed =>
      simp only [nextEvent] at h
      split at h <;> cases h
      exact .looked _ _ hselecting (by simp [Act.observed])

/-- A step of the watcher. -/
theorem watcherStep_took {awaits : WatcherAt E} (hawaits : s.watcher.awaits = awaits)
    (h : s.watcherStep codec awaits act = some s') : Took codec s act s' := by
  unfold Service.watcherStep at h
  split at h
  · obtain ⟨⟨stream, event⟩, hevent, rfl⟩ := Option.map_eq_some_iff.mp h
    exact took_poll hawaits hevent
  · obtain rfl := Option.some.inj h
    exact .interrupted hawaits
  · obtain ⟨⟨channel, sent⟩, hsend, rfl⟩ := Option.map_eq_some_iff.mp h
    exact .notified _ channel sent hawaits hsend
  · obtain rfl := Option.some.inj h
    exact .saved _ _ hawaits
  · obtain rfl := Option.some.inj h
    exact .savedLast _ _ hawaits
  · obtain ⟨⟨channel, sent⟩, hsend, rfl⟩ := Option.map_eq_some_iff.mp h
    exact .stopped channel sent hawaits hsend
  · cases h

/-- **What one step does.**

The invariants are proved from this, without unfolding a step again. -/
theorem step_took (h : (machine codec).step s act = some s') : Took codec s act s' := by
  cases act with
  | recv | attempt => exact senderStep_took rfl h
  | poll | interrupt | send | save => exact watcherStep_took rfl h

end Steps

/-! ## Invariants -/

section Invariants

variable {E B : Type} {codec : Codec E B} {file : Option String} {s s' : Service E} {act : Act B}
  {acts : List (Act B)}

/-- The notifications that wait in the channel. -/
def Service.waiting (s : Service E) : ℕ := s.channel.queue.count .epochChanged

/-- The notification that waits for room in the channel. -/
def WatcherAt.notification : WatcherAt E → ℕ
  | .notifying _ => 1
  | _ => 0

/-- Where the two tasks are together.  The receiver outlives the watcher, and
the shutdown message comes last. -/
inductive Together (s : Service E) : Prop
  /-- Both tasks run, and there are only notifications in the channel. -/
  | working (n : ℕ) (watching : s.watcher.awaits ≠ .stopped) (here : s.sender ≠ .stopped)
      (queue_eq : s.channel.queue = List.replicate n .epochChanged)
      (receiver : s.channel.receiverDropped = false) (sender : s.channel.senderDropped = false)
  /-- The watcher has ended, and the sender has yet to read the shutdown
  message. -/
  | closing (n : ℕ) (watched : s.watcher.awaits = .stopped) (here : s.sender ≠ .stopped)
      (queue_eq : s.channel.queue = List.replicate n .epochChanged ++ [.shutdown])
      (receiver : s.channel.receiverDropped = false)
  /-- Both tasks have ended, and nothing is left in the channel. -/
  | done (watched : s.watcher.awaits = .stopped) (gone : s.sender = .stopped)
      (queue_eq : s.channel.queue = [])

/-- At the start both tasks run. -/
theorem Together.start (codec : Codec E B) (file : Option String) :
    Together (Service.start codec file) :=
  .working 0 (by simp [Service.start, EpochWatcher.new]) (by simp [Service.start]) rfl rfl rfl

/-- While the watcher has something to send, the receiver is there. -/
theorem Together.receiver (h : Together s) (hwatching : s.watcher.awaits ≠ .stopped) :
    s.channel.receiverDropped = false := by
  cases h with
  | working _ _ _ _ receiver => exact receiver
  | closing _ watched | done watched => exact absurd watched hwatching

/-- The sender after a message is stopped by the shutdown message only. -/
theorem TxSender.retry_ne_stopped (failures : ℕ) (result : TxResult) :
    TxSender.retry failures result ≠ .stopped := by
  unfold TxSender.retry
  split <;> simp

/-- A step that leaves the channel and the sender alone, before the watcher
stops. -/
theorem Together.watcher (h : Together s) (hbefore : s.watcher.awaits ≠ .stopped)
    (hchannel : s'.channel = s.channel) (hsender : s'.sender = s.sender)
    (hafter : s'.watcher.awaits ≠ .stopped) : Together s' := by
  cases h with
  | working n watching here queue_eq receiver sender =>
      exact .working n hafter (hsender ▸ here) (hchannel ▸ queue_eq) (hchannel ▸ receiver)
        (hchannel ▸ sender)
  | closing _ watched | done watched => exact absurd watched hbefore

/-- Every step keeps the tasks together. -/
theorem Together.step (h : Together s) (htook : Took codec s act s') : Together s' := by
  cases htook with
  | looked _ _ selecting => exact h.watcher (by simp [selecting]) rfl rfl (by simp [selecting])
  | detected _ _ _ selecting => exact h.watcher (by simp [selecting]) rfl rfl (by simp)
  | interrupted selecting =>
      refine h.watcher (by simp [selecting]) rfl rfl ?_
      simp only [EpochWatcher.breakLoop]
      split <;> simp
  | saved _ _ saving | savedLast _ _ saving =>
      exact h.watcher (by simp [saving]) rfl rfl (by simp)
  | notified id channel sent notifying send =>
      cases h with
      | working n watching here queue_eq receiver sender =>
          obtain ⟨-, -, hqueue, hsender, hreceiver⟩ := Channel.send_eq_some receiver send
          refine .working (n + 1) (by simp) here ?_ hreceiver (hsender.trans sender)
          show channel.queue = _
          rw [hqueue, queue_eq, List.replicate_succ']
      | closing _ watched | done watched => simp [notifying] at watched
  | stopped channel sent stopping send =>
      cases h with
      | working n watching here queue_eq receiver sender =>
          obtain ⟨-, -, hqueue, -, hreceiver⟩ := Channel.send_eq_some receiver send
          refine .closing n rfl here ?_ hreceiver
          show channel.queue = _
          rw [hqueue, queue_eq]
      | closing _ watched | done watched => simp [stopping] at watched
  | received channel message receiving recv =>
      cases h with
      | working n watching here queue_eq receiver sender =>
          rcases Channel.recv_eq_some recv with ⟨m, rfl, hqueue, hsender, hreceiver⟩ | hnone
          · rw [queue_eq] at hqueue
            cases n with
            | zero => cases hqueue
            | succ n =>
                obtain ⟨rfl, hrest⟩ := List.cons.inj hqueue
                exact .working n watching (by simp [TxSender.handle]) hrest.symm
                  (hreceiver.trans receiver) (hsender.trans sender)
          · simp [hnone.2.2.1] at sender
      | closing n watched here queue_eq receiver =>
          rcases Channel.recv_eq_some recv with ⟨m, rfl, hqueue, -, hreceiver⟩ | hnone
          · rw [queue_eq] at hqueue
            cases n with
            | zero =>
                obtain ⟨rfl, hrest⟩ := List.cons.inj hqueue
                exact .done watched rfl hrest.symm
            | succ n =>
                obtain ⟨rfl, hrest⟩ := List.cons.inj hqueue
                exact .closing n watched (by simp [TxSender.handle]) hrest.symm
                  (hreceiver.trans receiver)
          · simp [hnone.2.1] at queue_eq
      | done watched gone => simp [receiving] at gone
  | attempted failures result pinging =>
      have hrunning := TxSender.retry_ne_stopped failures result
      cases h with
      | working n watching here queue_eq receiver sender =>
          exact .working n watching hrunning queue_eq receiver sender
      | closing n watched here queue_eq receiver =>
          exact .closing n watched hrunning queue_eq receiver
      | done watched gone => simp [pinging] at gone

/-- The rounds, by what the sender is doing: all are over, but for the one it is
trying. -/
inductive Tried (s : Service E) (tried : List (List TxResult)) : Prop
  /-- The sender tries nothing. -/
  | idle (idle : ∀ failures, s.sender ≠ .pinging failures) (ended : ∀ round ∈ tried, Ended round)
  /-- The sender tries the newest round, which has only failures so far, and the
  count of the sender is theirs. -/
  | trying (round : List TxResult) (before : List (List TxResult))
      (pinging : s.sender = .pinging round.length) (tried_eq : tried = round :: before)
      (few : round.length ≤ maxTimes) (failed : ∀ result ∈ round, result.isOk = false)
      (ended : ∀ round ∈ before, Ended round)

/-- At the start there are no rounds. -/
theorem Tried.start (codec : Codec E B) (file : Option String) :
    Tried (Service.start codec file) [] :=
  .idle (by simp [Service.start]) (by simp)

/-- A step that leaves the sender alone tries nothing. -/
theorem Tried.of_sender {tried : List (List TxResult)} (h : Tried s tried)
    (hsender : s'.sender = s.sender) : Tried s' tried := by
  cases h with
  | idle idle ended => exact .idle (hsender ▸ idle) ended
  | trying round before pinging tried_eq few failed ended =>
      exact .trying round before (hsender.trans pinging) tried_eq few failed ended

/-- The tries of a round: it ends with the first success, or with the sixth
failure.

Until then the sender counts one failure more. -/
theorem Tried.attempt {failures : ℕ} {result : TxResult} (h : Tried s (rounds acts))
    (hpinging : s.sender = .pinging failures) :
    Tried { s with sender := .retry failures result } (rounds (.attempt result :: acts)) := by
  cases h with
  | idle idle => exact absurd hpinging (idle failures)
  | trying round before pinging tried_eq few failed ended =>
      obtain rfl : round.length = failures := by simpa [pinging] using hpinging
      have hrounds : rounds (.attempt result :: acts) = (result :: round) :: before := by
        simp only [rounds, tried_eq]
      rw [hrounds]
      by_cases hagain : result.isOk = false ∧ round.length < maxTimes
      · refine .trying (result :: round) before ?_ rfl hagain.2 ?_ ended
        · simp [TxSender.retry, hagain]
        · simpa using ⟨hagain.1, failed⟩
      · refine .idle ?_ ?_
        · simp [TxSender.retry, hagain]
        · refine List.forall_mem_cons.mpr ⟨⟨failed, by simpa using few, ?_⟩, ended⟩
          cases hok : result.isOk with
          | true => exact .inl ⟨result, rfl, hok⟩
          | false =>
              have hlast : round.length = maxTimes := by
                have hnot : ¬round.length < maxTimes := fun hlt => hagain ⟨hok, hlt⟩
                omega
              exact .inr ⟨by simpa using ⟨hok, failed⟩, by simp [hlast]⟩

/-- Every step keeps the rounds in step with the sender. -/
theorem Tried.step (h : Tried s (rounds acts)) (htook : Took codec s act s') :
    Tried s' (rounds (act :: acts)) := by
  cases htook with
  | attempted failures result pinging => exact h.attempt pinging
  | received channel message receiving recv =>
      have hended : ∀ round ∈ rounds acts, Ended round := by
        cases h with
        | idle _ ended => exact ended
        | trying _ _ pinging => simp [receiving] at pinging
      rcases message with _ | _ | _
      · exact .idle (by simp [TxSender.handle]) hended
      · exact .trying [] (rounds acts) rfl rfl (by simp) (by simp) hended
      · exact .idle (by simp [TxSender.handle]) hended
  | looked | detected | interrupted | notified | saved | savedLast | stopped =>
      exact h.of_sender rfl

/-! ## What the watcher keeps -/

/-- The epoch id that the watcher goes by: the one it is notifying of, or the
last one. -/
def EpochWatcher.knows (w : EpochWatcher E) : Option E :=
  match w.awaits with
  | .notifying id => some id
  | _ => w.epochId

/-- The notifications on their way to the sender.

One of them may still wait for room in the channel. -/
def Service.underway (s : Service E) : ℕ := s.waiting + s.watcher.awaits.notification

/-- What was written is what is loaded. -/
theorem Saved.loadEpochId_eq {result : WriteResult} (h : Saved (.save result :: acts)) (id : E) :
    loadEpochId codec (saveEpochId codec id result) = some id := by
  cases result with
  | written => exact codec.fromStr_toText id
  | failed left => exact absurd rfl (h left)

/-- A transaction begins no round. -/
theorem length_rounds_attempt (result : TxResult) (acts : List (Act B)) :
    (rounds (.attempt result :: acts)).length = (rounds acts).length := by
  rw [rounds]
  cases rounds acts <;> rfl

/-- A round has six tries at most, and only the last may succeed. -/
theorem Tried.round_le {tried : List (List TxResult)} (h : Tried s tried) :
    (∀ round ∈ tried.tail, Ended round) ∧ ∀ round ∈ tried, round.length ≤ maxTimes + 1 ∧
      ∀ result ∈ round.tail, result.isOk = false := by
  cases h with
  | idle _ ended =>
      exact ⟨fun round hround => ended round (List.mem_of_mem_tail hround),
        fun round hround => ⟨(ended round hround).2.1, (ended round hround).1⟩⟩
  | trying round before pinging tried_eq few failed ended =>
      subst tried_eq
      refine ⟨ended, List.forall_mem_cons.mpr ⟨⟨by omega, ?_⟩, ?_⟩⟩
      · exact fun result hresult => failed result (List.mem_of_mem_tail hresult)
      · exact fun round hround => ⟨(ended round hround).2.1, (ended round hround).1⟩

/-- No more than a full channel and one notification are under way. -/
theorem Service.underway_le (s : Service E) : s.underway ≤ 11 := by
  have hwaiting : s.waiting ≤ s.channel.queue.length := List.count_le_length
  have hroom := s.channel.length_le
  have hnotification : s.watcher.awaits.notification ≤ 1 := by
    cases s.watcher.awaits <;> simp [WatcherAt.notification]
  unfold Service.underway
  omega

variable [DecidableEq E]

/-- What holds after the actions `acts`, from the file on.

The actions are listed newest first, as the runs are. -/
structure Keeps (codec : Codec E B) (file : Option String) (acts : List (Act B))
    (s : Service E) : Prop where
  /-- The tasks fit together. -/
  together : Together s
  /-- The sender is in its newest round, or between rounds. -/
  tried : Tried s (rounds acts)
  /-- The watcher knows the epoch id observed last. -/
  latest_eq : latest (loadEpochId codec file) (observed codec acts) = s.watcher.knows
  /-- What is being saved is the epoch id. -/
  saving_eq : ∀ id, s.watcher.awaits = .saving id ∨ s.watcher.awaits = .savingLast id →
    s.watcher.epochId = some id
  /-- Every change has been received, or is on its way. -/
  count_eq : (rounds acts).length + s.underway =
    changes (loadEpochId codec file) (observed codec acts)
  /-- Unless it is about to be written, the file has the epoch id. -/
  file_eq : Saved acts → (∀ id, s.watcher.awaits ≠ .saving id) →
    loadEpochId codec s.file = s.watcher.epochId

/-- At the start it knows what is in the file, and nothing was observed. -/
theorem Keeps.start (codec : Codec E B) (file : Option String) :
    Keeps codec file [] (Service.start codec file) where
  together := .start codec file
  tried := .start codec file
  latest_eq := rfl
  saving_eq := by simp [Service.start, EpochWatcher.new]
  count_eq := rfl
  file_eq _ _ := rfl

/-- Observing what is known changes nothing. -/
theorem changes_known (known : Option E) (older : List E) {new : List E}
    (h : ∀ id ∈ new, latest known older = some id) :
    latest known (new ++ older) = latest known older ∧
      changes known (new ++ older) = changes known older := by
  induction new with
  | nil => exact ⟨rfl, rfl⟩
  | cons id new ih =>
      obtain ⟨hlatest, hchanges⟩ := ih fun id' hid' => h id' (List.mem_cons_of_mem _ hid')
      have hid := h id (List.mem_cons_self ..)
      refine ⟨hid.symm, ?_⟩
      rw [List.cons_append, changes, hlatest, if_pos hid, hchanges]
      rfl

/-- **A step keeps all of it.**

A detected change is counted at once and waits with the watcher; then it waits
in the channel, and then it begins a round. -/
theorem Keeps.step (h : Keeps codec file acts s) (htook : Took codec s act s') :
    Keeps codec file (act :: acts) s' := by
  have htogether := h.together.step htook
  have htried := h.tried.step htook
  -- What is left to show concerns the observations, the saving, the count and
  -- the file.
  have hlatest := h.latest_eq
  have hcount := h.count_eq
  cases htook with
  | looked stream ended selecting known =>
      have hknows : s.watcher.knows = s.watcher.epochId := by
        simp [EpochWatcher.knows, selecting]
      obtain ⟨hsame, hquiet⟩ := changes_known (loadEpochId codec file) (observed codec acts)
        (fun id (hid : id ∈ (Act.poll ended).observed codec) => by
          rw [hlatest, hknows, known id hid])
      exact
        { together := htogether
          tried := htried
          latest_eq := hsame.trans hlatest
          saving_eq := h.saving_eq
          count_eq := hcount.trans hquiet.symm
          file_eq := h.file_eq }
  | detected stream msg id selecting decoded changed =>
      have hobserved : observed codec (.poll (.next msg) :: acts) = id :: observed codec acts := by
        simp [observed, Act.observed, decoded]
      have hknows : s.watcher.knows = s.watcher.epochId := by
        simp [EpochWatcher.knows, selecting]
      refine ⟨htogether, htried, ?_, by simp, ?_, ?_⟩
      · rw [hobserved]
        rfl
      · rw [hobserved, changes, hlatest, hknows, if_neg changed, ← hcount]
        simp only [Service.underway, Service.waiting, selecting, WatcherAt.notification]
        rfl
      · exact fun hsaved _ => h.file_eq hsaved (by simp [selecting])
  | interrupted selecting =>
      have hknows : s.watcher.knows = s.watcher.epochId := by
        simp [EpochWatcher.knows, selecting]
      have hfile := fun hsaved => h.file_eq hsaved (by simp [selecting])
      simp only [Service.underway, selecting] at hcount
      cases hid : s.watcher.epochId with
      | none =>
          have hbreak : s.watcher.breakLoop = { s.watcher with awaits := .stopping } := by
            simp [EpochWatcher.breakLoop, hid]
          simp only [hbreak] at htogether htried ⊢
          exact ⟨htogether, htried, hlatest.trans hknows, by simp, hcount,
            fun hsaved _ => hfile hsaved⟩
      | some id =>
          have hbreak : s.watcher.breakLoop = { s.watcher with awaits := .savingLast id } := by
            simp [EpochWatcher.breakLoop, hid]
          simp only [hbreak] at htogether htried ⊢
          exact ⟨htogether, htried, hlatest.trans hknows, by simp [hid], hcount,
            fun hsaved _ => hfile hsaved⟩
  | notified id channel sent notifying send =>
      have hreceiver := h.together.receiver (by simp [notifying])
      obtain ⟨-, -, hqueue, -, -⟩ := Channel.send_eq_some hreceiver send
      refine ⟨htogether, htried, ?_, by simp, ?_, by simp⟩
      · show latest _ (observed codec acts) = some id
        simpa [EpochWatcher.knows, notifying] using hlatest
      · show (rounds acts).length + (channel.queue.count .epochChanged + 0) =
          changes _ (observed codec acts)
        rw [hqueue, List.count_append, ← hcount]
        simp [Service.underway, Service.waiting, notifying, WatcherAt.notification]
  | saved id result saving =>
      have hid := h.saving_eq id (.inl saving)
      refine ⟨htogether, htried, ?_, by simp, ?_, fun hsaved _ => ?_⟩
      · show latest _ (observed codec acts) = s.watcher.epochId
        simpa [EpochWatcher.knows, saving] using hlatest
      · show (rounds acts).length + (s.waiting + 0) = changes _ (observed codec acts)
        simpa [Service.underway, saving, WatcherAt.notification] using hcount
      · exact (hsaved.loadEpochId_eq id).trans hid.symm
  | savedLast id result saving =>
      have hid := h.saving_eq id (.inr saving)
      refine ⟨htogether, htried, ?_, by simp, ?_, fun hsaved _ => ?_⟩
      · show latest _ (observed codec acts) = s.watcher.epochId
        simpa [EpochWatcher.knows, saving] using hlatest
      · show (rounds acts).length + (s.waiting + 0) = changes _ (observed codec acts)
        simpa [Service.underway, saving, WatcherAt.notification] using hcount
      · exact (hsaved.loadEpochId_eq id).trans hid.symm
  | stopped channel sent stopping send =>
      have hreceiver := h.together.receiver (by simp [stopping])
      obtain ⟨-, -, hqueue, -, -⟩ := Channel.send_eq_some hreceiver send
      refine ⟨htogether, htried, ?_, by simp, ?_, fun hsaved _ => ?_⟩
      · show latest _ (observed codec acts) = s.watcher.epochId
        simpa [EpochWatcher.knows, stopping] using hlatest
      · show (rounds acts).length + (channel.queue.count .epochChanged + 0) =
          changes _ (observed codec acts)
        rw [hqueue, List.count_append, ← hcount]
        simp [Service.underway, Service.waiting, stopping, WatcherAt.notification]
      · exact h.file_eq hsaved (by simp [stopping])
  | received channel message receiving recv =>
      refine ⟨htogether, htried, hlatest, h.saving_eq, ?_, h.file_eq⟩
      show _ = changes _ (observed codec acts)
      rw [← hcount]
      rcases Channel.recv_eq_some recv with ⟨m, rfl, hqueue, -, -⟩ | ⟨rfl, -, -, rfl⟩
      · cases m with
        -- The notification leaves the channel and begins a round.
        | epochChanged =>
            simp only [rounds, Service.underway, Service.waiting, hqueue, List.count_cons_self,
              List.length_cons, TxSender.handle, if_neg, reduceCtorEq, not_false_eq_true]
            omega
        | shutdown =>
            simp [rounds, Service.underway, Service.waiting, hqueue, TxSender.handle,
              Channel.dropReceiver]
      · simp [rounds, Service.underway, Service.waiting, TxSender.handle, Channel.dropReceiver]
  | attempted failures result pinging =>
      refine ⟨htogether, htried, hlatest, h.saving_eq, ?_, h.file_eq⟩
      show _ = changes _ (observed codec acts)
      rw [length_rounds_attempt, ← hcount]
      rfl

/-- **What holds after every run.** -/
theorem run_keeps (run : (machine codec).Run (Service.start codec file) acts s) :
    Keeps codec file acts s :=
  run.invariant (I := Keeps codec file) (.start codec file) fun h hstep => h.step (step_took hstep)

end Invariants

/-! ## Runs -/

section Runs

variable {E B : Type} [DecidableEq E] {codec : Codec E B} {file : Option String}
  {s s' : Service E} {act : Act B} {acts : List (Act B)}

/-- **One ping for every change.** However the tasks interleave, whatever the
stream, the file and the transactions do, the notifications received and those
under way are as many as the changes of the observed epoch id, from the file on,
and at most eleven are under way.  No notification fails.  Every ping but the
last is over: tried until it succeeded, or six times; and the last one is being
tried likewise.

So nothing is pinged for twice, and nothing is forgotten.  The channel has room
for ten, and an eleventh waits in the watcher, which meanwhile observes nothing
more. -/
theorem pings_once_per_change (run : (machine codec).Run (Service.start codec file) acts s) :
    (rounds acts).length + s.underway =
        changes (loadEpochId codec file) (observed codec acts) ∧
      s.underway ≤ 11 ∧
      (∀ message channel sent, s.watcher.awaits ≠ .stopped →
        s.channel.send message = some (channel, sent) → sent = true) ∧
      (∀ round ∈ (rounds acts).tail, Ended round) ∧
      ∀ round ∈ rounds acts, round.length ≤ 6 ∧ ∀ result ∈ round.tail, result.isOk = false := by
  have hkeeps := run_keeps run
  obtain ⟨hended, hround⟩ := hkeeps.tried.round_le
  refine ⟨hkeeps.count_eq, s.underway_le, ?_, hended, hround⟩
  intro message channel sent hwatching hsend
  exact (Channel.send_eq_some (hkeeps.together.receiver hwatching) hsend).2.1

/-! A sample day: the watcher reconnects, sees the known epoch `e1` and a bad
block, and notices `e2`; the ping succeeds at the second try; then it notices
`e3`. -/

/-- Epoch ids and blocks are texts, and a block is bad if its text is empty. -/
def sampleCodec : Codec String String where
  toText := id
  fromStr := some
  fromStr_toText _ := rfl
  currentEpochId msg := if msg = "" then none else some msg

/-- The actions of the day, in the order they happen. -/
def sampleDay : List (Act String) :=
  [.poll .createFailed, .poll .created, .poll (.next "e1"), .poll (.next ""), .poll (.next "e2"),
    .send, .recv (some .epochChanged), .save .written, .attempt .timedOut,
    .attempt (.executed true), .poll (.next "e3"), .send, .save .written]

/-- One round, for `e2`, and one notification under way, for `e3`: these are the
two changes of the day. -/
theorem pings_once_per_change_sample :
    ∃ s, (machine sampleCodec).play (.start sampleCodec (some "e1")) sampleDay = some s ∧
      1 + s.underway = 2 := by
  obtain ⟨s, hplay⟩ := Option.isSome_iff_exists.mp (show ((machine sampleCodec).play
    (.start sampleCodec (some "e1")) sampleDay).isSome = true by decide +kernel)
  have hpings := (pings_once_per_change (Machine.play_run hplay)).1
  exact ⟨s, hplay, hpings⟩

end Runs

end Pinger

end LiquidStaking
