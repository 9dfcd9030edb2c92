import Mathlib.Algebra.Order.Ring.Nat
import LiquidStaking.Pings

/-!
# The pinger stops and starts again

A signal ends the watcher's loop.  From then on the service takes a bounded
number of steps, in whatever order, and comes to a stop: the epoch id is saved,
the shutdown message comes last in the channel, and the sender works through
what is before it.  Nothing that was observed is left without its ping.

So services that are stopped and started one after the other do together what
one would do.  After a crash, at any point and whatever it leaves in the file,
the notifications that were under way are gone, and one change may be pinged for
twice or not at all.
-/

namespace LiquidStaking

namespace Pinger

section Stopping

variable {E B : Type} {codec : Codec E B} {file : Option String} {s s' : Service E} {act : Act B}
  {acts : List (Act B)}

/-- The watcher has left its loop. -/
def WatcherAt.Leaving : WatcherAt E → Prop
  | .savingLast _ | .stopping | .stopped => True
  | _ => False

/-- Both tasks have ended. -/
def Service.Stopped (s : Service E) : Prop :=
  s.watcher.awaits = .stopped ∧ s.sender = .stopped

/-- The steps that the watcher still causes when it has left its loop: the last
save, the shutdown message, and its receipt.

Once the shutdown message is sent, the channel counts its receipt. -/
def WatcherAt.remaining : WatcherAt E → ℕ
  | .savingLast _ => 3
  | .stopping => 2
  | _ => 0

/-- The tries that are left of a ping. -/
def TxSender.remaining : TxSender → ℕ
  | .pinging failures => maxTimes + 1 - failures
  | _ => 0

/-- The steps a service takes at most, once its watcher has left the loop.  A
notification is received, and tried for six times. -/
def Service.remaining (s : Service E) : ℕ :=
  s.watcher.awaits.remaining + s.sender.remaining +
    (s.channel.queue.map fun m => if m = .epochChanged then maxTimes + 2 else 1).sum

/-- A service whose watcher has left the loop.

From here on nothing new is observed. -/
structure Leaves (s : Service E) : Prop where
  /-- The watcher does not return to the loop. -/
  leaving : s.watcher.awaits.Leaving
  /-- The tasks fit together. -/
  together : Together s
  /-- A ping that is being tried has failed five times at most. -/
  few : ∀ failures, s.sender = .pinging failures → failures ≤ maxTimes

/-- A round that is being tried has failed five times at most. -/
theorem Tried.few {tried : List (List TxResult)} (h : Tried s tried) {failures : ℕ}
    (hpinging : s.sender = .pinging failures) : failures ≤ maxTimes := by
  cases h with
  | idle idle => exact absurd hpinging (idle failures)
  | trying round _ pinging _ few =>
      rw [pinging] at hpinging
      obtain rfl := TxSender.pinging.inj hpinging
      exact few

/-- The sender tries again only while it has retries left. -/
theorem TxSender.retry_few {failures failures' : ℕ} {result : TxResult}
    (h : TxSender.retry failures result = .pinging failures') :
    failures' = failures + 1 ∧ failures < maxTimes := by
  unfold TxSender.retry at h
  split at h
  · next hagain =>
      obtain rfl := TxSender.pinging.inj h
      exact ⟨rfl, hagain.2⟩
  · cases h

/-- Every try takes one off those that are left. -/
theorem TxSender.remaining_retry {failures : ℕ} (result : TxResult) (h : failures ≤ maxTimes) :
    (TxSender.retry failures result).remaining + 1 ≤ (TxSender.pinging failures).remaining := by
  unfold TxSender.retry
  split
  · show maxTimes + 1 - (failures + 1) + 1 ≤ maxTimes + 1 - failures
    omega
  · show 0 + 1 ≤ maxTimes + 1 - failures
    omega

/-- The sender is never left without a message to wait for. -/
theorem Together.queue_ne_nil (h : Together s) (hreceiving : s.sender = .receiving)
    (hdropped : s.channel.senderDropped = true) : s.channel.queue ≠ [] := by
  cases h with
  | working _ _ _ _ _ sender => simp [hdropped] at sender
  | closing n _ _ queue_eq => simp [queue_eq]
  | done _ gone => simp [hreceiving] at gone

/-- **A step after the loop** leaves fewer steps.

A notification that is received is one message less and six tries more, and
counted as seven. -/
theorem Leaves.step (h : Leaves s) (htook : Took codec s act s') :
    Leaves s' ∧ s'.remaining + 1 ≤ s.remaining := by
  have htogether := h.together.step htook
  have hleaving := h.leaving
  cases htook with
  | looked _ _ selecting | detected _ _ _ selecting | interrupted selecting =>
      simp [selecting, WatcherAt.Leaving] at hleaving
  | notified _ _ _ notifying => simp [notifying, WatcherAt.Leaving] at hleaving
  | saved _ _ saving => simp [saving, WatcherAt.Leaving] at hleaving
  | savedLast id result saving =>
      refine ⟨⟨trivial, htogether, h.few⟩, ?_⟩
      simp only [Service.remaining, saving, WatcherAt.remaining]
      omega
  | stopped channel sent stopping send =>
      have hreceiver := h.together.receiver (by simp [stopping])
      obtain ⟨-, -, hqueue, -, -⟩ := Channel.send_eq_some hreceiver send
      refine ⟨⟨trivial, htogether, h.few⟩, ?_⟩
      simp only [Service.remaining, stopping, WatcherAt.remaining, Channel.dropSender, hqueue,
        List.map_append, List.sum_append, List.map_cons, List.sum_cons, List.map_nil, List.sum_nil,
        reduceCtorEq, if_false]
      omega
  | received channel message receiving recv =>
      -- What is left of the queue, and of the ping that its first message
      -- begins.
      have htried : ∀ failures, TxSender.handle message = .pinging failures → failures = 0 := by
        intro failures hhandle
        rcases message with _ | _ | _ <;> cases hhandle
        rfl
      refine ⟨⟨hleaving, htogether, fun failures hhandle => ?_⟩, ?_⟩
      · exact htried failures hhandle ▸ Nat.zero_le _
      rcases Channel.recv_eq_some recv with ⟨m, rfl, hqueue, -, -⟩ | ⟨-, hqueue, hdropped, -⟩
      · cases m with
        | epochChanged =>
            simp [Service.remaining, hqueue, receiving, TxSender.handle, TxSender.remaining]
            omega
        | shutdown =>
            simp only [Service.remaining, hqueue, receiving, TxSender.handle, TxSender.remaining,
              Channel.dropReceiver, if_true, reduceCtorEq, if_false, List.map_cons, List.sum_cons]
            omega
      · exact absurd hqueue (h.together.queue_ne_nil receiving hdropped)
  | attempted failures result pinging =>
      refine ⟨⟨hleaving, htogether, ?_⟩, ?_⟩
      · intro failures' hretry
        obtain ⟨rfl, hlt⟩ := TxSender.retry_few hretry
        exact hlt
      · have hretry := TxSender.remaining_retry result (h.few failures pinging)
        simp only [Service.remaining, pinging]
        omega

/-- Until both tasks have ended, one of them can go on: the sender, unless it
waits for a message; then the channel is empty, and nothing holds the watcher
up.

So the two never wait for each other. -/
theorem Leaves.moves [DecidableEq E] (codec : Codec E B) (h : Leaves s) (hnot : ¬s.Stopped) :
    ∃ act, ((machine codec).step s act).isSome = true := by
  cases hsender : s.sender with
  | pinging failures =>
      exact ⟨.attempt .timedOut, by simp [machine, Service.step, Service.senderStep, hsender]⟩
  | receiving =>
      by_cases hready : s.channel.queue ≠ [] ∨ s.channel.senderDropped = true
      · obtain ⟨⟨channel, message⟩, hrecv⟩ := Channel.exists_recv hready
        exact ⟨.recv message, by
          simp [machine, Service.step, Service.senderStep, hsender, hrecv]⟩
      · have hempty : s.channel.queue = [] := by
          by_contra hne
          exact hready (.inl hne)
        cases hawaits : s.watcher.awaits with
        | savingLast id =>
            exact ⟨.save .written, by simp [machine, Service.step, Service.watcherStep, hawaits]⟩
        | stopping =>
            obtain ⟨r, hsend⟩ := Channel.exists_send (c := s.channel) Message.shutdown
              (by simp [hempty])
            exact ⟨.send, by simp [machine, Service.step, Service.watcherStep, hawaits, hsend]⟩
        | stopped =>
            -- The shutdown message would be in the channel.
            exfalso
            cases h.together with
            | working _ watching => exact watching hawaits
            | closing n _ _ queue_eq => simp [hempty] at queue_eq
            | done _ gone => simp [hsender] at gone
        | selecting | notifying id | saving id =>
            have hleaving := h.leaving
            simp [hawaits, WatcherAt.Leaving] at hleaving
  | stopped =>
      exfalso
      cases h.together with
      | working _ _ here | closing _ _ here => exact here hsender
      | done watched => exact hnot ⟨watched, hsender⟩

/-- **A leaving service drains.**

These are the hypotheses of the rules of the library on machines that drain. -/
theorem drains [DecidableEq E] (codec : Codec E B) :
    (machine codec).Drains Leaves Service.Stopped Service.remaining where
  stays h hstep := (h.step (step_took hstep)).1
  lowers h hstep := (h.step (step_took hstep)).2
  moves h hnot := by
    obtain ⟨act, hact⟩ := h.moves codec hnot
    obtain ⟨s', hstep⟩ := Option.isSome_iff_exists.mp hact
    exact ⟨act, s', hstep⟩

/-- After a run, a watcher that has left its loop makes the service a leaving
one. -/
theorem Keeps.leaves [DecidableEq E] (h : Keeps codec file acts s)
    (hleaving : s.watcher.awaits.Leaving) : Leaves s where
  leaving := hleaving
  together := h.together
  few _ hpinging := h.tried.few hpinging

/-- A full channel, a ping that has just begun, and three steps of the watcher. -/
theorem Service.remaining_le (s : Service E) : s.remaining ≤ 79 := by
  have hqueue : ∀ q : List Message,
      (q.map fun m => if m = .epochChanged then maxTimes + 2 else 1).sum ≤ 7 * q.length := by
    intro q
    induction q with
    | nil => exact Nat.zero_le _
    | cons m q ih =>
        have hone : (if m = .epochChanged then maxTimes + 2 else 1) ≤ 7 := by
          split <;> decide
        simp only [List.map_cons, List.sum_cons, List.length_cons]
        omega
  have hchannel := hqueue s.channel.queue
  have hroom := s.channel.length_le
  have hwatcher : s.watcher.awaits.remaining ≤ 3 := by
    cases s.watcher.awaits <;> simp [WatcherAt.remaining]
  have hsender : s.sender.remaining ≤ 6 := by
    cases s.sender with
    | pinging failures => exact Nat.sub_le _ _
    | receiving | stopped => exact Nat.zero_le _
  unfold Service.remaining
  omega

/-- When both tasks have ended, nothing is under way. -/
theorem Together.underway_eq (h : Together s) (hstopped : s.Stopped) : s.underway = 0 := by
  cases h with
  | working _ watching => exact absurd hstopped.1 watching
  | closing _ _ here => exact absurd hstopped.2 here
  | done watched _ queue_eq =>
      simp [Service.underway, Service.waiting, queue_eq, watched, WatcherAt.notification]

/-- What a service that came to a stop has done: a ping for every change, tried
until it succeeded or six times; and the file has the last epoch id.

Nothing is under way any more, so every change has its round, and the newest
round is over too. -/
theorem Keeps.of_stopped [DecidableEq E] (h : Keeps codec file acts s) (hstopped : s.Stopped) :
    (rounds acts).length = changes (loadEpochId codec file) (observed codec acts) ∧
      (∀ round ∈ rounds acts, Ended round) ∧
      (Saved acts → loadEpochId codec s.file =
        latest (loadEpochId codec file) (observed codec acts)) := by
  have hunderway := h.together.underway_eq hstopped
  have hcount := h.count_eq
  refine ⟨by omega, ?_, fun hsaved => ?_⟩
  · cases h.tried with
    | idle _ ended => exact ended
    | trying _ _ pinging => simp [hstopped.2] at pinging
  · rw [h.latest_eq, h.file_eq hsaved (by simp [hstopped.1])]
    simp [EpochWatcher.knows, hstopped.1]

end Stopping

section Lives

variable {E B : Type} [DecidableEq E] {codec : Codec E B} {file left : Option String}
  {s s' : Service E} {acts newer : List (Act B)} {lives : List (List (Act B))}

/-- **A shutdown drains the service.** Once the watcher has left its loop, the
service takes 79 steps at most, whatever their order and their results; it is
never stuck before both tasks have ended, and it can come to its end.  Then
every change observed has had its ping, tried until it succeeded or six times,
and if the last write did not fail, the file has the epoch id observed last.

The 79 steps are seven for each of ten notifications in a full channel, six
tries of a ping that has just begun, and three steps of the watcher. -/
theorem shutdown_drains (run : (machine codec).Run (Service.start codec file) acts s)
    (hleaving : s.watcher.awaits.Leaving) :
    (∀ newer s', (machine codec).Run s newer s' → newer.length ≤ 79 ∧
      (¬s'.Stopped → ∃ act s'', (machine codec).step s' act = some s'') ∧
      (s'.Stopped →
        (rounds (newer ++ acts)).length =
          changes (loadEpochId codec file) (observed codec (newer ++ acts)) ∧
        (∀ round ∈ rounds (newer ++ acts), Ended round) ∧
        (Saved (newer ++ acts) → loadEpochId codec s'.file =
          latest (loadEpochId codec file) (observed codec (newer ++ acts))))) ∧
    ∃ newer s', (machine codec).Run s newer s' ∧ s'.Stopped := by
  have hleaves := (run_keeps run).leaves hleaving
  refine ⟨fun newer s' rest => ⟨?_, ?_, ?_⟩, (drains codec).exists_done hleaves⟩
  · have hlength := (drains codec).length_add_le hleaves rest
    have hbound := s.remaining_le
    omega
  · exact (drains codec).moves ((drains codec).stays_run hleaves rest)
  · exact (run_keeps (run.append rest)).of_stopped

/-- Services that ran one after the other, the newest first: each started from
the file, came to its end, and saved successfully. -/
inductive Lives (codec : Codec E B) (file : Option String) :
    List (List (Act B)) → Option String → Prop
  /-- The service has not run yet. -/
  | none : Lives codec file [] file
  /-- It starts from the file that was left, comes to its end, and leaves its
  own. -/
  | again {lives : List (List (Act B))} {left : Option String} {acts : List (Act B)}
      {s : Service E} (before : Lives codec file lives left)
      (run : (machine codec).Run (Service.start codec left) acts s) (stopped : s.Stopped)
      (saved : Saved acts) : Lives codec file (acts :: lives) s.file

/-- **Restarts go unnoticed.** However often the service is stopped and started
again, there is one ping for every change of all the epoch ids observed, each
over, and the file has the last of them.

By induction over the lives: each starts with what the one before left in the
file, and that is the epoch id observed last, so an epoch that began in between
is a change and one that did not is none. -/
theorem restarts_unnoticed (h : Lives codec file lives left) :
    (lives.map fun acts => (rounds acts).length).sum =
        changes (loadEpochId codec file) (lives.flatMap (observed codec)) ∧
      (∀ acts ∈ lives, ∀ round ∈ rounds acts, Ended round) ∧
      loadEpochId codec left =
        latest (loadEpochId codec file) (lives.flatMap (observed codec)) := by
  induction h with
  | none => exact ⟨rfl, by simp, rfl⟩
  | again before run stopped saved ih =>
      obtain ⟨hpings, hended, hleft⟩ := ih
      obtain ⟨hcount, hover, hfile⟩ := (run_keeps run).of_stopped stopped
      refine ⟨?_, List.forall_mem_cons.mpr ⟨hover, hended⟩, ?_⟩
      · rw [List.map_cons, List.sum_cons, List.flatMap_cons, changes_append, hpings, hcount, hleft,
          Nat.add_comm]
      · rw [hfile saved, List.flatMap_cons, latest_append, hleft]

/-- What was known before changes the count by one at most. -/
theorem changes_le_add_one (known known' : Option E) (new : List E) :
    changes known new ≤ changes known' new + 1 := by
  induction new with
  | nil => exact Nat.zero_le _
  | cons id older ih =>
      cases older with
      | nil =>
          simp only [changes]
          split_ifs <;> omega
      | cons id' older =>
          -- Only the oldest observation is compared with what was known before.
          have hsplit : ∀ k : Option E, changes k (id :: id' :: older) =
              changes k (id' :: older) + if some id' = some id then 0 else 1 := fun _ => rfl
          rw [hsplit, hsplit]
          omega

/-- **What a crash costs.** Wherever a service was when it crashed, and whatever
was left of the file, the pings of both services and the notifications under way
in them are as many as the changes, give or take one.

The one is the first epoch id the second service observes: by the file it may be
a change where it was none, or the other way around.  What was under way in the
first service is lost, and that is at most eleven. -/
theorem crash_costs {torn : Option String}
    (run : (machine codec).Run (Service.start codec file) acts s)
    (again : (machine codec).Run (Service.start codec torn) newer s') :
    (rounds newer).length + (rounds acts).length + s'.underway + s.underway ≤
        changes (loadEpochId codec file) (observed codec newer ++ observed codec acts) + 1 ∧
      changes (loadEpochId codec file) (observed codec newer ++ observed codec acts) ≤
        (rounds newer).length + (rounds acts).length + s'.underway + s.underway + 1 ∧
      s.underway ≤ 11 := by
  have hbefore := (run_keeps run).count_eq
  have hafter := (run_keeps again).count_eq
  have hup := changes_le_add_one (loadEpochId codec torn)
    (latest (loadEpochId codec file) (observed codec acts)) (observed codec newer)
  have hdown := changes_le_add_one (latest (loadEpochId codec file) (observed codec acts))
    (loadEpochId codec torn) (observed codec newer)
  rw [changes_append]
  exact ⟨by omega, by omega, s.underway_le⟩

/-! The sample day ends with a signal, while `e3` still waits in the channel;
the service that is started the next day sees `e3` again, and then `e4`. -/

/-- The day, and the signal at its end. -/
def sampleSignal : List (Act String) := sampleDay ++ [.interrupt]

/-- How the service then comes to its end. -/
def sampleStop : List (Act String) :=
  sampleSignal ++ [.save .written, .send, .recv (some .epochChanged), .attempt (.executed true),
    .recv (some .shutdown)]

/-- The day after, with a signal at its end. -/
def sampleNextDay : List (Act String) :=
  [.poll .created, .poll (.next "e3"), .poll (.next "e4"), .send, .save .written, .interrupt,
    .save .written, .recv (some .epochChanged), .attempt (.executed true), .send,
    .recv (some .shutdown)]

/-- The run of a schedule that can be played, and something of its last state. -/
theorem exists_run_of_play {α : Type} (start : Option String) (schedule : List (Act String))
    (f : Service String → α) (a : α)
    (h : ((machine sampleCodec).play (.start sampleCodec start) schedule).map f = some a) :
    ∃ s, (machine sampleCodec).Run (.start sampleCodec start) schedule.reverse s ∧ f s = a := by
  obtain ⟨s, hplay, hf⟩ := Option.map_eq_some_iff.mp h
  exact ⟨s, Machine.play_run hplay, hf⟩

/-- When the signal has come, `e3` is going to be pinged for. -/
theorem shutdown_drains_sample :
    ∃ s, (machine sampleCodec).Run (.start sampleCodec (some "e1")) sampleSignal.reverse s ∧
      ∃ newer s', (machine sampleCodec).Run s newer s' ∧ s'.Stopped := by
  obtain ⟨s, run, hleaving⟩ := exists_run_of_play (some "e1") sampleSignal
    (fun s => s.watcher.awaits) (.savingLast "e3") (by decide +kernel)
  have hdrains := (shutdown_drains run (by rw [hleaving]; trivial)).2
  exact ⟨s, run, hdrains⟩

/-- Three pings in two days, for `e2`, `e3` and `e4`. -/
theorem restarts_unnoticed_sample :
    ∃ left, Lives sampleCodec (some "e1") [sampleNextDay.reverse, sampleStop.reverse] left ∧
      changes (some "e1") ["e4", "e3", "e3", "e2", "e1"] = 3 ∧
      loadEpochId sampleCodec left = some "e4" := by
  obtain ⟨s, run, hs⟩ := exists_run_of_play (some "e1") sampleStop
    (fun s => (s.watcher.awaits, s.sender, s.file)) (.stopped, .stopped, some "e3")
    (by decide +kernel)
  simp only [Prod.mk.injEq] at hs
  obtain ⟨hwatcher, hsender, hfile⟩ := hs
  obtain ⟨s', next, hs'⟩ := exists_run_of_play s.file sampleNextDay
    (fun s => (s.watcher.awaits, s.sender)) (.stopped, .stopped)
    (by rw [hfile]; decide +kernel)
  simp only [Prod.mk.injEq] at hs'
  have hlives : Lives sampleCodec (some "e1") [sampleNextDay.reverse, sampleStop.reverse] s'.file :=
    .again (.again .none run ⟨hwatcher, hsender⟩ (by simp [Saved, lastSave, sampleStop])) next hs'
      (by simp [Saved, lastSave, sampleNextDay])
  exact ⟨s'.file, hlives, rfl, (restarts_unnoticed hlives).2.2⟩

/-- A crash at the end of the first day: `e3` is in the file and was never
pinged for. -/
theorem crash_costs_sample :
    ∃ s s', (machine sampleCodec).Run (.start sampleCodec (some "e1")) sampleDay.reverse s ∧
      (machine sampleCodec).Run (.start sampleCodec (some "e3")) sampleNextDay.reverse s' ∧
      3 ≤ 2 + s'.underway + s.underway + 1 := by
  obtain ⟨s, run, -⟩ := exists_run_of_play (some "e1") sampleDay
    (fun _ => ()) () (by decide +kernel)
  obtain ⟨s', again, -⟩ := exists_run_of_play (some "e3") sampleNextDay
    (fun _ => ()) () (by decide +kernel)
  exact ⟨s, s', run, again, (crash_costs run again).2.1⟩

end Lives

end Pinger

end LiquidStaking
