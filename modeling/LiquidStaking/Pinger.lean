import LiquidStaking.Lib.Channel
import LiquidStaking.Lib.Machine

/-!
# The pinger service

Two tasks next to the contract see to it that rewards are synced once per epoch.
The epoch watcher reads blocks and notices when their epoch id changes; the
transaction sender calls `ping` for every change.  They share a bounded channel,
and the watcher keeps the last epoch id in a file, from which the next process
starts.

A step of `Service.step` is what one task does between two points at which it
awaits something.  The actions say how the awaited future ended: the stream may
deliver or fail, a signal may interrupt the loop, a write may fail, a
transaction may fail in several ways; and the steps of the two tasks interleave
in any order.
-/

namespace LiquidStaking

namespace Pinger

/-- What the service needs of epoch ids, of type `E`, and of block messages, of
type `B`: the text of a `CryptoHash`, which parses to the hash again, and
`current_epoch_id`, which is `none` for a bad block.

Other texts may parse as well, or not; the file may contain anything. -/
structure Codec (E B : Type) where
  toText : E → String
  fromStr : String → Option E
  fromStr_toText : ∀ id, fromStr (toText id) = some id
  currentEpochId : B → Option E

/-- What the watcher tells the sender. -/
inductive Message
  | epochChanged
  | shutdown
  deriving DecidableEq

/-- What the watcher reacts to. -/
inductive Event (B : Type)
  | block (msg : B)
  | streamError
  | reconnected
  | reconnectFailed

/-- How the future that `next_event` awaits ends. -/
inductive Poll (B : Type)
  | next (msg : B)
  /-- The stream failed, or was silent for too long. -/
  | nextFailed
  | created
  | createFailed

/-- `next_event`: whether there is a stream afterwards, and the event. -/
def nextEvent {B : Type} (stream : Bool) : Poll B → Option (Bool × Event B)
  | .next msg => if stream then some (true, .block msg) else none
  | .nextFailed => if stream then some (false, .streamError) else none
  | .created => if stream then none else some (true, .reconnected)
  | .createFailed => if stream then none else some (false, .reconnectFailed)

/-- Where the watcher's task awaits something.

Between two of these points the task runs without interruption. -/
inductive WatcherAt (E : Type)
  /-- In the loop, for an event or for the signal. -/
  | selecting
  /-- In `handle_event`, for room in the channel. -/
  | notifying (currentEpochId : E)
  /-- In `handle_event`, for the file. -/
  | saving (epochId : E)
  /-- After the loop, for the file. -/
  | savingLast (epochId : E)
  /-- For room for the shutdown message. -/
  | stopping
  /-- Nothing: the task has ended. -/
  | stopped
  deriving DecidableEq

/-- The watcher: whether it has a stream, the epoch id it noticed last, and
where its task is. -/
structure EpochWatcher (E : Type) where
  stream : Bool
  epochId : Option E
  awaits : WatcherAt E

/-- How `tokio::fs::write` ended, and what an unsuccessful write left.

It truncates the file first, so after a failure there may be nothing, or a part
of the text. -/
inductive WriteResult
  | written
  | failed (left : Option String)
  deriving DecidableEq

/-- How the call of the contract ended.

A call that was executed may still have failed in the contract. -/
inductive TxResult
  | timedOut
  | rpcError
  | executed (isSuccess : Bool)
  deriving DecidableEq

/-- `send_transaction` returns `Ok`. -/
def TxResult.isOk : TxResult → Bool
  | .executed isSuccess => isSuccess
  | _ => false

/-- Where the sender's task awaits something. -/
inductive TxSender
  /-- A message. -/
  | receiving
  /-- The transaction, after so many failures. -/
  | pinging (failures : ℕ)
  /-- Nothing: the task has ended. -/
  | stopped
  deriving DecidableEq

/-- The back-off's `with_max_times`.

These are the retries, so a transaction is tried once more than that. -/
def maxTimes : ℕ := 5

/-- What the sender does with a message; without senders there is none. -/
def TxSender.handle : Option Message → TxSender
  | some .epochChanged => .pinging 0
  | some .shutdown | none => .stopped

/-- `retry(back_off)` after one more result. -/
def TxSender.retry (failures : ℕ) (result : TxResult) : TxSender :=
  if result.isOk = false ∧ failures < maxTimes then .pinging (failures + 1) else .receiving

/-- The two tasks, their channel, and the file; `none` if it cannot be read. -/
structure Service (E : Type) where
  watcher : EpochWatcher E
  sender : TxSender
  channel : Channel Message 10
  file : Option String

/-- What one task does next. -/
inductive Act (B : Type)
  /-- The event stream is ready. -/
  | poll (ended : Poll B)
  /-- The signal arrives. -/
  | interrupt
  /-- There is room in the channel. -/
  | send
  /-- The file is written. -/
  | save (result : WriteResult)
  /-- The channel has a message, or no senders any more. -/
  | recv (received : Option Message)
  /-- The transaction ends. -/
  | attempt (result : TxResult)

section Tasks

variable {E B : Type} [DecidableEq E] (codec : Codec E B)

/-- `load_epoch_id`. -/
def loadEpochId (file : Option String) : Option E := file.bind codec.fromStr

/-- `EpochWatcher::new`. -/
def EpochWatcher.new (file : Option String) : EpochWatcher E :=
  ⟨false, loadEpochId codec file, .selecting⟩

/-- `handle_event`, until it awaits something. -/
def EpochWatcher.handleEvent (w : EpochWatcher E) : Event B → EpochWatcher E
  | .block msg =>
      match codec.currentEpochId msg with
      | none => w
      | some currentEpochId =>
          if w.epochId = some currentEpochId then w
          else { w with awaits := .notifying currentEpochId }
  | .streamError | .reconnected | .reconnectFailed => w

/-- After the loop: the epoch id is saved, if there is one. -/
def EpochWatcher.breakLoop (w : EpochWatcher E) : EpochWatcher E :=
  match w.epochId with
  | some epochId => { w with awaits := .savingLast epochId }
  | none => { w with awaits := .stopping }

/-- `save_epoch_id`: the file afterwards. -/
def saveEpochId (epochId : E) : WriteResult → Option String
  | .written => some (codec.toText epochId)
  | .failed left => left

/-- `run`: both tasks at their start. -/
def Service.start (file : Option String) : Service E :=
  ⟨.new codec file, .receiving, .empty _ _, file⟩

/-- The watcher's steps.

A step is possible only where the task awaits what the action brings. -/
def Service.watcherStep (s : Service E) : WatcherAt E → Act B → Option (Service E)
  | .selecting, .poll ended =>
      (nextEvent s.watcher.stream ended).map fun (stream, event) =>
        { s with watcher := { s.watcher with stream }.handleEvent codec event }
  | .selecting, .interrupt => some { s with watcher := s.watcher.breakLoop }
  | .notifying id, .send =>
      -- Whether the message went in is only logged.
      (s.channel.send .epochChanged).map fun (channel, _) =>
        { s with channel, watcher := { s.watcher with epochId := some id, awaits := .saving id } }
  | .saving id, .save result =>
      some { s with
        file := saveEpochId codec id result, watcher := { s.watcher with awaits := .selecting } }
  | .savingLast id, .save result =>
      some { s with
        file := saveEpochId codec id result, watcher := { s.watcher with awaits := .stopping } }
  | .stopping, .send =>
      (s.channel.send .shutdown).map fun (channel, _) =>
        { s with channel := channel.dropSender, watcher := { s.watcher with awaits := .stopped } }
  | _, _ => none

/-- The sender's steps.

What it receives is decided by the channel, so the action has to name just that. -/
def Service.senderStep (s : Service E) : TxSender → Act B → Option (Service E)
  | .receiving, .recv received =>
      s.channel.recv.bind fun (channel, message) =>
        if message = received then
          some { s with
            sender := .handle message
            channel := if TxSender.handle message = .stopped then channel.dropReceiver
              else channel }
        else none
  | .pinging failures, .attempt result => some { s with sender := .retry failures result }
  | _, _ => none

/-- One step of either task. -/
def Service.step (s : Service E) : Act B → Option (Service E)
  | act@(.recv _) | act@(.attempt _) => s.senderStep s.sender act
  | act => s.watcherStep codec s.watcher.awaits act

/-- The service as a machine. -/
def machine : Machine (Service E) (Act B) := ⟨Service.step codec⟩

end Tasks

end Pinger

end LiquidStaking
