import Mathlib.Algebra.BigOperators.Pi
import Mathlib.Algebra.Order.BigOperators.Group.List
import Mathlib.Tactic.Abel

/-!
# Linear promise chains over a shared state

A contract platform with asynchronous calls runs one *receipt* at a time.  A
receipt that commits either hands on a value or schedules a sequence of further
receipts, and the result of each receipt is what the next one in its chain
reads.  Chains interleave freely; a receipt that panics changes nothing and
hands on a failure.

This file has the machine and its proof rules, for an arbitrary state `σ`,
execution context `κ`, receipt `τ` and result value `ρ`:

* `Platform` — what a receipt does when it runs here, which receipts run
  elsewhere and are merely answered, and which arrive from outside.
* `Chain`, `System`, `Platform.Step`, `Platform.Run` — the receipts still to
  run, the chains in flight, one execution, a whole run with its event list.
* `Turn` — one step of a run all of whose events are good; `Run.induction_turn`
  is induction over turns.
* `Run.forall_state`, `Run.forall_chain`, `Run.forall_event` — invariants of the
  state, of the chains, of the events.
* `Run.potential_le` / `Run.potential_eq` — an accounting law over runs from a
  law about a single turn: a quantity of the state, a weight carried by every
  chain and a tally over the events.
* `replay` — an executable scheduler whose runs are runs.
-/

namespace PromiseChain

/-- What a finished receipt leaves for the next one in its chain.  A failure
carries nothing, whatever went wrong. -/
inductive PromiseResult (ρ : Type) where
  | successful (value : ρ)
  | failed
  deriving DecidableEq, Repr

/-- What a committed receipt returns: a value, or the receipts that will produce
it.

In the second case the receipts come before the ones that the chain still has,
so the chain waits for the last of them. -/
inductive Return (τ ρ : Type) where
  | value (v : ρ)
  | promise (next : List τ)
  deriving DecidableEq

/-- The outcome of a receipt that commits.  `detached` receipts are scheduled
without anybody waiting for their result. -/
structure Committed (σ τ ρ : Type) where
  state : σ
  ret : Return τ ρ
  detached : List τ

/-- A platform: one contract, the receipts it runs itself, and the world around
it. -/
structure Platform (σ κ τ ρ : Type) where
  /-- The contract code; an error is a panic. -/
  execute : κ → Option (PromiseResult ρ) → τ → σ → Except String (Committed σ τ ρ)
  /-- Receipts that run this contract's code; all others run elsewhere. -/
  isLocal : τ → Bool
  /-- Contexts in which a receipt may arrive from outside. -/
  accepts : κ → τ → Bool
  /-- Contexts in which the receipts scheduled here run. -/
  resumes : κ → Bool
  /-- The receipt runs out of resources and is aborted. -/
  exhausted : κ → Bool
  /-- Block time; it never runs backwards. -/
  clock : κ → ℕ

/-- How a receipt ended. -/
inductive Verdict (τ ρ : Type) where
  /-- It ran here and committed. -/
  | committed (ret : Return τ ρ) (detached : List τ)
  /-- It ran here and changed nothing. -/
  | panicked
  /-- It ran elsewhere; only its result is known. -/
  | answered (result : PromiseResult ρ)

/-- The record of one receipt execution: where it ran and what it read, the
state on both sides, and how it ended. -/
structure Execution (σ κ τ ρ : Type) where
  context : κ
  task : τ
  input : Option (PromiseResult ρ)
  before : σ
  after : σ
  verdict : Verdict τ ρ

/-- A promise chain: the receipts still to run, the result waiting for the next
one, and the executions so far, newest first. -/
structure Chain (σ κ τ ρ : Type) where
  tasks : List τ
  input : Option (PromiseResult ρ)
  trace : List (Execution σ κ τ ρ)

/-- The whole system: the contract state, every chain ever started (finished
ones have no tasks left), and the current block time. -/
structure System (σ κ τ ρ : Type) where
  state : σ
  chains : List (Chain σ κ τ ρ)
  now : ℕ

/-- One step of a run: the chain as it was, and the execution of its next
receipt. -/
structure Event (σ κ τ ρ : Type) where
  chain : Chain σ κ τ ρ
  execution : Execution σ κ τ ρ

variable {σ κ τ ρ : Type}

namespace Execution

/-- The receipts an execution puts before those its chain has left. -/
def next (e : Execution σ κ τ ρ) : List τ :=
  match e.verdict with
  | .committed (.promise next) _ => next
  | _ => []

/-- The receipts an execution schedules on the side. -/
def detached (e : Execution σ κ τ ρ) : List τ :=
  match e.verdict with
  | .committed _ detached => detached
  | _ => []

/-- The chains an execution starts on the side. -/
def spawned (e : Execution σ κ τ ρ) : List (Chain σ κ τ ρ) :=
  match e.verdict with
  | .committed _ detached => detached.map fun t => ⟨[t], none, []⟩
  | _ => []

/-- A chain just started has no history. -/
theorem spawned_trace {e : Execution σ κ τ ρ} {c : Chain σ κ τ ρ} (h : c ∈ e.spawned) :
    c.trace = [] := by
  unfold spawned at h
  split at h
  · obtain ⟨t, -, rfl⟩ := List.mem_map.mp h
    rfl
  · cases h

end Execution

namespace Chain

/-- A chain of one receipt that nothing has run yet. -/
def single (t : τ) : Chain σ κ τ ρ := ⟨[t], none, []⟩

/-- A chain is in flight while it has receipts to run. -/
def InFlight (c : Chain σ κ τ ρ) : Prop := c.tasks ≠ []

/-- The chain after its first receipt executed.

A value or an answer waits for the next receipt; a panic leaves a failure there;
and receipts that were returned run first, with nothing waiting for them. -/
def resume (c : Chain σ κ τ ρ) (e : Execution σ κ τ ρ) : Chain σ κ τ ρ :=
  match e.verdict with
  | .committed (.value v) _ => ⟨c.tasks.tail, some (.successful v), e :: c.trace⟩
  | .committed (.promise next) _ => ⟨next ++ c.tasks.tail, none, e :: c.trace⟩
  | .panicked => ⟨c.tasks.tail, some .failed, e :: c.trace⟩
  | .answered r => ⟨c.tasks.tail, some r, e :: c.trace⟩

/-- A chain goes on with what its receipt scheduled, and then with the rest. -/
theorem resume_tasks (c : Chain σ κ τ ρ) (e : Execution σ κ τ ρ) :
    (c.resume e).tasks = e.next ++ c.tasks.tail := by
  unfold resume Execution.next
  cases e.verdict with
  | committed ret detached => cases ret <;> rfl
  | panicked | answered r => rfl

/-- What a chain changed in a quantity of the state altogether, whatever other
chains did in between. -/
def net (f : σ → ℤ) (c : Chain σ κ τ ρ) : ℤ :=
  (c.trace.map fun e => f e.after - f e.before).sum

@[simp] theorem resume_trace (c : Chain σ κ τ ρ) (e : Execution σ κ τ ρ) :
    (c.resume e).trace = e :: c.trace := by
  unfold resume
  split <;> rfl

end Chain

namespace Platform

variable (P : Platform σ κ τ ρ)

/-- The execution record is one the platform can produce.

A receipt that runs here does what the code says, or panics and changes nothing,
for lack of resources or by the code; one that runs elsewhere changes nothing
here and has any result. -/
def Legal (e : Execution σ κ τ ρ) : Prop :=
  match e.verdict with
  | .committed ret detached =>
      P.isLocal e.task = true ∧ P.exhausted e.context = false ∧
        P.execute e.context e.input e.task e.before = .ok ⟨e.after, ret, detached⟩
  | .panicked =>
      P.isLocal e.task = true ∧ e.after = e.before ∧
        (P.exhausted e.context = true ∨
          ∃ msg, P.execute e.context e.input e.task e.before = .error msg)
  | .answered _ => P.isLocal e.task = false ∧ e.after = e.before

/-- `e` is the execution of the first receipt of `c` in the system `s`: it reads
the state of the system and the result that the chain has waiting. -/
structure Fires (s : System σ κ τ ρ) (c : Chain σ κ τ ρ)
    (e : Execution σ κ τ ρ) : Prop where
  before_eq : e.before = s.state
  input_eq : e.input = c.input
  tasks_eq : ∃ rest, c.tasks = e.task :: rest
  legal : P.Legal e
  clock_le : s.now ≤ P.clock e.context

/-- One step: a receipt arrives from outside and commits, or some chain runs
its next receipt.  A call from outside that panics leaves no trace. -/
inductive Step (s : System σ κ τ ρ) :
    Event σ κ τ ρ → System σ κ τ ρ → Prop
  /-- A receipt arrives from outside, and a chain begins with it. -/
  | enter (e : Execution σ κ τ ρ) (fires : P.Fires s (Chain.single e.task) e)
      (accepted : P.accepts e.context e.task = true)
      (commits : ∃ ret detached, e.verdict = .committed ret detached) :
      Step s ⟨Chain.single e.task, e⟩
        ⟨e.after, s.chains ++ ((Chain.single e.task).resume e :: e.spawned),
          P.clock e.context⟩
  /-- A chain in flight runs its next receipt. -/
  | resume (e : Execution σ κ τ ρ) (c : Chain σ κ τ ρ)
      (l₁ l₂ : List (Chain σ κ τ ρ)) (chains_eq : s.chains = l₁ ++ c :: l₂)
      (fires : P.Fires s c e) (resumed : P.resumes e.context = true) :
      Step s ⟨c, e⟩
        ⟨e.after, l₁ ++ c.resume e :: (l₂ ++ e.spawned), P.clock e.context⟩

/-- A run from `init`, with its events newest first. -/
inductive Run (init : System σ κ τ ρ) :
    List (Event σ κ τ ρ) → System σ κ τ ρ → Prop
  /-- Nothing has happened yet. -/
  | start : Run init [] init
  /-- One more step. -/
  | step {events : List (Event σ κ τ ρ)} {s s' : System σ κ τ ρ}
      {ev : Event σ κ τ ρ} (run : Run init events s) (step : P.Step s ev s') :
      Run init (ev :: events) s'

/-- Where the firing chain comes from: it is in flight, or it is the chain of a
fresh receipt from outside. -/
inductive Origin (s : System σ κ τ ρ) (c : Chain σ κ τ ρ)
    (e : Execution σ κ τ ρ) : Prop
  /-- It arrives with this very receipt. -/
  | fresh (eq : c = Chain.single e.task) (accepted : P.accepts e.context e.task = true)
      (commits : ∃ ret detached, e.verdict = .committed ret detached)
  /-- It was in flight. -/
  | inFlight (mem : c ∈ s.chains) (resumed : P.resumes e.context = true)

variable {P}

/-- Every step fires the chain it records. -/
theorem Step.fires {s s' : System σ κ τ ρ} {ev : Event σ κ τ ρ}
    (h : P.Step s ev s') : P.Fires s ev.chain ev.execution := by
  cases h with
  | enter e fires _ _ => exact fires
  | resume e c l₁ l₂ _ fires _ => exact fires

theorem Step.origin {s s' : System σ κ τ ρ} {ev : Event σ κ τ ρ}
    (h : P.Step s ev s') : P.Origin s ev.chain ev.execution := by
  cases h with
  | enter e _ accepted commits => exact .fresh rfl accepted commits
  | resume e c l₁ l₂ chains_eq _ resumed =>
      exact .inFlight (by rw [chains_eq]; simp) resumed

theorem Step.state_eq {s s' : System σ κ τ ρ} {ev : Event σ κ τ ρ}
    (h : P.Step s ev s') : s'.state = ev.execution.after := by
  cases h <;> rfl

theorem Step.now_eq {s s' : System σ κ τ ρ} {ev : Event σ κ τ ρ}
    (h : P.Step s ev s') : s'.now = P.clock ev.execution.context := by
  cases h <;> rfl

/-- A chain of the new system is an old one, the fired one, or a spawned one. -/
theorem Step.mem_chains {s s' : System σ κ τ ρ} {ev : Event σ κ τ ρ}
    (h : P.Step s ev s') {c : Chain σ κ τ ρ} (mem : c ∈ s'.chains) :
    c ∈ s.chains ∨ c = ev.chain.resume ev.execution ∨ c ∈ ev.execution.spawned := by
  cases h with
  | enter e _ _ _ => simpa using mem
  | resume e c' l₁ l₂ chains_eq _ _ =>
      rw [chains_eq]
      simp only [List.mem_append, List.mem_cons] at mem ⊢
      tauto

/-- A chain stays until it fires. -/
theorem Step.chain_kept {s s' : System σ κ τ ρ} {ev : Event σ κ τ ρ} (h : P.Step s ev s')
    {c : Chain σ κ τ ρ} (mem : c ∈ s.chains) : c ∈ s'.chains ∨ ev.chain = c := by
  cases h with
  | enter e _ _ _ => exact .inl (List.mem_append_left _ mem)
  | resume e c' l₁ l₂ chains_eq _ _ =>
      rw [chains_eq] at mem
      simp only [List.mem_append, List.mem_cons] at mem ⊢
      tauto

/-- Of the chains of a kind, a step takes away the one that fired at most. -/
theorem Step.countP_le {s s' : System σ κ τ ρ} {ev : Event σ κ τ ρ} (h : P.Step s ev s')
    (p : Chain σ κ τ ρ → Bool) :
    s.chains.countP p ≤ s'.chains.countP p + if p ev.chain then 1 else 0 := by
  cases h with
  | enter e _ _ _ =>
      rw [List.countP_append]
      omega
  | resume e c l₁ l₂ chains_eq _ _ =>
      rw [chains_eq]
      simp only [List.countP_append, List.countP_cons]
      omega

/-- The chain that fired goes on. -/
theorem Step.resumed {s s' : System σ κ τ ρ} {ev : Event σ κ τ ρ} (h : P.Step s ev s') :
    ev.chain.resume ev.execution ∈ s'.chains := by
  cases h <;> simp

/-- One turn of a run that is good so far: the chain `c` fires its execution `e`
in `s`, and the new event is good as well.  The rules below ask what a turn
preserves; runs without restrictions are those where every event is good. -/
structure Turn (P : Platform σ κ τ ρ) (init : System σ κ τ ρ)
    (Good : Event σ κ τ ρ → Prop) (events : List (Event σ κ τ ρ)) (s : System σ κ τ ρ)
    (c : Chain σ κ τ ρ) (e : Execution σ κ τ ρ) : Prop where
  run : P.Run init events s
  good : ∀ ev ∈ events, Good ev
  fires : P.Fires s c e
  origin : P.Origin s c e
  now : Good ⟨c, e⟩

/-- A turn is a step: the run goes on with it, and the chain it fired is there
afterwards. -/
theorem Turn.next {init s : System σ κ τ ρ} {Good : Event σ κ τ ρ → Prop}
    {events : List (Event σ κ τ ρ)} {c : Chain σ κ τ ρ} {e : Execution σ κ τ ρ}
    (turn : P.Turn init Good events s c e) :
    ∃ s', P.Run init (⟨c, e⟩ :: events) s' ∧ c.resume e ∈ s'.chains ∧
      ∀ ev ∈ (⟨c, e⟩ :: events : List (Event σ κ τ ρ)), Good ev := by
  have hgood : ∀ ev ∈ (⟨c, e⟩ :: events : List (Event σ κ τ ρ)), Good ev := by
    intro ev mem
    rcases List.mem_cons.mp mem with rfl | hold
    · exact turn.now
    · exact turn.good ev hold
  cases turn.origin with
  | fresh eq accepted commits =>
      subst eq
      have hstep := Step.enter (s := s) e turn.fires accepted commits
      exact ⟨_, turn.run.step hstep, hstep.resumed, hgood⟩
  | inFlight mem resumed =>
      obtain ⟨l₁, l₂, hchains⟩ := List.append_of_mem mem
      have hstep := Step.resume e c l₁ l₂ hchains turn.fires resumed
      exact ⟨_, turn.run.step hstep, hstep.resumed, hgood⟩

namespace Run

variable {init s : System σ κ τ ρ} {events : List (Event σ κ τ ρ)}
  {Good : Event σ κ τ ρ → Prop}

/-- Induction over the turns of a run. -/
theorem induction_turn {I : List (Event σ κ τ ρ) → System σ κ τ ρ → Prop} (hinit : I [] init)
    (hstep : ∀ {events s s' c e}, P.Turn init Good events s c e → I events s →
      P.Step s ⟨c, e⟩ s' → I (⟨c, e⟩ :: events) s')
    (run : P.Run init events s) (hgood : ∀ ev ∈ events, Good ev) : I events s := by
  induction run with
  | start => exact hinit
  | step run step ih =>
      have hprefix := fun ev mem => hgood ev (List.mem_cons_of_mem _ mem)
      exact hstep ⟨run, hprefix, step.fires, step.origin, hgood _ List.mem_cons_self⟩
        (ih hprefix) step

/-! ## Invariants of runs

Each rule asks what one turn preserves and gives what a whole run preserves.  A
turn comes with the run that led to it and with what is assumed of its events,
so an invariant may use results about the run so far. -/

/-- An invariant of the contract state that every turn preserves. -/
theorem forall_state {I : σ → Prop} (hinit : I init.state)
    (hstep : ∀ {events s c e}, P.Turn init Good events s c e → I e.before → I e.after)
    (run : P.Run init events s) (hgood : ∀ ev ∈ events, Good ev) : I s.state :=
  run.induction_turn (I := fun _ s => I s.state) hinit (fun turn ih step => by
    rw [step.state_eq]
    exact hstep turn (turn.fires.before_eq ▸ ih)) hgood

/-- An invariant of single chains: the chain that runs and the chains it spawns
have it afterwards, given that all chains in flight have it before.

The chains that did not run are the same as before, which is why nothing is
asked about them. -/
theorem forall_chain {J : Chain σ κ τ ρ → Prop} (hinit : ∀ c ∈ init.chains, J c)
    (hstep : ∀ {events s c e}, P.Turn init Good events s c e → (∀ c ∈ s.chains, J c) →
      J (c.resume e) ∧ ∀ c' ∈ e.spawned, J c')
    (run : P.Run init events s) (hgood : ∀ ev ∈ events, Good ev) : ∀ c ∈ s.chains, J c := by
  refine run.induction_turn (I := fun _ s => ∀ c ∈ s.chains, J c) hinit ?_ hgood
  intro events s s' c e turn ih step c' mem
  obtain ⟨hresumed, hspawned⟩ := hstep turn ih
  rcases step.mem_chains mem with hold | rfl | hnew
  · exact ih c' hold
  · exact hresumed
  · exact hspawned c' hnew

/-- What every execution of a run has, every execution in the history of a chain
has. -/
theorem forall_trace {Q : Execution σ κ τ ρ → Prop}
    (hinit : ∀ c ∈ init.chains, ∀ e ∈ c.trace, Q e) (run : P.Run init events s)
    (hevents : ∀ ev ∈ events, Q ev.execution) : ∀ c ∈ s.chains, ∀ e ∈ c.trace, Q e := by
  refine run.forall_chain hinit ?_ hevents
  intro events s c e turn ih
  refine ⟨fun e' mem => ?_, fun c' mem e' mem' => ?_⟩
  · rw [Chain.resume_trace] at mem
    rcases List.mem_cons.mp mem with rfl | hold
    · exact turn.now
    · cases turn.origin with
      | fresh eq accepted commits =>
          rw [eq] at hold
          cases hold
      | inFlight hmem resumed => exact ih c hmem e' hold
  · rw [Execution.spawned_trace mem] at mem'
    cases mem'

/-- Every event of a run was fired in some reachable system. -/
theorem forall_event {Q : Event σ κ τ ρ → Prop}
    (hstep : ∀ {events s c e}, P.Turn init Good events s c e → Q ⟨c, e⟩)
    (run : P.Run init events s) (hgood : ∀ ev ∈ events, Good ev) : ∀ ev ∈ events, Q ev := by
  refine run.induction_turn (I := fun events _ => ∀ ev ∈ events, Q ev) (by simp) ?_ hgood
  intro events s s' c e turn ih step ev mem
  rcases List.mem_cons.mp mem with rfl | hold
  · exact hstep turn
  · exact ih ev hold

/-- Every event of a run was fired in the system that the events before it lead
to.

The rule for statements about an event and its past. -/
theorem forall_suffix {Q : Event σ κ τ ρ → List (Event σ κ τ ρ) → Prop}
    (hstep : ∀ {events s c e}, P.Turn init Good events s c e → Q ⟨c, e⟩ events)
    (run : P.Run init events s) (hgood : ∀ ev ∈ events, Good ev) :
    ∀ ev older, ev :: older <:+ events → Q ev older := by
  refine run.induction_turn (I := fun events _ => ∀ ev older, ev :: older <:+ events →
    Q ev older) (fun ev older h => ?_) ?_ hgood
  · cases List.suffix_nil.mp h
  · intro events s s' c e turn ih step ev older h
    rcases List.suffix_cons_iff.mp h with heq | hold
    · obtain ⟨rfl, rfl⟩ := List.cons.inj heq
      exact hstep turn
    · exact ih ev older hold

/-- A chain that fired is waiting for its next receipt, or has run it since. -/
theorem resumed (run : P.Run init events s) {newer older : List (Event σ κ τ ρ)}
    {ev : Event σ κ τ ρ} (hevents : events = newer ++ ev :: older) :
    ev.chain.resume ev.execution ∈ s.chains ∨
      ∃ ev' ∈ newer, ev'.chain = ev.chain.resume ev.execution := by
  induction run generalizing newer with
  | start => simp at hevents
  | @step events s s' last run step ih =>
      cases newer with
      | nil =>
          obtain ⟨rfl, -⟩ := List.cons.inj hevents
          exact .inl step.resumed
      | cons last' newer =>
          obtain ⟨rfl, htail⟩ := List.cons.inj hevents
          rcases ih htail with hwaits | ⟨ev', mem, hnext⟩
          · rcases step.chain_kept hwaits with hkept | hfired
            · exact .inl hkept
            · exact .inr ⟨last, List.mem_cons_self, hfired⟩
          · exact .inr ⟨ev', List.mem_cons_of_mem _ mem, hnext⟩

/-- A chain that has run nothing yet was started on the side, by one of the
events. -/
theorem spawned_by (run : P.Run init events s) (hinit : ∀ c ∈ init.chains, c.trace ≠ []) :
    ∀ c ∈ s.chains, c.trace = [] → ∃ ev ∈ events, c ∈ ev.execution.spawned := by
  induction run with
  | start => exact fun c mem htrace => absurd htrace (hinit c mem)
  | @step events s s' ev run step ih =>
      intro c mem htrace
      rcases step.mem_chains mem with hold | rfl | hspawned
      · obtain ⟨ev', mem', hspawned⟩ := ih c hold htrace
        exact ⟨ev', List.mem_cons_of_mem _ mem', hspawned⟩
      · rw [Chain.resume_trace] at htrace
        cases htrace
      · exact ⟨ev, List.mem_cons_self, hspawned⟩

/-! ## Accounting over runs

Quantities that move between the state, the chains in flight and the outside.  A
chain carries what it has taken and not yet handed on, an event is tallied at
what it brought in or paid out; a law about one turn then holds of the whole
run. -/

section Potential

variable {G : Type} [AddCommMonoid G]

/-- What the books hold after a run: the state's own quantity, what the chains
in flight carry, and what the events were tallied at. -/
def ledger (Φ : σ → G) (w : Chain σ κ τ ρ → G) (g : Event σ κ τ ρ → G)
    (events : List (Event σ κ τ ρ)) (s : System σ κ τ ρ) : G :=
  Φ s.state + (s.chains.map w).sum + (events.map g).sum

/-- The common core of the two accounting rules: a relation compatible with
addition that every turn respects locally holds along the whole run. -/
private theorem potential_rel (R : G → G → Prop) (hrefl : ∀ a, R a a)
    (htrans : ∀ {a b c}, R a b → R b c → R a c)
    (hadd : ∀ {a b} c, R a b → R (a + c) (b + c))
    {Φ : σ → G} {w : Chain σ κ τ ρ → G} {g : Event σ κ τ ρ → G}
    (hfresh : ∀ {k t}, P.accepts k t = true → w (Chain.single t) = 0)
    (hstep : ∀ {events s c e}, P.Turn init Good events s c e →
      R (ledger Φ w g [] init) (ledger Φ w g events s) → R (Φ e.before + w c)
        (Φ e.after + w (c.resume e) + (e.spawned.map w).sum + g ⟨c, e⟩))
    (run : P.Run init events s) (hgood : ∀ ev ∈ events, Good ev) :
    R (ledger Φ w g [] init) (ledger Φ w g events s) := by
  refine run.induction_turn
    (I := fun events s => R (ledger Φ w g [] init) (ledger Φ w g events s)) (hrefl _) ?_ hgood
  intro events s s' c e turn ih step
  have hlocal := hstep turn ih
  refine htrans ih ?_
  unfold ledger
  cases step with
  | enter e fires accepted _ =>
      rw [hfresh accepted, add_zero, fires.before_eq] at hlocal
      convert hadd ((s.chains.map w).sum + (events.map g).sum) hlocal using 1
      · abel
      · simp only [List.map_append, List.map_cons, List.sum_append, List.sum_cons]
        abel
  | resume e c l₁ l₂ chains_eq fires _ =>
      rw [fires.before_eq] at hlocal
      convert hadd ((l₁.map w).sum + (l₂.map w).sum + (events.map g).sum) hlocal
        using 1
      · rw [chains_eq]
        simp only [List.map_append, List.map_cons, List.sum_append, List.sum_cons]
        abel
      · simp only [List.map_append, List.map_cons, List.sum_append, List.sum_cons]
        abel

/-- **Exact accounting.**  If every turn moves a quantity between the state, its
chain, the chains it spawns and the tally, nothing is ever lost.

The turn's law may use the account of the run so far, which is how bounds on the
quantities involved become available. -/
theorem potential_eq {Φ : σ → G} {w : Chain σ κ τ ρ → G} {g : Event σ κ τ ρ → G}
    (hfresh : ∀ {k t}, P.accepts k t = true → w (Chain.single t) = 0)
    (hstep : ∀ {events s c e}, P.Turn init Good events s c e →
      ledger Φ w g [] init = ledger Φ w g events s → Φ e.before + w c =
        Φ e.after + w (c.resume e) + (e.spawned.map w).sum + g ⟨c, e⟩)
    (run : P.Run init events s) (hgood : ∀ ev ∈ events, Good ev) :
    ledger Φ w g [] init = ledger Φ w g events s :=
  potential_rel (· = ·) (fun _ => rfl) Eq.trans (fun _ h => by rw [h]) hfresh hstep run hgood

/-- **Accounting with slack.**  If no turn lowers the total of the state, its
chain, the spawned chains and the tally, no run does. -/
theorem potential_le [PartialOrder G] [IsOrderedAddMonoid G] {Φ : σ → G}
    {w : Chain σ κ τ ρ → G} {g : Event σ κ τ ρ → G}
    (hfresh : ∀ {k t}, P.accepts k t = true → w (Chain.single t) = 0)
    (hstep : ∀ {events s c e}, P.Turn init Good events s c e →
      ledger Φ w g [] init ≤ ledger Φ w g events s → Φ e.before + w c ≤
        Φ e.after + w (c.resume e) + (e.spawned.map w).sum + g ⟨c, e⟩)
    (run : P.Run init events s) (hgood : ∀ ev ∈ events, Good ev) :
    ledger Φ w g [] init ≤ ledger Φ w g events s :=
  potential_rel (· ≤ ·) le_refl le_trans (fun c h => add_le_add_left h c) hfresh hstep run hgood

/-- A quantity of the state alone, moved by what the events put in and take out. -/
theorem tally_eq (Φ : σ → G) (gain loss : Event σ κ τ ρ → G)
    (hstep : ∀ {events s c e}, P.Turn init Good events s c e →
      Φ e.before + gain ⟨c, e⟩ = Φ e.after + loss ⟨c, e⟩)
    (run : P.Run init events s) (hgood : ∀ ev ∈ events, Good ev) :
    Φ init.state + (events.map gain).sum = Φ s.state + (events.map loss).sum := by
  refine run.induction_turn (I := fun events s =>
    Φ init.state + (events.map gain).sum = Φ s.state + (events.map loss).sum) rfl ?_ hgood
  intro events s s' c e turn ih step
  have hlocal := hstep turn
  rw [turn.fires.before_eq] at hlocal
  rw [step.state_eq, List.map_cons, List.sum_cons, List.map_cons, List.sum_cons]
  calc Φ init.state + (gain ⟨c, e⟩ + (events.map gain).sum)
      = Φ init.state + (events.map gain).sum + gain ⟨c, e⟩ := by abel
    _ = Φ s.state + gain ⟨c, e⟩ + (events.map loss).sum := by rw [ih]; abel
    _ = Φ e.after + (loss ⟨c, e⟩ + (events.map loss).sum) := by rw [hlocal]; abel

/-- **Accounting once the chains are done.**  A quantity is moved by what the
events put in and take out, and by what the chains have entered or removed
beforehand; when none of them holds anything any more, the events account for
all of it. -/
theorem settled_eq {Φ : σ → ℕ} {entered removed : Chain σ κ τ ρ → ℕ}
    {gain loss : Event σ κ τ ρ → ℕ}
    (hfresh : ∀ {k t}, P.accepts k t = true →
      entered (Chain.single t) = 0 ∧ removed (Chain.single t) = 0)
    (hstep : ∀ {events s c e}, P.Turn init Good events s c e →
      (∀ c' ∈ e.spawned, entered c' = 0 ∧ removed c' = 0) ∧
      Φ e.after + removed (c.resume e) + entered c + loss ⟨c, e⟩ =
        Φ e.before + entered (c.resume e) + removed c + gain ⟨c, e⟩)
    (hinit : init.chains = []) (hdone : ∀ c ∈ s.chains, entered c = 0 ∧ removed c = 0)
    (run : P.Run init events s) (hgood : ∀ ev ∈ events, Good ev) :
    Φ s.state + (events.map loss).sum = Φ init.state + (events.map gain).sum := by
  -- What a chain holds is a signed weight: removed and not yet put back, less
  -- what it entered.
  have hzero : ∀ l : List (Chain σ κ τ ρ), (∀ c ∈ l, entered c = 0 ∧ removed c = 0) →
      (l.map fun c => (removed c - entered c : ℤ)).sum = 0 := by
    intro l hl
    refine List.sum_eq_zero fun n hn => ?_
    obtain ⟨c, hc, rfl⟩ := List.mem_map.mp hn
    obtain ⟨hentered, hremoved⟩ := hl c hc
    rw [hentered, hremoved]
    rfl
  have hledger := run.potential_eq (Φ := fun s => (Φ s : ℤ))
    (w := fun c => (removed c - entered c : ℤ)) (g := fun ev => (loss ev - gain ev : ℤ))
    (fun haccepts => by
      obtain ⟨hentered, hremoved⟩ := hfresh haccepts
      rw [hentered, hremoved]
      rfl)
    (fun turn _ => by
      obtain ⟨hspawned, hlocal⟩ := hstep turn
      rw [hzero _ hspawned]
      omega)
    hgood
  have htally : (events.map fun ev => (loss ev - gain ev : ℤ)).sum =
      (events.map loss).sum - (events.map gain).sum := by
    clear hledger hgood run hdone
    induction events with
    | nil => rfl
    | cons ev events ih =>
        rw [List.map_cons, List.sum_cons, ih, List.map_cons, List.sum_cons, List.map_cons,
          List.sum_cons]
        omega
  unfold ledger at hledger
  rw [hzero _ hdone, htally, hinit] at hledger
  simp only [List.map_nil, List.sum_nil] at hledger
  omega

/-- **Accounting with bounds.**  What the events take out (`l`), and what the
chains hold (`w`), is at most what the events put in (`g`) and what the chains
owe (`v`).

All four are natural numbers on the side where they are added, so no law about a
turn subtracts. -/
theorem flow_le {w v : Chain σ κ τ ρ → ℕ} {g l : Event σ κ τ ρ → ℕ}
    (hfresh : ∀ {k t}, P.accepts k t = true → w (Chain.single t) = 0 ∧ v (Chain.single t) = 0)
    (hstep : ∀ {events s c e}, P.Turn init Good events s c e →
      w (c.resume e) + (e.spawned.map w).sum + v c + l ⟨c, e⟩ ≤
        w c + v (c.resume e) + (e.spawned.map v).sum + g ⟨c, e⟩)
    (hinit : init.chains = []) (run : P.Run init events s) (hgood : ∀ ev ∈ events, Good ev) :
    (s.chains.map w).sum + (events.map l).sum ≤
      (s.chains.map v).sum + (events.map g).sum := by
  refine run.induction_turn (I := fun events s =>
    (s.chains.map w).sum + (events.map l).sum ≤
      (s.chains.map v).sum + (events.map g).sum) (by simp [hinit]) ?_ hgood
  intro events s s' c e turn ih step
  have hlocal := hstep turn
  rw [List.map_cons, List.sum_cons, List.map_cons, List.sum_cons]
  cases step with
  | enter e fires accepted commits =>
      obtain ⟨hw, hv⟩ := hfresh accepted
      rw [hw, hv] at hlocal
      simp only [List.map_append, List.map_cons, List.sum_append, List.sum_cons]
      omega
  | resume e c l₁ l₂ chains_eq fires resumed =>
      rw [chains_eq] at ih
      simp only [List.map_append, List.map_cons, List.sum_append, List.sum_cons] at ih ⊢
      omega

/-- Accounts for many keys at once, read at one key. -/
theorem ledger_apply {α : Type} (Φ : σ → α → G) (w : Chain σ κ τ ρ → α → G)
    (g : Event σ κ τ ρ → α → G) (events : List (Event σ κ τ ρ)) (s : System σ κ τ ρ) (k : α) :
    ledger Φ w g events s k =
      ledger (fun s => Φ s k) (fun c => w c k) (fun ev => g ev k) events s := by
  simp only [ledger, Pi.add_apply, Pi.list_sum_apply, List.map_map]
  rfl

/-- An account that counts. -/
theorem sum_indicator {α : Type} (p : α → Bool) (l : List α) :
    (l.map fun a => if p a then (1 : ℤ) else 0).sum = l.countP p := by
  induction l with
  | nil => rfl
  | cons a l ih =>
      rw [List.map_cons, List.sum_cons, ih, List.countP_cons]
      split_ifs <;> push_cast <;> omega

/-- An account of what is taken off. -/
theorem sum_neg_cast {α : Type} (f : α → ℕ) (l : List α) :
    (l.map fun a => -(f a : ℤ)).sum = -((l.map f).sum : ℤ) := by
  induction l with
  | nil => rfl
  | cons a l ih =>
      rw [List.map_cons, List.sum_cons, ih, List.map_cons, List.sum_cons]
      push_cast
      omega

end Potential

end Run

/-! ## Replaying a schedule

An executable scheduler.  It is how concrete runs are built: a schedule is
evaluated, and `replay_run` makes a run of it. -/

/-- One scheduling decision: a receipt arrives, a chain runs its next receipt
here, or the world answers the next receipt of a chain. -/
inductive Move (κ τ ρ : Type) where
  /-- The receipt arrives. -/
  | enter (context : κ) (task : τ)
  /-- The chain at `index` runs its next receipt here. -/
  | fire (index : ℕ) (context : κ)
  /-- The next receipt of the chain at `index` ends elsewhere with `result`. -/
  | answer (index : ℕ) (context : κ) (result : PromiseResult ρ)

variable (P)

/-- Run a receipt here; a panic is a result, not an error. -/
def fireLocal (s : System σ κ τ ρ) (context : κ) (input : Option (PromiseResult ρ))
    (task : τ) : Execution σ κ τ ρ :=
  if P.exhausted context then ⟨context, task, input, s.state, s.state, .panicked⟩
  else
    match P.execute context input task s.state with
    | .ok out => ⟨context, task, input, s.state, out.state, .committed out.ret out.detached⟩
    | .error _ => ⟨context, task, input, s.state, s.state, .panicked⟩

/-- The effect of one scheduling decision, when it is possible. -/
def replayStep (s : System σ κ τ ρ) :
    Move κ τ ρ → Option (Event σ κ τ ρ × System σ κ τ ρ)
  | .enter context task =>
      let e := P.fireLocal s context none task
      match e.verdict with
      | .committed _ _ =>
          if P.accepts context task && P.isLocal task && decide (s.now ≤ P.clock context) then
            some (⟨Chain.single task, e⟩,
              ⟨e.after, s.chains ++ ((Chain.single task).resume e :: e.spawned),
                P.clock context⟩)
          else none
      | _ => none
  | .fire index context =>
      match s.chains[index]? with
      | some c =>
          match c.tasks with
          | task :: _ =>
              if P.resumes context && P.isLocal task && decide (s.now ≤ P.clock context) then
                let e := P.fireLocal s context c.input task
                some (⟨c, e⟩,
                  ⟨e.after, s.chains.take index ++ c.resume e ::
                    (s.chains.drop (index + 1) ++ e.spawned), P.clock context⟩)
              else none
          | [] => none
      | none => none
  | .answer index context result =>
      match s.chains[index]? with
      | some c =>
          match c.tasks with
          | task :: _ =>
              if P.resumes context && !P.isLocal task &&
                  decide (s.now ≤ P.clock context) then
                let e : Execution σ κ τ ρ :=
                  ⟨context, task, c.input, s.state, s.state, .answered result⟩
                some (⟨c, e⟩,
                  ⟨e.after, s.chains.take index ++ c.resume e ::
                    (s.chains.drop (index + 1) ++ e.spawned), P.clock context⟩)
              else none
          | [] => none
      | none => none

/-- Replay a schedule, collecting the events newest first.  A decision that is
not possible ends the replay with nothing. -/
def replay (s : System σ κ τ ρ) (events : List (Event σ κ τ ρ)) :
    List (Move κ τ ρ) → Option (List (Event σ κ τ ρ) × System σ κ τ ρ)
  | [] => some (events, s)
  | m :: ms =>
      match P.replayStep s m with
      | some (ev, s') => replay s' (ev :: events) ms
      | none => none

variable {P}

private theorem fireLocal_legal (s : System σ κ τ ρ) (context : κ)
    (input : Option (PromiseResult ρ)) {task : τ} (hlocal : P.isLocal task = true) :
    P.Legal (P.fireLocal s context input task) := by
  unfold fireLocal
  split
  · next hex => exact ⟨hlocal, rfl, .inl hex⟩
  · next hex =>
      split
      · next out hout => exact ⟨hlocal, by simpa using hex, hout⟩
      · next msg herr => exact ⟨hlocal, rfl, .inr ⟨msg, herr⟩⟩

private theorem fireLocal_fields (s : System σ κ τ ρ) (context : κ)
    (input : Option (PromiseResult ρ)) (task : τ) :
    (P.fireLocal s context input task).before = s.state ∧
      (P.fireLocal s context input task).input = input ∧
      (P.fireLocal s context input task).task = task ∧
      (P.fireLocal s context input task).context = context := by
  unfold fireLocal
  split
  · simp
  · split <;> simp

private theorem chains_split {s : System σ κ τ ρ} {index : ℕ} {c : Chain σ κ τ ρ}
    (hc : s.chains[index]? = some c) :
    s.chains = s.chains.take index ++ c :: s.chains.drop (index + 1) := by
  obtain ⟨hlt, hget⟩ := List.getElem?_eq_some_iff.mp hc
  rw [← hget, List.getElem_cons_drop, List.take_append_drop]

/-- A replayed scheduling decision is a step. -/
theorem replayStep_step {s s' : System σ κ τ ρ} {ev : Event σ κ τ ρ}
    {m : Move κ τ ρ} (h : P.replayStep s m = some (ev, s')) : P.Step s ev s' := by
  cases m with
  | enter context task =>
      obtain ⟨hbefore, hinput, htask, hcontext⟩ :=
        fireLocal_fields (P := P) s context none task
      simp only [replayStep] at h
      split at h
      · next ret detached hverdict =>
          split at h
          · next hcond =>
              simp only [Bool.and_eq_true, decide_eq_true_eq] at hcond
              obtain ⟨⟨hacc, hlocal⟩, hclock⟩ := hcond
              obtain ⟨rfl, rfl⟩ := Prod.mk.inj (Option.some.inj h)
              have hlegal := fireLocal_legal s context none hlocal
              -- The execution is computed, and from here on only its fields
              -- matter.
              generalize P.fireLocal s context none task = e at *
              subst htask hcontext
              exact .enter e ⟨hbefore, hinput, ⟨[], rfl⟩, hlegal, hclock⟩ hacc
                ⟨ret, detached, hverdict⟩
          · cases h
      · cases h
  | fire index context =>
      simp only [replayStep] at h
      split at h
      · next c hc =>
          split at h
          · next task rest htasks =>
              obtain ⟨hbefore, hinput, htask, hcontext⟩ :=
                fireLocal_fields (P := P) s context c.input task
              split at h
              · next hcond =>
                  simp only [Bool.and_eq_true, decide_eq_true_eq] at hcond
                  obtain ⟨⟨hres, hlocal⟩, hclock⟩ := hcond
                  obtain ⟨rfl, rfl⟩ := Prod.mk.inj (Option.some.inj h)
                  have hlegal := fireLocal_legal s context c.input hlocal
                  generalize P.fireLocal s context c.input task = e at *
                  subst htask hcontext
                  exact .resume e c _ _ (chains_split hc)
                    ⟨hbefore, hinput, ⟨rest, htasks⟩, hlegal, hclock⟩ hres
              · cases h
          · cases h
      · cases h
  | answer index context result =>
      simp only [replayStep] at h
      split at h
      · next c hc =>
          split at h
          · next task rest htasks =>
              split at h
              · next hcond =>
                  simp only [Bool.and_eq_true, Bool.not_eq_true', decide_eq_true_eq] at hcond
                  obtain ⟨⟨hres, hremote⟩, hclock⟩ := hcond
                  obtain ⟨rfl, rfl⟩ := Prod.mk.inj (Option.some.inj h)
                  exact .resume _ c _ _ (chains_split hc)
                    ⟨rfl, rfl, ⟨rest, htasks⟩, ⟨hremote, rfl⟩, hclock⟩ hres
              · cases h
          · cases h
      · cases h

/-- **A replayed schedule is a run.** -/
theorem replay_run {init s s' : System σ κ τ ρ} {events events' : List (Event σ κ τ ρ)}
    {moves : List (Move κ τ ρ)} (run : P.Run init events s)
    (h : P.replay s events moves = some (events', s')) : P.Run init events' s' := by
  induction moves generalizing s events with
  | nil =>
      obtain ⟨rfl, rfl⟩ := Prod.mk.inj (Option.some.inj h)
      exact run
  | cons m ms ih =>
      simp only [replay] at h
      split at h
      · next ev s'' hstep => exact ih (run.step (replayStep_step hstep)) h
      · cases h

/-! ## A chain on its own

What a chain does when nothing else runs meanwhile.  Such a stretch is part of a
run whatever other chains wait (`Completes.run`), and `solo` computes it. -/

/-- The chain runs to its end with no other receipt in between: its executions
in order, and the state and the time it leaves. -/
inductive Completes (P : Platform σ κ τ ρ) : σ → ℕ → Chain σ κ τ ρ →
    List (Execution σ κ τ ρ) → σ → ℕ → Prop
  /-- It has no receipts any more. -/
  | done {s : σ} {now : ℕ} {c : Chain σ κ τ ρ} (finished : c.tasks = []) :
      Completes P s now c [] s now
  /-- It runs one, and then the others. -/
  | fire {s s' : σ} {now now' : ℕ} {c : Chain σ κ τ ρ} {e : Execution σ κ τ ρ}
      {es : List (Execution σ κ τ ρ)} (fires : P.Fires ⟨s, [], now⟩ c e)
      (resumed : P.resumes e.context = true)
      (rest : Completes P e.after (P.clock e.context) (c.resume e) es s' now') :
      Completes P s now c (e :: es) s' now'

/-- Only the state and the time of a system bear on what fires in it. -/
theorem Fires.of_eq {s s' : System σ κ τ ρ} {c : Chain σ κ τ ρ} {e : Execution σ κ τ ρ}
    (h : P.Fires s c e) (hstate : s'.state = s.state) (hnow : s'.now = s.now) :
    P.Fires s' c e :=
  ⟨h.before_eq.trans hstate.symm, h.input_eq, h.tasks_eq, h.legal, hnow ▸ h.clock_le⟩

/-- **A chain on its own is a stretch of a run**, whatever other chains wait
meanwhile. -/
theorem Completes.run {init : System σ κ τ ρ} {s s' : σ} {now now' : ℕ} {c : Chain σ κ τ ρ}
    {es : List (Execution σ κ τ ρ)} (h : P.Completes s now c es s' now')
    {events : List (Event σ κ τ ρ)} {l₁ l₂ : List (Chain σ κ τ ρ)}
    (run : P.Run init events ⟨s, l₁ ++ c :: l₂, now⟩) :
    ∃ events' chains, P.Run init (events' ++ events) ⟨s', chains, now'⟩ ∧
      events'.map Event.execution = es.reverse := by
  induction h generalizing events l₂ with
  | done => exact ⟨[], _, run, rfl⟩
  | @fire s s' now now' c e es fires resumed rest ih =>
      have hstep := run.step (.resume e c l₁ l₂ rfl (fires.of_eq rfl rfl) resumed)
      obtain ⟨events', chains, hrun, hevents⟩ := ih hstep
      refine ⟨events' ++ [⟨c, e⟩], chains, ?_, ?_⟩
      · rwa [List.append_assoc]
      · rw [List.map_append, hevents, List.reverse_cons]
        rfl

/-- One receipt of a chain on its own: run here, or answered with `r`. -/
def soloStep (P : Platform σ κ τ ρ) (s : σ) (now : ℕ) (c : Chain σ κ τ ρ) (context : κ)
    (r : PromiseResult ρ) : Option (Execution σ κ τ ρ) :=
  match c.tasks with
  | [] => none
  | task :: _ =>
      if P.resumes context && decide (now ≤ P.clock context) then
        some (if P.isLocal task then P.fireLocal ⟨s, [], now⟩ context c.input task
          else ⟨context, task, c.input, s, s, .answered r⟩)
      else none

/-- Run a chain on its own, in the given contexts and with the given answers. -/
def solo (P : Platform σ κ τ ρ) (s : σ) (now : ℕ) (c : Chain σ κ τ ρ) :
    List (κ × PromiseResult ρ) → Option (List (Execution σ κ τ ρ) × σ × ℕ)
  | [] => if c.tasks.isEmpty then some ([], s, now) else none
  | (context, r) :: rest =>
      match P.soloStep s now c context r with
      | some e =>
          (solo P e.after (P.clock e.context) (c.resume e) rest).map fun out =>
            (e :: out.1, out.2)
      | none => none

theorem soloStep_fires {s : σ} {now : ℕ} {c : Chain σ κ τ ρ} {context : κ} {r : PromiseResult ρ}
    {e : Execution σ κ τ ρ} (h : P.soloStep s now c context r = some e) :
    P.Fires ⟨s, [], now⟩ c e ∧ P.resumes e.context = true := by
  unfold soloStep at h
  split at h
  · cases h
  next task rest htasks =>
  split at h
  · next hcond =>
      simp only [Bool.and_eq_true, decide_eq_true_eq] at hcond
      obtain ⟨hres, hclock⟩ := hcond
      obtain rfl := Option.some.inj h
      split
      · next hlocal =>
          obtain ⟨hbefore, hinput, htask, hcontext⟩ :=
            fireLocal_fields (P := P) ⟨s, [], now⟩ context c.input task
          have hlegal := fireLocal_legal ⟨s, [], now⟩ context c.input hlocal
          generalize P.fireLocal ⟨s, [], now⟩ context c.input task = e at *
          subst htask hcontext
          exact ⟨⟨hbefore, hinput, ⟨rest, htasks⟩, hlegal, hclock⟩, hres⟩
      · next hremote =>
          exact ⟨⟨rfl, rfl, ⟨rest, htasks⟩, ⟨by simpa using hremote, rfl⟩, hclock⟩, hres⟩
  · cases h

theorem solo_completes {moves : List (κ × PromiseResult ρ)} {s s' : σ} {now now' : ℕ}
    {c : Chain σ κ τ ρ} {es : List (Execution σ κ τ ρ)}
    (h : P.solo s now c moves = some (es, s', now')) : P.Completes s now c es s' now' := by
  induction moves generalizing s now c es with
  | nil =>
      simp only [solo] at h
      split at h
      · next hfinished =>
          obtain ⟨rfl, rfl, rfl⟩ := Option.some.inj h
          exact .done (List.isEmpty_iff.mp hfinished)
      · cases h
  | cons move moves ih =>
      obtain ⟨context, r⟩ := move
      simp only [solo] at h
      split at h
      · next e hstep =>
          obtain ⟨⟨es', s'', now''⟩, hsolo, hout⟩ := Option.map_eq_some_iff.mp h
          cases hout
          obtain ⟨hfires, hresumed⟩ := soloStep_fires hstep
          exact .fire hfires hresumed (ih hsolo)
      · cases h

end Platform

end PromiseChain
