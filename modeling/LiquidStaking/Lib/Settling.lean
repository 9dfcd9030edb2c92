import LiquidStaking.Lib.PromiseChain

/-!
# Runs that settle

Suppose every receipt that a chain runs lowers a measure of what is in flight,
the chains it starts on the side included, and a call from outside puts in no
more than a budget.  Then a run is no longer than the budgets of its calls; what
is in flight at any moment settles in a bounded number of executions, whatever
the results and whatever the order; and since a chain in flight can always run
its next receipt, there is a way on that settles everything.

* `Platform.Settles` — the measure and the budget.
* `Run.length_add_le` — runs are bounded by the budgets of their calls.
* `Settles.rest_le` — a stretch without calls is bounded by what was in flight.
* `Platform.can_resume` — no chain is stuck.
* `Settles.exists_settled` — there is a stretch without calls after which
  nothing is in flight.
-/

namespace PromiseChain

variable {σ κ τ ρ : Type} {P : Platform σ κ τ ρ}

namespace Platform

/-- Runs can be put one after the other. -/
theorem Run.append {init s s' : System σ κ τ ρ} {older newer : List (Event σ κ τ ρ)}
    (run : P.Run init older s) (rest : P.Run s newer s') : P.Run init (newer ++ older) s' := by
  induction rest with
  | start => exact run
  | step _ step ih => exact ih.step step

/-- **No chain is stuck**: wherever its next receipt runs, and with whatever
result `r` if it runs elsewhere, the chain goes on.

A receipt that runs here commits or panics, and either is a step; a panic hands
a failure to the next receipt of the chain. -/
theorem can_resume {s : System σ κ τ ρ} {c : Chain σ κ τ ρ} (hmem : c ∈ s.chains)
    (hflight : c.InFlight) {context : κ} (hresumes : P.resumes context = true)
    (hclock : s.now ≤ P.clock context) (r : PromiseResult ρ) :
    ∃ e s', e.context = context ∧ P.Step s ⟨c, e⟩ s' ∧
      (P.isLocal e.task = false → e.verdict = .answered r) := by
  obtain ⟨task, rest, htasks⟩ := List.exists_cons_of_ne_nil hflight
  obtain ⟨l₁, l₂, hchains⟩ := List.append_of_mem hmem
  have hsolo : P.soloStep s.state s.now c context r =
      some (if P.isLocal task then P.fireLocal ⟨s.state, [], s.now⟩ context c.input task
        else ⟨context, task, c.input, s.state, s.state, .answered r⟩) := by
    simp only [soloStep, htasks, hresumes, hclock, decide_true, Bool.and_self, if_true]
  obtain ⟨hfires, hresumed⟩ := soloStep_fires hsolo
  refine ⟨_, _, ?_, .resume _ c l₁ l₂ hchains (hfires.of_eq rfl rfl) hresumed, ?_⟩
  · split
    · unfold fireLocal
      split
      · rfl
      · split <;> rfl
    · rfl
  · split
    · next hlocal =>
        intro hremote
        have htask : (P.fireLocal ⟨s.state, [], s.now⟩ context c.input task).task = task := by
          unfold fireLocal
          split
          · rfl
          · split <;> rfl
        rw [htask, hlocal] at hremote
        cases hremote
    · exact fun _ => rfl

/-- What the chains of a system have ahead, by a measure on chains. -/
def inFlight (w : Chain σ κ τ ρ → ℕ) (s : System σ κ τ ρ) : ℕ := (s.chains.map w).sum

/-- The budget of an event: that of its receipt, if it is a call from outside. -/
def budgeted (P : Platform σ κ τ ρ) (budget : τ → ℕ) (ev : Event σ κ τ ρ) : ℕ :=
  if P.resumes ev.execution.context then 0 else budget ev.execution.task

/-- Every execution lowers the measure of what is in flight; a call from outside
stays within its budget.

The measure is one of chains, so a law about a single execution gives a bound on
whole runs. -/
structure Settles (P : Platform σ κ τ ρ) (init : System σ κ τ ρ) (budget : τ → ℕ)
    (w : Chain σ κ τ ρ → ℕ) : Prop where
  /-- A receipt that arrives from outside is not one of a chain in flight. -/
  outside : ∀ {k t}, P.accepts k t = true → P.resumes k = false
  /-- What a call from outside starts, the call's own execution included, is
  within its budget. -/
  enters : ∀ {events s c e}, P.Turn init (fun _ => True) events s c e →
    c = Chain.single e.task → P.accepts e.context e.task = true →
    w (c.resume e) + (e.spawned.map w).sum + 1 ≤ budget e.task
  /-- An execution of a chain in flight leaves less ahead than there was, the
  chains it starts on the side included. -/
  lowers : ∀ {events s c e}, P.Turn init (fun _ => True) events s c e → c ∈ s.chains →
    w (c.resume e) + (e.spawned.map w).sum + 1 ≤ w c

namespace Settles

variable {init s s' : System σ κ τ ρ} {budget : τ → ℕ} {w : Chain σ κ τ ρ → ℕ}
  {older newer : List (Event σ κ τ ρ)} {ev : Event σ κ τ ρ}

/-- One step uses up some of what was in flight or of its budget. -/
theorem step_le (h : P.Settles init budget w) (run : P.Run init older s) (step : P.Step s ev s') :
    inFlight w s' + 1 ≤ inFlight w s + P.budgeted budget ev := by
  have hturn : P.Turn init (fun _ => True) older s ev.chain ev.execution :=
    ⟨run, fun _ _ => trivial, step.fires, step.origin, trivial⟩
  unfold inFlight budgeted
  cases step with
  | enter e fires accepted commits =>
      have hlocal := h.enters hturn rfl accepted
      rw [h.outside accepted, if_neg Bool.false_ne_true]
      dsimp only at hlocal
      simp only [List.map_append, List.map_cons, List.sum_append, List.sum_cons]
      omega
  | resume e c l₁ l₂ chains_eq fires resumed =>
      have hlocal := h.lowers hturn (by rw [chains_eq]; simp)
      rw [if_pos resumed, chains_eq]
      dsimp only at hlocal
      simp only [List.map_append, List.map_cons, List.sum_append, List.sum_cons]
      omega

/-- **A run is as long as its calls allow.**

By induction on the run with `step_le`: each event takes one unit from the
measure or from the budget that came with its call. -/
theorem length_add_le (h : P.Settles init budget w) (run : P.Run init older s) :
    older.length + inFlight w s ≤ inFlight w init + (older.map (P.budgeted budget)).sum := by
  induction run with
  | start => simp
  | step run step ih =>
      have hstep := h.step_le run step
      rw [List.length_cons, List.map_cons, List.sum_cons]
      omega

/-- A stretch without calls is as long as what was in flight allows. -/
theorem rest_le (h : P.Settles init budget w) (run : P.Run init older s) (rest : P.Run s newer s')
    (hinner : ∀ ev ∈ newer, P.resumes ev.execution.context = true) :
    newer.length + inFlight w s' ≤ inFlight w s := by
  induction rest with
  | start => simp
  | @step newer s₁ s₂ ev rest step ih =>
      have hstep := h.step_le (run.append rest) step
      have hrest := ih fun ev mem => hinner ev (List.mem_cons_of_mem _ mem)
      rw [budgeted, if_pos (hinner ev List.mem_cons_self)] at hstep
      rw [List.length_cons]
      omega

/-- **There is a way on that settles everything**, without any further call.

By strong induction on what is in flight: while a chain is in flight
`can_resume` lets it run its next receipt, and `Settles.lowers` makes the
measure smaller. -/
theorem exists_settled (h : P.Settles init budget w)
    (hcontext : ∀ now, ∃ context, P.resumes context = true ∧ now ≤ P.clock context)
    (r : PromiseResult ρ) (run : P.Run init older s) :
    ∃ newer s', P.Run s newer s' ∧ (∀ ev ∈ newer, P.resumes ev.execution.context = true) ∧
      ∀ c ∈ s'.chains, ¬ c.InFlight := by
  -- Each receipt that runs leaves less in flight.
  induction hsize : inFlight w s using Nat.strong_induction_on generalizing s older with
  | _ size ih =>
      by_cases hdone : ∀ c ∈ s.chains, ¬ c.InFlight
      · exact ⟨[], s, .start, by simp, hdone⟩
      · push Not at hdone
        obtain ⟨c, hmem, hflight⟩ := hdone
        obtain ⟨context, hresumes, hclock⟩ := hcontext s.now
        obtain ⟨e, s₁, rfl, hstep, -⟩ := P.can_resume hmem hflight hresumes hclock r
        have hless := h.step_le run hstep
        rw [budgeted, if_pos hresumes] at hless
        obtain ⟨newer, s', hrest, hinner, hsettled⟩ := ih _ (by omega) (run.step hstep) rfl
        refine ⟨newer ++ [⟨c, e⟩], s', (Run.start.step hstep).append hrest, ?_, hsettled⟩
        intro ev mem
        rcases List.mem_append.mp mem with hlater | hfirst
        · exact hinner ev hlater
        · rw [List.mem_singleton.mp hfirst]
          exact hresumes

end Settles

end Platform

end PromiseChain
