import Mathlib.Data.List.Basic

/-!
# Machines that take labelled actions

A machine says where each action leads, if it can happen at all.  A run is kept
with its actions, the newest first, so that an invariant may speak of what has
happened.

## Main Definitions

* `Machine.Run` — the runs of a machine, with their actions.
* `Machine.play` — run a given schedule.
* `Drains` — a region of states that no action leaves, in which every action
  lowers a measure, and in which some action can happen until the machine is
  done.

## Main Results

* `Run.invariant` — what the start has and each action keeps holds after every
  run.
* `Drains.length_add_le` — there, a run is bounded by the measure.
* `Drains.exists_done` — and it can be continued until the machine is done.
-/

/-- Where each action leads. -/
structure Machine (σ α : Type) where
  step : σ → α → Option σ

namespace Machine

variable {σ α : Type} {M : Machine σ α}

/-- A run, with its actions newest first. -/
inductive Run (M : Machine σ α) (init : σ) : List α → σ → Prop
  /-- Nothing has happened yet. -/
  | start : Run M init [] init
  /-- One more step. -/
  | step {acts : List α} {s s' : σ} {a : α} (run : Run M init acts s)
      (step : M.step s a = some s') : Run M init (a :: acts) s'

section Runs

variable {init s s' : σ} {acts older newer : List α}

/-- Runs can be put one after the other. -/
theorem Run.append (run : M.Run init older s) (rest : M.Run s newer s') :
    M.Run init (newer ++ older) s' := by
  induction rest with
  | start => exact run
  | step _ step ih => exact ih.step step

/-- **The invariant rule**, for invariants of the state and of what has
happened. -/
theorem Run.invariant {I : List α → σ → Prop} (hinit : I [] init)
    (hstep : ∀ {acts s s' a}, I acts s → M.step s a = some s' → I (a :: acts) s')
    (run : M.Run init acts s) : I acts s := by
  induction run with
  | start => exact hinit
  | step _ step ih => exact hstep ih step

/-- Run a schedule, given in the order in which it happens. -/
def play (M : Machine σ α) (s : σ) : List α → Option σ
  | [] => some s
  | a :: acts => (M.step s a).bind fun s' => play M s' acts

/-- A schedule that can be played is a run, newest action first. -/
theorem play_run (h : M.play s acts = some s') : M.Run s acts.reverse s' := by
  induction acts generalizing s with
  | nil =>
      obtain rfl := Option.some.inj h
      exact .start
  | cons a acts ih =>
      obtain ⟨s₁, hstep, hplay⟩ := Option.bind_eq_some_iff.mp h
      rw [List.reverse_cons]
      exact (Run.start.step hstep).append (ih hplay)

end Runs

/-- No action leaves the region `J`; within it each action lowers the measure
`w`, and some action can happen until the machine is `done`.

Together the three say that the machine stops whatever the order of its actions,
and that it stops nowhere but where it is done. -/
structure Drains (M : Machine σ α) (J done : σ → Prop) (w : σ → ℕ) : Prop where
  /-- The region is closed under the actions. -/
  stays : ∀ {s s' a}, J s → M.step s a = some s' → J s'
  /-- Every action uses up some of the measure. -/
  lowers : ∀ {s s' a}, J s → M.step s a = some s' → w s' + 1 ≤ w s
  /-- No state of the region is stuck before the machine is done. -/
  moves : ∀ {s}, J s → ¬done s → ∃ a s', M.step s a = some s'

namespace Drains

variable {J done : σ → Prop} {w : σ → ℕ} {s s' : σ} {acts : List α}

theorem stays_run (h : M.Drains J done w) (hs : J s) (run : M.Run s acts s') : J s' :=
  run.invariant (I := fun _ => J) hs h.stays

/-- A run is no longer than what the measure loses. -/
theorem length_add_le (h : M.Drains J done w) (hs : J s) (run : M.Run s acts s') :
    acts.length + w s' ≤ w s := by
  induction run with
  | start => simp
  | step run step ih =>
      have hlower := h.lowers (h.stays_run hs run) step
      rw [List.length_cons]
      omega

/-- One can go on until the machine is done: by induction on the measure. -/
theorem exists_done (h : M.Drains J done w) (hs : J s) :
    ∃ acts s', M.Run s acts s' ∧ done s' := by
  induction hn : w s using Nat.strongRecOn generalizing s with
  | ind n ih =>
      by_cases hdone : done s
      · exact ⟨[], s, .start, hdone⟩
      · obtain ⟨a, s₁, hstep⟩ := h.moves hs hdone
        have hlower := h.lowers hs hstep
        obtain ⟨acts, s', rest, hdone'⟩ := ih (w s₁) (by omega) (h.stays hs hstep) rfl
        exact ⟨acts ++ [a], s', (Run.start.step hstep).append rest, hdone'⟩

end Drains

end Machine
