import HeadLink.Link.Effort

/-!
# The passing of time

While the caller waits, workers run. Time passes only when all of them wait, and stretches in which
nobody's wait ends pass at once. Those whose wait ends with a millisecond run after it, and after the
caller if its wait ends at the same moment.

## Contents
- **Running the workers.** `Link.settle` lets workers run until all wait (`Link.ready_settle`).
- **Time.** `Link.pass` and `Link.tick` let time pass, `Link.quiet` says for how long nothing happens
  by itself, and `Link.sleep` is a wait of the caller.
-/

namespace HeadLink

/-- The moment at which the wait of the worker ends by itself, if there is one. -/
def Worker.deadline? (w : Worker) : Option Nat :=
  match w.stage with
  | .idle deadline => some deadline
  | .calling _ ends _ => some ends
  | _ => none

/-- Whether the time that the worker waits for has come. -/
def Worker.isDue (w : Worker) (now : Nat) : Bool :=
  match w.deadline? with
  | some deadline => deadline ≤ now
  | none => false

/-- How many of `n` milliseconds pass before the one with which the wait of the worker ends. -/
def Worker.quiet (w : Worker) (now n : Nat) : Nat :=
  match w.deadline? with
  | some deadline => min (deadline - (now + 1)) n
  | none => n

namespace Link

variable {σ : Type} (env : Environment σ)

/-! ## Running the workers -/

/-- Lets workers run until all wait. -/
def settle (l : Link σ) : Link σ :=
  if _ : l.ready = [] then l else settle (l.work env)
termination_by l.effort
decreasing_by exact effort_work_lt env ‹_›

/-- After settling, no worker is left to run. -/
theorem ready_settle (l : Link σ) : (l.settle env).ready = [] := by
  fun_induction settle env l with
  | case1 l h => exact h
  | case2 _ _ ih => exact ih

theorem settle_of_ready {l : Link σ} (h : l.ready = []) : l.settle env = l := by
  rw [settle, dif_pos h]

/-! ## Time -/

/-- Lets those run whose time has come. -/
def wakeDue (l : Link σ) : Link σ :=
  l.workers.entries.foldl (fun l e => if e.2.isDue l.now then l.wake e.1 else l) l

/-- Time passes without anyone running. -/
def pass (l : Link σ) (ms : Nat) : Link σ :=
  { l with now := l.now + ms }.wakeDue

/-- A millisecond passes. -/
def tick (l : Link σ) : Link σ := l.pass 1

/-- How many of `n` milliseconds pass before the one with which a worker's wait ends. -/
def quiet (l : Link σ) (n : Nat) : Nat :=
  l.workers.entries.foldr (fun e n => e.2.quiet l.now n) n

/-- Milliseconds pass. Workers run before the first of them and after each one that ends a wait. -/
def sleep : Nat → Link σ → Link σ
  | 0, l => l
  | n + 1, l =>
    let settled := l.settle env
    let skipped := settled.quiet n
    sleep (n - skipped) (settled.pass (skipped + 1))
termination_by n => n

end Link

end HeadLink
