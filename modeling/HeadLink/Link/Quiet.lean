import HeadLink.Link.Clock

/-!
# Quiet time passes at once

`Link.sleep` leaps over the milliseconds in which nobody's wait ends. It comes to the same as letting
them pass one by one, with the workers running before each, because then no worker is left to run and
none gets woken.

## Contents
- **One worker.** What a quiet millisecond means for the wait of a worker.
- **All workers.** A quiet millisecond only moves the clock (`Link.tick_of_quiet`).
- **Waiting.** `Link.sleep_succ` takes a wait apart, millisecond by millisecond.
-/

namespace HeadLink

/-! ## One worker -/

/-- A quiet millisecond ends no wait. -/
theorem Worker.isDue_of_quiet {w : Worker} {now n : Nat} (h : 0 < w.quiet now n) :
    w.isDue (now + 1) = false := by
  unfold Worker.quiet at h
  unfold Worker.isDue
  cases hd : w.deadline? with
  | none => rfl
  | some deadline =>
    rw [hd] at h
    dsimp only at h ⊢
    rw [decide_eq_false_iff_not]
    omega

/-- After a quiet millisecond there is one less to come. -/
theorem Worker.quiet_succ {w : Worker} {now m n : Nat} (h : w.quiet now (m + 1) = n + 1) :
    w.quiet (now + 1) m = n := by
  unfold Worker.quiet at h ⊢
  cases hd : w.deadline? with
  | none =>
    rw [hd] at h
    exact Nat.succ.inj h
  | some deadline =>
    rw [hd] at h
    dsimp only at h ⊢
    omega

/-- No worker cuts the quiet short by more than there is. -/
theorem Worker.quiet_le (w : Worker) (now n : Nat) : w.quiet now n ≤ n := by
  unfold Worker.quiet
  split
  · exact Nat.min_le_right _ _
  · exact Nat.le_refl _

/-! ## All workers -/

/-- If there is quiet, then no worker's wait ends with the next millisecond, and after it there is one
    quiet millisecond less to come. -/
theorem foldr_quiet_succ {entries : List (Nat × Worker)} {now m n : Nat}
    (h : entries.foldr (fun e n => e.2.quiet now n) (m + 1) = n + 1) :
    entries.foldr (fun e n => e.2.quiet (now + 1) n) m = n
      ∧ ∀ e ∈ entries, e.2.isDue (now + 1) = false := by
  induction entries generalizing n with
  | nil => exact ⟨Nat.succ.inj h, by simp⟩
  | cons e es ih =>
    rw [List.foldr_cons] at h ⊢
    have hle := e.2.quiet_le now (es.foldr (fun e n => e.2.quiet now n) (m + 1))
    obtain ⟨k, hk⟩ := Nat.exists_eq_succ_of_ne_zero
      (show es.foldr (fun e n => e.2.quiet now n) (m + 1) ≠ 0 by omega)
    obtain ⟨hq, hd⟩ := ih hk
    rw [hk] at h
    rw [hq]
    refine ⟨Worker.quiet_succ h, ?_⟩
    intro e' he'
    rcases List.mem_cons.mp he' with rfl | he'
    · exact Worker.isDue_of_quiet (n := k.succ) (by omega)
    · exact hd e' he'

namespace Link

variable {σ : Type}

theorem quiet_le (l : Link σ) (n : Nat) : l.quiet n ≤ n := by
  unfold quiet
  induction l.workers.entries with
  | nil => exact Nat.le_refl _
  | cons e es ih =>
    rw [List.foldr_cons]
    exact Nat.le_trans (e.2.quiet_le _ _) ih

/-- Nobody is woken while no wait ends. -/
theorem wakeDue_of_not_due {l : Link σ}
    (h : ∀ e ∈ l.workers.entries, e.2.isDue l.now = false) : l.wakeDue = l := by
  unfold wakeDue
  generalize l.workers.entries = entries at h
  induction entries with
  | nil => rfl
  | cons e es ih =>
    rw [List.foldl_cons, if_neg (by rw [h e List.mem_cons_self]; exact Bool.false_ne_true)]
    exact ih fun e' he' => h e' (List.mem_cons_of_mem _ he')

/-- A quiet millisecond only moves the clock. -/
theorem tick_of_quiet {l : Link σ} {m n : Nat} (h : l.quiet (m + 1) = n + 1) :
    l.tick = { l with now := l.now + 1 } :=
  wakeDue_of_not_due (foldr_quiet_succ h).2

/-- After a quiet millisecond there is one less to come. -/
theorem quiet_tick {l : Link σ} {m n : Nat} (h : l.quiet (m + 1) = n + 1) :
    l.tick.quiet m = n := by
  rw [tick_of_quiet h]
  exact (foldr_quiet_succ h).1

/-! ## Waiting -/

variable (env : Environment σ)

/-- A wait is a millisecond with the workers running before it, and then the rest of the wait. -/
theorem sleep_succ (n : Nat) (l : Link σ) :
    l.sleep env (n + 1) = (l.settle env).tick.sleep env n := by
  rw [sleep]
  have hr := ready_settle env l
  generalize l.settle env = settled at hr ⊢
  cases hq : settled.quiet n with
  | zero => rfl
  | succ k =>
    cases n with
    | zero =>
      have := settled.quiet_le 0
      omega
    | succ m =>
      have ht := tick_of_quiet hq
      have hr' : settled.tick.ready = [] := by
        rw [ht]
        exact hr
      have hk := quiet_tick hq
      have hnow : settled.now + (k + 1 + 1) = settled.now + 1 + (k + 1) := by omega
      rw [sleep, settle_of_ready env hr', hk, ht, Nat.add_sub_add_right]
      unfold pass
      rw [hnow]

end Link

end HeadLink
