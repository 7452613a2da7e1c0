import Mathlib.Logic.Relation
import HeadLink.Proofs.Attendance

/-!
# Whatever may happen

On a course every message that is submitted is accepted, and workers run in the order in which they stand in
line. More may happen to a link. A message may be refused, and one that is submitted by somebody who cannot start
workers may be left in the queue although its sender is told that it failed. And it is up to a scheduler which of
the workers that need not wait runs next.

An event is any of this. Events keep all that has to do with the order among workers; what they do not keep is
that somebody looks for each message, since nobody is woken for one that was left in the queue.

Here one caller comes after the other: submitting a message is one event. What may happen in the middle of it is the
matter of crowds.

## Contents
- **Events.** `Link.Event`, and `Link.Becomes` for any number of them. An event is a step, or one of two things
  more (`Link.Event.cases`).
- **Order.** `Link.Regular`, which is kept (`Link.Becomes.keeps`).
- **Outboxes.** What an event does to the outbox (`Link.Event.changes`).
- **Runs.** Every run is made of events (`Endpoint.becomes_run`).
-/

namespace HeadLink

variable {σ : Type} {env : Environment σ}

/-! ## Events -/

/-- **Anything that can happen to a link** that is used by one caller at a time, whoever uses it and whoever schedules
    its workers. -/
inductive Link.Event (env : Environment σ) : Link σ → Link σ → Prop
  | step {l l' : Link σ} {log : List Outbound} (step : Step env l log l') : Event env l l'
  /-- A message is submitted by somebody who can start workers or cannot. It is accepted or refused. -/
  | submit {l : Link σ} (x : Outbound) (hasExecutor : Bool) : Event env l (l.submit env x hasExecutor).1
  /-- Those that need not wait stand in line in another order. -/
  | reorder {l : Link σ} {ready : List Nat} (perm : ready.Perm l.ready) : Event env l { l with ready }

/-- **The link becomes the other one** after any number of events. -/
abbrev Link.Becomes (env : Environment σ) : Link σ → Link σ → Prop := Relation.ReflTransGen (Link.Event env)

namespace Link

variable {l l' : Link σ} {log : List Outbound}

/-- **What comes of submitting a message**: nothing; the same as for a caller who can start workers; or the message
    is left in the queue, because a worker would have to be started for it. -/
theorem submit_outcome (env : Environment σ) (l : Link σ) (x : Outbound) (hasExecutor : Bool) :
    (∃ fault, l.submit env x hasExecutor = (l, .error fault))
      ∨ (∃ l', l.submit env x hasExecutor = (l', .ok ()) ∧ l.submit env x true = (l', .ok ()))
      ∨ l.isShutDown = false ∧ l.idleCount = 0
        ∧ l.submit env x hasExecutor = (l.accept x, .error (.transport .noExecutor)) := by
  unfold submit
  cases hvet : l.vet x with
  | error fault => exact Or.inl ⟨fault, rfl⟩
  | ok admitted =>
    dsimp only
    rcases bringIn_outcome env l x hasExecutor with hsame | ⟨hstart, hleft⟩
    · have haccepted : (l.bringIn env x true).2 = .ok () := congrArg Prod.snd (bringIn_true env l x)
      rw [hsame]
      exact Or.inr (Or.inl ⟨_, Prod.ext rfl haccepted, Prod.ext rfl haccepted⟩)
    · exact Or.inr (Or.inr ⟨(vet_eq_ok_iff.mp hvet).2, hstart.1, hleft⟩)

/-- **An event changes nothing, or is a step, or reorders the line, or leaves a message in the queue.** -/
theorem Event.cases (event : Event env l l') :
    l' = l ∨ (∃ log, Step env l log l') ∨ (∃ ready, ready.Perm l.ready ∧ l' = { l with ready })
      ∨ ∃ x, l.isShutDown = false ∧ l.idleCount = 0 ∧ l' = l.accept x := by
  cases event with
  | step step => exact Or.inr (Or.inl ⟨_, step⟩)
  | submit x hasExecutor =>
    rcases submit_outcome env l x hasExecutor with ⟨fault, hrefused⟩ | ⟨l', hsame, haccepted⟩
      | ⟨hopen, hidle, hleft⟩
    · rw [hrefused]
      exact Or.inl rfl
    · rw [hsame]
      exact Or.inr (Or.inl ⟨_, .submit haccepted⟩)
    · rw [hleft]
      exact Or.inr (Or.inr (Or.inr ⟨x, hopen, hidle, rfl⟩))
  | reorder perm => exact Or.inr (Or.inr (Or.inl ⟨_, perm, rfl⟩))

theorem Course.becomes (course : Course env l log l') : Becomes env l l' := by
  induction course with
  | refl => exact .refl
  | tail _ step ih => exact ih.tail (.step step)

/-! ## Outboxes -/

/-- The outbox does not mind in which order workers stand in line. -/
theorem changes_reorder {ready : List Nat} (perm : ready.Perm l.ready) :
    Outbox.Changes env l.outbox [] ({ l with ready } : Link σ).outbox := by
  have hrest : Outbox.Work env l.outbox { l.outbox with ready, workers := l.outbox.workers } := by
    apply Outbox.Work.rest ready l.outbox.workers (Set.Subset.refl _)
    · intro hnodup
      exact perm.nodup_iff.mpr hnodup
    · intro id hin
      exact Or.inl (perm.mem_iff.mp hin)
  exact .single (.step (.work hrest))

/-- An event changes the outbox, and messages are accepted on the way. -/
theorem Event.changes (event : Event env l l') (hl : l.outbox.Locked) :
    ∃ log, Outbox.Changes env l.outbox log l'.outbox := by
  rcases event.cases with rfl | ⟨log, step⟩ | ⟨ready, perm, rfl⟩ | ⟨x, -, -, rfl⟩
  · exact ⟨[], .refl⟩
  · exact ⟨log, step.changes hl⟩
  · exact ⟨[], changes_reorder perm⟩
  · exact ⟨[x], .single (.accept x)⟩

theorem Event.locked (event : Event env l l') (hl : l.outbox.Locked) : l'.outbox.Locked := by
  obtain ⟨log, hchanges⟩ := event.changes hl
  exact hchanges.locked hl

/-! ## Order -/

/-- Workers are in order and counted, and who waits for the lock waits for somebody. -/
structure Regular (l : Link σ) : Prop where
  locked : l.outbox.Locked
  order : l.InOrder
  counted : l.roster.Counted
  lock : l.lock.Sound

theorem Tidy.regular (h : l.Tidy) : l.Regular := ⟨h.locked, h.order, h.counted, h.lock⟩

theorem Regular.workerCount_eq (h : l.Regular) : l.workerCount = l.workers.size :=
  h.counted.workers.trans (List.length_map _)

/-- Once a link is shut down, nobody has to look for messages. -/
theorem Regular.tidy (h : l.Regular) (hdown : l.isShutDown = true) : l.Tidy := by
  refine ⟨h.locked, h.order, h.counted, h.lock, ?_⟩
  intro hopen
  cases hdown.symm.trans hopen

theorem Regular.event (event : Event env l l') (h : l.Regular) : l'.Regular := by
  have hlocked := event.locked h.locked
  rcases event.cases with rfl | ⟨log, step⟩ | ⟨ready, perm, rfl⟩ | ⟨x, -, -, rfl⟩
  · exact h
  · exact ⟨hlocked, step.inOrder h.locked h.order, step.counted h.locked h.counted,
      step.sound_lock h.locked h.lock⟩
  · have horder : ({ l with ready } : Link σ).InOrder :=
      h.order.of_ready rfl rfl rfl rfl fun id hin => perm.mem_iff.mpr hin
    exact ⟨hlocked, horder, h.counted, h.lock⟩
  · exact ⟨hlocked, h.order.accept x, ⟨h.counted.workers, h.counted.idle⟩, h.lock⟩

/-- **What every event keeps as long as workers are in order, is kept.** -/
theorem Becomes.keeps {P : Link σ → Prop}
    (hstep : ∀ {l l' : Link σ}, l.Regular → P l → Event env l l' → P l')
    (becomes : Becomes env l l') (h : l.Regular) (hp : P l) : l'.Regular ∧ P l' := by
  induction becomes with
  | refl => exact ⟨h, hp⟩
  | tail _ event ih => exact ⟨ih.1.event event, hstep ih.1 ih.2 event⟩

theorem Becomes.regular (becomes : Becomes env l l') (h : l.Regular) : l'.Regular := by
  induction becomes with
  | refl => exact h
  | tail _ event ih => exact ih.event event

end Link

/-! ## Runs -/

theorem Endpoint.regular_of_open? {carrier : σ} {e : Endpoint σ} (h : Endpoint.open? env carrier = .ok e) :
    e.link.Regular := (Endpoint.tidy_of_open? h).regular

/-- **Every run is made of events.** -/
theorem Endpoint.becomes_run {carrier : σ} {e : Endpoint σ} (h : Endpoint.open? env carrier = .ok e)
    (actions : List Action) : Link.Becomes env e.link (e.run env actions).1.link := by
  obtain ⟨log, -, course⟩ := Endpoint.course_run (Endpoint.Ordered.fresh h) actions
  exact Link.Course.becomes course

end HeadLink
