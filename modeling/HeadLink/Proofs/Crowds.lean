import HeadLink.Proofs.Vigil

/-!
# Callers who overlap

Submitting a message is two things: the check whether it is let in (`Link.vet`), and all that comes after it
(`Link.bringIn`). The link is not locked in between. When callers run at the same time, anything may happen to the
link after a caller has passed the check and before its message is queued: workers go on, the session of the message
ends, other messages are submitted, the link is shut down. The caller does not look again.

A crowd is a link with the callers who are in between. Whoever goes on queues a message, whatever has become of the
link since; so what is kept by messages that are queued at any time is kept in a crowd. The turn of a worker, up to
where it waits, is one step here as elsewhere.

## Contents
- **Crowds.** `Crowd`, and `Crowd.Event` for whatever may happen to one; `Crowd.Becomes` for any number of them.
- **Outboxes.** What events do to the outbox (`Crowd.Becomes.changes`).
- **Order.** Workers are in order, and nobody dozes (`Crowd.Becomes.keeps`, `Crowd.Becomes.watched`).
-/

namespace HeadLink

variable {σ : Type} {env : Environment σ}

/-! ## Crowds -/

/-- A link, and the messages of the callers who were let in and have not queued them yet. -/
structure Crowd (σ : Type) where
  link : Link σ
  inside : List Outbound := []

/-- **Anything that can happen to a link while callers are in the middle of submitting.** -/
inductive Crowd.Event (env : Environment σ) : Crowd σ → Crowd σ → Prop
  /-- Something happens to the link, and those inside stay where they are. -/
  | link {l l' : Link σ} {inside : List Outbound} (event : Link.Event env l l') :
      Event env ⟨l, inside⟩ ⟨l', inside⟩
  /-- A caller passes the check. -/
  | enter {l : Link σ} {inside : List Outbound} {x : Outbound} (letIn : l.vet x = .ok ()) :
      Event env ⟨l, inside⟩ ⟨l, x :: inside⟩
  /-- A caller who has passed it goes on, whatever has happened since. -/
  | bringIn {l : Link σ} {before after : List Outbound} (x : Outbound) (hasExecutor : Bool) :
      Event env ⟨l, before ++ x :: after⟩ ⟨(l.bringIn env x hasExecutor).1, before ++ after⟩

/-- **The crowd becomes the other one** after any number of events. -/
abbrev Crowd.Becomes (env : Environment σ) : Crowd σ → Crowd σ → Prop := Relation.ReflTransGen (Crowd.Event env)

/-- Whatever happens to a link happens to it in a crowd. -/
theorem Link.Becomes.crowd {l l' : Link σ} (becomes : Link.Becomes env l l') (inside : List Outbound) :
    Crowd.Becomes env ⟨l, inside⟩ ⟨l', inside⟩ := by
  induction becomes with
  | refl => exact .refl
  | tail _ event ih => exact ih.tail (.link event)

namespace Crowd

variable {c c' : Crowd σ}

/-! ## Outboxes -/

/-- An event changes the outbox, and messages are accepted on the way. -/
theorem Event.changes (event : Event env c c') (hl : c.link.outbox.Locked) :
    ∃ log, Outbox.Changes env c.link.outbox log c'.link.outbox := by
  cases event with
  | link event => exact event.changes hl
  | enter letIn => exact ⟨[], .refl⟩
  | bringIn x hasExecutor => exact ⟨[x], Link.bringIn_changes env hl x hasExecutor⟩

/-- **Whatever happens in a crowd, the outbox changes step by step.** -/
theorem Becomes.changes (becomes : Becomes env c c') (hl : c.link.outbox.Locked) :
    ∃ log, Outbox.Changes env c.link.outbox log c'.link.outbox := by
  induction becomes with
  | refl => exact ⟨[], .refl⟩
  | tail _ event ih =>
    obtain ⟨log, hbefore⟩ := ih
    obtain ⟨new, hafter⟩ := event.changes (hbefore.locked hl)
    exact ⟨log ++ new, hbefore.trans hafter⟩

/-! ## Order -/

theorem Event.regular (event : Event env c c') (h : c.link.Regular) : c'.link.Regular := by
  cases event with
  | link event => exact h.event event
  | enter letIn => exact h
  | @bringIn l _ _ x hasExecutor =>
    have hlocked := (Link.bringIn_changes env h.locked x hasExecutor).locked h.locked
    refine ⟨hlocked, h.order.bringIn env h.locked x hasExecutor,
      Link.counted_bringIn env h.locked h.counted x hasExecutor, ?_⟩
    rw [Link.lock_bringIn env l x hasExecutor]
    exact h.lock

/-- **What every event keeps as long as workers are in order, is kept.** -/
theorem Becomes.keeps {P : Crowd σ → Prop}
    (hstep : ∀ {c c' : Crowd σ}, c.link.Regular → P c → Event env c c' → P c')
    (becomes : Becomes env c c') (h : c.link.Regular) (hp : P c) : c'.link.Regular ∧ P c' := by
  induction becomes with
  | refl => exact ⟨h, hp⟩
  | tail _ event ih => exact ⟨event.regular ih.1, hstep ih.1 ih.2 event⟩

theorem Becomes.regular (becomes : Becomes env c c') (h : c.link.Regular) : c'.link.Regular := by
  induction becomes with
  | refl => exact h
  | tail _ event ih => exact event.regular ih

/-- **Nobody dozes over a message that nobody looks after**, whoever brings it in and whenever. -/
theorem Event.watched (event : Event env c c') (hregular : c.link.Regular) (h : c.link.Watched) :
    c'.link.Watched := by
  cases event with
  | link event => exact h.event event hregular
  | enter letIn => exact h
  | bringIn x hasExecutor => exact h.bringIn env hregular x hasExecutor

theorem Becomes.watched (becomes : Becomes env c c') (hregular : c.link.Regular) (h : c.link.Watched) :
    c'.link.Watched :=
  (becomes.keeps (P := fun c => c.link.Watched) (fun hregular h event => event.watched hregular h) hregular h).2

end Crowd

end HeadLink
