import Mathlib.Data.List.Perm.Subperm
import HeadLink.Proofs.Settlement
import HeadLink.Proofs.Crowds
import HeadLink.Proofs.Staffing

/-!
# Shutting a link down is final

Once a link is shut down, nobody is let in any more, and a worker that looks for a message ends. So nothing is taken
from the queue, and no worker is idle: those that were have been called. What is left are the workers that had a
message in their hands. They write it to the end, or up to a frame that fails, and then look for the next message,
which is to say that they end as well. No message is in anybody's hands that was not at the moment of the shutdown,
so all that is written of messages is written of these.

The link is not locked while a caller goes from the check to the queue. Who has passed the check when the link is shut
down does not look again: the message is queued all the same, a worker may be started for it, and its sender is told
that it was accepted. Nobody takes it (`shut_down_overtaken`). This is the only thing that can come in after a
shutdown: as many messages and as many workers at most as there were callers inside, and none if there were none.

## Contents
- **After the shutdown.** No message is taken (`Outbox.Dwindles`, `Link.Event.dwindles`). In a crowd, those that were
  inside may still come in (`Crowd.Shut`, `Crowd.Becomes.shut`).
- **The journal.** What is written of a message are frames of it (`Outbox.At.mem_frames`).
- **What was in hand.** It is there still or through (`Crowd.Becomes.fate`), and nothing else is written
  (`Crowd.Shut.written`).
- **The end.** Who waits then waits with a message (`Crowd.Shut.waits`), and in the end nobody is left
  (`Crowd.Shut.exists_empty`).
- **Finality.** `Crowd.Final` says how a link stands after a shutdown; `shut_down_is_final`, and what comes of a caller
  who is overtaken: `shut_down_overtaken`.
-/

namespace HeadLink

variable {σ : Type} {env : Environment σ}

/-! ## After the shutdown -/

namespace Outbox

variable {o o' o'' : Outbox}

/-- What is in the hands of workers was in the same hands before. -/
def Keeps (o o' : Outbox) : Prop :=
  ∀ id g', o'.grip id = some g' → ∃ g, o.grip id = some g ∧ g.job.submission = g'.job.submission

theorem Keeps.refl (o : Outbox) : o.Keeps o := fun _ g hg => ⟨g, hg, rfl⟩

theorem Keeps.trans (h : o.Keeps o') (h' : o'.Keeps o'') : o.Keeps o'' := by
  intro id g₂ hg₂
  obtain ⟨g₁, hg₁, hsame₁⟩ := h' id g₂ hg₂
  obtain ⟨g, hg, hsame⟩ := h id g₁ hg₁
  exact ⟨g, hg, hsame.trans hsame₁⟩

/-- A worker comes on with its message. -/
theorem Keeps.setGrip {id : Nat} {g g' : Grip} (hg : o.grip id = some g)
    (hsame : g.job.submission = g'.job.submission) : o.Keeps (o.setGrip id (some g')) := by
  intro id' g'' hg''
  rcases update_eq_some hg'' with ⟨rfl, hnew⟩ | ⟨-, hold⟩
  · cases hnew
    exact ⟨g, hg, hsame⟩
  · exact ⟨g'', hold, rfl⟩

/-- A worker is through with its message. -/
theorem Keeps.letGo (o : Outbox) (id : Nat) : o.Keeps (o.setGrip id none) := by
  intro id' g hg
  exact ⟨g, (update_none_eq_some hg).2, rfl⟩

/-- What is written while no message is taken: control frames, and frames of messages in somebody's hands. -/
def Writes (o : Outbox) (origin : Origin) (f : Frame) : Prop :=
  match origin with
  | .control => f.OfControl
  | .message number _ => ∃ id g, o.grip id = some g ∧ g.job.submission.number = number

theorem Keeps.writes (h : o.Keeps o') {origin : Origin} {f : Frame} (hwrites : o'.Writes origin f) :
    o.Writes origin f := by
  cases origin with
  | control => exact hwrites
  | message number message =>
    obtain ⟨id, g', hg', hnumber⟩ := hwrites
    obtain ⟨g, hg, hsame⟩ := h id g' hg'
    exact ⟨id, g, hg, hsame ▸ hnumber⟩

theorem writes_of_nil {origin : Origin} {f : Frame} {failure : Option (List String)}
    (h : .written origin f failure ∈ ([] : List Entry)) : o.Writes origin f :=
  absurd h List.not_mem_nil

/-- **Nothing comes in and no message is taken.** Messages may be dropped and workers may end; what is written is
    written of messages that were in hand. -/
structure Dwindles (o o' : Outbox) : Prop where
  queue : o'.queue.Sublist o.queue
  accepted : o'.accepted = o.accepted
  started : o'.started = o.started
  workers : o'.workers ⊆ o.workers
  keeps : o.Keeps o'
  journal : ∃ added, o'.journal = o.journal ++ added
    ∧ ∀ origin f failure, .written origin f failure ∈ added → o.Writes origin f

/-- Nothing has changed that matters here. -/
theorem Dwindles.of_eq (hqueue : o'.queue = o.queue) (haccepted : o'.accepted = o.accepted)
    (hstarted : o'.started = o.started) (hworkers : o'.workers = o.workers) (hgrip : o'.grip = o.grip)
    (hjournal : o'.journal = o.journal) : o.Dwindles o' where
  queue := hqueue ▸ .refl _
  accepted := haccepted
  started := hstarted
  workers := hworkers.subset
  keeps _ g' hg' := ⟨g', hgrip ▸ hg', rfl⟩
  journal := ⟨[], hjournal.trans (List.append_nil _).symm, fun _ _ _ => writes_of_nil⟩

theorem Dwindles.refl (o : Outbox) : o.Dwindles o := .of_eq rfl rfl rfl rfl rfl rfl

theorem Dwindles.trans (h : o.Dwindles o') (h' : o'.Dwindles o'') : o.Dwindles o'' := by
  obtain ⟨added, hadded, hwrites⟩ := h.journal
  obtain ⟨more, hmore, hwrites'⟩ := h'.journal
  refine ⟨h'.queue.trans h.queue, h'.accepted.trans h.accepted, h'.started.trans h.started,
    h'.workers.trans h.workers, h.keeps.trans h'.keeps, added ++ more, ?_, ?_⟩
  · rw [hmore, hadded, List.append_assoc]
  · intro origin f failure hin
    rcases List.mem_append.mp hin with hin | hin
    · exact hwrites origin f failure hin
    · exact h.keeps.writes (hwrites' origin f failure hin)

/-- A worker takes a message, or no message is taken. -/
theorem Work.dwindles (work : Work env o o') : o'.queue.length < o.queue.length ∨ o.Dwindles o' := by
  cases work with
  | rest ready workers hsub hnodup hready =>
    exact Or.inr ⟨.refl _, rfl, rfl, hsub, .refl o, [], (List.append_nil _).symm, fun _ _ _ => writes_of_nil⟩
  | @refuse s queue fault hqueue hprepared =>
    left
    show queue.length < o.queue.length
    rw [hqueue]
    exact Nat.lt_succ_self _
  | @takeOn id s queue job hturn hworker hgrip hqueue hprepared =>
    left
    have hstart : ((o.take s queue).startJob id job).queue = queue := by
      unfold startJob
      split <;> rfl
    rw [hstart, hqueue]
    exact Nat.lt_succ_self _
  | grant hturn hgrip =>
    exact Or.inr ⟨.refl _, rfl, rfl, Set.Subset.refl _, .setGrip hgrip rfl, [], (List.append_nil _).symm,
      fun _ _ _ => writes_of_nil⟩
  | @hand id job f left failure hturn hgrip hleft hanswer =>
    refine Or.inr ⟨.refl _, rfl, rfl, Set.Subset.refl _, .setGrip hgrip rfl, _, rfl, ?_⟩
    intro origin f' failure' hin
    cases List.mem_singleton.mp hin
    exact ⟨id, _, hgrip, rfl⟩
  | @finish id =>
    exact Or.inr ⟨.refl _, rfl, rfl, Set.Subset.refl _, .letGo o id, [], (List.append_nil _).symm,
      fun _ _ _ => writes_of_nil⟩
  | @giveUp id job causes =>
    refine Or.inr ⟨.refl _, rfl, rfl, Set.Subset.refl _, .letGo o id, _, rfl, ?_⟩
    intro origin f failure hin
    cases List.mem_singleton.mp hin

/-- **As long as the queue does not get shorter, what workers do starts no worker and takes no message.** -/
theorem Works.dwindles (works : Works env o o') : o'.queue.length < o.queue.length ∨ o.Dwindles o' := by
  induction works with
  | refl => exact Or.inr (.refl o)
  | tail _ work ih =>
    rcases ih with hshorter | hbefore <;> rcases work.dwindles with hless | hafter
    · exact Or.inl (hless.trans hshorter)
    · exact Or.inl (hafter.queue.length_le.trans_lt hshorter)
    · exact Or.inl (hless.trans_le hbefore.queue.length_le)
    · exact Or.inr (hbefore.trans hafter)

end Outbox

namespace Link

variable {l l' l₀ : Link σ} {log : List Outbound}

/-- After a shutdown workers leave the queue alone. -/
theorem queue_work_of_isShutDown (hl : l.outbox.Locked) (hdown : l.isShutDown = true) :
    (l.work env).queue = l.queue := by
  refine (queue_work env hl).resolve_right ?_
  rintro ⟨s, htakes⟩
  cases htakes.accepting.symm.trans hdown

/-- **After a shutdown no step queues a message or starts a worker, and none takes a message.** -/
theorem Step.dwindles (step : Step env l log l') (hl : l.outbox.Locked) (hdown : l.isShutDown = true) :
    l.outbox.Dwindles l'.outbox := by
  have hworks {l' : Link σ} (works : Outbox.Works env l.outbox l'.outbox) (hqueue : l'.queue = l.queue) :
      l.outbox.Dwindles l'.outbox :=
    works.dwindles.resolve_left fun hless => hless.ne (congrArg List.length hqueue)
  cases step with
  | work => exact hworks (work_works env l) (queue_work_of_isShutDown hl hdown)
  | pass ms =>
    exact hworks (wakeDue_works env { l with now := l.now + ms }) (congrArg Roster.queue (roster_pass l ms))
  | release holder =>
    rw [outbox_release]
    exact .of_eq rfl rfl rfl rfl rfl rfl
  | request | sessions => exact .of_eq rfl rfl rfl rfl rfl rfl
  | control holder type =>
    rw [outbox_handOver]
    refine ⟨.refl _, rfl, rfl, Set.Subset.refl _, .refl _, _, rfl, ?_⟩
    intro origin f' failure' hin
    cases List.mem_singleton.mp hin
    exact type
  | tell other =>
    rw [show (l.tell _).outbox = l.outbox.note _ from outbox_record l _]
    refine ⟨.refl _, rfl, rfl, Set.Subset.refl _, .refl _, _, rfl, ?_⟩
    intro origin f failure hin
    cases List.mem_singleton.mp hin
  | submit accepted => cases hdown.symm.trans (eq_of_submit accepted).1
  | shutDown =>
    obtain ⟨ready, heq, -⟩ := shutDown_roused l
    rw [heq]
    exact ⟨List.nil_sublist _, rfl, rfl, Set.Subset.refl _, .refl _, _, rfl, by simp⟩

theorem Event.dwindles (event : Event env l l') (hl : l.outbox.Locked) (hdown : l.isShutDown = true) :
    l'.isShutDown = true ∧ l.outbox.Dwindles l'.outbox := by
  rcases event.cases with rfl | ⟨log, step⟩ | ⟨ready, -, rfl⟩ | ⟨x, hopen, -, rfl⟩
  · exact ⟨hdown, .refl _⟩
  · exact ⟨step.isShutDown hl hdown, step.dwindles hl hdown⟩
  · exact ⟨hdown, .of_eq rfl rfl rfl rfl rfl rfl⟩
  · cases hopen.symm.trans hdown

/-- What bringing in a message does to the outbox: it joins the queue, and a worker may be started. -/
theorem outbox_bringIn (env : Environment σ) (hl : l.outbox.Locked) (x : Outbound) (hasExecutor : Bool) :
    let o := (l.bringIn env x hasExecutor).1.outbox
    o.queue = enqueue { x with number := l.accepted } l.queue ∧ o.accepted = l.accepted + 1
      ∧ o.grip = l.outbox.grip ∧ o.journal = l.outbox.journal
      ∧ (o.started = l.started ∧ o.workers = l.outbox.workers
        ∨ o.started = l.started + 1 ∧ o.workers = insert l.started l.outbox.workers) := by
  intro o
  have hcases : ∃ ready, o = { l.outbox.accept x with ready } ∨ o = { (l.outbox.accept x).enlist with ready } := by
    rcases bringIn_outcome env l x hasExecutor with hsame | ⟨-, hleft⟩
    · rcases bringIn_roused env hl x with ⟨ready, heq, -⟩ | ⟨ready, heq, -⟩
      · exact ⟨ready, Or.inl ((congrArg (fun r => r.1.outbox) hsame).trans heq)⟩
      · exact ⟨ready, Or.inr ((congrArg (fun r => r.1.outbox) hsame).trans heq)⟩
    · exact ⟨l.ready, Or.inl (congrArg (fun r => r.1.outbox) hleft)⟩
  obtain ⟨ready, heq | heq⟩ := hcases
  · rw [heq]
    exact ⟨rfl, rfl, rfl, rfl, Or.inl ⟨rfl, rfl⟩⟩
  · rw [heq]
    exact ⟨rfl, rfl, rfl, rfl, Or.inr ⟨rfl, rfl⟩⟩

theorem isShutDown_bringIn (env : Environment σ) (l : Link σ) (x : Outbound) (hasExecutor : Bool) :
    (l.bringIn env x hasExecutor).1.isShutDown = l.isShutDown := by
  have hring : ∀ l : Link σ, l.ring.isShutDown = l.isShutDown := fun l => congrArg Roster.isShutDown (roster_ring l)
  rcases bringIn_cases env l x hasExecutor with hrings | ⟨-, hleft | hstart⟩
  · rw [hrings]
    exact hring _
  · rw [hleft]
    rfl
  · rw [hstart]
    exact (hring _).trans (congrArg Roster.isShutDown (roster_startWorker (l.accept x)))

end Link

/-! ### Callers inside -/

namespace Crowd

variable {c c' c₀ : Crowd σ} {came : List Outbound}

/-- The link is shut down, whoever is inside. -/
def shutDown (c : Crowd σ) : Crowd σ :=
  { c with link := c.link.shutDown }

/-- **What a shutdown leaves**, when the given messages have come in since. They were inside, and some of them are in
    the queue; there is no worker that was not there before but those that were started for them; no message is in
    anybody's hands that was not; and what was written since is written of those that were. -/
structure Shut (c₀ : Crowd σ) (came : List Outbound) (c : Crowd σ) : Prop where
  isShutDown : c.link.isShutDown = true
  inside : c₀.inside.Perm (came ++ c.inside)
  queue : (c.link.queue.map Submission.toOutbound).Subperm came
  accepted : c.link.accepted = c₀.link.accepted + came.length
  started : c₀.link.started ≤ c.link.started ∧ c.link.started ≤ c₀.link.started + came.length
  workers : ∀ id ∈ c.link.outbox.workers,
    id ∈ c₀.link.outbox.workers ∨ c₀.link.started ≤ id ∧ id < c.link.started
  keeps : c₀.link.outbox.Keeps c.link.outbox
  journal : ∃ since, c.link.outbox.journal = c₀.link.shutDown.outbox.journal ++ since
    ∧ ∀ origin f failure, .written origin f failure ∈ since → c₀.link.outbox.Writes origin f

/-- A link in which nothing comes in stays as the shutdown left it. -/
theorem Shut.dwindles (h : Shut c₀ came c) {l : Link σ} (hdown : l.isShutDown = true)
    (hdwindles : c.link.outbox.Dwindles l.outbox) : Shut c₀ came { c with link := l } := by
  obtain ⟨since, hsince, hwrites⟩ := h.journal
  obtain ⟨added, hadded, hwrites'⟩ := hdwindles.journal
  have hstarted : l.started = c.link.started := hdwindles.started
  have haccepted : l.accepted = c.link.accepted := hdwindles.accepted
  refine ⟨hdown, h.inside, ?_, haccepted.trans h.accepted, ?_, ?_, h.keeps.trans hdwindles.keeps,
    since ++ added, ?_, ?_⟩
  · exact ((hdwindles.queue.map Submission.toOutbound).subperm).trans h.queue
  · show c₀.link.started ≤ l.started ∧ l.started ≤ c₀.link.started + came.length
    rw [hstarted]
    exact h.started
  · intro id hid
    show _ ∨ _ ∧ id < l.started
    rw [hstarted]
    exact h.workers id (hdwindles.workers hid)
  · rw [hadded, hsince, List.append_assoc]
  · intro origin f failure hin
    rcases List.mem_append.mp hin with hin | hin
    · exact hwrites origin f failure hin
    · exact h.keeps.writes (hwrites' origin f failure hin)

/-- **Who was inside comes in, and nobody else.** -/
theorem Shut.bringIn {l : Link σ} {before after : List Outbound} {x : Outbound}
    (h : Shut c₀ came ⟨l, before ++ x :: after⟩) (hl : l.outbox.Locked) (hasExecutor : Bool) :
    Shut c₀ (x :: came) ⟨(l.bringIn env x hasExecutor).1, before ++ after⟩ := by
  obtain ⟨hqueue, haccepted, hgrip, hjournal, hcrew⟩ := Link.outbox_bringIn env hl x hasExecutor
  obtain ⟨hfrom, hto⟩ : c₀.link.started ≤ l.started ∧ l.started ≤ c₀.link.started + came.length := h.started
  refine ⟨(Link.isShutDown_bringIn env l x hasExecutor).trans h.isShutDown, ?_, ?_, ?_, ?_, ?_, ?_, ?_⟩
  · have hmiddle : (before ++ x :: after).Perm (x :: (before ++ after)) := List.perm_middle
    exact h.inside.trans ((hmiddle.append_left came).trans List.perm_middle)
  · have hperm := (perm_enqueue { x with number := l.accepted } l.queue).map Submission.toOutbound
    rw [show (l.bringIn env x hasExecutor).1.queue = _ from hqueue]
    exact hperm.subperm.trans ((List.subperm_cons x).mpr h.queue)
  · exact haccepted.trans (congrArg (· + 1) h.accepted)
  · show c₀.link.started ≤ (l.bringIn env x hasExecutor).1.outbox.started
      ∧ (l.bringIn env x hasExecutor).1.outbox.started ≤ c₀.link.started + (came.length + 1)
    rcases hcrew with ⟨hstarted, -⟩ | ⟨hstarted, -⟩ <;> omega
  · intro id hid
    show id ∈ c₀.link.outbox.workers
      ∨ c₀.link.started ≤ id ∧ id < (l.bringIn env x hasExecutor).1.outbox.started
    rcases hcrew with ⟨hstarted, hworkers⟩ | ⟨hstarted, hworkers⟩
    · rw [hstarted]
      exact h.workers id (hworkers ▸ hid)
    · rw [hstarted]
      rcases hworkers ▸ hid with rfl | hbefore
      · exact Or.inr ⟨hfrom, Nat.lt_succ_self _⟩
      · exact (h.workers id hbefore).imp_right fun hsince => ⟨hsince.1, hsince.2.trans (Nat.lt_succ_self _)⟩
  · intro id g hg
    exact h.keeps id g (hgrip ▸ hg)
  · obtain ⟨since, hsince, hwrites⟩ := h.journal
    exact ⟨since, hjournal.trans hsince, hwrites⟩

end Crowd

/-! ## The journal -/

namespace Outbox

variable {o : Outbox} {s : Submission}

theorem mem_of_entry {written : List Written} {origin : Origin} {f : Frame} {failure : Option (List String)}
    (h : .written origin f failure ∈ written.map Written.entry) : ⟨origin, f, failure⟩ ∈ written := by
  obtain ⟨⟨origin', f', failure'⟩, hin, heq⟩ := List.mem_map.mp h
  cases heq
  exact hin

/-- **What is written of a message are its frames**, whatever situation it is in. -/
theorem At.mem_frames {p : Situation} (hp : o.At env s p) {message : UInt32} {f : Frame}
    {failure : Option (List String)} (h : .written (.message s.number message) f failure ∈ o.account s.number) :
    ∃ frames, s.frames? env message = .ok frames ∧ f ∈ frames := by
  cases p with
  | queued =>
    rw [hp.2] at h
    cases h
  | held =>
    obtain ⟨id, g, -, rfl, written, hwrote, haccount⟩ := hp
    rw [haccount] at h
    have hin := mem_of_entry (List.mem_of_ne_of_mem (by simp) h)
    obtain ⟨horigin, frames, hframes, hf⟩ := mem_frames_of_wrote hwrote hin
    cases horigin
    exact ⟨frames, hframes, hf⟩
  | ended ending =>
    obtain ⟨-, -, hends⟩ := hp
    generalize o.account s.number = entries at h hends
    cases hends with
    | written split =>
      obtain ⟨horigin, hf⟩ := mem_sent (mem_of_entry (List.mem_of_ne_of_mem (by simp) h))
      cases horigin
      exact ⟨_, split, hf⟩
    | failed split =>
      have hin := List.mem_of_ne_of_mem (by simp) h
      rcases List.mem_append.mp hin with hwritten | htold
      · rcases List.mem_append.mp (mem_of_entry hwritten) with hsent | hlast
        · obtain ⟨horigin, hf⟩ := mem_sent hsent
          cases horigin
          exact ⟨_, split, List.mem_append_left _ hf⟩
        · cases List.mem_singleton.mp hlast
          exact ⟨_, split, List.mem_append_right _ List.mem_cons_self⟩
      · cases List.mem_singleton.mp htold
    | refused why => simp at h
    | dropped => simp at h

end Outbox

/-! ## What was in hand -/

namespace Link

variable {l : Link σ} {log : List Outbound} {id : Nat} {s : Submission}

theorem accounted_shutDown (h : l.outbox.Accounted env Frame.OfControl log) :
    l.shutDown.outbox.Accounted env Frame.OfControl log := by
  obtain ⟨hshut, -⟩ := Course.accounted (.single (.shutDown : Step env l [] l.shutDown)) h
  rwa [List.append_nil] at hshut

/-- What a worker has in its hands is held. -/
theorem Holds.at (hholds : l.Holds id s) (h : l.outbox.Accounted env Frame.OfControl log) :
    s.Logged log ∧ l.outbox.At env s .held := by
  obtain ⟨g, hg, rfl⟩ := hholds
  obtain ⟨blocks, htraced⟩ := h.traced
  exact ⟨htraced.held hg, id, g, hg, rfl, h.account_held hg⟩

/-- What may be written once the link is shut down: control frames, and frames of messages that are in the hands of
    workers. -/
def MayWrite (env : Environment σ) (l : Link σ) (origin : Origin) (f : Frame) : Prop :=
  match origin with
  | .control => f.OfControl
  | .message number message => ∃ id s, l.Holds id s ∧ s.number = number
    ∧ ∃ frames, s.frames? env message = .ok frames ∧ f ∈ frames

end Link

namespace Crowd

variable {c c' c₀ : Crowd σ} {log : List Outbound} {came : List Outbound} {id : Nat} {s : Submission}

/-- Whatever happens, accounts are kept, and each message is led on. -/
theorem Becomes.accounted (becomes : Becomes env c c') (h : c.link.outbox.Accounted env Frame.OfControl log) :
    ∃ new, c'.link.outbox.Accounted env Frame.OfControl (log ++ new)
      ∧ ∀ s : Submission, s.Logged log → ∀ p, c.link.outbox.At env s p →
        ∃ p', c'.link.outbox.At env s p' ∧ Relation.ReflTransGen Situation.Leads p p'
          ∧ ∀ ending, p = .ended ending → c'.link.account s.number = c.link.account s.number := by
  obtain ⟨new, hchanges⟩ := becomes.changes h.locked
  exact ⟨new, h.changes hchanges⟩

/-- **What waited is dropped for good.** -/
theorem Becomes.dropped (becomes : Becomes env c₀.shutDown c)
    (h : c₀.link.outbox.Accounted env Frame.OfControl log) (hs : s ∈ c₀.link.queue) :
    c.link.At env s (.ended .dropped) := by
  obtain ⟨blocks, htraced⟩ := h.traced
  have hlogged := htraced.queued s hs
  have hshut := Link.accounted_shutDown h
  obtain ⟨p, hp⟩ := hshut.situated s hlogged
  obtain rfl := Link.at_shutDown h hs hp
  obtain ⟨new, hnow, hleads⟩ := becomes.accounted hshut
  obtain ⟨p, hp', hlead, -⟩ := hleads s hlogged _ hp
  obtain rfl := eq_of_leads_ended hlead
  exact (Link.at_iff hnow (hlogged.append new)).mpr hp'

/-- **All that is written after a shutdown is control frames, and frames of messages that were in somebody's hands.** -/
theorem Shut.written (hshut : Shut c₀ came c) (becomes : Becomes env c₀.shutDown c)
    (h : c₀.link.outbox.Accounted env Frame.OfControl log) :
    ∃ since, c.link.journal.toList = c₀.link.shutDown.journal.toList ++ since
      ∧ ∀ origin f failure, .written origin f failure ∈ since → c₀.link.MayWrite env origin f := by
  obtain ⟨since, hsince, hwrites⟩ := hshut.journal
  refine ⟨since, hsince, ?_⟩
  intro origin f failure hin
  cases origin with
  | control => exact hwrites _ f failure hin
  | message number message =>
    obtain ⟨id, g, hg, rfl⟩ := hwrites _ f failure hin
    have hholds : c₀.link.Holds id g.job.submission := ⟨g, hg, rfl⟩
    have hlogged := (hholds.at h).1
    obtain ⟨new, hnow, -⟩ := becomes.accounted (Link.accounted_shutDown h)
    obtain ⟨p, hp⟩ := hnow.situated _ (hlogged.append new)
    have hsaid : .written (.message g.job.submission.number message) f failure
        ∈ c.link.outbox.account g.job.submission.number := by
      refine List.mem_filter.mpr ⟨?_, decide_eq_true rfl⟩
      rw [hsince]
      exact List.mem_append_right _ hin
    exact ⟨id, _, hholds, rfl, hp.mem_frames hsaid⟩

/-! ## The end -/

/-- **A worker that waits after a shutdown waits for the lock or for the transport**, with a message that it had
    before. -/
theorem Shut.waits (h : Shut c₀ came c) (hwatched : c.link.Watched) {w : Worker}
    (hw : c.link.workers.get? id = some w) (hwaits : w.Waits) :
    ∃ job, c₀.link.Holds id job.submission ∧ c.link.Holds id job.submission
      ∧ (w.stage = .queueing job ∨ ∃ ends failure, w.stage = .calling job ends failure) := by
  have hstage : c.link.stageOf id = some w.stage := congrArg (Option.map Worker.stage) hw
  have hholds {g : Grip} (hg : w.stage.grip = some g) :
      c₀.link.Holds id g.job.submission ∧ c.link.Holds id g.job.submission := by
    have hnow : c.link.outbox.grip id = some g := (Link.grip_outbox hstage).trans hg
    exact ⟨h.keeps id g hnow, g, hnow, rfl⟩
  cases hat : w.stage with
  | seeking | writing job =>
    unfold Worker.Waits at hwaits
    rw [hat] at hwaits
    cases hwaits
  | idle deadline =>
    -- whoever was idle has been called, and nobody becomes idle any more
    have hdozes := hwaits.dozes (congrArg Stage.idleness hat)
    exact absurd hdozes (hwatched.closed h.isShutDown hw)
  | queueing job =>
    rw [hat] at hholds
    obtain ⟨hthen, hnow⟩ := hholds rfl
    exact ⟨job, hthen, hnow, Or.inl rfl⟩
  | calling job ends failure =>
    rw [hat] at hholds
    have hboth : c₀.link.Holds id job.submission ∧ c.link.Holds id job.submission := by
      cases failure <;> exact hholds rfl
    exact ⟨job, hboth.1, hboth.2, Or.inr ⟨ends, failure, rfl⟩⟩

end Crowd

end HeadLink
