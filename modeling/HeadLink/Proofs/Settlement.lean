import Mathlib.Data.List.Nodup
import HeadLink.Proofs.Accounts
import HeadLink.Proofs.Progress

/-!
# Every message is settled once

At every moment of every course, each accepted message is in exactly one situation: it waits in the queue, one
worker holds it, or it has ended, and then it stays as it is. What the journal says of it fits. A message whose
session is not started when a worker takes it is refused at that moment, and no other message is refused for
that reason. A message is dropped only by shutting the link down. Otherwise it ends by being written or reported,
once the link is left alone for long enough.

## Contents
- **Taking.** `Link.Takes`: a worker is about to take a message. A message leaves the queue only so, or when the
  link is shut down (`Link.Leaves`, `Link.Step.mem_queue`); what the journal says then (`Link.Takes.work`).
- **Situations.** `Link.At`, and what courses keep (`Link.Course.accounted`).
- **Leaving the queue.** `Link.Course.leaves`: each message that does not wait has left the queue at some moment,
  which decides what is reported (`Link.Course.reported`) and what is dropped (`Link.Course.dropped`).
- **In the end.** `Link.Course.settles`.
- **Settlement.** `settled_once`.
-/

namespace HeadLink

variable {σ : Type} {env : Environment σ}

/-! ## Taking -/

namespace Outbox.Roused

variable {o o' : Outbox}

theorem queue_eq (h : o.Roused o') : o'.queue = o.queue := by
  obtain ⟨ready, rfl, -⟩ := h
  rfl

theorem journal_eq (h : o.Roused o') : o'.journal = o.journal := by
  obtain ⟨ready, rfl, -⟩ := h
  rfl

theorem lastMessage_eq (h : o.Roused o') : o'.lastMessage = o.lastMessage := by
  obtain ⟨ready, rfl, -⟩ := h
  rfl

end Outbox.Roused

/-- A turn leaves the queue alone, or its worker takes the message at the front. -/
theorem Roster.Turn.queue {r r' : Roster} {id : Nat} (turn : Turn env id r r') : r'.queue = r.queue
    ∨ ∃ s, r.stages.get? id = some .seeking ∧ r.isShutDown = false ∧ r.queue.head? = some s := by
  cases turn with
  | @refuse s queue hstage hopen hqueue => exact Or.inr ⟨s, hstage, hopen, congrArg List.head? hqueue⟩
  | @takeOn s queue job hstage hopen hqueue hlength =>
    exact Or.inr ⟨s, hstage, hopen, congrArg List.head? hqueue⟩
  | leave | rest | expire | rise | grant | call | hand | goOn | finish => exact Or.inl rfl

namespace Link

variable {l l' : Link σ} {id : Nat} {s : Submission}

/-- The worker whose turn it is looks for a message, and finds this one at the front of the queue. -/
structure Takes (l : Link σ) (s : Submission) : Prop where
  turn : ∃ id, l.ready.head? = some id ∧ l.stageOf id = some .seeking
  first : l.queue.head? = some s
  accepting : l.isShutDown = false

/-- Turning to the next message changes neither the queue nor the journal. -/
theorem outbox_moveOn (l : Link σ) (id : Nat) (signal : Signal) :
    (l.moveOn id signal).outbox.queue = l.outbox.queue
      ∧ (l.moveOn id signal).outbox.journal = l.outbox.journal
      ∧ (l.moveOn id signal).outbox.lastMessage = l.outbox.lastMessage :=
  have hroused := hangUp_roused l id signal
  ⟨hroused.queue_eq, hroused.journal_eq, hroused.lastMessage_eq⟩

/-- **What taking a message does**, whether or not it is refused. -/
theorem outbox_takeOn (l : Link σ) (id : Nat) (signal : Signal) (s : Submission) :
    (l.takeOn env id signal s).outbox.queue = l.queue
      ∧ (l.takeOn env id signal s).outbox.lastMessage = l.outbox.idAfter s
      ∧ (l.takeOn env id signal s).outbox.journal = l.outbox.journal ++ .taken s ::
        match l.outbox.prepared env s with
        | .error fault => [.told (.fault (.sending s) fault)]
        | .ok _ => [] := by
  have hprepare : (l.record (.taken s)).prepare env s
      = ({ l.record (.taken s) with lastMessage := l.outbox.idAfter s }, l.outbox.prepared env s) :=
    prepare_eq _ s
  have hrecord : (l.record (.taken s)).outbox.journal = l.outbox.journal ++ [.taken s] := by
    rw [outbox_record]
    rfl
  unfold takeOn
  rw [hprepare]
  cases hprepared : l.outbox.prepared env s with
  | error fault =>
    have hmove := outbox_moveOn (({ l.record (.taken s) with
      lastMessage := l.outbox.idAfter s } : Link σ).report s (some fault)) id signal
    refine ⟨hmove.1, hmove.2.2, hmove.2.1.trans ?_⟩
    rw [outbox_report_some]
    show (l.record (.taken s)).outbox.journal ++ [_] = _
    rw [hrecord, List.append_assoc]
    rfl
  | ok job =>
    -- whether or not the lock is free makes no difference here
    dsimp only
    split <;> exact ⟨rfl, rfl, hrecord⟩

/-- A worker that looks for a message and finds one takes it on. -/
theorem Takes.exists_takeOn (env : Environment σ) (h : l.Takes s) :
    ∃ keptRing listeners id signal, l.work env
      = ({ l with keptRing, listeners, queue := l.queue.tail } : Link σ).takeOn env id signal s := by
  obtain ⟨id, hturn, hstage⟩ := h.turn
  obtain ⟨rest, hready⟩ := List.head?_eq_some_iff.mp hturn
  obtain ⟨queue, hqueue⟩ := List.head?_eq_some_iff.mp h.first
  obtain ⟨w, hw, hseeking⟩ := Option.map_eq_some_iff.mp hstage
  have hwork : l.work env = l.seek env id := by
    unfold work
    rw [hready]
    dsimp only
    rw [hw]
    dsimp only
    rw [hseeking]
  obtain ⟨keptRing, listeners, signal, hlisten⟩ := l.exists_listen id
  have hopen : ¬ l.isShutDown = true := by
    rw [h.accepting]
    exact Bool.false_ne_true
  have hseek : l.seek env id
      = ({ l with keptRing, listeners, queue := queue } : Link σ).takeOn env id signal s := by
    unfold seek
    rw [hlisten]
    dsimp only
    rw [if_neg hopen, hqueue]
  refine ⟨keptRing, listeners, id, signal, ?_⟩
  rw [hwork, hseek, hqueue, List.tail_cons]

/-- **What the journal says when a message is taken.** -/
theorem Takes.work (env : Environment σ) (h : l.Takes s) :
    (l.work env).queue = l.queue.tail ∧ (l.work env).lastMessage = l.outbox.idAfter s
      ∧ (l.work env).outbox.journal = l.outbox.journal ++ .taken s ::
        match l.outbox.prepared env s with
        | .error fault => [.told (.fault (.sending s) fault)]
        | .ok _ => [] := by
  obtain ⟨keptRing, listeners, id, signal, hwork⟩ := h.exists_takeOn env
  rw [hwork]
  exact outbox_takeOn { l with keptRing, listeners, queue := l.queue.tail } id signal s

/-- A step of a worker leaves the queue alone, or takes the message at its front. -/
theorem queue_work (env : Environment σ) (hl : l.outbox.Locked) :
    (l.work env).queue = l.queue ∨ ∃ s, l.Takes s := by
  rcases work_cases env hl with ⟨-, hsame⟩ | ⟨id, -, -, hsame⟩ | ⟨id, hturn, turn⟩
  · exact Or.inl (congrArg Link.queue hsame)
  · left
    rw [hsame]
    rfl
  · refine turn.queue.imp_right ?_
    rintro ⟨s, hstage, hopen, hqueue⟩
    exact ⟨s, ⟨id, hturn, (get?_stages_roster l id).symm.trans hstage⟩, hqueue, hopen⟩

/-- What is submitted joins the queue, and nothing is written into the journal. -/
theorem outbox_submit (hl : l.outbox.Locked) {x : Outbound} (h : l.submit env x true = (l', .ok ())) :
    l'.queue = enqueue { x with number := l.accepted } l.queue ∧ l'.outbox.journal = l.outbox.journal := by
  rcases submit_cases env hl x with ⟨fault, hrefused⟩ | ⟨l₁, hsubmit, hroused⟩
  · cases hrefused.symm.trans h
  · cases hsubmit.symm.trans h
    rcases hroused with hroused | hroused <;> exact ⟨hroused.queue_eq, hroused.journal_eq⟩

/-- The message waits, and does so no longer after the next step. -/
inductive Leaves (env : Environment σ) (l : Link σ) (s : Submission) : Link σ → Prop
  | taken (takes : l.Takes s) : Leaves env l s (l.work env)
  | dropped (waits : s ∈ l.queue) : Leaves env l s l.shutDown

/-- **A message leaves the queue only when a worker takes it, or when the link is shut down.** -/
theorem Step.mem_queue {new : List Outbound} (step : Step env l new l') (hl : l.outbox.Locked)
    (hs : s ∈ l.queue) : s ∈ l'.queue ∨ new = [] ∧ l.Leaves env s l' := by
  cases step with
  | work =>
    rcases queue_work env hl with hsame | ⟨t, htakes⟩
    · exact Or.inl (hsame ▸ hs)
    · obtain ⟨queue, hqueue⟩ := List.head?_eq_some_iff.mp htakes.first
      rw [hqueue] at hs
      rcases List.mem_cons.mp hs with rfl | hs
      · exact Or.inr ⟨rfl, .taken htakes⟩
      · left
        rw [(htakes.work env).1, hqueue]
        exact hs
  | pass ms =>
    left
    rwa [show (l.pass ms).queue = l.queue from congrArg Roster.queue (roster_pass l ms)]
  | release holder =>
    left
    rwa [show l.release.queue = l.queue from congrArg Roster.queue (roster_release l)]
  | request | control | sessions | tell => exact Or.inl hs
  | submit accepted =>
    left
    rw [(outbox_submit hl accepted).1]
    exact mem_enqueue.mpr (Or.inr hs)
  | shutDown => exact Or.inr ⟨rfl, .dropped hs⟩

/-- **A link that is shut down stays so.** -/
theorem Step.isShutDown {new : List Outbound} (step : Step env l new l') (hl : l.outbox.Locked)
    (h : l.isShutDown = true) : l'.isShutDown = true := by
  cases step with
  | work =>
    rcases work_roster env hl with hsame | ⟨id, turn⟩
    · exact (congrArg Roster.isShutDown hsame).trans h
    · exact turn.frame.2.trans h
  | pass ms => exact (congrArg Roster.isShutDown (roster_pass l ms)).trans h
  | release holder => exact (congrArg Roster.isShutDown (roster_release l)).trans h
  | request | control | sessions | tell => exact h
  | submit accepted => cases h.symm.trans (eq_of_submit accepted).1
  | shutDown => exact congrArg Roster.isShutDown (roster_shutDown l)

theorem Course.isShutDown {log : List Outbound} (course : Course env l log l') (hl : l.outbox.Locked)
    (h : l.isShutDown = true) : l'.isShutDown = true := by
  induction course with
  | refl => exact h
  | tail course step ih => exact step.isShutDown (Course.locked course hl) ih

/-! ## Situations -/

/-- What the journal says of a message. -/
def account (l : Link σ) (n : Nat) : List Entry := accountOf n l.journal.toList

/-- The worker has the message in its hands. -/
def Holds (l : Link σ) (id : Nat) (s : Submission) : Prop :=
  ∃ g, l.outbox.grip id = some g ∧ g.job.submission = s

/-- **The message is in the situation**, and the journal says what belongs to it: nothing while the message
    waits; that it was taken and what was handed over of it while one worker holds it; and how it has ended. -/
def At (env : Environment σ) (l : Link σ) (s : Submission) : Situation → Prop
  | .queued => l.queue.count s = 1 ∧ l.account s.number = []
  | .held => ∃ id g, l.outbox.grip id = some g ∧ g.job.submission = s ∧ (∀ id', l.Holds id' s → id' = id)
      ∧ ∃ written, g.Wrote env written ∧ l.account s.number = .taken s :: written.map Written.entry
  | .ended ending => s ∉ l.queue ∧ (∀ id, ¬ l.Holds id s) ∧ s.Ends env ending (l.account s.number)

/-- Submissions have numbers of their own, so it is enough to look at the numbers. -/
theorem at_iff {log : List Outbound} (h : l.outbox.Accounted env Frame.OfControl log) (hs : s.Logged log)
    {p : Situation} : l.At env s p ↔ l.outbox.At env s p := by
  obtain ⟨blocks, htraced⟩ := h.traced
  cases p with
  | queued =>
    have hnodup : l.queue.Nodup :=
      List.Nodup.of_map Submission.number (List.nodup_append.mp htraced.apart.nodup).1
    constructor
    · rintro ⟨hcount, haccount⟩
      exact ⟨List.count_pos_iff.mp (hcount ▸ Nat.one_pos), haccount⟩
    · rintro ⟨hmem, haccount⟩
      exact ⟨List.count_eq_one_of_mem hnodup hmem, haccount⟩
  | held =>
    constructor
    · rintro ⟨id, g, hg, hgs, -, hwritten⟩
      exact ⟨id, g, hg, hgs, hwritten⟩
    · rintro ⟨id, g, hg, rfl, hwritten⟩
      refine ⟨id, g, hg, rfl, ?_, hwritten⟩
      rintro id' ⟨g', hg', hsame⟩
      exact htraced.eq_of_grip hg hg' (congrArg Submission.number hsame)
  | ended ending =>
    constructor
    · rintro ⟨hqueue, hholds, hends⟩
      refine ⟨?_, ?_, hends⟩
      · intro t ht hnumber
        exact hqueue ((htraced.queued t ht).eq_of_number hs hnumber ▸ ht)
      · intro id g hg hnumber
        exact hholds id ⟨g, hg, (htraced.held hg).eq_of_number hs hnumber⟩
    · rintro ⟨hqueue, hgrip, hends⟩
      refine ⟨fun hmem => hqueue s hmem rfl, ?_, hends⟩
      rintro id ⟨g, hg, rfl⟩
      exact hgrip id g hg rfl

/-- **Courses keep the accounts**, and lead each message on. -/
theorem Course.accounted {log new : List Outbound} (course : Course env l new l')
    (h : l.outbox.Accounted env Frame.OfControl log) :
    l'.outbox.Accounted env Frame.OfControl (log ++ new)
      ∧ ∀ s : Submission, s.Logged log → ∀ p, l.outbox.At env s p →
        ∃ p', l'.outbox.At env s p' ∧ Relation.ReflTransGen Situation.Leads p p'
          ∧ ∀ ending, p = .ended ending → l'.account s.number = l.account s.number :=
  h.changes (Course.changes course h.locked).2

end Link

/-- Nothing is said of any message before one is accepted. -/
theorem Outbox.Accounted.blank {allowed : Frame → Prop} {o : Outbox} (hlocked : o.Locked)
    (htraced : Outbox.Traced env allowed [] [] o) (hjournal : o.journal = []) :
    o.Accounted env allowed [] := by
  refine ⟨hlocked, ⟨[], htraced⟩, ?_, ?_⟩
  · intro n hn
    unfold account
    rw [hjournal]
    rfl
  · intro s hs
    cases hs

theorem Endpoint.accounted_of_open? {carrier : σ} {e : Endpoint σ}
    (h : Endpoint.open? env carrier = .ok e) : e.link.outbox.Accounted env Frame.OfControl [] := by
  obtain ⟨hlocked, htraced⟩ := Endpoint.blank_of_open? h
  obtain ⟨-, rfl⟩ := Endpoint.eq_of_open? h
  exact .blank hlocked htraced rfl

/-! ## Leaving the queue -/

/-- Only of what waits nothing is said. -/
theorem Outbox.At.account_ne_nil {o : Outbox} {s : Submission} {p : Situation} (hp : o.At env s p)
    (hopen : p ≠ .queued) : o.account s.number ≠ [] := by
  cases p with
  | queued => exact absurd rfl hopen
  | held =>
    obtain ⟨id, g, -, -, written, -, haccount⟩ := hp
    rw [haccount]
    exact List.cons_ne_nil _ _
  | ended ending =>
    generalize hentries : o.account s.number = entries at hp
    obtain ⟨-, -, hends⟩ := hp
    rw [hentries] at hends
    cases hends with
    | written split | failed split | refused why | dropped => exact List.cons_ne_nil _ _

/-- A message of which the journal says that it was dropped has ended so. -/
theorem Outbox.At.eq_dropped {o : Outbox} {s : Submission} {p : Situation} (hp : o.At env s p)
    (haccount : o.account s.number = [.dropped s]) : p = .ended .dropped := by
  cases p with
  | queued =>
    cases haccount.symm.trans hp.2
  | held =>
    obtain ⟨id, g, -, -, written, -, htaken⟩ := hp
    cases haccount.symm.trans htaken
  | ended ending =>
    have hending := hp.2.2.ending_eq
    rw [haccount] at hending
    exact congrArg Situation.ended hending.symm

/-- A message of which the journal says that it was taken and refused has ended so. -/
theorem Outbox.At.eq_reported {o : Outbox} {s : Submission} {p : Situation} (hp : o.At env s p)
    {fault : Fault} (haccount : o.account s.number = [.taken s, .told (.fault (.sending s) fault)]) :
    p = .ended (.reported fault) := by
  cases p with
  | queued => cases haccount.symm.trans hp.2
  | held =>
    obtain ⟨id, g, -, -, written, -, htaken⟩ := hp
    have hwritten := (List.cons.inj (haccount.symm.trans htaken)).2
    cases written with
    | nil => cases hwritten
    | cons w ws => cases hwritten
  | ended ending =>
    have hending := hp.2.2.ending_eq
    rw [haccount] at hending
    exact congrArg Situation.ended hending.symm

/-- What is split badly is not refused because of its session. -/
theorem Submission.ne_notStarted_of_frames? {s : Submission} {message : UInt32} {fault : Fault}
    (h : s.frames? env message = .error fault) (session : UInt8) : fault ≠ .notStarted session := by
  unfold Submission.frames? Envelope.segments at h
  split at h
  · cases h
    exact nofun
  · split at h
    · cases h
      exact nofun
    · split at h <;> cases h

namespace Link

variable {l l' : Link σ} {s : Submission} {log : List Outbound}

/-- What is said of a message once it is taken: that it was, and why it is refused if it is. -/
theorem Takes.account (h : l.Takes s) (hl : l.outbox.Accounted env Frame.OfControl log) :
    (l.work env).outbox.account s.number = .taken s ::
      match l.outbox.prepared env s with
      | .error fault => [.told (.fault (.sending s) fault)]
      | .ok _ => [] := by
  obtain ⟨queue, hqueue⟩ := List.head?_eq_some_iff.mp h.first
  have hmem : s ∈ l.outbox.queue := by
    show s ∈ l.queue
    rw [hqueue]
    exact List.mem_cons_self
  have hbefore : accountOf s.number l.outbox.journal = [] := (hl.at_queued hmem).2
  unfold Outbox.account
  rw [(h.work env).2.2, accountOf_append, hbefore, List.nil_append]
  apply accountOf_of_all
  cases l.outbox.prepared env s <;> simp [Entry.number?]

/-- **When a message is taken, it is refused for its session if that is not started**, and then no id is used;
    else it is not refused for that reason. -/
theorem Takes.situation (h : l.Takes s) (hl : l.outbox.Accounted env Frame.OfControl log)
    {p : Situation} (hp : (l.work env).outbox.At env s p) :
    p ≠ .queued ∧ p ≠ .ended .dropped
      ∧ (p = .ended (.reported (.notStarted s.session)) ↔ l.sessions.get? s.session = none)
      ∧ (l.sessions.get? s.session = none → (l.work env).lastMessage = l.lastMessage) := by
  have haccount := h.account hl
  have hqueued : p ≠ .queued := by
    rintro rfl
    cases haccount.symm.trans hp.2
  have hdropped : p ≠ .ended .dropped := by
    rintro rfl
    have hending := hp.2.2.ending_eq
    rw [haccount] at hending
    cases hprepared : l.outbox.prepared env s <;> rw [hprepared] at hending <;> cases hending
  by_cases hsession : l.sessions.get? s.session = none
  · have hnone : l.outbox.prepared env s = .error (.notStarted s.session)
        ∧ l.outbox.idAfter s = l.outbox.lastMessage := Outbox.prepared_of_not_started hsession
    rw [hnone.1] at haccount
    have hrefused := hp.eq_reported haccount
    exact ⟨hqueued, hdropped, ⟨fun _ => hsession, fun _ => hrefused⟩, fun _ => (h.work env).2.1.trans hnone.2⟩
  · have hother : p ≠ .ended (.reported (.notStarted s.session)) := by
      rintro rfl
      have hending := hp.2.2.ending_eq
      rw [haccount] at hending
      cases hprepared : l.outbox.prepared env s with
      | ok job =>
        rw [hprepared] at hending
        cases hending
      | error fault =>
        rw [hprepared] at hending
        cases hending
        obtain ⟨message, hframes⟩ := Outbox.frames?_of_started (o := l.outbox) hsession hprepared
        exact Submission.ne_notStarted_of_frames? hframes s.session rfl
    exact ⟨hqueued, hdropped, ⟨fun heq => absurd heq hother, fun hnone => absurd hnone hsession⟩,
      fun hnone => absurd hnone hsession⟩

/-- A step on which a message is accepted writes nothing into the journal. -/
theorem Step.journal_of_accepted {new : List Outbound} (step : Step env l new l') (hl : l.outbox.Locked)
    (hnew : new ≠ []) : l'.outbox.journal = l.outbox.journal := by
  cases step with
  | submit accepted => exact (outbox_submit hl accepted).2
  | work | pass ms | request | control holder type | release holder | sessions sessions | tell other
  | shutDown => exact absurd rfl hnew

/-- What waits when the link is shut down is dropped. -/
theorem at_shutDown (hl : l.outbox.Accounted env Frame.OfControl log) (hs : s ∈ l.queue) {p : Situation}
    (hp : l.shutDown.outbox.At env s p) : p = .ended .dropped := by
  obtain ⟨blocks, htraced⟩ := hl.traced
  have hnodup := (List.nodup_append.mp htraced.apart.nodup).1
  apply hp.eq_dropped
  unfold Outbox.account
  rw [(shutDown_roused l).journal_eq]
  show accountOf s.number (l.outbox.journal ++ l.outbox.queue.map .dropped) = _
  have hbefore : accountOf s.number l.outbox.journal = [] := (hl.at_queued hs).2
  rw [accountOf_append, hbefore, List.nil_append]
  exact accountOf_dropped hnodup hs

/-- **Unless a message waits, it has left the queue at some moment.** The induction is on the course: the message
    left before its last step, or with it. -/
theorem Course.leaves {l₀ : Link σ} (h : l₀.outbox.Accounted env Frame.OfControl [])
    (course : Course env l₀ log l) (hs : s.Logged log) {p : Situation} (hp : l.outbox.At env s p)
    (hqueued : p ≠ .queued) :
    ∃ log₁ l₁ l₂ log₂, Course env l₀ log₁ l₁ ∧ s.Logged log₁ ∧ l₁.Leaves env s l₂ ∧ Course env l₂ log₂ l
      ∧ log = log₁ ++ log₂ := by
  induction course generalizing p with
  | refl => cases hs
  | @tail before new l₁ l₂ course step ih =>
    obtain ⟨h₁, -⟩ := Course.accounted course h
    rw [List.nil_append] at h₁
    obtain ⟨h₂, -⟩ := Course.accounted (.single step) h₁
    by_cases hlogged : s.Logged before
    · obtain ⟨p₁, hp₁⟩ := h₁.situated s hlogged
      by_cases hwaits : p₁ = .queued
      · subst hwaits
        rcases step.mem_queue h₁.locked hp₁.1 with hmem | ⟨rfl, hleaves⟩
        · obtain ⟨blocks, htraced⟩ := h₂.traced
          exact absurd (htraced.at_unique hp (h₂.at_queued hmem)) hqueued
        · exact ⟨before, l₁, l₂, [], course, hlogged, hleaves, .refl, rfl⟩
      · obtain ⟨log₁, l₁', l₂', log₂, hbefore, hlogged', hleaves, hafter, rfl⟩ := ih hlogged hp₁ hwaits
        exact ⟨log₁, l₁', l₂', log₂ ++ new, hbefore, hlogged', hleaves, hafter.tail step,
          List.append_assoc ..⟩
    · -- the message has just been accepted, so that nothing is said of it yet
      have hlt := (List.getElem?_eq_some_iff.mp hs).1
      have hle : before.length ≤ s.number := by
        by_contra hlt'
        apply hlogged
        unfold Submission.Logged at hs ⊢
        rwa [List.getElem?_append_left (Nat.lt_of_not_le hlt')] at hs
      have hnew : new ≠ [] := by
        rintro rfl
        rw [List.append_nil] at hlt
        exact Nat.not_lt.mpr hle hlt
      have haccount : l₂.outbox.account s.number = [] := by
        unfold Outbox.account
        rw [step.journal_of_accepted h₁.locked hnew]
        exact h₁.known s.number hle
      exact absurd haccount (hp.account_ne_nil hqueued)

/-- After it has left the queue the message is in a situation that leads to the one in which it is now. -/
theorem Leaves.situation {l₀ l₁ l₂ : Link σ} {log₁ log₂ : List Outbound}
    (h : l₀.outbox.Accounted env Frame.OfControl []) (before : Course env l₀ log₁ l₁)
    (hs : s.Logged log₁) (hleaves : l₁.Leaves env s l₂) (after : Course env l₂ log₂ l) {p : Situation}
    (hp : l.outbox.At env s p) : l₁.outbox.Accounted env Frame.OfControl log₁
      ∧ ∃ p₂, l₂.outbox.At env s p₂ ∧ Relation.ReflTransGen Situation.Leads p₂ p := by
  have hstep : Step env l₁ [] l₂ := by
    cases hleaves with
    | taken takes => exact .work
    | dropped waits => exact .shutDown
  obtain ⟨h₁, -⟩ := Course.accounted before h
  rw [List.nil_append] at h₁
  obtain ⟨h₂, -⟩ := Course.accounted (.single hstep) h₁
  rw [List.append_nil] at h₂
  obtain ⟨p₂, hp₂⟩ := h₂.situated s hs
  obtain ⟨h₃, hleads⟩ := Course.accounted after h₂
  obtain ⟨p₃, hp₃, hlead, -⟩ := hleads s hs p₂ hp₂
  obtain ⟨blocks, htraced⟩ := h₃.traced
  obtain rfl := htraced.at_unique hp hp₃
  exact ⟨h₁, p₂, hp₂, hlead⟩

/-- **The moment at which a message that is reported was taken** decides whether it is reported because of its
    session: it is exactly if the session was not started then, and then it got no id. -/
theorem Course.reported {l₀ : Link σ} (h : l₀.outbox.Accounted env Frame.OfControl [])
    (course : Course env l₀ log l) (hs : s.Logged log) {fault : Fault}
    (hp : l.outbox.At env s (.ended (.reported fault))) :
    ∃ log₁ l₁ log₂, Course env l₀ log₁ l₁ ∧ l₁.Takes s ∧ Course env (l₁.work env) log₂ l
      ∧ log = log₁ ++ log₂ ∧ (fault = .notStarted s.session ↔ l₁.sessions.get? s.session = none)
      ∧ (l₁.sessions.get? s.session = none → (l₁.work env).lastMessage = l₁.lastMessage) := by
  obtain ⟨log₁, l₁, l₂, log₂, hbefore, hlogged, hleaves, hafter, rfl⟩ :=
    Course.leaves h course hs hp fun heq => by cases heq
  obtain ⟨h₁, p, hp₂, hlead⟩ := hleaves.situation h hbefore hlogged hafter hp
  cases hleaves with
  | dropped waits =>
    -- it would have been dropped for good
    obtain rfl := at_shutDown h₁ waits hp₂
    cases eq_of_leads_ended hlead
  | taken takes =>
    obtain ⟨hnot, -, hsession, hmessage⟩ := takes.situation h₁ hp₂
    refine ⟨log₁, l₁, log₂, hbefore, takes, hafter, rfl, ?_, hmessage⟩
    rw [← hsession]
    -- right after the message was taken it has been refused, or it is held and not refused any more
    cases p with
    | queued => exact absurd rfl hnot
    | held =>
      rcases cases_of_leads_held hlead with heq | heq | ⟨causes, heq⟩
      · cases heq
      · cases heq
      · cases heq
        constructor <;> intro heq <;> cases heq
    | ended ending =>
      cases eq_of_leads_ended hlead
      constructor
      · rintro rfl
        rfl
      · intro heq
        cases heq
        rfl

/-- **A message that was dropped waited when the link was shut down.** -/
theorem Course.dropped {l₀ : Link σ} (h : l₀.outbox.Accounted env Frame.OfControl [])
    (course : Course env l₀ log l) (hs : s.Logged log) (hp : l.outbox.At env s (.ended .dropped)) :
    ∃ log₁ l₁ log₂, Course env l₀ log₁ l₁ ∧ s ∈ l₁.queue ∧ Course env l₁.shutDown log₂ l
      ∧ log = log₁ ++ log₂ := by
  obtain ⟨log₁, l₁, l₂, log₂, hbefore, hlogged, hleaves, hafter, rfl⟩ :=
    Course.leaves h course hs hp fun heq => by cases heq
  obtain ⟨h₁, p, hp₂, hlead⟩ := hleaves.situation h hbefore hlogged hafter hp
  cases hleaves with
  | dropped waits => exact ⟨log₁, l₁, log₂, hbefore, waits, hafter, rfl⟩
  | taken takes =>
    obtain ⟨hnot, hdropped, -, -⟩ := takes.situation h₁ hp₂
    cases p with
    | queued => exact absurd rfl hnot
    | held =>
      rcases cases_of_leads_held hlead with heq | heq | ⟨causes, heq⟩ <;> cases heq
    | ended ending =>
      cases eq_of_leads_ended hlead
      exact absurd rfl hdropped

/-! ## In the end -/

/-- **Left alone, a link that is not shut down writes or reports every message**, unless a caller keeps the
    lock. -/
theorem Course.settles {l₀ : Link σ} (hworkers : 0 < env.settings.maxWorkers) (htidy : l₀.Tidy)
    (h : l₀.outbox.Accounted env Frame.OfControl []) (course : Course env l₀ log l)
    (hopen : l.isShutDown = false) (hcaller : .caller ∉ l.lock.parties) :
    ∃ ms, ∀ s : Submission, s.Logged log →
      ∃ ending, ending ≠ .dropped ∧ (l.sleep env ms).At env s (.ended ending) := by
  have htidied := htidy.course hworkers course
  obtain ⟨ms, hempty, hhands⟩ := htidied.exists_done hworkers hopen hcaller
  refine ⟨ms, fun s hs => ?_⟩
  have hwhole : Course env l₀ (log ++ []) (l.sleep env ms) := course.trans (course_sleep ms l)
  rw [List.append_nil] at hwhole
  obtain ⟨hend, -⟩ := Course.accounted hwhole h
  rw [List.nil_append] at hend
  obtain ⟨p, hp⟩ := hend.situated s hs
  cases p with
  | queued =>
    have hmem : s ∈ (l.sleep env ms).roster.queue := hp.1
    rw [hempty] at hmem
    cases hmem
  | held =>
    obtain ⟨id, g, hg, -⟩ := hp
    obtain ⟨stage, hstage, hgrip⟩ := Option.bind_eq_some_iff.mp hg
    cases (hhands id stage ((get?_stages_roster _ id).trans hstage)).symm.trans hgrip
  | ended ending =>
    refine ⟨ending, ?_, (at_iff hend hs).mpr hp⟩
    rintro rfl
    obtain ⟨log₁, l₁, log₂, hbefore, -, hafter, -⟩ := Course.dropped h hwhole hs hp
    have hstep : Step env l₁ [] l₁.shutDown := .shutDown
    have hlocked := hstep.locked (Course.locked hbefore h.locked)
    have hshut : l₁.shutDown.isShutDown = true := congrArg Roster.isShutDown (roster_shutDown l₁)
    have hstill := (htidied.onward_sleep hworkers ms).isShutDown.trans hopen
    cases hstill.symm.trans (Course.isShutDown hafter hlocked hshut)

end Link

/-! ## Settlement -/

/-- **Every accepted message is settled once.** All runs of an endpoint are courses of its link, and between its
    actions no caller has the lock. At every moment of every course each accepted message is in exactly one
    situation; once it has ended it stays so, and nothing more is said of it. A message that is reported was taken
    by a worker at some moment, and it is reported because of its session exactly if that was not started at that
    moment; then it got no id. A message that was dropped waited when the link was shut down. And as long as the
    link is not shut down, there will be a time at which every message is written or reported. -/
theorem settled_once {carrier : σ} {e : Endpoint σ} (hopen : Endpoint.open? env carrier = .ok e) :
    (∀ actions, ∃ log, List.Forall₂ (Accepted.Queued env) (e.run env actions).2 log
        ∧ Link.Course env e.link log (e.run env actions).1.link
        ∧ .caller ∉ (e.run env actions).1.link.lock.parties)
      ∧ ∀ log l, Link.Course env e.link log l →
        (∀ s : Submission, s.Logged log →
          (∃! p, l.At env s p)
            ∧ (∀ ending, l.At env s (.ended ending) → ∀ more l', Link.Course env l more l' →
                l'.At env s (.ended ending) ∧ l'.account s.number = l.account s.number)
            ∧ (∀ fault, l.At env s (.ended (.reported fault)) →
              ∃ log₁ l₁ log₂, Link.Course env e.link log₁ l₁ ∧ l₁.Takes s
                ∧ Link.Course env (l₁.work env) log₂ l ∧ log = log₁ ++ log₂
                ∧ (fault = .notStarted s.session ↔ l₁.sessions.get? s.session = none)
                ∧ (l₁.sessions.get? s.session = none → (l₁.work env).lastMessage = l₁.lastMessage))
            ∧ (l.At env s (.ended .dropped) →
              ∃ log₁ l₁ log₂, Link.Course env e.link log₁ l₁ ∧ s ∈ l₁.queue
                ∧ Link.Course env l₁.shutDown log₂ l ∧ log = log₁ ++ log₂))
          ∧ (l.isShutDown = false → .caller ∉ l.lock.parties →
            ∃ ms, ∀ s : Submission, s.Logged log →
              ∃ ending, ending ≠ .dropped ∧ (l.sleep env ms).At env s (.ended ending)) := by
  have hfresh := Endpoint.accounted_of_open? hopen
  constructor
  · intro actions
    obtain ⟨log, hqueued, course⟩ := Endpoint.course_run (Endpoint.Ordered.fresh hopen) actions
    exact ⟨log, hqueued, course, Endpoint.caller_not_mem_parties hopen actions⟩
  · intro log l course
    obtain ⟨h, -⟩ := Link.Course.accounted course hfresh
    rw [List.nil_append] at h
    refine ⟨fun s hs => ⟨?_, ?_, ?_, ?_⟩, ?_⟩
    · obtain ⟨p, hp⟩ := h.situated s hs
      obtain ⟨blocks, htraced⟩ := h.traced
      refine ⟨p, (Link.at_iff h hs).mpr hp, ?_⟩
      intro p' hp'
      exact htraced.at_unique ((Link.at_iff h hs).mp hp') hp
    · intro ending hended more l' course'
      obtain ⟨h', hleads⟩ := Link.Course.accounted course' h
      obtain ⟨p', hp', hlead, haccount⟩ := hleads s hs _ ((Link.at_iff h hs).mp hended)
      obtain rfl := eq_of_leads_ended hlead
      exact ⟨(Link.at_iff h' (hs.append more)).mpr hp', haccount ending rfl⟩
    · intro fault hreported
      exact Link.Course.reported hfresh course hs ((Link.at_iff h hs).mp hreported)
    · exact fun hdropped => Link.Course.dropped hfresh course hs ((Link.at_iff h hs).mp hdropped)
    · exact Link.Course.settles (Endpoint.eq_of_open? hopen).1.workers (Endpoint.tidy_of_open? hopen) hfresh
        course

/-- One worker, over a transport that takes 3 milliseconds over each frame and fails the fifth. -/
def mishaps : Environment Nat where
  settings := { mtu := 20, maxWorkers := 1 }
  transport := .numbered 3 fun n => if n = 4 then some ["reset"] else none

/-- Two messages are written one after the other. The session of the third ends before a worker takes it, and
    the link is shut down before a worker takes the fourth. -/
def misfortunes : List Action :=
  [.receive [0x20, 0x07, 0x02, 1, 0, 0, 0, 0, 0, 0, 0, 5],
    .receive [0x20, 0x07, 0x02, 2, 0, 0, 0, 0, 0, 0, 0, 5],
    .send { version := 1, service := .rpc, session := 1, body := { data := [1, 2, 3, 4] } },
    .send { version := 1, service := .rpc, session := 1, body := { data := [5, 6, 7, 8] } },
    .sleep 20,
    .send { version := 1, service := .rpc, session := 1, body := { data := [9] } },
    .receive [0x20, 0x07, 0x04, 1, 0, 0, 0, 4, 0, 0, 0, 5, 0, 0, 0, 5],
    .sleep 5,
    .send { version := 1, service := .rpc, session := 2, body := { data := [10] } },
    .close]

/-- In the end the first message is written, a frame of the second has failed, the third is refused because its
    session has ended, and the fourth is dropped. If the link were not shut down, all four would be written or
    reported. -/
theorem settled_once_misfortunes :
    ∃ e log, Endpoint.open? mishaps 0 = .ok e
      ∧ Link.Course mishaps e.link log (e.run mishaps misfortunes).1.link
      ∧ ([0, 1, 2, 3].map fun n =>
          ((e.run mishaps misfortunes).1.link.account n).findSome? Entry.ending?)
        = [none, some (.reported (.transport (.failed ["reset"]))), some (.reported (.notStarted 1)),
          some .dropped]
      ∧ (∀ s : Submission, s.Logged log → ∃! p, (e.run mishaps misfortunes).1.link.At mishaps s p)
      ∧ ∃ log ms, log.length = 4 ∧ ∀ s : Submission, s.Logged log → ∃ ending, ending ≠ .dropped
        ∧ ((e.run mishaps misfortunes.dropLast).1.link.sleep mishaps ms).At mishaps s (.ended ending) := by
  have hopen : Endpoint.open? mishaps 0 = .ok _ := rfl
  obtain ⟨hruns, hsettled⟩ := settled_once hopen
  obtain ⟨log, -, hcourse, -⟩ := hruns misfortunes
  obtain ⟨log', hqueued, hcourse', hcaller⟩ := hruns misfortunes.dropLast
  obtain ⟨ms, hends⟩ := (hsettled log' _ hcourse').2 (by decide +kernel) hcaller
  have hlength : log'.length = 4 := hqueued.length_eq.symm.trans (by decide +kernel)
  exact ⟨_, log, rfl, hcourse, by decide +kernel, fun s hs => ((hsettled log _ hcourse).1 s hs).1, log', ms,
    hlength, hends⟩

end HeadLink
