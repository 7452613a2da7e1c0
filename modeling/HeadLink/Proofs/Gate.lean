import HeadLink.Proofs.Contiguity
import HeadLink.Proofs.Settlement

/-!
# The gate

A message is let through when a worker takes it from the queue: if its session is not started at that moment, it is
reported and nothing of it is ever handed over. What is let through is let through for good. A worker that finds the
lock free keeps its turn up to the first frame, so that nobody can end the session in between. A worker that has to
wait for the lock does not look again; if the session ends while it waits, the frames are handed over all the same.

## Contents
- **Beginnings.** `Outbox.Begun`: a frame of a message was handed over.
- **Courses.** A message that was begun was taken while its session was started (`Link.Course.taken_of_begun`), and
  one that is taken while it is not is never begun (`Link.Course.refused_of_taken`).
- **Barred messages.** Where the messages in the hands of workers come from (`Outbox.Work.of_grip`), and that only
  those are begun (`Outbox.Work.of_begun`). `Outbox.Barred`: a message that is in nobody's hands and whose session is
  not started is not begun, as long as the sessions stay as they are.
- **The moment.** `Outbox.BegunAt`: where in the course of steps a message is begun.
- **Calls.** `Link.Called`: a worker in the middle of a call has begun its message.
- **Rest.** `Link.AtRest`: nobody is about to hand over a frame. It holds before and after every act of a caller
  (`Link.Act.calm`).
- **Acts.** `Link.Act.gate`: what can be begun with an act.
- **The gate.** `gate_passed_when_taken`.
-/

namespace HeadLink

variable {σ : Type} {env : Environment σ}

/-! ## Beginnings -/

/-- The number of the message that a frame belongs to. -/
def Written.number? (w : Written) : Option Nat :=
  match w.origin with
  | .message number _ => some number
  | .control => none

namespace Outbox

variable {o o' : Outbox} {s : Submission} {n : Nat} {allowed : Frame → Prop} {log : List Outbound}

/-- A frame of the message was handed over. -/
def Begun (o : Outbox) (n : Nat) : Prop := ∃ w ∈ o.handed, w.number? = some n

instance : Decidable (o.Begun n) := inferInstanceAs (Decidable (∃ w ∈ o.handed, w.number? = some n))

/-- The entry of a frame is about the message of the frame. -/
theorem number?_of_written {e : Entry} {w : Written} (h : e.written? = some w) : e.number? = w.number? := by
  cases e with
  | written origin frame failure =>
    cases h
    cases origin <;> rfl
  | told n => cases h
  | taken t => cases h
  | dropped t => cases h

/-- A message was begun if its account says so. -/
theorem begun_iff : o.Begun n ↔ ∃ e ∈ o.account n, e.written?.isSome := by
  unfold Begun handed account accountOf
  constructor
  · rintro ⟨w, hw, hn⟩
    obtain ⟨e, he, hwritten⟩ := List.mem_filterMap.mp hw
    refine ⟨e, List.mem_filter.mpr ⟨he, ?_⟩, by simp [hwritten]⟩
    simp [number?_of_written hwritten, hn]
  · rintro ⟨e, he, hsome⟩
    obtain ⟨w, hwritten⟩ := Option.isSome_iff_exists.mp hsome
    obtain ⟨hmem, hn⟩ := List.mem_filter.mp he
    refine ⟨w, List.mem_filterMap.mpr ⟨e, hmem, hwritten⟩, ?_⟩
    rw [← number?_of_written hwritten]
    simpa using hn

theorem begun_congr (h : o'.handed = o.handed) : o'.Begun n ↔ o.Begun n := by
  unfold Begun
  rw [h]

/-- With a frame its own message is begun, and no other. -/
theorem begun_note {e : Entry} : (o.note e).Begun n ↔ o.Begun n ∨ ∃ w, e.written? = some w ∧ w.number? = some n := by
  unfold Begun
  rw [handed_note]
  cases e.written? <;> simp [or_and_right, exists_or]

theorem begun_note_of_none {e : Entry} (he : e.written? = none) : (o.note e).Begun n ↔ o.Begun n := by
  simp [begun_note, he]

/-- With a control frame no message is begun. -/
theorem begun_note_control {f : Frame} {failure : Option (List String)} :
    (o.note (.written .control f failure)).Begun n ↔ o.Begun n := by
  rw [begun_note]
  refine ⟨?_, Or.inl⟩
  rintro (hbegun | ⟨w, ⟨rfl⟩, hnumber⟩)
  · exact hbegun
  · cases hnumber

theorem begun_take {queue : List Submission} : (o.take s queue).Begun n ↔ o.Begun n := by
  rw [← begun_note_of_none (o := o) (e := .taken s) rfl]
  exact begun_congr rfl

theorem begun_startJob {id : Nat} {job : Job} : (o.startJob id job).Begun n ↔ o.Begun n := by
  apply begun_congr
  unfold handed
  rw [(startJob_eq o id job).2.1]

theorem begun_clear : o.clear.Begun n ↔ o.Begun n := by
  apply begun_congr
  simp [handed, clear, List.filterMap_map, Function.comp_def, Entry.written?]

/-- What workers do begins messages and does not undo it. -/
theorem Work.begun (work : Work env o o') (h : o.Begun n) : o'.Begun n := by
  cases work with
  | rest | grant | finish => exact h
  | refuse hqueue hprepared => exact (begun_note_of_none rfl).mpr (begun_take.mpr h)
  | takeOn hturn hworker hgrip hqueue hprepared => exact begun_startJob.mpr (begun_take.mpr h)
  | hand hturn hgrip hleft hanswer => exact begun_note.mpr (Or.inl h)
  | giveUp hturn hgrip =>
    have hreleased : o.release.Begun n := h
    exact (begun_note_of_none rfl).mpr hreleased

theorem Works.begun (works : Works env o o') (h : o.Begun n) : o'.Begun n := by
  induction works with
  | refl => exact h
  | tail _ work ih => exact work.begun ih

/-- **Nothing undoes what was begun.** -/
theorem Changes.begun {new : List Outbound} (changes : Changes env o new o') (h : o.Begun n) : o'.Begun n := by
  induction changes with
  | refl => exact h
  | tail _ change ih =>
    cases change with
    | step step =>
      cases step with
      | work work => exact work.begun ih
      | request | release hholder => exact ih
      | control hholder hallowed hanswer => exact begun_note.mpr (Or.inl ih)
    | sessions sessions | accept x | enlist => exact ih
    | tell other => exact begun_note.mpr (Or.inl ih)
    | clear => exact begun_clear.mpr ih

/-- What was dropped or refused was not begun. -/
theorem At.not_begun {ending : Ending} (hp : o.At env s (.ended ending))
    (hending : ending = .dropped ∨ ∃ session, ending = .reported (.notStarted session)) : ¬ o.Begun s.number := by
  intro hbegun
  obtain ⟨e, he, hwritten⟩ := begun_iff.mp hbegun
  have hends := hp.2.2
  generalize o.account s.number = entries at he hends
  cases hends with
  | written split => simp at hending
  | failed split => simp at hending
  | refused why =>
    simp only [List.mem_cons, List.not_mem_nil, or_false] at he
    rcases he with rfl | rfl <;> cases hwritten
  | dropped =>
    simp only [List.mem_cons, List.not_mem_nil, or_false] at he
    subst he
    cases hwritten

end Outbox

namespace Link

variable {l l' : Link σ} {s : Submission} {log new : List Outbound}

/-- A frame of the message was handed over. -/
def Begun (l : Link σ) (s : Submission) : Prop := l.outbox.Begun s.number

instance : Decidable (l.Begun s) := inferInstanceAs (Decidable (l.outbox.Begun s.number))

/-! ## Courses -/

/-- **A message that was begun was taken while its session was started.** -/
theorem Course.taken_of_begun {l₀ : Link σ} (h : l₀.outbox.Accounted env Frame.OfControl [])
    (course : Course env l₀ log l) (hs : s.Logged log) (hbegun : l.Begun s) :
    ∃ log₁ l₁ log₂, Course env l₀ log₁ l₁ ∧ l₁.Takes s ∧ l₁.sessions.get? s.session ≠ none
      ∧ Course env (l₁.work env) log₂ l ∧ log = log₁ ++ log₂ := by
  obtain ⟨hl, -⟩ := Course.accounted course h
  obtain ⟨p, hp⟩ := hl.situated s hs
  have hqueued : p ≠ .queued := by
    rintro rfl
    obtain ⟨e, he, -⟩ := Outbox.begun_iff.mp hbegun
    rw [hp.2] at he
    cases he
  obtain ⟨log₁, l₁, l₂, log₂, hbefore, hlogged, hleaves, hafter, hlog⟩ := Course.leaves h course hs hp hqueued
  obtain ⟨h₁, p₂, hp₂, hleads⟩ := hleaves.situation h hbefore hlogged hafter hp
  cases hleaves with
  | dropped waits =>
    obtain rfl := at_shutDown h₁ waits hp₂
    obtain rfl := eq_of_leads_ended hleads
    exact absurd hbegun (hp.not_begun (Or.inl rfl))
  | taken takes =>
    refine ⟨log₁, l₁, log₂, hbefore, takes, ?_, hafter, hlog⟩
    intro hnone
    obtain ⟨-, -, hrefused, -⟩ := takes.situation h₁ hp₂
    obtain rfl := hrefused.mpr hnone
    obtain rfl := eq_of_leads_ended hleads
    exact absurd hbegun (hp.not_begun (Or.inr ⟨_, rfl⟩))

/-- **A message that is taken while its session is not started is reported**, and never begun. -/
theorem Course.refused_of_taken {l₀ l₁ : Link σ} {log₁ log₂ : List Outbound}
    (h : l₀.outbox.Accounted env Frame.OfControl []) (before : Course env l₀ log₁ l₁) (takes : l₁.Takes s)
    (hnone : l₁.sessions.get? s.session = none) (after : Course env (l₁.work env) log₂ l) :
    l.At env s (.ended (.reported (.notStarted s.session))) ∧ ¬ l.Begun s := by
  obtain ⟨h₁, -⟩ := Course.accounted before h
  rw [List.nil_append] at h₁
  have hlogged : s.Logged log₁ := by
    obtain ⟨blocks, htraced⟩ := h₁.traced
    exact htraced.queued s (List.mem_of_mem_head? takes.first)
  obtain ⟨h₂, -⟩ := Course.accounted (Trail.single Step.work) h₁
  rw [List.append_nil] at h₂
  obtain ⟨p₂, hp₂⟩ := h₂.situated s hlogged
  obtain ⟨-, -, hrefused, -⟩ := takes.situation h₁ hp₂
  obtain rfl := hrefused.mpr hnone
  obtain ⟨h₃, hleads⟩ := Course.accounted after h₂
  obtain ⟨p, hp, hlead, -⟩ := hleads s hlogged _ hp₂
  obtain rfl := eq_of_leads_ended hlead
  exact ⟨(at_iff h₃ (hlogged.append log₂)).mpr hp, hp.not_begun (Or.inr ⟨_, rfl⟩)⟩

end Link

/-! ## Barred messages -/

namespace Outbox

variable {o o' : Outbox} {s : Submission} {n : Nat} {allowed : Frame → Prop}

/-- What a worker has in its hands it had before, or else it was the first in the queue and was prepared. -/
theorem Work.of_grip (work : Work env o o') {id : Nat} {g' : Grip} (h : o'.grip id = some g') :
    (∃ g, o.grip id = some g ∧ g.job.submission = g'.job.submission)
      ∨ ∃ queue, o.queue = g'.job.submission :: queue ∧ o.prepared env g'.job.submission = .ok g'.job := by
  cases work with
  | rest ready workers hsub hnodup hready => exact Or.inl ⟨g', h, rfl⟩
  | refuse hqueue hprepared => exact Or.inl ⟨g', h, rfl⟩
  | @takeOn id' t queue job hturn hworker hgrip hqueue hprepared =>
    obtain ⟨-, -, hold, hheld, -⟩ := startJob_eq (o.take t queue) id' job
    rw [hheld] at h
    rcases update_eq_some h with ⟨rfl, hnew⟩ | ⟨-, hbefore⟩
    · cases hnew
      obtain rfl := (prepared_eq_ok hprepared).1
      exact Or.inr ⟨queue, hqueue, hprepared⟩
    · exact Or.inl ⟨g', hbefore, rfl⟩
  | @grant id' job hturn hgrip =>
    rcases update_eq_some h with ⟨rfl, hnew⟩ | ⟨-, hbefore⟩
    · cases hnew
      exact Or.inl ⟨_, hgrip, rfl⟩
    · exact Or.inl ⟨g', hbefore, rfl⟩
  | @hand id' job f left failure hturn hgrip hleft hanswer =>
    rcases update_eq_some h with ⟨rfl, hnew⟩ | ⟨-, hbefore⟩
    · cases hnew
      exact Or.inl ⟨_, hgrip, rfl⟩
    · exact Or.inl ⟨g', hbefore, rfl⟩
  | finish hturn hgrip hleft => exact Or.inl ⟨g', (update_none_eq_some h).2, rfl⟩
  | giveUp hturn hgrip => exact Or.inl ⟨g', (update_none_eq_some h).2, rfl⟩

/-- Only what is in somebody's hands can be begun. -/
theorem Work.of_begun (work : Work env o o') (h : o'.Begun n) :
    o.Begun n ∨ ∃ id g, o.grip id = some g ∧ g.job.submission.number = n := by
  cases work with
  | rest | grant | finish => exact Or.inl h
  | refuse hqueue hprepared => exact Or.inl (begun_take.mp ((begun_note_of_none rfl).mp h))
  | takeOn hturn hworker hgrip hqueue hprepared => exact Or.inl (begun_take.mp (begun_startJob.mp h))
  | @hand id job f left failure hturn hgrip hleft hanswer =>
    have hnoted : (o.note (.written job.origin f failure)).Begun n := h
    rcases begun_note.mp hnoted with hbefore | ⟨w, ⟨rfl⟩, hnumber⟩
    · exact Or.inl hbefore
    · exact Or.inr ⟨id, _, hgrip, Option.some.inj hnumber⟩
  | giveUp hturn hgrip =>
    have hreleased := (begun_note_of_none rfl).mp h
    exact Or.inl hreleased

theorem Work.queue_subset (work : Work env o o') : o'.queue ⊆ o.queue := by
  cases work with
  | rest | grant | hand | finish | giveUp => exact List.Subset.refl _
  | @refuse t queue fault hqueue hprepared =>
    rw [hqueue]
    exact List.subset_cons_self t queue
  | @takeOn id t queue job hturn hworker hgrip hqueue hprepared =>
    rw [hqueue, (startJob_eq (o.take t queue) id job).1]
    exact List.subset_cons_self t queue

/-- The message is in nobody's hands, nothing of it was handed over, and it would be refused if it were taken. -/
structure Barred (s : Submission) (o : Outbox) : Prop where
  session : o.sessions.get? s.session = none
  queue : ∀ t ∈ o.queue, t.number = s.number → t.session = s.session
  grip : ∀ id g, o.grip id = some g → g.job.submission.number ≠ s.number
  begun : ¬ o.Begun s.number

/-- **Workers do not begin a message that is barred.** -/
theorem Work.barred (work : Work env o o') (h : o.Barred s) : o'.Barred s where
  session := by
    rw [work.sessions]
    exact h.session
  queue t ht := h.queue t (work.queue_subset ht)
  grip id g' hg' hnumber := by
    rcases work.of_grip hg' with ⟨g, hg, hsame⟩ | ⟨queue, hqueue, hprepared⟩
    · exact h.grip id g hg (hsame ▸ hnumber)
    · -- a message that is taken on is one whose session is started
      have hsession := h.queue g'.job.submission (hqueue ▸ List.mem_cons_self) hnumber
      have hrefused : o.prepared env g'.job.submission = .error (.notStarted g'.job.submission.session) :=
        (prepared_of_not_started (hsession ▸ h.session)).1
      cases hprepared.symm.trans hrefused
  begun hbegun := by
    rcases work.of_begun hbegun with hbefore | ⟨id, g, hg, hnumber⟩
    · exact h.begun hbefore
    · exact h.grip id g hg hnumber

/-- **Nor do callers that write.** -/
theorem Steps.barred (steps : Steps env allowed o o') (h : o.Barred s) : o'.Barred s := by
  induction steps with
  | refl => exact h
  | tail _ step ih =>
    cases step with
    | work work => exact work.barred ih
    | request => exact ⟨ih.session, ih.queue, ih.grip, ih.begun⟩
    | release hholder => exact ⟨ih.session, ih.queue, ih.grip, ih.begun⟩
    | control hholder hallowed hanswer =>
      exact ⟨ih.session, ih.queue, ih.grip, fun hbegun => ih.begun (begun_note_control.mp hbegun)⟩

/-! ## The moment -/

/-- **The moment at which a message is begun** in the course of steps: the outbox `before` is the last one in which
    nothing of it was handed over, and a worker goes on from there. -/
structure BegunAt (env : Environment σ) (n : Nat) (o before o' : Outbox) : Prop where
  reached : Steps env Frame.OfControl o before
  unbegun : ¬ before.Begun n
  begins : ∃ after, Work env before after ∧ after.Begun n ∧ Steps env Frame.OfControl after o'

/-- Only workers begin messages. -/
theorem Step.work_of_begun (step : Step env allowed o o') (hbefore : ¬ o.Begun n) (hafter : o'.Begun n) :
    Work env o o' := by
  cases step with
  | work work => exact work
  | request | release => exact absurd hafter hbefore
  | control => exact absurd (begun_note_control.mp hafter) hbefore

/-- **What is begun in the course of steps is begun at one moment.** The induction is on the steps; the moment is the
    last step, or one before. -/
theorem Steps.exists_begunAt (steps : Steps env Frame.OfControl o o') (hbefore : ¬ o.Begun n)
    (hafter : o'.Begun n) : ∃ before, BegunAt env n o before o' := by
  induction steps with
  | refl => exact absurd hafter hbefore
  | @tail o₁ o₂ steps step ih =>
    by_cases hbegun : o₁.Begun n
    · obtain ⟨before, reached, unbegun, after, work, begun, rest⟩ := ih hbegun
      exact ⟨before, reached, unbegun, after, work, begun, rest.tail step⟩
    · exact ⟨o₁, steps, hbegun, o₂, step.work_of_begun hbegun hafter, hafter, .refl⟩

end Outbox

/-! ## Calls -/

namespace Roster

/-- A worker that is in the middle of a call was so before, or has just handed over a frame. -/
theorem Turn.calling {r r' : Roster} {id id' : Nat} {job : Job} {ends : Nat} {failure : Option (List String)}
    (turn : Turn env id r r') (h : r'.stages.get? id' = some (.calling job ends failure)) :
    r.stages.get? id' = some (.calling job ends failure)
      ∨ id' = id ∧ ∃ f, r.stages.get? id = some (.writing { job with left := f :: job.left }) := by
  -- the worker that runs is not in the middle of a call afterwards, unless it makes one
  have hplaced : ∀ {r : Roster} {stage : Stage}, (r.place id stage).stages.get? id' = some (.calling job ends failure) →
      (∀ job ends failure, stage ≠ .calling job ends failure) →
        r.stages.get? id' = some (.calling job ends failure) := by
    intro r stage hget hstage
    simp only [place, Table.get?_insert] at hget
    split at hget
    · exact absurd (Option.some.inj hget) (hstage _ _ _)
    · exact hget
  have hdismissed : ∀ {r : Roster}, (r.dismiss id).stages.get? id' = some (.calling job ends failure) →
      r.stages.get? id' = some (.calling job ends failure) := by
    intro r hget
    simp only [dismiss, Table.get?_erase] at hget
    split at hget
    · cases hget
    · exact hget
  cases turn with
  | leave hstage hwhy => exact Or.inl (hdismissed h)
  | expire hstage hempty hspare => exact Or.inl (hdismissed (r := { r with idleCount := r.idleCount - 1 }) h)
  | refuse hstage hopen hqueue => exact Or.inl h
  | rest hstage hopen hempty => exact Or.inl (hplaced h (by simp))
  | rise hstage => exact Or.inl (hplaced h (by simp))
  | takeOn hstage hopen hqueue hlength =>
    refine Or.inl (hplaced h ?_)
    intro job' ends' failure'
    split <;> simp
  | grant hstage => exact Or.inl (hplaced h (by simp))
  | hand hstage hleft => exact Or.inl (hplaced h (by simp))
  | goOn hstage => exact Or.inl (hplaced h (by simp))
  | finish hstage hgrip hholder => exact Or.inl (hplaced h (by simp))
  | @call job' f left ends' failure' hstage hleft hends =>
    simp only [place, Table.get?_insert] at h
    split at h
    · rename_i hid
      cases h
      refine Or.inr ⟨hid, f, ?_⟩
      rw [← hleft]
      exact hstage
    · exact Or.inl h

end Roster

namespace Link

variable {l l' : Link σ} {log new : List Outbound}

/-- A worker in the middle of a call has begun its message. -/
def Called (l : Link σ) : Prop :=
  ∀ id job ends failure, l.stageOf id = some (.calling job ends failure) → l.Begun job.submission

/-- A worker that is about to hand over a frame does so when it is its turn. -/
theorem work_of_writing (env : Environment σ) {id : Nat} {job : Job} (hturn : l.ready.head? = some id)
    (hstage : l.stageOf id = some (.writing job)) : ∃ signal, l.work env = l.writeNext env id signal job := by
  obtain ⟨rest, hready⟩ := List.head?_eq_some_iff.mp hturn
  obtain ⟨w, hw, hwriting⟩ := Option.map_eq_some_iff.mp hstage
  exact ⟨w.signal, by simp [work, hready, hw, hwriting]⟩

/-- The message whose frame is handed over is begun. -/
theorem begun_writeNext (env : Environment σ) {id : Nat} {job : Job} {f : Frame} {left : List Frame}
    (hturn : id ∈ l.ready) (hstage : l.stageOf id = some (.writing job)) (hleft : job.left = f :: left)
    (signal : Signal) : (l.writeNext env id signal job).Begun job.submission := by
  have hbegun : (l.handOver env job.origin f).1.outbox.Begun job.submission.number := by
    rw [outbox_handOver, Outbox.begun_note]
    exact Or.inr ⟨_, rfl, rfl⟩
  have hstill := (stageOf_handOver env l job.origin f id).trans hstage
  unfold writeNext
  rw [hleft]
  dsimp only
  split
  · -- the call is over, and what comes then does not undo it
    have hworks : Outbox.Works env _ ((l.handOver env job.origin f).1.afterCall id signal { job with left }
        (l.handOver env job.origin f).2.failure).outbox := afterCall_works hstill signal _ rfl hturn
    exact Outbox.Works.begun hworks hbegun
  · exact hbegun

theorem Step.begun (step : Step env l new l') (hl : l.outbox.Locked) {s : Submission} (h : l.Begun s) : l'.Begun s :=
  Outbox.Changes.begun (step.changes hl) h

theorem stageOf_of_roster (hstages : l'.roster.stages = l.roster.stages) (id : Nat) : l'.stageOf id = l.stageOf id := by
  rw [← get?_stages_roster, hstages, get?_stages_roster]

/-- With what is submitted at most a worker comes in that looks for a message. -/
theorem stageOf_submit {x : Outbound} (accepted : l.submit env x true = (l', .ok ()))
    {id : Nat} {stage : Stage} (h : l'.stageOf id = some stage) : l.stageOf id = some stage ∨ stage = .seeking := by
  obtain ⟨-, rfl⟩ := eq_of_submit accepted
  rw [← get?_stages_roster] at h ⊢
  split at h
  · rw [roster_ring, roster_startWorker (l.accept x)] at h
    simp only [Table.get?_insert] at h
    split at h
    · exact Or.inr (Option.some.inj h).symm
    · exact Or.inl h
  · rw [roster_ring] at h
    exact Or.inl h

/-- **Only workers get on**: what others do leaves the stages alone, but for new workers. -/
theorem Step.stageOf (step : Step env l new l') :
    l' = l.work env ∨ ∀ id stage, l'.stageOf id = some stage → l.stageOf id = some stage ∨ stage = .seeking := by
  have hsame (hstages : l'.roster.stages = l.roster.stages) :
      ∀ id stage, l'.stageOf id = some stage → l.stageOf id = some stage ∨ stage = .seeking := by
    intro id stage h
    rw [stageOf_of_roster hstages] at h
    exact Or.inl h
  cases step with
  | work => exact Or.inl rfl
  | pass ms => exact Or.inr (hsame (by rw [roster_pass]))
  | request | control holder type | sessions sessions | tell other => exact Or.inr (hsame rfl)
  | release holder => exact Or.inr (hsame (by rw [roster_release]))
  | submit accepted => exact Or.inr fun id stage h => stageOf_submit accepted h
  | shutDown => exact Or.inr (hsame (by rw [roster_shutDown]))

/-- **Whoever is in the middle of a call has begun its message**, at every moment. -/
theorem Step.called (step : Step env l new l') (hl : l.outbox.Locked) (h : l.Called) : l'.Called := by
  intro id job ends failure hstage
  rcases step.stageOf with rfl | hstages
  · rcases work_cases env hl with ⟨-, hsame⟩ | ⟨id', -, -, hsame⟩ | ⟨id', hturn, turn⟩
    · rw [hsame] at hstage ⊢
      exact h id job ends failure hstage
    · rw [hsame] at hstage ⊢
      exact h id job ends failure hstage
    · rw [← get?_stages_roster] at hstage
      rcases turn.calling hstage with hbefore | ⟨rfl, f, hwriting⟩
      · rw [get?_stages_roster] at hbefore
        exact step.begun hl (h id job ends failure hbefore)
      · rw [get?_stages_roster] at hwriting
        obtain ⟨signal, heq⟩ := work_of_writing env hturn hwriting
        rw [heq]
        exact begun_writeNext env (List.mem_of_mem_head? hturn) hwriting rfl signal
  · rcases hstages id _ hstage with hbefore | hseeking
    · exact step.begun hl (h id job ends failure hbefore)
    · cases hseeking

/-! ## Rest -/

/-- Nobody is about to hand over a frame. -/
def AtRest (l : Link σ) : Prop := ∀ id job, l.stageOf id ≠ some (.writing job)

theorem AtRest.of_roster (h : l.AtRest) (hstages : l'.roster.stages = l.roster.stages) : l'.AtRest := by
  intro id job hstage
  rw [stageOf_of_roster hstages] at hstage
  exact h id job hstage

/-- Who is about to hand over a frame is in line. -/
theorem InOrder.atRest (h : l.InOrder) (hready : l.ready = []) : l.AtRest := by
  intro id job hstage
  obtain ⟨w, hw, hwriting⟩ := Option.map_eq_some_iff.mp hstage
  have hin : id ∈ l.ready := (h.placed nofun hw).inLine (by simp [CanGo, hwriting])
  rw [hready] at hin
  cases hin

/-- Workers and callers know what is theirs, and nobody is about to hand over a frame. -/
structure Calm (l : Link σ) : Prop where
  locked : l.outbox.Locked
  order : l.InOrder
  rest : l.AtRest

theorem Course.inOrder (course : Course env l new l') (hl : l.outbox.Locked) (h : l.InOrder) : l'.InOrder := by
  induction course with
  | refl => exact h
  | tail course step ih => exact step.inOrder (Course.locked course hl) ih

theorem Course.called (course : Course env l new l') (hl : l.outbox.Locked) (h : l.Called) : l'.Called := by
  induction course with
  | refl => exact h
  | tail course step ih => exact step.called (Course.locked course hl) ih

namespace Calm

/-- A course that ends at rest. -/
theorem course (h : l.Calm) (course : Course env l new l') (hrest : l'.AtRest) : l'.Calm :=
  ⟨Course.locked course h.locked, Course.inOrder course h.locked h.order, hrest⟩

/-- **When all workers wait, nobody is about to hand over a frame.** -/
theorem settle (h : l.Calm) : (l.settle env).Calm :=
  h.course (course_settle l) ((Course.inOrder (course_settle l) h.locked h.order).atRest (ready_settle env l))

theorem pass (env : Environment σ) (h : l.Calm) (ms : Nat) : (l.pass ms).Calm := by
  have hpass : Course env l [] (l.pass ms) := .single (.pass ms)
  exact h.course hpass (h.rest.of_roster (by rw [roster_pass]))

theorem sleep (h : l.Calm) (ms : Nat) : (l.sleep env ms).Calm := by
  fun_induction Link.sleep env ms l with
  | case1 l => exact h
  | case2 l n settled skipped ih => exact ih (h.settle.pass env _)

theorem awaitLock (h : l.Calm) (calls : Nat) : (l.awaitLock env calls).Calm := by
  induction calls generalizing l with
  | zero => exact h.settle
  | succ n ih =>
    unfold Link.awaitLock
    dsimp only
    split
    · exact h.settle
    · exact ih (h.settle.sleep _)

theorem acquire (h : l.Calm) : (l.acquire env).Calm := by
  have hrequest : Course env l [] { l with lock := l.lock.request .caller } := .single .request
  have hasked : ({ l with lock := l.lock.request .caller } : Link σ).Calm :=
    h.course hrequest (h.rest.of_roster rfl)
  unfold Link.acquire
  dsimp only
  split
  · exact hasked
  · exact hasked.awaitLock _

/-- A caller that has the lock and hands over control frames has it still. -/
theorem writeEach {frames : List Frame} (htype : ∀ f ∈ frames, f.OfControl) (h : l.Calm)
    (hholder : l.lock.holder = some .caller) : (l.writeEach env frames).1.Calm := by
  induction frames generalizing l with
  | nil => exact h
  | cons f fs ih =>
    have hhand : Course env l [] (l.handOver env .control f).1 :=
      .single (.control hholder (htype f List.mem_cons_self))
    have hhanded : (l.handOver env .control f).1.Calm := h.course hhand (h.rest.of_roster rfl)
    have hslept : ((l.handOver env .control f).1.sleep env (l.handOver env .control f).2.delay).Calm :=
      hhanded.sleep _
    have hkeep := (sleep_works env (l.handOver env .control f).2.delay
      (l.handOver env .control f).1).holder_caller hhanded.locked hholder
    unfold Link.writeEach
    dsimp only
    split
    · exact hslept
    · exact ih (fun g hg => htype g (List.mem_cons_of_mem f hg)) hslept hkeep

theorem write {frames : List Frame} (htype : ∀ f ∈ frames, f.OfControl) (h : l.Calm) :
    (l.write env frames).1.Calm := by
  refine h.course (course_write htype h.locked) ?_
  have hacquired : (l.acquire env).Calm := h.acquire
  unfold Link.write
  dsimp only
  split
  · rename_i hholder
    have hwritten : ((l.acquire env).writeEach env frames).1.Calm := hacquired.writeEach htype hholder
    exact hwritten.rest.of_roster (by rw [roster_release])
  · exact hacquired.rest

end Calm

/-- **Before and after every act of a caller, nobody is about to hand over a frame.** -/
theorem Act.calm (act : Act env l new l') (h : l.Calm) : l'.Calm := by
  have hcourse := Act.course act h.locked
  cases act with
  | write type => exact h.write type
  | sleep ms => exact h.sleep ms
  | sessions sessions => exact h.course hcourse (h.rest.of_roster rfl)
  | tell other => exact h.course hcourse (h.rest.of_roster rfl)
  | submit accepted =>
    refine h.course hcourse ?_
    intro id job hstage
    rcases stageOf_submit accepted hstage with hbefore | hseeking
    · exact h.rest id job hbefore
    · cases hseeking
  | shutDown => exact h.course hcourse (h.rest.of_roster (by rw [roster_shutDown]))

/-! ## Acts -/

/-- The message waits for the write lock in the hands of a worker. -/
def Queues (l : Link σ) (s : Submission) : Prop :=
  ∃ id job, l.stageOf id = some (.queueing job) ∧ job.submission = s

/-- A message that is in somebody's hands and was not begun waits for the lock. -/
theorem Calm.queues (h : l.Calm) (hcalled : l.Called) {id : Nat} {g : Grip} (hg : l.outbox.grip id = some g)
    (hbegun : ¬ l.Begun g.job.submission) : l.Queues g.job.submission := by
  obtain ⟨stage, hstage, hgrip⟩ := Option.bind_eq_some_iff.mp hg
  cases stage with
  | seeking => cases hgrip
  | idle deadline => cases hgrip
  | queueing job =>
    cases hgrip
    exact ⟨id, job, hstage, rfl⟩
  | writing job => exact absurd hstage (h.rest id job)
  | calling job ends failure =>
    have hjob : g.job = job := by
      cases failure <;> cases hgrip <;> rfl
    rw [hjob] at hbegun
    exact absurd (hcalled id job ends failure hstage) hbegun

/-- A message that is not begun, whose session is not started and that does not wait for the lock is barred. -/
theorem Calm.barred (h : l.Calm) (hcalled : l.Called) (hl : l.outbox.Accounted env Frame.OfControl log)
    {s : Submission} (hs : s.Logged log) (hbegun : ¬ l.Begun s) (hnone : l.sessions.get? s.session = none)
    (hqueues : ¬ l.Queues s) : l.outbox.Barred s where
  session := hnone
  queue t ht hnumber := by
    obtain ⟨blocks, htraced⟩ := hl.traced
    rw [(htraced.queued t ht).eq_of_number hs hnumber]
  grip id g hg hnumber := by
    obtain ⟨blocks, htraced⟩ := hl.traced
    obtain rfl := (htraced.held hg).eq_of_number hs hnumber
    exact hqueues (h.queues hcalled hg hbegun)
  begun := hbegun

/-- **A message that is begun with an act** is begun at some moment of it. At that moment its session is started, or
    it has waited for the lock since before the act. -/
theorem Act.gate (act : Act env l new l') (h : l.Calm) (hcalled : l.Called)
    (hl : l.outbox.Accounted env Frame.OfControl log) {s : Submission} (hs : s.Logged (log ++ new))
    (hbefore : ¬ l.Begun s) (hafter : l'.Begun s) :
    ∃ before, Outbox.BegunAt env s.number l.outbox before l'.outbox
      ∧ (before.sessions.get? s.session ≠ none ∨ l.Queues s) := by
  -- writing and waiting are steps of the outbox, with which what is barred stays barred
  have hsteps (hlogged : s.Logged log) (steps : Outbox.Steps env Frame.OfControl l.outbox l'.outbox) :
      ∃ before, Outbox.BegunAt env s.number l.outbox before l'.outbox
        ∧ (before.sessions.get? s.session ≠ none ∨ l.Queues s) := by
    obtain ⟨before, hmoment⟩ := Outbox.Steps.exists_begunAt steps hbefore hafter
    have hsessions : before.sessions = l.sessions := Outbox.Steps.sessions hmoment.reached
    refine ⟨before, hmoment, ?_⟩
    rw [hsessions]
    by_contra hneither
    rw [not_or, not_not] at hneither
    have hbarred := h.barred hcalled hl hlogged hbefore hneither.1 hneither.2
    exact (Outbox.Steps.barred steps hbarred).begun hafter
  cases act with
  | write type =>
    rw [List.append_nil] at hs
    exact hsteps hs (write_steps env type h.locked)
  | sleep ms =>
    rw [List.append_nil] at hs
    have hslept : Outbox.Steps env Frame.OfControl l.outbox (l.sleep env ms).outbox :=
      (sleep_works env ms l).steps
    exact hsteps hs hslept
  | sessions sessions => exact absurd hafter hbefore
  | @tell n other =>
    have hnoted : (l.record (.told n)).outbox.Begun s.number := hafter
    rw [outbox_record, Outbox.begun_note_of_none rfl] at hnoted
    exact absurd hnoted hbefore
  | submit accepted =>
    have hjournal := (outbox_submit h.locked accepted).2
    exact absurd ((Outbox.begun_congr (congrArg (List.filterMap Entry.written?) hjournal)).mp hafter) hbefore
  | shutDown =>
    have hjournal := (shutDown_roused l).journal_eq
    have hcleared : l.outbox.clear.Begun s.number :=
      (Outbox.begun_congr (congrArg (List.filterMap Entry.written?) hjournal)).mp hafter
    exact absurd (Outbox.begun_clear.mp hcleared) hbefore

/-- **Acts end at rest** if they begin so. -/
theorem Acts.calm (acts : Acts env l log l') (h : l.Calm) : l'.Calm := by
  induction acts with
  | refl => exact h
  | tail _ act ih => exact act.calm ih

end Link

/-- A fresh link has no workers that could be about to do something. -/
theorem Endpoint.calm_of_open? {carrier : σ} {e : Endpoint σ} (h : Endpoint.open? env carrier = .ok e) :
    e.link.Calm ∧ e.link.Called := by
  have htidy := Endpoint.tidy_of_open? h
  obtain ⟨-, rfl⟩ := Endpoint.eq_of_open? h
  refine ⟨⟨htidy.locked, htidy.order, htidy.order.atRest rfl⟩, ?_⟩
  intro id job ends failure hstage
  cases hstage

/-! ## The gate -/

/-- **The gate is passed when a message is taken.** All runs of an endpoint are acts on its link, and acts are
    courses. A message that was begun was taken while its session was started. A message that is taken while its
    session is not started is reported because of its session, and never begun. And if a message is begun with an
    act, one write of a caller or one pause, then, at that very moment, its session is started still, unless the
    message was in the hands of a worker that has waited for the lock since before the act. -/
theorem gate_passed_when_taken {carrier : σ} {e : Endpoint σ} (hopen : Endpoint.open? env carrier = .ok e) :
    (∀ actions, ∃ log, List.Forall₂ (Accepted.Queued env) (e.run env actions).2 log
        ∧ Link.Acts env e.link log (e.run env actions).1.link)
      ∧ (∀ log l, Link.Acts env e.link log l → Link.Course env e.link log l)
      ∧ (∀ log l, Link.Course env e.link log l → ∀ s : Submission, s.Logged log → l.Begun s →
          ∃ log₁ l₁ log₂, Link.Course env e.link log₁ l₁ ∧ l₁.Takes s ∧ l₁.sessions.get? s.session ≠ none
            ∧ Link.Course env (l₁.work env) log₂ l ∧ log = log₁ ++ log₂)
      ∧ (∀ log₁ l₁ (s : Submission), Link.Course env e.link log₁ l₁ → l₁.Takes s →
          l₁.sessions.get? s.session = none → ∀ log₂ l, Link.Course env (l₁.work env) log₂ l →
            l.At env s (.ended (.reported (.notStarted s.session))) ∧ ¬ l.Begun s)
      ∧ ∀ log l, Link.Acts env e.link log l → ∀ new l', Link.Act env l new l' →
          ∀ s : Submission, s.Logged (log ++ new) → ¬ l.Begun s → l'.Begun s →
            ∃ before, Outbox.BegunAt env s.number l.outbox before l'.outbox
              ∧ (before.sessions.get? s.session ≠ none ∨ l.Queues s) := by
  have hfresh := Endpoint.accounted_of_open? hopen
  obtain ⟨hcalm, hcalled⟩ := Endpoint.calm_of_open? hopen
  refine ⟨?_, ?_, ?_, ?_, ?_⟩
  · exact fun actions => Endpoint.acts_run (Endpoint.Ordered.fresh hopen) actions
  · exact fun log l acts => Link.Acts.course acts hcalm.locked
  · exact fun log l course s hs hbegun => Link.Course.taken_of_begun hfresh course hs hbegun
  · intro log₁ l₁ s before takes hnone log₂ l after
    exact Link.Course.refused_of_taken hfresh before takes hnone after
  · intro log l acts new l' act s hs hbefore hafter
    have hcourse := Link.Acts.course acts hcalm.locked
    obtain ⟨h, -⟩ := Link.Course.accounted hcourse hfresh
    rw [List.nil_append] at h
    exact act.gate (Link.Acts.calm acts hcalm) (Link.Course.called hcourse hcalm.locked hcalled) h hs hbefore hafter

/-- Two messages are sent at once. While the first one is being written and the second one waits for the lock, the
    session ends. -/
def parting : List Action :=
  [.receive [0x20, 0x07, 0x02, 1, 0, 0, 0, 0, 0, 0, 0, 5],
    .send { version := 1, service := .rpc, session := 1, body := { data := [1, 2, 3, 4] } },
    .send { version := 1, service := .rpc, session := 1, body := { data := [5, 6, 7, 8] } },
    .sleep 2, .receive [0x20, 0x07, 0x04, 1, 0, 0, 0, 0, 0, 0, 0, 5]]

/-- The second message of these. -/
def parted : Submission where
  number := 1
  version := 2
  service := .rpc
  session := 1
  correlationId := 0
  payload := [0, 0, 0, 0, 0, 0, 0, 0, 0, 0, 0, 4, 5, 6, 7, 8]

/-- In the end the second message is in the hands of a worker. -/
theorem logged_parted {e : Endpoint Nat} (hopen : Endpoint.open? contention 0 = .ok e) {log : List Outbound}
    (acts : Link.Acts contention e.link log (e.run contention parting).1.link) : parted.Logged log := by
  have hfresh := Endpoint.accounted_of_open? hopen
  obtain ⟨h, -⟩ := Link.Course.accounted (Link.Acts.course acts hfresh.locked) hfresh
  obtain ⟨blocks, htraced⟩ := h.traced
  have hheld : ((e.run contention parting).1.link.outbox.grip 1).map (fun g => g.job.submission) = some parted := by
    cases hopen
    decide +kernel
  obtain ⟨g, hg, hjob⟩ := Option.map_eq_some_iff.mp hheld
  rw [← hjob]
  exact htraced.held hg

/-- It is begun after that. -/
theorem begun_parted {e : Endpoint Nat} (hopen : Endpoint.open? contention 0 = .ok e) :
    ¬ (e.run contention parting).1.link.Begun parted
      ∧ ((e.run contention parting).1.link.sleep contention 20).Begun parted := by
  cases hopen
  decide +kernel

/-- The second message was taken while the session was started. It is begun when the session has ended, and that is
    because it has waited for the lock. -/
theorem gate_passed_when_taken_parting :
    ∃ e log, Endpoint.open? contention 0 = .ok e ∧
      let before := (e.run contention parting).1.link
      let after := before.sleep contention 20
      Link.Acts contention e.link log before ∧ parted.Logged log ∧ ¬ before.Begun parted ∧ after.Begun parted
        ∧ (∃ log₁ l₁, Link.Course contention e.link log₁ l₁ ∧ l₁.Takes parted
          ∧ l₁.sessions.get? parted.session ≠ none)
        ∧ ∃ moment, Outbox.BegunAt contention parted.number before.outbox moment after.outbox
          ∧ (moment.sessions.get? parted.session ≠ none ∨ before.Queues parted) := by
  have hopen : Endpoint.open? contention 0 = .ok _ := rfl
  obtain ⟨hruns, hcourses, htaken, -, hgate⟩ := gate_passed_when_taken hopen
  obtain ⟨log, -, hacts⟩ := hruns parting
  obtain ⟨hbefore, hafter⟩ := begun_parted hopen
  have hs : parted.Logged log := logged_parted hopen hacts
  have hmoment := hgate log _ hacts [] _ (.sleep 20) parted (hs.append []) hbefore hafter
  obtain ⟨log₁, l₁, -, hcourse, htakes, hsession, -⟩ :=
    htaken _ _ (hcourses _ _ (hacts.tail (.sleep 20))) parted (hs.append []) hafter
  exact ⟨_, log, rfl, hacts, hs, hbefore, hafter, ⟨log₁, l₁, hcourse, htakes, hsession⟩, hmoment⟩

/-- **A message may be begun when its session has ended.** The second message is accepted and waits for the lock when
    the session ends. It is handed over all the same. -/
theorem begun_after_session_ended :
    ∃ e log, Endpoint.open? contention 0 = .ok e ∧
      let before := (e.run contention parting).1.link
      let after := before.sleep contention 20
      Link.Acts contention e.link log before ∧ Link.Act contention before [] after ∧ parted.Logged log
        ∧ before.sessions.get? parted.session = none ∧ after.sessions.get? parted.session = none
        ∧ ¬ before.Begun parted ∧ after.Begun parted := by
  have hopen : Endpoint.open? contention 0 = .ok _ := rfl
  obtain ⟨log, -, hacts⟩ := Endpoint.acts_run (Endpoint.Ordered.fresh hopen) parting
  obtain ⟨hbefore, hafter⟩ := begun_parted hopen
  refine ⟨_, log, rfl, hacts, .sleep 20, logged_parted hopen hacts, ?_, ?_, hbefore, hafter⟩
  · decide +kernel
  · decide +kernel

end HeadLink
