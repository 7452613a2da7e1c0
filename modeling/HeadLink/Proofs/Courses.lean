import HeadLink.Proofs.Runs

/-!
# Courses of a link

A run of an endpoint shows a link between its actions. A course shows it at every moment: between two steps of
workers, while a call of the transport goes on, while a caller waits for the lock or hands over a control
frame, and in whatever order several callers come in.

What holds of a link at every moment of every course holds at every moment of every run: the actions of an
endpoint come down to acts of a caller (`Endpoint.acts_run`), each of which is a course of the link
(`Endpoint.course_run`).

## Contents
- **Trails.** `Trail`: steps one after the other, with what they bring.
- **Courses.** `Link.Step` says what can happen to a link next; `Link.Course` is any number of steps.
- **Outboxes.** `Outbox.Change` is what a step does to the outbox (`Link.Step.changes`); `Course.locked`.
- **Waiting and writing.** What callers do is a course (`Link.course_sleep`, `Link.course_write`).
- **Acts.** `Link.Act` says what a caller does as a whole; acts are courses (`Link.Acts.course`).
- **Actions.** `Endpoint.acts_perform`, `Endpoint.acts_run`, `Endpoint.course_run`.
-/

namespace HeadLink

/-! ## Trails -/

/-- Any number of steps, with all that they bring. -/
inductive Trail {α β : Type} (R : α → List β → α → Prop) (a : α) : List β → α → Prop
  | refl : Trail R a [] a
  | tail {log new : List β} {b c : α} (trail : Trail R a log b) (step : R b new c) :
      Trail R a (log ++ new) c

namespace Trail

variable {α β γ : Type} {R : α → List β → α → Prop} {a b c : α} {log new : List β}

theorem single (step : R a log b) : Trail R a log b := refl.tail step

theorem trans (first : Trail R a log b) (second : Trail R b new c) : Trail R a (log ++ new) c := by
  induction second with
  | refl => rwa [List.append_nil]
  | tail _ step ih =>
    rw [← List.append_assoc]
    exact ih.tail step

/-- What every step keeps, a trail keeps. -/
theorem keeps {P : List β → α → Prop}
    (hstep : ∀ {log new : List β} {a b : α}, P log a → R a new b → P (log ++ new) b)
    (trail : Trail R a new b) (h : P log a) : P (log ++ new) b := by
  induction trail with
  | refl => rwa [List.append_nil]
  | tail _ step ih =>
    rw [← List.append_assoc]
    exact hstep ih step

/-- If every step is a trail elsewhere, so is a trail. A step may need to know what holds where it starts. -/
theorem map {S : γ → List β → γ → Prop} {f : α → γ} {P : α → Prop}
    (hkeep : ∀ {new : List β} {a b : α}, P a → R a new b → P b)
    (hstep : ∀ {new : List β} {a b : α}, P a → R a new b → Trail S (f a) new (f b))
    (trail : Trail R a log b) (h : P a) : P b ∧ Trail S (f a) log (f b) := by
  induction trail with
  | refl => exact ⟨h, .refl⟩
  | tail _ step ih => exact ⟨hkeep ih.1 step, ih.2.trans (hstep ih.1 step)⟩

end Trail

/-! ## Courses -/

/-- The message that a notice reports, and what went wrong. -/
def Notice.reported? : Notice → Option (Submission × Fault)
  | Notice.fault (Context.sending s) cause => some (s, cause)
  | _ => none

/-- The frame is written outside of messages. -/
def Frame.OfControl (f : Frame) : Prop := f.header.type = .control

variable {σ : Type} {env : Environment σ}

/-- **What can happen to a link next**, with the message that is accepted, if one is. -/
inductive Link.Step (env : Environment σ) : Link σ → List Outbound → Link σ → Prop
  /-- The worker whose turn it is goes on. -/
  | work {l : Link σ} : Step env l [] (l.work env)
  /-- Time passes, whoever is to run. -/
  | pass {l : Link σ} (ms : Nat) : Step env l [] (l.pass ms)
  /-- A caller asks for the write lock. -/
  | request {l : Link σ} : Step env l [] { l with lock := l.lock.request .caller }
  /-- A caller that has the lock hands over a control frame. -/
  | control {l : Link σ} {f : Frame} (holder : l.lock.holder = some .caller) (type : f.OfControl) :
      Step env l [] (l.handOver env .control f).1
  /-- A caller passes the lock on. -/
  | release {l : Link σ} (holder : l.lock.holder = some .caller) : Step env l [] l.release
  /-- The peer starts or ends services. -/
  | sessions {l : Link σ} (sessions : Sessions) : Step env l [] { l with sessions }
  /-- The listener is told something that is not about sending. -/
  | tell {l : Link σ} {n : Notice} (other : n.reported? = none) : Step env l [] (l.tell n)
  /-- A message is accepted. -/
  | submit {l l' : Link σ} {x : Outbound} (accepted : l.submit env x true = (l', .ok ())) :
      Step env l [x] l'
  | shutDown {l : Link σ} : Step env l [] l.shutDown

/-- **A course of a link**: any number of steps, with the messages that are accepted on the way. -/
abbrev Link.Course (env : Environment σ) : Link σ → List Outbound → Link σ → Prop := Trail (Link.Step env)

/-! ## Outboxes -/

namespace Outbox

/-- What a step of a link does to its outbox. -/
inductive Change (env : Environment σ) : Outbox → List Outbound → Outbox → Prop
  | step {o o' : Outbox} (step : Step env Frame.OfControl o o') : Change env o [] o'
  | sessions {o : Outbox} (sessions : Sessions) : Change env o [] { o with sessions }
  | tell {o : Outbox} {n : Notice} (other : n.reported? = none) : Change env o [] (o.note (.told n))
  | accept {o : Outbox} (x : Outbound) : Change env o [x] (o.accept x)
  | enlist {o : Outbox} : Change env o [] o.enlist
  | clear {o : Outbox} : Change env o [] o.clear

/-- Any number of changes. -/
abbrev Changes (env : Environment σ) : Outbox → List Outbound → Outbox → Prop := Trail (Change env)

variable {o o' : Outbox} {log new : List Outbound} {blocks : List Block}

theorem Works.changes (works : Works env o o') : Changes env o [] o' := by
  induction works with
  | refl => exact .refl
  | tail _ work ih => exact ih.tail (.step (.work work))

theorem Locked.setSessions (h : o.Locked) (sessions : Sessions) :
    Locked { o with sessions } :=
  ⟨h.parties, h.holding, h.turn, h.nodup, h.known, h.gripped⟩

theorem Traced.setSessions {allowed : Frame → Prop} (h : Traced env allowed log blocks o)
    (sessions : Sessions) : Traced env allowed log blocks { o with sessions } := by
  obtain ⟨current, hhanded, hcurrent⟩ := h.written
  exact ⟨h.count, h.queued, h.held, h.apart, h.good, h.waiting, current, hhanded, hcurrent.worker,
    hcurrent.other⟩

theorem Change.locked (change : Change env o new o') (h : o.Locked) : o'.Locked := by
  cases change with
  | step step => exact step.locked h
  | sessions sessions => exact h.setSessions sessions
  | tell other => exact h.note _
  | accept x => exact h.accept x
  | enlist => exact h.enlist
  | clear => exact h.clear

theorem Changes.locked (changes : Changes env o new o') (h : o.Locked) : o'.Locked := by
  induction changes with
  | refl => exact h
  | tail _ change ih => exact change.locked ih

/-- **Changes keep to blocks.** -/
theorem Change.traced (change : Change env o new o') (hl : o.Locked)
    (h : Traced env Frame.OfControl log blocks o) :
    ∃ more, Traced env Frame.OfControl (log ++ new) (blocks ++ more) o' := by
  cases change with
  | step step =>
    rw [List.append_nil]
    exact step.traced hl h
  | sessions sessions => exact ⟨[], by simpa using h.setSessions sessions⟩
  | tell other => exact ⟨[], by simpa using h.note rfl⟩
  | accept x => exact ⟨[], by simpa using h.accept x⟩
  | enlist => exact ⟨[], by simpa using h.enlist⟩
  | clear => exact ⟨[], by simpa using h.clear⟩

end Outbox

namespace Link

variable {l l' : Link σ} {log new : List Outbound}

theorem Roused.changes {o o' : Outbox} (h : o.Roused o') : Outbox.Changes env o [] o' :=
  Outbox.Works.changes (.single h.work)

/-- Whoever brings in a message accepts it; a worker may be started, and a bell may ring. -/
theorem bringIn_changes (env : Environment σ) (hl : l.outbox.Locked) (x : Outbound) (hasExecutor : Bool) :
    Outbox.Changes env l.outbox [x] (l.bringIn env x hasExecutor).1.outbox := by
  have haccept : Outbox.Changes env l.outbox [x] (l.outbox.accept x) := .single (.accept x)
  rcases bringIn_outcome env l x hasExecutor with hsame | ⟨-, hleft⟩
  · rw [hsame]
    rcases bringIn_roused env hl x with hroused | hroused
    · exact haccept.trans (Roused.changes hroused)
    · exact (haccept.tail .enlist).trans (Roused.changes hroused)
  · rw [hleft]
    exact haccept

/-- **A step of a link changes its outbox.** -/
theorem Step.changes (step : Step env l new l') (hl : l.outbox.Locked) :
    Outbox.Changes env l.outbox new l'.outbox := by
  cases step with
  | work => exact (work_works env l).changes
  | pass ms => exact Outbox.Works.changes (wakeDue_works env { l with now := l.now + ms })
  | request => exact .single (.step .request)
  | control holder type =>
    rw [outbox_handOver]
    exact .single (.step (.control holder type ⟨l.carrier, rfl⟩))
  | release holder =>
    rw [outbox_release]
    exact .single (.step (.release holder))
  | sessions sessions => exact .single (.sessions sessions)
  | @tell n other =>
    have hnote : (l.tell n).outbox = l.outbox.note (.told n) := outbox_record l _
    rw [hnote]
    exact .single (.tell other)
  | @submit _ x accepted =>
    have hchanges := bringIn_changes env hl x true
    rwa [(bringIn_of_submit env accepted).2] at hchanges
  | shutDown =>
    have hclear : Outbox.Changes env l.outbox [] l.outbox.clear := .single .clear
    exact hclear.trans (Roused.changes (shutDown_roused l))

theorem Step.locked (step : Step env l new l') (hl : l.outbox.Locked) : l'.outbox.Locked :=
  Outbox.Changes.locked (step.changes hl) hl

/-- **On any course, whoever writes holds the lock, and the outbox changes step by step.** -/
theorem Course.changes (course : Course env l log l') (hl : l.outbox.Locked) :
    l'.outbox.Locked ∧ Outbox.Changes env l.outbox log l'.outbox :=
  Trail.map (f := Link.outbox) (P := fun l => l.outbox.Locked) (fun h step => step.locked h)
    (fun h step => step.changes h) course hl

theorem Course.locked (course : Course env l log l') (hl : l.outbox.Locked) : l'.outbox.Locked :=
  (course.changes hl).1

/-! ## Waiting and writing -/

theorem course_settle (l : Link σ) : Course env l [] (l.settle env) := by
  fun_induction settle env l with
  | case1 l h => exact .refl
  | case2 l h ih => exact (Trail.single .work).trans ih

theorem course_sleep (ms : Nat) (l : Link σ) : Course env l [] (l.sleep env ms) := by
  fun_induction sleep env ms l with
  | case1 l => exact .refl
  | case2 n l settled skipped ih =>
    have hsettle : Course env l [] settled := course_settle l
    exact (hsettle.tail (.pass _)).trans ih

theorem course_awaitLock (calls : Nat) (l : Link σ) : Course env l [] (l.awaitLock env calls) := by
  induction calls generalizing l with
  | zero => exact course_settle l
  | succ n ih =>
    have hsettle : Course env l [] (l.settle env) := course_settle l
    unfold awaitLock
    dsimp only
    split
    · exact hsettle
    · exact (hsettle.trans (course_sleep _ _)).trans (ih _)

theorem course_acquire (l : Link σ) : Course env l [] (l.acquire env) := by
  have hrequest : Course env l [] { l with lock := l.lock.request .caller } := .single .request
  unfold acquire
  dsimp only
  split
  · exact hrequest
  · exact hrequest.trans (course_awaitLock _ _)

/-- A caller that has the lock hands over control frames, and has it still. -/
theorem course_writeEach {frames : List Frame} (htype : ∀ f ∈ frames, f.OfControl) {l : Link σ}
    (hl : l.outbox.Locked) (hholder : l.lock.holder = some .caller) :
    Course env l [] (l.writeEach env frames).1
      ∧ (l.writeEach env frames).1.lock.holder = some .caller := by
  induction frames generalizing l with
  | nil => exact ⟨.refl, hholder⟩
  | cons f fs ih =>
    have hhand : Course env l [] (l.handOver env .control f).1 :=
      .single (.control hholder (htype f List.mem_cons_self))
    have hsleep : Course env _ [] _ :=
      course_sleep (l.handOver env .control f).2.delay (l.handOver env .control f).1
    have hcall := hhand.trans hsleep
    -- workers run while the call takes its time, but none takes the lock
    have hkeep := (sleep_works env (l.handOver env .control f).2.delay
      (l.handOver env .control f).1).holder_caller (Course.locked hhand hl) hholder
    unfold writeEach
    dsimp only
    split
    · exact ⟨hcall, hkeep⟩
    · obtain ⟨hrest, hholds⟩ := ih (fun g hg => htype g (List.mem_cons_of_mem f hg))
        (Course.locked hcall hl) hkeep
      exact ⟨hcall.trans hrest, hholds⟩

/-- **Writing control frames is a course.** -/
theorem course_write {frames : List Frame} (htype : ∀ f ∈ frames, f.OfControl) {l : Link σ}
    (hl : l.outbox.Locked) : Course env l [] (l.write env frames).1 := by
  have hacquire : Course env l [] (l.acquire env) := course_acquire l
  unfold write
  dsimp only
  split
  · rename_i hholder
    obtain ⟨hwrite, hholds⟩ := course_writeEach htype (Course.locked hacquire hl) hholder
    exact (hacquire.trans hwrite).tail (.release hholds)
  · exact hacquire

end Link

/-! ## Acts -/

/-- **What a caller does to a link**, with the message that is accepted, if one is. Other than a step, an act
    includes all waiting. -/
inductive Link.Act (env : Environment σ) : Link σ → List Outbound → Link σ → Prop
  /-- The caller writes control frames. -/
  | write {l : Link σ} {frames : List Frame} (type : ∀ f ∈ frames, f.OfControl) :
      Act env l [] (l.write env frames).1
  /-- It lets time pass. -/
  | sleep {l : Link σ} (ms : Nat) : Act env l [] (l.sleep env ms)
  /-- It notes that the peer starts or ends services. -/
  | sessions {l : Link σ} (sessions : Sessions) : Act env l [] { l with sessions }
  /-- It tells the listener something that is not about sending. -/
  | tell {l : Link σ} {n : Notice} (other : n.reported? = none) : Act env l [] (l.tell n)
  /-- It has a message accepted. -/
  | submit {l l' : Link σ} {x : Outbound} (accepted : l.submit env x true = (l', .ok ())) :
      Act env l [x] l'
  | shutDown {l : Link σ} : Act env l [] l.shutDown

/-- Any number of acts, one after the other. -/
abbrev Link.Acts (env : Environment σ) : Link σ → List Outbound → Link σ → Prop := Trail (Link.Act env)

namespace Link

variable {l l' : Link σ} {log : List Outbound}

/-- **Acts are courses.** -/
theorem Act.course (act : Act env l log l') (hl : l.outbox.Locked) : Course env l log l' := by
  cases act with
  | write type => exact course_write type hl
  | sleep ms => exact course_sleep ms l
  | sessions sessions => exact .single (.sessions sessions)
  | tell other => exact .single (.tell other)
  | submit accepted => exact .single (.submit accepted)
  | shutDown => exact .single .shutDown

theorem Acts.course (acts : Acts env l log l') (hl : l.outbox.Locked) : Course env l log l' :=
  (Trail.map (f := id) (fun h act => Course.locked (Act.course act h) h)
    (fun h act => Act.course act h) acts hl).2

end Link

/-! ## Actions -/

namespace Endpoint

variable {e : Endpoint σ} {log : List Accepted}

theorem acts_write {f : Frame} (htype : f.OfControl) :
    Link.Acts env e.link [] (e.write env f).1.link := by
  have hall : ∀ g ∈ [f], g.OfControl := by
    intro g hg
    rw [List.mem_singleton.mp hg]
    exact htype
  exact .single (.write hall)

theorem acts_tell {n : Notice} (hn : n.reported? = none) (e : Endpoint σ) :
    Link.Acts env e.link [] (e.tell n).link := .single (.tell hn)

theorem acts_acknowledge (header : Header) (e : Endpoint σ) :
    Link.Acts env e.link [] (e.acknowledge env header).link := by
  have hwrite : Link.Acts env e.link [] _ := acts_write
    (f := .control header.version header.service header.session .startServiceAck) rfl
  unfold acknowledge
  split
  · rename_i e' heq
    rw [heq] at hwrite
    exact hwrite
  · rename_i e' fault heq
    rw [heq] at hwrite
    exact hwrite.trans (acts_tell rfl e')

theorem acts_noteStarted (header : Header) (e : Endpoint σ) :
    Link.Acts env e.link [] (e.noteStarted header).link := by
  have hstart (token : UInt32) : Link.Acts env e.link [] { e.link with
      sessions := e.link.sessions.start header.session header.service header.version token } :=
    .single (.sessions _)
  unfold noteStarted
  dsimp only
  split
  · exact ((hstart _).tail (.tell rfl)).tail (.tell rfl)
  · exact (hstart _).tail (.tell rfl)

theorem acts_noteEnded (header : Header) (e : Endpoint σ) :
    Link.Acts env e.link [] (e.noteEnded header).link := by
  unfold noteEnded
  split
  · have hstop : Link.Acts env e.link [] { e.link with
        sessions := (e.link.sessions.stop header.session header.service).1 } := .single (.sessions _)
    dsimp only
    -- whether the session closes makes a difference only for the messages that come in
    split <;> exact hstop.tail (.tell rfl)
  · exact .refl

theorem acts_onControl (header : Header) (e : Endpoint σ) :
    Link.Acts env e.link [] (e.onControl env header).link := by
  unfold onControl
  split
  · exact acts_acknowledge header e
  · exact acts_noteStarted header e
  · exact acts_tell rfl e
  · exact acts_noteEnded header e
  · exact acts_noteEnded header e
  · exact acts_tell rfl e
  · split
    · exact acts_tell rfl e
    · exact .refl
  · exact .refl
  · exact .refl
  · exact .refl

theorem acts_deliver (m : Message) (e : Endpoint σ) :
    Link.Acts env e.link [] (e.deliver env m).link := by
  have htold : Link.Acts env e.link [] (e.link.tell (.messageReceived m)) := .single (.tell rfl)
  unfold deliver
  dsimp only
  split <;> split
  · exact (htold.tail (.tell rfl)).tail (.tell rfl)
  · exact htold.tail (.tell rfl)
  · exact htold.tail (.tell rfl)
  · exact htold

theorem acts_onArrival (arrival : Arrival) (e : Endpoint σ) :
    Link.Acts env e.link [] (e.onArrival env arrival).link := by
  unfold onArrival
  split
  · unfold onFrame
    split
    · exact acts_onControl _ e
    · -- what is made of the frame makes no difference to the link
      rename_i f htype
      dsimp only
      split
      · exact acts_deliver _ { e with reassembly := (e.reassembly.accept f).1 }
      · exact .refl
      · exact acts_tell rfl { e with reassembly := (e.reassembly.accept f).1 }
  · exact acts_tell rfl e

theorem acts_foldl_onArrival (arrivals : List Arrival) (e : Endpoint σ) :
    Link.Acts env e.link [] (arrivals.foldl (onArrival env) e).link := by
  induction arrivals generalizing e with
  | nil => exact .refl
  | cons arrival arrivals ih => exact (acts_onArrival arrival e).trans (ih _)

/-- **Sending is an act**, with which the message is accepted if it is not refused. -/
theorem acts_send (h : e.Ordered env log) (m : Message) :
    ∃ new, List.Forall₂ (Accepted.Queued env) (e.accepts env (.send m)) new
      ∧ Link.Acts env e.link new (e.send env m).1.link := by
  unfold accepts
  dsimp only
  cases hx : e.outbound env m with
  | error fault =>
    have hsend : e.send env m = (e, .error fault) := by
      unfold send
      rw [hx]
    rw [hsend]
    exact ⟨[], .nil, .refl⟩
  | ok x =>
    have hsend : e.send env m
        = ({ e with link := (e.link.submit env x true).1 }, (e.link.submit env x true).2) := by
      unfold send
      rw [hx]
    obtain ⟨version, hv, hqueued⟩ := h.queued hx
    rw [hsend, hv]
    rcases Link.submit_cases env h.outbox.locked x with ⟨fault, hs⟩ | ⟨l', hs, -⟩
    · rw [hs]
      exact ⟨[], .nil, .refl⟩
    · have hact : Link.Acts env e.link [x] l' := .single (.submit hs)
      rw [hs]
      exact ⟨[x], .cons hqueued .nil, hact⟩

/-- **Every action comes down to acts.** -/
theorem acts_perform (h : e.Ordered env log) (a : Action) :
    ∃ new, List.Forall₂ (Accepted.Queued env) (e.accepts env a) new
      ∧ Link.Acts env e.link new (e.perform env a).link := by
  cases a with
  | send m => exact acts_send h m
  | startSession session => exact ⟨[], .nil, acts_write rfl⟩
  | startService service session =>
    refine ⟨[], .nil, ?_⟩
    show Link.Acts env e.link [] (e.startService env service session).1.link
    unfold startService
    split
    · exact .refl
    · exact acts_write rfl
  | endService service session => exact ⟨[], .nil, acts_write rfl⟩
  | receive chunk =>
    exact ⟨[], .nil, acts_foldl_onArrival _ { e with deframer := (e.deframer.push chunk).1 }⟩
  | sleep ms => exact ⟨[], .nil, .single (.sleep ms)⟩
  | close => exact ⟨[], .nil, .single .shutDown⟩

/-- **Every run comes down to acts**, with which the messages of the run are accepted. -/
theorem acts_run (h : e.Ordered env log) (actions : List Action) :
    ∃ new, List.Forall₂ (Accepted.Queued env) (e.run env actions).2 new
      ∧ Link.Acts env e.link new (e.run env actions).1.link := by
  induction actions generalizing e log with
  | nil => exact ⟨[], .nil, .refl⟩
  | cons a actions ih =>
    obtain ⟨first, hfirst, hperform⟩ := acts_perform h a
    obtain ⟨rest, hrest, hrun⟩ := ih (h.perform a)
    exact ⟨first ++ rest, List.rel_append hfirst hrest, hperform.trans hrun⟩

/-- **Every run is a course.** -/
theorem course_run (h : e.Ordered env log) (actions : List Action) :
    ∃ new, List.Forall₂ (Accepted.Queued env) (e.run env actions).2 new
      ∧ Link.Course env e.link new (e.run env actions).1.link := by
  obtain ⟨new, hqueued, hacts⟩ := acts_run h actions
  exact ⟨new, hqueued, Link.Acts.course hacts h.outbox.locked⟩

/-- A fresh endpoint has handed over nothing, and no worker has anything in its hands. -/
theorem blank_of_open? {carrier : σ} {e : Endpoint σ} (h : Endpoint.open? env carrier = .ok e) :
    e.link.outbox.Locked ∧ Outbox.Traced env Frame.OfControl [] [] e.link.outbox := by
  have hlocked := (Endpoint.Ordered.fresh h).outbox.locked
  obtain ⟨-, rfl⟩ := Endpoint.eq_of_open? h
  exact ⟨hlocked, .blank (fun _ => rfl) rfl rfl rfl⟩

end Endpoint

end HeadLink
