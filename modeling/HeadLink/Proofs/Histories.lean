import HeadLink.Proofs.Courses
import HeadLink.Proofs.Delivery

/-!
# Histories of an endpoint

What an endpoint knows of sessions comes from the frames that arrive, and among those from two kinds only: the
peer says that a service is started, or that it has ended. All else is quiet. Callers, workers and time leave the
sessions as they are, and they tell the listener nothing about services.

A history shows an endpoint between any two such moves, in the middle of a received chunk too. Whatever quiet moves
keep and the two kinds of rulings keep holds at every moment of every history (`Endpoint.History.keeps`), and hence
of every run (`Endpoint.history_run`).

## Contents
- **Rulings.** `Ruling`: what the peer says of a service, and `Arrival.ruling?`, what an arrival says.
- **Quiet changes.** `Outbox.Quiet`: workers and callers are quiet (`Outbox.Steps.quiet`), and so are the errands
  of the application (`Outbox.Errands.quiet`).
- **Endpoints.** `Endpoint.Quiet`; arrivals without a ruling are quiet (`Endpoint.quiet_onArrival`), all others
  follow it (`Endpoint.onArrival_of_ruling`).
- **Histories.** `Endpoint.Move`, `Endpoint.History`, and what they keep.
- **Runs.** `Endpoint.arrivals`: the arrivals of a run, which is a history.
-/

namespace HeadLink

/-! ## Rulings -/

/-- What the peer says of a service, with the header that says it. -/
inductive Ruling where
  /-- The service is started. -/
  | started (h : Header)
  /-- The service has ended. -/
  | ended (h : Header)
  deriving DecidableEq

/-- What a control frame says of a service. -/
def Header.ruling? (h : Header) : Option Ruling :=
  match h.controlType? with
  | some .startServiceAck => some (.started h)
  | some .endService | some .endServiceAck => some (.ended h)
  | _ => none

/-- What an arrival says of a service. -/
def Arrival.ruling? : Arrival → Option Ruling
  | .ok f => if f.header.type = .control then f.header.ruling? else none
  | .error _ => none

/-- Whether the listener is told something about a service. -/
def Notice.isOfServices : Notice → Bool
  | .serviceStarted _ _ _ | .sessionStarted _ _ | .serviceEnded _ _ _ => true
  | _ => false

/-! ## Quiet changes -/

variable {σ : Type} {env : Environment σ}

namespace Outbox

variable {o o' o'' : Outbox}

/-- What the listener was told, in order. -/
def told (o : Outbox) : List Notice := o.journal.filterMap Entry.notice?

/-- The sessions stay as they are, and the listener is told nothing about services. -/
structure Quiet (o o' : Outbox) : Prop where
  sessions : o'.sessions = o.sessions
  told : ∃ more, o'.told = o.told ++ more ∧ ∀ n ∈ more, n.isOfServices = false

theorem Quiet.of_eq (hsessions : o'.sessions = o.sessions) (htold : o'.told = o.told) : o.Quiet o' :=
  ⟨hsessions, [], by simp [htold], by simp⟩

theorem Quiet.refl (o : Outbox) : o.Quiet o := .of_eq rfl rfl

theorem Quiet.trans (first : o.Quiet o') (second : o'.Quiet o'') : o.Quiet o'' := by
  obtain ⟨more, htold, hmore⟩ := first.told
  obtain ⟨more', htold', hmore'⟩ := second.told
  refine ⟨second.sessions.trans first.sessions, more ++ more', ?_, ?_⟩
  · rw [htold', htold, List.append_assoc]
  · intro n hn
    rcases List.mem_append.mp hn with hn | hn
    · exact hmore n hn
    · exact hmore' n hn

@[simp] theorem told_note (o : Outbox) (e : Entry) : (o.note e).told = o.told ++ e.notice?.toList := by
  simp only [told, note, List.filterMap_append]
  cases e <;> rfl

/-- Noting something is quiet, unless it tells about services. -/
theorem quiet_note {e : Entry} (he : ∀ n, e.notice? = some n → n.isOfServices = false) (o : Outbox) :
    o.Quiet (o.note e) :=
  ⟨rfl, e.notice?.toList, told_note o e, by simpa using he⟩

theorem quiet_take (o : Outbox) (s : Submission) (queue : List Submission) : o.Quiet (o.take s queue) := by
  refine .of_eq rfl ?_
  simp [told, take, Entry.notice?]

theorem quiet_startJob (o : Outbox) (id : Nat) (job : Job) : o.Quiet (o.startJob id job) := by
  unfold startJob
  split <;> exact .of_eq rfl rfl

theorem quiet_clear (o : Outbox) : o.Quiet o.clear := by
  refine .of_eq rfl ?_
  simp [told, clear, Entry.notice?, List.filterMap_map, Function.comp_def]

/-- **Workers are quiet**: of messages that they cannot send they tell, of services they do not. -/
theorem Work.quiet (work : Work env o o') : o.Quiet o' := by
  cases work with
  | rest ready workers hsub hnodup hready => exact .of_eq rfl rfl
  | @refuse s queue fault hqueue hprepared =>
    have hreport : (o.take s queue).Quiet ((o.take s queue).note (.told (.fault (.sending s) fault))) := by
      apply quiet_note
      rintro n ⟨rfl⟩
      rfl
    exact (quiet_take o s queue).trans hreport
  | @takeOn id s queue job hturn hworker hgrip hqueue hprepared =>
    exact (quiet_take o s queue).trans (quiet_startJob _ id job)
  | grant hturn hgrip => exact .of_eq rfl rfl
  | @hand id job f left failure hturn hgrip hleft hanswer =>
    have hwritten : o.Quiet (o.note (.written job.origin f failure)) := quiet_note (by simp [Entry.notice?]) o
    exact hwritten.trans (.of_eq rfl rfl)
  | finish hturn hgrip hleft => exact .of_eq rfl rfl
  | @giveUp id job causes hturn hgrip =>
    have hreport : o.release.Quiet (o.release.note (.told (.fault (.sending job.submission)
        (.transport (.failed causes))))) := by
      apply quiet_note
      rintro n ⟨rfl⟩
      rfl
    have hrelease : o.Quiet o.release := .of_eq rfl rfl
    exact (hrelease.trans hreport).trans (.of_eq rfl rfl)

/-- **So are callers that write.** -/
theorem Step.quiet {allowed : Frame → Prop} (step : Step env allowed o o') : o.Quiet o' := by
  cases step with
  | work work => exact work.quiet
  | request => exact .of_eq rfl rfl
  | control hholder hallowed hanswer => exact quiet_note (by simp [Entry.notice?]) o
  | release hholder => exact .of_eq rfl rfl

theorem Steps.quiet {allowed : Frame → Prop} (steps : Steps env allowed o o') : o.Quiet o' := by
  induction steps with
  | refl => exact .refl o
  | tail _ step ih => exact ih.trans step.quiet

theorem Works.quiet (works : Works env o o') : o.Quiet o' := by
  induction works with
  | refl => exact .refl o
  | tail _ work ih => exact ih.trans work.quiet

/-- **What comes of the calls of the application**, other than that it feeds in what it has received. -/
inductive Errand (env : Environment σ) : Outbox → Outbox → Prop
  /-- Workers go on, or a control frame is written. -/
  | step {o o' : Outbox} (step : Step env Frame.OfControl o o') : Errand env o o'
  | accept {o : Outbox} (x : Outbound) : Errand env o (o.accept x)
  | enlist {o : Outbox} : Errand env o o.enlist
  | clear {o : Outbox} : Errand env o o.clear

/-- Any number of errands. -/
abbrev Errands (env : Environment σ) : Outbox → Outbox → Prop := Relation.ReflTransGen (Errand env)

theorem Steps.errands (steps : Steps env Frame.OfControl o o') : Errands env o o' := by
  induction steps with
  | refl => exact .refl
  | tail _ step ih => exact ih.tail (.step step)

theorem Roused.errands (h : o.Roused o') : Errands env o o' := .single (.step (.work h.work))

/-- **Errands are quiet.** -/
theorem Errand.quiet (errand : Errand env o o') : o.Quiet o' := by
  cases errand with
  | step step => exact step.quiet
  | accept x => exact .of_eq rfl rfl
  | enlist => exact .of_eq rfl rfl
  | clear => exact quiet_clear o

theorem Errands.quiet (errands : Errands env o o') : o.Quiet o' := by
  induction errands with
  | refl => exact .refl o
  | tail _ errand ih => exact ih.trans errand.quiet

end Outbox

/-! ## Endpoints -/

namespace Endpoint

variable {e e' e'' : Endpoint σ}

/-- The endpoint knows of services what it knew, and the listener is told nothing about them. -/
structure Quiet (e e' : Endpoint σ) : Prop where
  outbox : e.link.outbox.Quiet e'.link.outbox
  version : e'.version = e.version

theorem Quiet.refl (e : Endpoint σ) : e.Quiet e := ⟨.refl _, rfl⟩

theorem Quiet.trans (first : e.Quiet e') (second : e'.Quiet e'') : e.Quiet e'' :=
  ⟨first.outbox.trans second.outbox, second.version.trans first.version⟩

theorem quiet_tell {n : Notice} (hn : n.isOfServices = false) (e : Endpoint σ) : e.Quiet (e.tell n) := by
  refine ⟨?_, rfl⟩
  show e.link.outbox.Quiet (e.link.record (.told n)).outbox
  rw [Link.outbox_record]
  apply Outbox.quiet_note
  rintro n' ⟨rfl⟩
  exact hn

theorem quiet_write (hl : e.link.outbox.Locked) (f : Frame) : e.Quiet (e.write env f).1 := by
  have hall : ∀ g ∈ [f], True := fun _ _ => trivial
  exact ⟨Outbox.Steps.quiet (Link.write_steps env hall hl), rfl⟩

theorem quiet_acknowledge (hl : e.link.outbox.Locked) (h : Header) : e.Quiet (e.acknowledge env h) := by
  have hwrite : e.Quiet (e.write env (.control h.version h.service h.session .startServiceAck)).1 :=
    quiet_write hl _
  unfold acknowledge
  split
  · rename_i e' heq
    rwa [heq] at hwrite
  · rename_i e' fault heq
    rw [heq] at hwrite
    exact hwrite.trans (quiet_tell rfl e')

theorem quiet_deliver (e : Endpoint σ) (m : Message) : e.Quiet (e.deliver env m) := by
  have htold : e.Quiet ({ e with delivered := e.delivered + 1 }.tell (.messageReceived m)) :=
    have hcounted : e.Quiet { e with delivered := e.delivered + 1 } := ⟨.refl _, rfl⟩
    hcounted.trans (quiet_tell rfl _)
  unfold deliver
  dsimp only
  split <;> split
  · exact (htold.trans (quiet_tell rfl _)).trans (quiet_tell rfl _)
  · exact htold.trans (quiet_tell rfl _)
  · exact htold.trans (quiet_tell rfl _)
  · exact htold

/-- What becomes of an endpoint with a ruling of the peer. -/
def follow (e : Endpoint σ) : Ruling → Endpoint σ
  | .started h => e.noteStarted h
  | .ended h => e.noteEnded h

/-- A control frame that is not about services is quiet. -/
theorem quiet_onControl (hl : e.link.outbox.Locked) {h : Header} (hruling : h.ruling? = none) :
    e.Quiet (e.onControl env h) := by
  unfold Header.ruling? at hruling
  unfold onControl
  split at hruling
  · cases hruling
  · cases hruling
  · cases hruling
  · rename_i hstarted hended hended'
    split
    · exact quiet_acknowledge hl h
    · exact absurd ‹_› hstarted
    · exact quiet_tell rfl e
    · exact absurd ‹_› hended
    · exact absurd ‹_› hended'
    · exact quiet_tell rfl e
    · split
      · exact quiet_tell rfl e
      · exact .refl e
    · exact .refl e
    · exact .refl e
    · exact .refl e

/-- **An arrival that says nothing of services is quiet.** -/
theorem quiet_onArrival (hl : e.link.outbox.Locked) {a : Arrival} (hruling : a.ruling? = none) :
    e.Quiet (e.onArrival env a) := by
  cases a with
  | error fault => exact quiet_tell rfl e
  | ok f =>
    simp only [Arrival.ruling?] at hruling
    simp only [onArrival, onFrame]
    by_cases hcontrol : f.header.type = .control
    · rw [if_pos hcontrol] at hruling ⊢
      exact quiet_onControl hl hruling
    · rw [if_neg hcontrol]
      -- what has been put together so far says nothing of services
      have hput : e.Quiet { e with reassembly := (e.reassembly.accept f).1 } := ⟨.refl _, rfl⟩
      split
      · exact hput.trans (quiet_deliver _ _)
      · exact hput
      · exact hput.trans (quiet_tell rfl _)

/-- **An arrival that says something of a service is followed.** -/
theorem onArrival_of_ruling {a : Arrival} {r : Ruling} (hruling : a.ruling? = some r) (e : Endpoint σ) :
    e.onArrival env a = e.follow r := by
  cases a with
  | error fault => cases hruling
  | ok f =>
    simp only [Arrival.ruling?] at hruling
    by_cases hcontrol : f.header.type = .control
    · rw [if_pos hcontrol] at hruling
      unfold Header.ruling? at hruling
      simp only [onArrival, onFrame, if_pos hcontrol, onControl]
      split at hruling <;> cases hruling
      · rename_i htype
        simp [htype, follow]
      · rename_i htype
        simp [htype, follow]
      · rename_i htype
        simp [htype, follow]
    · rw [if_neg hcontrol] at hruling
      cases hruling

/-! ## Histories -/

/-- **What can happen to an endpoint next**, with the arrival that is dealt with, if one is. -/
inductive Move (env : Environment σ) : Endpoint σ → List Arrival → Endpoint σ → Prop
  /-- The application asks for something, or time passes for it. -/
  | call {e : Endpoint σ} (a : Action) (own : ∀ chunk, a ≠ .receive chunk) : Move env e [] (e.perform env a)
  /-- Bytes go into the deframer. -/
  | feed {e : Endpoint σ} (d : Deframer) : Move env e [] { e with deframer := d }
  /-- A frame is dealt with, or a header that was refused. -/
  | arrive {e : Endpoint σ} (a : Arrival) : Move env e [a] (e.onArrival env a)
  /-- The worker whose turn it is goes on. -/
  | work {e : Endpoint σ} : Move env e [] { e with link := e.link.work env }
  /-- Time passes, whoever is to run. -/
  | pass {e : Endpoint σ} (ms : Nat) : Move env e [] { e with link := e.link.pass ms }

/-- **A history of an endpoint**: any number of moves, with all that arrives. -/
abbrev History (env : Environment σ) : Endpoint σ → List Arrival → Endpoint σ → Prop := Trail (Move env)

/-- A call of the application changes nothing but the link. -/
theorem exists_link_perform (env : Environment σ) (e : Endpoint σ) {a : Action} (own : ∀ chunk, a ≠ .receive chunk) :
    ∃ link, e.perform env a = { e with link } := by
  cases a with
  | send m =>
    simp only [perform, send]
    split <;> exact ⟨_, rfl⟩
  | startService service session =>
    simp only [perform, startService]
    split <;> exact ⟨_, rfl⟩
  | receive chunk => exact absurd rfl (own chunk)
  | startSession session | endService service session | sleep ms | close => exact ⟨_, rfl⟩

/-- **What the application asks for are errands.** -/
theorem errands_perform (hl : e.link.outbox.Locked) {a : Action} (own : ∀ chunk, a ≠ .receive chunk) :
    Outbox.Errands env e.link.outbox (e.perform env a).link.outbox := by
  have hwrite {f : Frame} (hf : f.OfControl) :
      Outbox.Errands env e.link.outbox (e.write env f).1.link.outbox := by
    have hall : ∀ g ∈ [f], g.OfControl := by
      intro g hg
      rwa [List.mem_singleton.mp hg]
    exact Outbox.Steps.errands (Link.write_steps env hall hl)
  cases a with
  | send m =>
    cases hx : e.outbound env m with
    | error fault => simpa [perform, send, hx] using Relation.ReflTransGen.refl
    | ok x =>
      simp only [perform, send, hx]
      have haccept : Outbox.Errands env e.link.outbox (e.link.outbox.accept x) := .single (.accept x)
      rcases Link.submit_cases env hl x with ⟨fault, hs⟩ | ⟨l', hs, hroused | hroused⟩
      · simpa only [hs] using Relation.ReflTransGen.refl
      · simpa only [hs] using haccept.trans hroused.errands
      · simpa only [hs] using (haccept.tail .enlist).trans hroused.errands
  | startSession session => exact hwrite rfl
  | startService service session =>
    simp only [perform, startService]
    split
    · exact .refl
    · exact hwrite rfl
  | endService service session => exact hwrite rfl
  | receive chunk => exact absurd rfl (own chunk)
  | sleep ms => exact Outbox.Steps.errands (Outbox.Works.steps (Link.sleep_works env ms e.link))
  | close => exact (Relation.ReflTransGen.single .clear).trans (Link.shutDown_roused e.link).errands

/-- Whatever the application asks for is quiet: services are started and ended by the peer. -/
theorem quiet_perform (hl : e.link.outbox.Locked) {a : Action} (own : ∀ chunk, a ≠ .receive chunk) :
    e.Quiet (e.perform env a) := by
  refine ⟨(errands_perform hl own).quiet, ?_⟩
  obtain ⟨link, hlink⟩ := exists_link_perform env e own
  rw [hlink]

/-- A call comes down to acts on the link. -/
theorem acts_call (hl : e.link.outbox.Locked) {a : Action} (own : ∀ chunk, a ≠ .receive chunk) :
    ∃ log, Link.Acts env e.link log (e.perform env a).link := by
  cases a with
  | send m =>
    cases hx : e.outbound env m with
    | error fault => exact ⟨[], by simpa [perform, send, hx] using Trail.refl⟩
    | ok x =>
      simp only [perform, send, hx]
      rcases Link.submit_cases env hl x with ⟨fault, hs⟩ | ⟨l', hs, -⟩
      · exact ⟨[], by simpa only [hs] using Trail.refl⟩
      · exact ⟨[x], by simpa only [hs] using Trail.single (Link.Act.submit hs)⟩
  | startSession session => exact ⟨[], acts_write rfl⟩
  | startService service session =>
    simp only [perform, startService]
    split
    · exact ⟨[], .refl⟩
    · exact ⟨[], acts_write rfl⟩
  | endService service session => exact ⟨[], acts_write rfl⟩
  | receive chunk => exact absurd rfl (own chunk)
  | sleep ms => exact ⟨[], .single (.sleep ms)⟩
  | close => exact ⟨[], .single .shutDown⟩

namespace Move

variable {new : List Arrival}

/-- **A move is a course of the link.** -/
theorem course (move : Move env e new e') (hl : e.link.outbox.Locked) :
    ∃ log, Link.Course env e.link log e'.link := by
  cases move with
  | call a own =>
    obtain ⟨log, acts⟩ := acts_call hl own
    exact ⟨log, acts.course hl⟩
  | feed d => exact ⟨[], .refl⟩
  | arrive a => exact ⟨[], Link.Acts.course (acts_onArrival a e) hl⟩
  | work => exact ⟨[], .single .work⟩
  | pass ms => exact ⟨[], .single (.pass ms)⟩

theorem locked (move : Move env e new e') (hl : e.link.outbox.Locked) : e'.link.outbox.Locked := by
  obtain ⟨log, course⟩ := move.course hl
  exact Link.Course.locked course hl

/-- **A move is quiet, or it deals with what arrives.** -/
theorem quiet_or_arrive (move : Move env e new e') (hl : e.link.outbox.Locked) :
    (new = [] ∧ e.Quiet e') ∨ ∃ a, new = [a] ∧ e' = e.onArrival env a := by
  cases move with
  | call a own => exact Or.inl ⟨rfl, quiet_perform hl own⟩
  | feed d => exact Or.inl ⟨rfl, .refl _, rfl⟩
  | arrive a => exact Or.inr ⟨a, rfl, rfl⟩
  | work => exact Or.inl ⟨rfl, Outbox.Works.quiet (Link.work_works env e.link), rfl⟩
  | pass ms =>
    exact Or.inl ⟨rfl, Outbox.Works.quiet (Link.wakeDue_works env { e.link with now := e.link.now + ms }), rfl⟩

end Move

theorem History.locked {past : List Arrival} (history : History env e past e') (hl : e.link.outbox.Locked) :
    e'.link.outbox.Locked := by
  induction history with
  | refl => exact hl
  | tail _ move ih => exact move.locked ih

/-- **What quiet changes and rulings keep, a history keeps**, together with all that the peer has said. -/
theorem History.keeps {P : List Ruling → Endpoint σ → Prop}
    (hquiet : ∀ said e e', P said e → e.Quiet e' → P said e')
    (hfollow : ∀ said e r, P said e → P (said ++ [r]) (e.follow r)) {past : List Arrival}
    (history : History env e past e') (hl : e.link.outbox.Locked) (h : P [] e) :
    P (past.filterMap Arrival.ruling?) e' := by
  induction history with
  | refl => exact h
  | tail past move ih =>
    have hlocked := History.locked past hl
    rw [List.filterMap_append]
    rcases move.quiet_or_arrive hlocked with ⟨rfl, hmove⟩ | ⟨a, rfl, rfl⟩
    · simpa using hquiet _ _ _ ih hmove
    · cases hruling : a.ruling? with
      | none => simpa [hruling] using hquiet _ _ _ ih (quiet_onArrival hlocked hruling)
      | some r =>
        rw [onArrival_of_ruling hruling]
        simpa [hruling] using hfollow _ _ r ih

/-! ## Runs -/

/-- What arrives with an action. -/
def arrives (e : Endpoint σ) : Action → List Arrival
  | .receive chunk => (e.deframer.push chunk).2
  | _ => []

/-- What arrives with actions, in order. -/
def arrivals (env : Environment σ) (e : Endpoint σ) : List Action → List Arrival
  | [] => []
  | a :: actions => e.arrives a ++ (e.perform env a).arrivals env actions

theorem history_foldl_onArrival (arrivals : List Arrival) (e : Endpoint σ) :
    History env e arrivals (arrivals.foldl (onArrival env) e) := by
  induction arrivals generalizing e with
  | nil => exact .refl
  | cons a arrivals ih => exact (Trail.single (.arrive a)).trans (ih _)

/-- **Every action is a history.** -/
theorem history_perform (a : Action) (e : Endpoint σ) : History env e (e.arrives a) (e.perform env a) := by
  cases a with
  | receive chunk =>
    have hfeed : History env e [] { e with deframer := (e.deframer.push chunk).1 } := .single (.feed _)
    exact hfeed.trans (history_foldl_onArrival _ _)
  | send m => exact .single (.call _ nofun)
  | startSession session => exact .single (.call _ nofun)
  | startService service session => exact .single (.call _ nofun)
  | endService service session => exact .single (.call _ nofun)
  | sleep ms => exact .single (.call _ nofun)
  | close => exact .single (.call _ nofun)

/-- **Every run is a history.** -/
theorem history_run (actions : List Action) (e : Endpoint σ) :
    History env e (e.arrivals env actions) (e.run env actions).1 := by
  induction actions generalizing e with
  | nil => exact .refl
  | cons a actions ih => exact (history_perform a e).trans (ih _)

end Endpoint

end HeadLink
