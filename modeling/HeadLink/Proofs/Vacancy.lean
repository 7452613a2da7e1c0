import HeadLink.Proofs.Progress
import HeadLink.Proofs.Reactions

/-!
# Endpoints that have nothing to send

While no message waits and none is in the hands of a worker, workers can come and go and time can pass, but nothing
comes of it: the journal, the lock and the transport stay as they are. What such an endpoint does is a function of
what arrives and of what its collaborators answer.

The function is small. Arrivals call for reactions (`Intake.reactions`), for which the collaborators are asked in
turn (`Environment.answer`): the listener whether it takes a message, the transport whether it carries a frame. Each
reaction leaves entries in the journal that depend on nothing but the answer (`Reaction.entries`). That is all that
an endpoint does that has nothing to send (`Endpoint.hears_foldl_onArrival`).

## Contents
- **Collaborators.** `Partners`, `Environment.answer`, and the `Environment.record` of what is called for.
- **Vacancy.** `Outbox.Vacant` and `Link.IsVacant`; workers and time do nothing (`Link.rests_sleep`).
- **Writing.** `Link.Free.write`: whoever writes a frame calls the transport once.
- **Hearing.** `Endpoint.Hears`: what is made of arrivals.
- **Reaching it.** Between the moves of a history nobody but a worker can have the lock
  (`Endpoint.History.free`).
-/

namespace HeadLink

/-! ## Collaborators -/

/-- What the answers of the collaborators of an endpoint depend on. -/
structure Partners (σ : Type) where
  /-- The state of the transport. -/
  carrier : σ
  /-- How many messages the listener has got. -/
  delivered : Nat

/-- The frame that grants a request. -/
def Header.acknowledgement (h : Header) : Frame := .control h.version h.service h.session .startServiceAck

/-- The entries that a reaction leaves in the journal, by how the collaborator fails that it asks. -/
def Reaction.entries : Reaction → Option (List String) → List Entry
  | .tell notices, _ => notices.map .told
  | .deliver m, failure =>
    .told (.messageReceived m) ::
      ((failure.map fun causes => .told (.fault .delivering (.delivery causes))).toList
        ++ if m.isUnregisterResponse then [.told .appUnregistered] else [])
  | .grant h, failure =>
    .written .control h.acknowledgement failure ::
      (failure.map fun causes =>
        .told (.fault (.acknowledging h.service h.session) (.transport (.failed causes)))).toList

namespace Environment

variable {σ : Type} (env : Environment σ)

/-- What becomes of the collaborators with a reaction, and how the one fails that is asked. -/
def answer (p : Partners σ) : Reaction → Partners σ × Option (List String)
  | .tell _ => (p, none)
  | .deliver _ => ({ p with delivered := p.delivered + 1 }, env.refusal p.delivered)
  | .grant h =>
    ({ p with carrier := (env.transport.call p.carrier h.acknowledgement.encode).1 },
      (env.transport.call p.carrier h.acknowledgement.encode).2.failure)

/-- What becomes of the collaborators with reactions, one after the other. -/
def partnersAfter (p : Partners σ) (reactions : List Reaction) : Partners σ :=
  reactions.foldl (fun p r => (env.answer p r).1) p

/-- The entries that reactions leave in the journal, one after the other. -/
def record (p : Partners σ) : List Reaction → List Entry
  | [] => []
  | r :: reactions => r.entries (env.answer p r).2 ++ record (env.answer p r).1 reactions

theorem record_append (p : Partners σ) (first second : List Reaction) :
    env.record p (first ++ second) = env.record p first ++ env.record (env.partnersAfter p first) second := by
  induction first generalizing p with
  | nil => rfl
  | cons r first ih => simp [record, partnersAfter, ih]

end Environment

variable {σ : Type} {env : Environment σ}

/-! ## Vacancy -/

namespace Outbox

variable {o o' o'' : Outbox}

/-- No message waits, and none is in the hands of a worker. -/
structure Vacant (o : Outbox) : Prop where
  queue : o.queue = []
  grip : ∀ id, o.grip id = none

/-- At most there are other workers, or others that are to run. -/
def Rested (o o' : Outbox) : Prop := ∃ ready workers, o' = { o with ready, workers }

theorem Rested.refl (o : Outbox) : o.Rested o := ⟨o.ready, o.workers, rfl⟩

theorem Rested.trans (first : o.Rested o') (second : o'.Rested o'') : o.Rested o'' := by
  obtain ⟨_, _, rfl⟩ := first
  obtain ⟨ready, workers, rfl⟩ := second
  exact ⟨ready, workers, rfl⟩

theorem Rested.vacant (h : o.Rested o') (hv : o.Vacant) : o'.Vacant := by
  obtain ⟨ready, workers, rfl⟩ := h
  exact ⟨hv.queue, hv.grip⟩

/-- **Without messages, workers have nothing to do.** -/
theorem Work.rested (work : Work env o o') (hv : o.Vacant) : o.Rested o' := by
  have hnone {id : Nat} {g : Grip} (hg : o.grip id = some g) : False := by
    cases (hv.grip id).symm.trans hg
  cases work with
  | rest ready workers => exact ⟨ready, workers, rfl⟩
  | refuse hqueue | takeOn _ _ _ hqueue => cases hv.queue.symm.trans hqueue
  | grant _ hgrip | hand _ hgrip | finish _ hgrip | giveUp _ hgrip => exact (hnone hgrip).elim

theorem Works.rested (works : Works env o o') (hv : o.Vacant) : o.Rested o' := by
  induction works with
  | refl => exact .refl o
  | tail _ work ih => exact ih.trans (work.rested (ih.vacant hv))

end Outbox

namespace Link

variable {l l' l'' : Link σ}

/-- No message waits, and no worker has one in its hands. -/
def IsVacant (l : Link σ) : Prop := l.queue = [] ∧ ∀ e ∈ l.workers.entries, e.2.stage.grip = none

instance (l : Link σ) : Decidable l.IsVacant :=
  inferInstanceAs (Decidable (l.queue = [] ∧ ∀ e ∈ l.workers.entries, e.2.stage.grip = none))

theorem IsVacant.outbox (h : l.IsVacant) : l.outbox.Vacant := by
  refine ⟨h.1, fun id => ?_⟩
  cases hw : l.workers.get? id with
  | none => exact congrArg (fun w? => (w?.map Worker.stage).bind Stage.grip) hw
  | some w =>
    have hstage : l.stageOf id = some w.stage := congrArg (Option.map Worker.stage) hw
    exact (grip_outbox hstage).trans (h.2 _ (Table.mem_of_get? hw))

/-- Time may have passed and workers may have run, but nothing has come of it. -/
structure Rests (l l' : Link σ) : Prop where
  outbox : l.outbox.Rested l'.outbox
  carrier : l'.carrier = l.carrier

theorem Rests.refl (l : Link σ) : l.Rests l := ⟨.refl _, rfl⟩

theorem Rests.trans (first : l.Rests l') (second : l'.Rests l'') : l.Rests l'' :=
  ⟨first.outbox.trans second.outbox, second.carrier.trans first.carrier⟩

theorem carrier_waitForBell (l : Link σ) (id : Nat) (s : Signal) :
    (l.waitForBell env id s).carrier = l.carrier := by
  unfold waitForBell
  split
  · rfl
  · dsimp only
    split <;> rfl

/-- A worker that finds no message does not call the transport. -/
theorem carrier_seek (hqueue : l.queue = []) (id : Nat) : (l.seek env id).carrier = l.carrier := by
  obtain ⟨keptRing, listeners, s, hlisten⟩ := l.exists_listen id
  unfold seek
  rw [hlisten]
  dsimp only
  split
  · rfl
  · split
    · exact carrier_waitForBell { l with keptRing, listeners } id s
    · rename_i hwaits
      cases hqueue.symm.trans hwaits

/-- **Without messages, workers do not call the transport.** -/
theorem carrier_work (hv : l.outbox.Vacant) : (l.work env).carrier = l.carrier := by
  unfold work
  split
  · rfl
  · rename_i id _ hready
    cases hw : l.workers.get? id with
    | none => rfl
    | some w =>
      have hgrip : w.stage.grip = none := by
        have hstage : l.stageOf id = some w.stage := congrArg (Option.map Worker.stage) hw
        exact (grip_outbox hstage).symm.trans (hv.grip id)
      dsimp only
      cases hstage : w.stage with
      | seeking => exact carrier_seek hv.queue id
      | idle deadline =>
        dsimp only [resume]
        split <;> rfl
      | queueing job | writing job =>
        rw [hstage] at hgrip
        cases hgrip
      | calling job ends failure =>
        rw [hstage] at hgrip
        cases failure <;> cases hgrip

theorem rests_wake (l : Link σ) (id : Nat) : l.Rests (l.wake id) := by
  refine ⟨⟨_, l.outbox.workers, outbox_wake l id⟩, ?_⟩
  unfold wake
  split <;> rfl

/-- Time makes workers run, and does nothing else. -/
theorem rests_pass (l : Link σ) (ms : Nat) : l.Rests (l.pass ms) := by
  have hfold (entries : List (Nat × Worker)) (l : Link σ) :
      l.Rests (entries.foldl (fun l e => if e.2.isDue l.now then l.wake e.1 else l) l) := by
    induction entries generalizing l with
    | nil => exact .refl l
    | cons e entries ih =>
      rw [List.foldl_cons]
      split
      · exact (rests_wake l e.1).trans (ih _)
      · exact ih l
  have hnow : l.Rests { l with now := l.now + ms } := ⟨.refl _, rfl⟩
  exact hnow.trans (hfold _ _)

theorem rests_work (hv : l.outbox.Vacant) : l.Rests (l.work env) :=
  ⟨Outbox.Works.rested (work_works env l) hv, carrier_work hv⟩

theorem rests_settle (hv : l.outbox.Vacant) : l.Rests (l.settle env) := by
  fun_induction settle env l with
  | case1 l hready => exact .refl l
  | case2 l hready ih =>
    have hwork : l.Rests (l.work env) := rests_work hv
    exact hwork.trans (ih (hwork.outbox.vacant hv))

/-- **While there is nothing to send, nothing comes of a wait.** -/
theorem rests_sleep (hv : l.outbox.Vacant) (ms : Nat) : l.Rests (l.sleep env ms) := by
  fun_induction sleep env ms l with
  | case1 l => exact .refl l
  | case2 n l settled skipped ih =>
    have hsettle : l.Rests settled := rests_settle hv
    have hpass := hsettle.trans (rests_pass settled (skipped + 1))
    exact hpass.trans (ih (hpass.outbox.vacant hv))

/-! ## Writing -/

theorem carrier_release (l : Link σ) : l.release.carrier = l.carrier := by
  unfold release
  dsimp only
  split
  · exact (rests_wake _ _).carrier
  · rfl

/-- Nothing is to be sent, and nobody has the lock. -/
structure Free (l : Link σ) : Prop where
  locked : l.outbox.Locked
  vacant : l.outbox.Vacant
  lock : l.lock = {}

theorem Free.rests (h : l.Free) (hrests : l.Rests l') (hlocked : l'.outbox.Locked) : l'.Free := by
  refine ⟨hlocked, hrests.outbox.vacant h.vacant, ?_⟩
  obtain ⟨ready, workers, houtbox⟩ := hrests.outbox
  exact (congrArg Outbox.lock houtbox).trans h.lock

theorem Free.record (h : l.Free) (e : Entry) : (l.record e).Free := by
  have houtbox := outbox_record l e
  refine ⟨?_, ?_, h.lock⟩
  · rw [houtbox]
    exact h.locked.note e
  · rw [houtbox]
    exact ⟨h.vacant.queue, h.vacant.grip⟩

/-- **Who writes a frame calls the transport once**, and learns whether the call has failed. -/
theorem Free.write (env : Environment σ) (h : l.Free) (f : Frame) :
    (l.write env [f]).1.Free
      ∧ (l.write env [f]).1.sessions = l.sessions
      ∧ (l.write env [f]).1.journal.toList = l.journal.toList
        ++ [.written .control f (env.transport.call l.carrier f.encode).2.failure]
      ∧ (l.write env [f]).1.carrier = (env.transport.call l.carrier f.encode).1
      ∧ (l.write env [f]).2 = match (env.transport.call l.carrier f.encode).2.failure with
        | some causes => .error (.transport (.failed causes))
        | none => .ok () := by
  let held : Link σ := { l with lock := { holder := some .caller } }
  let called := held.handOver env .control f
  let waited := called.1.sleep env called.2.delay
  have hacquire : l.acquire env = held := by
    unfold acquire
    rw [h.lock]
    rfl
  have hwrite : l.write env [f] = (waited.release, match called.2.failure with
      | some causes => .error (.transport (.failed causes))
      | none => .ok ()) := by
    unfold Link.write
    rw [hacquire]
    dsimp only
    rw [if_pos rfl]
    unfold writeEach writeEach
    dsimp only
    cases hfailure : (held.handOver env .control f).2.failure <;> simp [called, waited]
  -- while the call takes its time, nothing comes of it
  have hnoted : called.1.outbox = held.outbox.note (.written .control f called.2.failure) :=
    outbox_handOver held .control f
  have hvacant : called.1.outbox.Vacant := by
    rw [hnoted]
    exact ⟨h.vacant.queue, h.vacant.grip⟩
  have hwaited : called.1.Rests waited := rests_sleep hvacant _
  have hreleased : waited.release.outbox = { waited.outbox with lock := {} } := by
    obtain ⟨ready, workers, houtbox⟩ := hwaited.outbox
    rw [outbox_release, houtbox, hnoted]
    rfl
  have hlocked : (l.write env [f]).1.outbox.Locked := by
    have hall : ∀ g ∈ [f], True := fun _ _ => trivial
    exact Outbox.Steps.locked (write_steps env hall h.locked) h.locked
  obtain ⟨ready, workers, houtbox⟩ := hwaited.outbox
  rw [hnoted] at houtbox
  rw [houtbox] at hreleased
  rw [hwrite] at hlocked ⊢
  refine ⟨⟨hlocked, ?_, congrArg Outbox.lock hreleased⟩, congrArg Outbox.sessions hreleased,
    congrArg Outbox.journal hreleased, ?_, rfl⟩
  · rw [hreleased]
    exact ⟨h.vacant.queue, h.vacant.grip⟩
  · rw [carrier_release, hwaited.carrier]
    rfl

end Link

/-! ## Hearing -/

namespace Endpoint

variable {e e' e'' : Endpoint σ}

/-- What the answers of the collaborators depend on. -/
def partners (e : Endpoint σ) : Partners σ where
  carrier := e.link.carrier
  delivered := e.delivered

/-- **What an endpoint that has nothing to send makes of arrivals**, and nothing else. -/
structure Hears (env : Environment σ) (e : Endpoint σ) (arrivals : List Arrival) (e' : Endpoint σ) : Prop where
  free : e'.link.Free
  intake : e'.intake = e.intake.afterAll arrivals
  partners : e'.partners = env.partnersAfter e.partners (e.intake.reactions arrivals)
  journal : e'.link.journal.toList
    = e.link.journal.toList ++ env.record e.partners (e.intake.reactions arrivals)

theorem Hears.refl (h : e.link.Free) : e.Hears env [] e := ⟨h, rfl, rfl, (List.append_nil _).symm⟩

theorem Hears.trans {first second : List Arrival} (h : e.Hears env first e') (h' : e'.Hears env second e'') :
    e.Hears env (first ++ second) e'' where
  free := h'.free
  intake := by rw [h'.intake, h.intake, Intake.afterAll_append]
  partners := by
    rw [h'.partners, h.partners, h.intake, Intake.reactions_append]
    exact List.foldl_append.symm
  journal := by
    rw [h'.journal, h.journal, h.partners, h.intake, Intake.reactions_append, env.record_append, List.append_assoc]

/-- What the listener is told goes into the journal, and nowhere else. -/
theorem free_foldl_tell (h : e.link.Free) (notices : List Notice) :
    (notices.foldl tell e).link.Free ∧ (notices.foldl tell e).partners = e.partners
      ∧ (notices.foldl tell e).link.journal.toList = e.link.journal.toList ++ notices.map .told := by
  induction notices generalizing e with
  | nil => exact ⟨h, rfl, (List.append_nil _).symm⟩
  | cons n notices ih =>
    obtain ⟨hfree, hpartners, hjournal⟩ := ih (e := e.tell n) (h.record (.told n))
    have htold : (e.tell n).link.journal.toList = e.link.journal.toList ++ [.told n] := Array.toList_push
    exact ⟨hfree, hpartners, by rw [List.foldl_cons, hjournal, htold]; simp⟩

/-- The listener is asked once whether it takes a message. -/
theorem free_deliver (h : e.link.Free) (m : Message) :
    (e.deliver env m).link.Free ∧ (e.deliver env m).partners = { e.partners with delivered := e.delivered + 1 }
      ∧ (e.deliver env m).link.journal.toList
        = e.link.journal.toList ++ (Reaction.deliver m).entries (env.refusal e.delivered) := by
  let asked : Endpoint σ := { e with delivered := e.delivered + 1 }
  have htold (notices : List Notice) := free_foldl_tell (e := asked) h (.messageReceived m :: notices)
  unfold deliver Reaction.entries
  dsimp only
  cases env.refusal e.delivered with
  | none =>
    by_cases hunregister : m.isUnregisterResponse = true
    · rw [if_pos hunregister, if_pos hunregister]
      exact htold [.appUnregistered]
    · rw [if_neg hunregister, if_neg hunregister]
      exact htold []
  | some causes =>
    by_cases hunregister : m.isUnregisterResponse = true
    · rw [if_pos hunregister, if_pos hunregister]
      exact htold [.fault .delivering (.delivery causes), .appUnregistered]
    · rw [if_neg hunregister, if_neg hunregister]
      exact htold [.fault .delivering (.delivery causes)]

/-- The transport is called once to grant a request. -/
theorem free_acknowledge (h : e.link.Free) (header : Header) :
    let call := env.transport.call e.link.carrier header.acknowledgement.encode
    (e.acknowledge env header).link.Free ∧ (e.acknowledge env header).partners = { e.partners with carrier := call.1 }
      ∧ (e.acknowledge env header).link.journal.toList
        = e.link.journal.toList ++ (Reaction.grant header).entries call.2.failure := by
  obtain ⟨hfree, -, hjournal, hcarrier, hresult⟩ := h.write env header.acknowledgement
  unfold acknowledge write
  show _ ∧ _ ∧ _
  dsimp only
  unfold Header.acknowledgement at *
  rw [hresult]
  cases hfailure : (env.transport.call e.link.carrier _).2.failure with
  | none =>
    rw [hfailure] at hjournal
    exact ⟨hfree, by simp [partners, hcarrier], hjournal⟩
  | some causes =>
    rw [hfailure] at hjournal
    obtain ⟨hfree', hpartners, htold⟩ := free_foldl_tell (e := { e with link := (e.link.write env [_]).1 }) hfree
      [.fault (.acknowledging header.service header.session) (.transport (.failed causes))]
    refine ⟨hfree', hpartners.trans (by simp [partners, hcarrier]), htold.trans ?_⟩
    rw [hjournal, List.append_assoc]
    rfl

/-- **A reaction asks a collaborator once, if at all**, and leaves its entries. -/
theorem free_carryOut (env : Environment σ) (h : e.link.Free) (r : Reaction) :
    (e.carryOut env r).link.Free
      ∧ (e.carryOut env r).partners = (env.answer e.partners r).1
      ∧ (e.carryOut env r).link.journal.toList
        = e.link.journal.toList ++ r.entries (env.answer e.partners r).2 := by
  cases r with
  | tell notices => exact free_foldl_tell h notices
  | deliver m => exact free_deliver h m
  | grant header => exact free_acknowledge h header

theorem Free.withIntake (h : e.link.Free) (i : Intake) : (e.withIntake i).link.Free :=
  ⟨locked_withIntake h.locked i, ⟨h.vacant.queue, h.vacant.grip⟩, h.lock⟩

theorem hears_onArrival (env : Environment σ) (h : e.link.Free) (a : Arrival) : e.Hears env [a] (e.onArrival env a) := by
  obtain ⟨hfree, hpartners, hjournal⟩ :=
    free_carryOut env (Free.withIntake h (e.intake.after a)) (e.intake.reaction a)
  rw [← onArrival_eq] at hfree hpartners hjournal
  refine ⟨hfree, intake_onArrival env h.locked a, hpartners, ?_⟩
  show _ = e.link.journal.toList ++ ((e.intake.reaction a).entries (env.answer e.partners _).2 ++ [])
  rw [List.append_nil]
  exact hjournal

/-- **What an endpoint makes of arrivals that has nothing to send.** -/
theorem hears_foldl_onArrival (env : Environment σ) (h : e.link.Free) (arrivals : List Arrival) :
    e.Hears env arrivals (arrivals.foldl (onArrival env) e) := by
  induction arrivals generalizing e with
  | nil => exact .refl h
  | cons a arrivals ih =>
    have hfirst := hears_onArrival env h a
    exact hfirst.trans (ih hfirst.free)

/-- While time passes and workers run, nothing is heard. -/
theorem hears_of_rests (h : e.link.Free) {l : Link σ} (hrests : e.link.Rests l) (hlocked : l.outbox.Locked) :
    e.Hears env [] { e with link := l } := by
  obtain ⟨ready, workers, houtbox⟩ := hrests.outbox
  have hsessions : l.sessions = e.link.sessions := congrArg Outbox.sessions houtbox
  have hjournal : l.journal.toList = e.link.journal.toList := congrArg Outbox.journal houtbox
  refine ⟨h.rests hrests hlocked, ?_, ?_, ?_⟩
  · simp [Endpoint.intake, hsessions]
  · simp [Endpoint.partners, hrests.carrier, Environment.partnersAfter, Intake.reactions]
  · simp [hjournal, Environment.record, Intake.reactions]

end Endpoint

/-! ## Reaching it -/

/-- A lock that nobody has or wants is free. -/
theorem WriteLock.eq_free {k : WriteLock} (h : k.parties = []) : k = {} := by
  obtain ⟨holder, waiting⟩ := k
  obtain ⟨hholder, hwaiting⟩ := List.append_eq_nil_iff.mp h
  rw [Option.toList_eq_nil_iff] at hholder
  dsimp only at hholder hwaiting
  rw [hholder, hwaiting]

namespace Endpoint

variable {e e' : Endpoint σ}

/-- Between the moves of a history nobody is forgotten, and no caller has the lock or wants it. -/
theorem History.tidy {carrier : σ} (hopen : Endpoint.open? env carrier = .ok e) {past : List Arrival}
    (history : History env e past e') : e'.link.Tidy ∧ .caller ∉ e'.link.lock.parties := by
  have hworkers : 0 < env.settings.maxWorkers := (Endpoint.eq_of_open? hopen).1.workers
  have hfresh : .caller ∉ e.link.lock.parties := by
    obtain ⟨-, rfl⟩ := Endpoint.eq_of_open? hopen
    exact List.not_mem_nil
  suffices hcount : e'.link.Tidy ∧ e'.link.lock.parties.count .caller = e.link.lock.parties.count .caller from
    ⟨hcount.1, List.count_eq_zero.mp (hcount.2.trans (List.count_eq_zero.mpr hfresh))⟩
  induction history with
  | refl => exact ⟨Endpoint.tidy_of_open? hopen, rfl⟩
  | tail _ move ih =>
    obtain ⟨htidy, hcount⟩ := ih
    obtain ⟨log, course⟩ := move.course htidy.locked
    refine ⟨htidy.course hworkers course, ?_⟩
    rw [← hcount]
    cases move with
    | call a own =>
      obtain ⟨log, acts⟩ : ∃ log, Link.Acts env _ log _ := acts_call htidy.locked own
      exact acts.count_caller hworkers htidy
    | feed d => rfl
    | arrive a => exact Link.Acts.count_caller hworkers (acts_onArrival a _) htidy
    | work => exact (htidy.onward_work hworkers).caller
    | pass ms => exact (htidy.onward_pass hworkers ms).caller

/-- A fresh endpoint has nothing to send. -/
theorem free_of_open? {carrier : σ} (hopen : Endpoint.open? env carrier = .ok e) : e.link.Free := by
  have hlocked := (Endpoint.Ordered.fresh hopen).outbox.locked
  obtain ⟨-, rfl⟩ := Endpoint.eq_of_open? hopen
  exact ⟨hlocked, ⟨rfl, fun _ => rfl⟩, rfl⟩

/-- **If nothing is to be sent, nobody has the lock**: a worker has it only with a message in its hands. -/
theorem History.free {carrier : σ} (hopen : Endpoint.open? env carrier = .ok e) {past : List Arrival}
    (history : History env e past e') (hvacant : e'.link.IsVacant) : e'.link.Free := by
  obtain ⟨htidy, hcaller⟩ := history.tidy hopen
  refine ⟨htidy.locked, hvacant.outbox, ?_⟩
  refine WriteLock.eq_free (List.eq_nil_iff_forall_not_mem.mpr fun p => ?_)
  cases p with
  | caller => exact hcaller
  | worker id =>
    rw [← List.count_eq_zero]
    have hcount := htidy.locked.parties id
    rw [hvacant.outbox.grip id] at hcount
    exact hcount

end Endpoint

end HeadLink
