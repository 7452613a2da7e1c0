import HeadLink.Proofs.Capacity
import HeadLink.Proofs.Sinks

/-!
# Sending frames to a byte sink

Frames are sent by callers and by workers, over the same transport and under the same lock. What a sink behind the
transport has been through is therefore the record of one sender after the other, each of whom had it to himself: while
somebody has the lock, nobody else calls the transport.

Of the link, little matters for that: the state of the transport and the frames that were handed to it
(`Link.dealings`). Both change only when a frame is handed over, so at every moment of every course the state of the
transport is what the frames have made of it that the journal notes (`Link.Course.carries`). A caller that has the lock
finds the sink as it has left it, however long its calls take (`Link.sends_writeEach`). And the blocks that the journal
consists of are what workers have sent, with the result that is reported.

## Contents
- **Dealings.** `Link.dealings`, and which moves of a link change them (`Link.dealings_work`).
- **Ledgers.** `Transport.Carries`: the frames that were handed over account for the state of the transport.
- **Callers.** `Link.sends_writeEach`, and what becomes of the lock.
- **Blocks.** `Block.SendsTo` and `Grip.SendsTo`: what workers have sent, and are sending.
- **Reports.** What the listener is told of a block.
- **Sending.** `sink_gets_prefix`.
-/

namespace HeadLink

variable {σ : Type} {env : Environment σ}

/-! ## Dealings -/

/-- What a link has to do with its transport. -/
structure Dealings (σ : Type) where
  carrier : σ
  handed : List Written

namespace Link

variable {l : Link σ}

/-- The state of the transport, and the frames that were handed to it. -/
def dealings (l : Link σ) : Dealings σ where
  carrier := l.carrier
  handed := l.handed

theorem dealings_record {e : Entry} (he : e.written? = none) (l : Link σ) : (l.record e).dealings = l.dealings := by
  simp [dealings, record, handed, he]

@[simp] theorem dealings_tell (l : Link σ) (n : Notice) : (l.tell n).dealings = l.dealings := dealings_record rfl l

@[simp] theorem dealings_report (l : Link σ) (s : Submission) (fault : Option Fault) :
    (l.report s fault).dealings = l.dealings := by
  cases fault with
  | none => rfl
  | some fault => exact dealings_tell l _

@[simp] theorem dealings_wake (l : Link σ) (id : Nat) : (l.wake id).dealings = l.dealings := by
  unfold wake
  split <;> rfl

@[simp] theorem dealings_suspend (l : Link σ) : l.suspend.dealings = l.dealings := rfl

@[simp] theorem dealings_setWorker (l : Link σ) (id : Nat) (w : Worker) :
    (l.setWorker id w).dealings = l.dealings := rfl

@[simp] theorem dealings_signal (l : Link σ) (id : Nat) (s : Signal) : (l.signal id s).dealings = l.dealings := by
  unfold signal
  split
  · rfl
  · dsimp only
    split <;> simp

@[simp] theorem dealings_ring (l : Link σ) : l.ring.dealings = l.dealings := by
  unfold ring
  split
  · rfl
  · exact dealings_signal _ _ _

@[simp] theorem dealings_hangUp (l : Link σ) (id : Nat) (s : Signal) : (l.hangUp id s).dealings = l.dealings := by
  cases s with
  | rung => exact dealings_ring l
  | off | kept | listening | called => rfl

@[simp] theorem dealings_release (l : Link σ) : l.release.dealings = l.dealings := by
  unfold release
  dsimp only
  split
  · exact dealings_wake _ _
  · rfl

@[simp] theorem dealings_moveOn (l : Link σ) (id : Nat) (s : Signal) : (l.moveOn id s).dealings = l.dealings := by
  simp [moveOn]

@[simp] theorem dealings_finish (l : Link σ) (id : Nat) (signal : Signal) (s : Submission) (fault : Option Fault) :
    (l.finish id signal s fault).dealings = l.dealings := by
  simp [finish]

@[simp] theorem dealings_afterCall (l : Link σ) (id : Nat) (signal : Signal) (job : Job)
    (failure : Option (List String)) : (l.afterCall id signal job failure).dealings = l.dealings := by
  cases failure <;> simp [afterCall]

theorem dealings_waitForBell (env : Environment σ) (l : Link σ) (id : Nat) (s : Signal) :
    (l.waitForBell env id s).dealings = l.dealings := by
  unfold waitForBell
  split
  · rfl
  · dsimp only
    split <;> rfl

theorem dealings_prepare (env : Environment σ) (l : Link σ) (s : Submission) :
    (l.prepare env s).1.dealings = l.dealings := by
  unfold prepare
  split <;> rfl

theorem dealings_takeOn (env : Environment σ) (l : Link σ) (id : Nat) (signal : Signal) (s : Submission) :
    (l.takeOn env id signal s).dealings = l.dealings := by
  have hprepared : ((l.record (.taken s)).prepare env s).1.dealings = l.dealings :=
    (dealings_prepare env _ s).trans (dealings_record rfl l)
  unfold takeOn
  split
  · rename_i l' fault heq
    rw [heq] at hprepared
    simpa using hprepared
  · rename_i l' job heq
    rw [heq] at hprepared
    dsimp only
    split <;> exact hprepared

theorem dealings_seek (env : Environment σ) (l : Link σ) (id : Nat) : (l.seek env id).dealings = l.dealings := by
  obtain ⟨keptRing, listeners, s, hlisten⟩ := l.exists_listen id
  unfold seek
  rw [hlisten]
  dsimp only
  split
  · rfl
  · split
    · exact dealings_waitForBell env { l with keptRing, listeners } id s
    · exact dealings_takeOn env _ id s _

/-- A worker hands over one frame at most. -/
theorem dealings_writeNext (env : Environment σ) (l : Link σ) (id : Nat) (signal : Signal) (job : Job) :
    (l.writeNext env id signal job).dealings = l.dealings
      ∨ ∃ origin f, (l.writeNext env id signal job).dealings = (l.handOver env origin f).1.dealings := by
  unfold writeNext
  split
  · exact Or.inl (dealings_finish ..)
  · rename_i f left hleft
    refine Or.inr ⟨.message job.submission.number job.message, f, ?_⟩
    dsimp only
    split
    · exact dealings_afterCall ..
    · rfl

/-- **What a worker has to do with the transport**: nothing, or it has the lock and hands over a frame. -/
theorem dealings_work (env : Environment σ) (hl : l.outbox.Locked) : (l.work env).dealings = l.dealings
    ∨ ∃ id origin f, l.lock.holder = some (.worker id)
      ∧ (l.work env).dealings = (l.handOver env origin f).1.dealings := by
  unfold work
  split
  · exact Or.inl rfl
  · rename_i id _ hready
    cases hw : l.workers.get? id with
    | none => exact Or.inl rfl
    | some w =>
      have hstage : l.stageOf id = some w.stage := congrArg (Option.map Worker.stage) hw
      dsimp only
      cases hcase : w.stage with
      | seeking => exact Or.inl (dealings_seek env l id)
      | idle deadline =>
        dsimp only [resume]
        split <;> exact Or.inl rfl
      | queueing job => exact Or.inl rfl
      | calling job ends failure => exact Or.inl (dealings_afterCall ..)
      | writing job =>
        rcases dealings_writeNext env l id w.signal job with hsame | ⟨origin, f, hhanded⟩
        · exact Or.inl hsame
        · rw [hcase] at hstage
          exact Or.inr ⟨id, origin, f, hl.holding (grip_outbox hstage) nofun, hhanded⟩

theorem dealings_wakeDue (l : Link σ) : l.wakeDue.dealings = l.dealings := by
  refine foldl_keeps ?_ l
  intro e _ l
  split
  · exact dealings_wake l e.1
  · rfl

theorem dealings_ringAll (l : Link σ) : l.ringAll.dealings = l.dealings := by
  unfold ringAll
  rw [foldl_keeps fun id _ l => dealings_signal l id .called]
  rfl

theorem dealings_shutDown (l : Link σ) : l.shutDown.dealings = l.dealings := by
  unfold shutDown
  dsimp only
  rw [dealings_ringAll]
  exact foldl_keeps (fun _ _ l => dealings_record rfl l) l

theorem dealings_submit {l' : Link σ} {x : Outbound} (accepted : l.submit env x true = (l', .ok ())) :
    l'.dealings = l.dealings := by
  obtain ⟨-, rfl⟩ := eq_of_submit accepted
  split
  · rw [dealings_ring]
    exact dealings_wake _ _
  · exact dealings_ring _

end Link

/-! ## Ledgers -/

/-- **The frames account for the state of the transport**: it is what they have made of it, one after the other, and
    each call has failed as noted. -/
def Transport.Carries (t : Transport σ) (c : σ) : List Written → σ → Prop
  | [], c' => c' = c
  | w :: ws, c' => (t.call c w.frame.encode).2.failure = w.failure ∧ t.Carries (t.call c w.frame.encode).1 ws c'

theorem Transport.carries_append {t : Transport σ} {c c' : σ} {ws ws' : List Written} :
    t.Carries c (ws ++ ws') c' ↔ ∃ m, t.Carries c ws m ∧ t.Carries m ws' c' := by
  induction ws generalizing c with
  | nil => simp [Carries]
  | cons w ws ih => simp [Carries, ih, and_assoc]

namespace Link

variable {l l' : Link σ} {log : List Outbound}

/-- A step hands over one frame at most. -/
theorem Step.dealings (step : Step env l log l') (hl : l.outbox.Locked) :
    l'.dealings = l.dealings ∨ ∃ origin f, l'.dealings = (l.handOver env origin f).1.dealings := by
  cases step with
  | work => exact (dealings_work env hl).imp id fun ⟨_, origin, f, _, hhanded⟩ => ⟨origin, f, hhanded⟩
  | pass ms => exact Or.inl (dealings_wakeDue { l with now := l.now + ms })
  | control holder type => exact Or.inr ⟨.control, _, rfl⟩
  | release holder => exact Or.inl (dealings_release l)
  | request | sessions => exact Or.inl rfl
  | tell other => exact Or.inl (dealings_tell l _)
  | submit accepted => exact Or.inl (dealings_submit accepted)
  | shutDown => exact Or.inl (dealings_shutDown l)

/-- **On every course the frames that are handed over account for the state of the transport.** -/
theorem Course.carries (course : Course env l log l') (hl : l.outbox.Locked) :
    ∃ new, l'.handed = l.handed ++ new ∧ env.transport.Carries l.carrier new l'.carrier := by
  induction course with
  | refl => exact ⟨[], (List.append_nil _).symm, rfl⟩
  | @tail log new m l' course step ih =>
    obtain ⟨before, hbefore, hcarries⟩ := ih
    rcases step.dealings (Course.locked course hl) with hsame | ⟨origin, f, hhanded⟩
    · have hcarrier : l'.carrier = m.carrier := congrArg Dealings.carrier hsame
      have hjournal : l'.handed = m.handed := congrArg Dealings.handed hsame
      exact ⟨before, hjournal.trans hbefore, hcarrier ▸ hcarries⟩
    · let w : Written := ⟨origin, f, (env.transport.call m.carrier f.encode).2.failure⟩
      have hcarrier : l'.carrier = (env.transport.call m.carrier f.encode).1 := congrArg Dealings.carrier hhanded
      have hjournal : l'.handed = m.handed ++ [w] := by
        refine (congrArg Dealings.handed hhanded).trans ?_
        simp [Link.dealings, handOver, record, handed, Entry.written?, w]
      refine ⟨before ++ [w], by rw [hjournal, hbefore, List.append_assoc], ?_⟩
      exact Transport.carries_append.mpr ⟨m.carrier, hcarries, rfl, hcarrier⟩

end Link

/-! ## Callers -/

namespace Link

variable {l : Link σ}

/-- While a caller has the lock, nobody else calls the transport. -/
theorem carrier_settle_of_caller (hl : l.outbox.Locked) (hholder : l.lock.holder = some .caller) :
    (l.settle env).carrier = l.carrier := by
  fun_induction settle env l with
  | case1 l hready => rfl
  | case2 l hready ih =>
    have hworks := work_works env l
    refine (ih (Outbox.Works.locked hworks hl) (hworks.holder_caller hl hholder)).trans ?_
    rcases dealings_work env hl with hsame | ⟨id, -, -, hworker, -⟩
    · exact congrArg Dealings.carrier hsame
    · cases hholder.symm.trans hworker

theorem carrier_sleep_of_caller (hl : l.outbox.Locked) (hholder : l.lock.holder = some .caller) (ms : Nat) :
    (l.sleep env ms).carrier = l.carrier := by
  fun_induction sleep env ms l with
  | case1 l => rfl
  | case2 n l settled skipped ih =>
    have hsettle := settle_works env l
    have hpass : Outbox.Works env settled.outbox (settled.pass (skipped + 1)).outbox :=
      wakeDue_works env { settled with now := settled.now + (skipped + 1) }
    have hworks : Outbox.Works env l.outbox (settled.pass (skipped + 1)).outbox := hsettle.trans hpass
    rw [ih (Outbox.Works.locked hworks hl) (hworks.holder_caller hl hholder)]
    exact (congrArg Dealings.carrier (dealings_wakeDue _)).trans (carrier_settle_of_caller hl hholder)

end Link

section

variable {p : SinkPlan} {env : Environment SinkState} {l : Link SinkState}

/-- **A caller that has the lock sends its frames**, and the sink gets nothing else meanwhile. -/
theorem Link.sends_writeEach (hsink : env.transport = p.transport) (frames : List Frame) (hl : l.outbox.Locked)
    (hholder : l.lock.holder = some .caller) :
    ∃ xs failure, Carriages frames xs failure ∧ (l.writeEach env frames).2 = resultOf failure
      ∧ p.Passes l.carrier xs (l.writeEach env frames).1.carrier := by
  induction frames generalizing l with
  | nil => exact ⟨[], none, .done, rfl, rfl⟩
  | cons f fs ih =>
    obtain ⟨xs, hcarriage, hpasses⟩ := p.carriage_call l.carrier f.encode
    rw [← hsink] at hcarriage hpasses
    have hhanded : (l.handOver env .control f).1.outbox.Locked := by
      rw [outbox_handOver]
      exact hl.note _
    have hworks := sleep_works env (l.handOver env .control f).2.delay (l.handOver env .control f).1
    have hkeep := hworks.holder_caller hhanded hholder
    have hslept : p.Passes l.carrier xs
        ((l.handOver env .control f).1.sleep env (l.handOver env .control f).2.delay).carrier := by
      rw [carrier_sleep_of_caller hhanded hholder]
      exact hpasses
    have hcall : (l.handOver env .control f).2 = (env.transport.call l.carrier f.encode).2 := rfl
    unfold writeEach
    dsimp only
    rw [← hcall] at hcarriage
    cases hfailure : (l.handOver env .control f).2.failure with
    | some causes =>
      rw [hfailure] at hcarriage
      exact ⟨xs, some causes, .failed hcarriage, rfl, hslept⟩
    | none =>
      rw [hfailure] at hcarriage
      obtain ⟨xs', failure, hcarriages, hresult, hrest⟩ := ih (Outbox.Works.locked hworks hhanded) hkeep
      exact ⟨xs ++ xs', failure, .carried hcarriage hcarriages, hresult, hslept.trans hrest⟩

/-- A call of the transport takes as long as the sink needs. -/
theorem SinkPlan.delay_call (p : SinkPlan) (s : SinkState) (bytes : Bytes) :
    (p.transport.call s bytes).2.delay = p.delay (p.transport.call s bytes).1 := by
  unfold transport
  dsimp only
  split
  · rfl
  · split <;> rfl

/-- Nobody can ask for the lock meanwhile if calls take no time, and nobody does if there is nothing to send. -/
theorem Link.lock_writeEach (hsink : env.transport = p.transport) (frames : List Frame)
    (h : (∀ s, p.delay s = 0) ∨ l.outbox.Vacant) : (l.writeEach env frames).1.lock = l.lock := by
  induction frames generalizing l with
  | nil => rfl
  | cons f fs ih =>
    let called := l.handOver env .control f
    have hnoted : called.1.outbox = l.outbox.note (.written .control f called.2.failure) := outbox_handOver l .control f
    have hslept : (called.1.sleep env called.2.delay).lock = l.lock
        ∧ ((∀ s, p.delay s = 0) ∨ (called.1.sleep env called.2.delay).outbox.Vacant) := by
      rcases h with hprompt | hvacant
      · have hdelay : called.2.delay = 0 := by
          have htook := p.delay_call l.carrier f.encode
          rw [hprompt, ← hsink] at htook
          exact htook
        rw [hdelay, sleep]
        exact ⟨rfl, Or.inl hprompt⟩
      · have hcalled : called.1.outbox.Vacant := by
          rw [hnoted]
          exact ⟨hvacant.queue, hvacant.grip⟩
        have hrests : called.1.Rests (called.1.sleep env called.2.delay) := rests_sleep hcalled _
        refine ⟨?_, Or.inr (hrests.outbox.vacant hcalled)⟩
        obtain ⟨ready, workers, houtbox⟩ := hrests.outbox
        exact congrArg Outbox.lock houtbox
    unfold writeEach
    dsimp only
    split
    · exact hslept.1
    · exact (ih hslept.2).trans hslept.1

/-- **What comes of a caller's sending frames**, from the moment at which it has got the lock. -/
structure Link.CallerSends (p : SinkPlan) (env : Environment SinkState) (frames : List Frame) (l : Link SinkState) :
    Prop where
  granted : (l.acquire env).lock.holder = some .caller
  /-- If nobody has the lock, the caller gets it at once. -/
  atOnce : l.lock.holder = none → (l.acquire env).carrier = l.carrier
  sends : ∃ xs, p.Sends frames (l.acquire env).carrier xs (l.write env frames).1.carrier (l.write env frames).2
  /-- However the sending ends, the lock is free after that, unless a worker has asked for it meanwhile. -/
  released : (l.write env frames).1.lock = {} ∨ ∃ id, (l.write env frames).1.lock.holder = some (.worker id)
  /-- No worker can if calls take no time, and none does if there is nothing to send. -/
  free : l.lock = {} → (∀ s, p.delay s = 0) ∨ l.IsVacant → (l.write env frames).1.lock = {}

theorem Link.Tidy.callerSends (hsink : env.transport = p.transport) (hworkers : 0 < env.settings.maxWorkers)
    (h : l.Tidy) (hcaller : .caller ∉ l.lock.parties) (frames : List Frame) : l.CallerSends p env frames := by
  obtain ⟨htidy, hholder, -⟩ := h.acquire hworkers
  have hwrite : l.write env frames
      = (((l.acquire env).writeEach env frames).1.release, ((l.acquire env).writeEach env frames).2) := by
    unfold write
    dsimp only
    rw [if_pos hholder]
  have hlock : (l.write env frames).1.lock = ((l.acquire env).writeEach env frames).1.lock.release := by
    rw [hwrite]
    exact congrArg Roster.lock (roster_release _)
  constructor
  · exact hholder
  · intro hfree
    unfold Link.acquire
    rw [if_pos hfree]
  · obtain ⟨xs, failure, hcarriages, hresult, hpasses⟩ := sends_writeEach hsink frames htidy.locked hholder
    rw [hwrite]
    dsimp only
    rw [hresult, carrier_release]
    exact ⟨xs, hcarriages.sends hpasses⟩
  · have hgone : .caller ∉ (l.write env frames).1.lock.parties := by
      rw [← List.count_eq_zero, h.count_caller_write hworkers, List.count_eq_zero]
      exact hcaller
    cases hnext : (l.write env frames).1.lock.holder with
    | none =>
      have hsound : (l.write env frames).1.lock.Sound := by
        rw [hlock]
        exact .release
      refine Or.inl (WriteLock.eq_free ?_)
      rw [WriteLock.parties, hnext, hsound hnext]
      rfl
    | some party =>
      cases party with
      | worker id => exact Or.inr ⟨id, rfl⟩
      | caller =>
        rw [WriteLock.parties_eq_cons hnext] at hgone
        exact absurd List.mem_cons_self hgone
  · intro hfree hcalm
    have hacquire : l.acquire env = { l with lock := { holder := some .caller } } := by
      unfold Link.acquire
      rw [hfree]
      rfl
    have hvacant : (∀ s, p.delay s = 0) ∨ (l.acquire env).outbox.Vacant := by
      refine hcalm.imp id fun hvacant => ?_
      rw [hacquire]
      exact ⟨hvacant.outbox.queue, hvacant.outbox.grip⟩
    rw [hlock, lock_writeEach hsink frames hvacant, hacquire]
    rfl

end

/-! ## Blocks -/

section

variable {p : SinkPlan} {env : Environment SinkState} {log : List Outbound} {s s' : SinkState}

/-- **What a sink has been through for a block**: the frames that were to be sent are written to it, and the end of the
    block is the result of that. -/
def Block.SendsTo (p : SinkPlan) (env : Environment SinkState) (s : SinkState) (xs : List Exchange) (s' : SinkState) :
    Block → Prop
  | .control f failure => p.Sends [f] s xs s' (resultOf failure)
  | .whole x message frames => x.frames? env message = .ok frames ∧ p.Sends frames s xs s' (.ok ())
  | .broken x message sent last causes => ∃ left, x.frames? env message = .ok (sent ++ last :: left)
      ∧ p.Sends (sent ++ last :: left) s xs s' (.error (.transport (.failed causes)))

/-- What a sink has been through for blocks, one after the other. -/
def SinkPlan.SendsAll (p : SinkPlan) (env : Environment SinkState) (s : SinkState) : List Block → SinkState → Prop
  | [], s' => s' = s
  | b :: blocks, s' => ∃ xs m, b.SendsTo p env s xs m ∧ p.SendsAll env m blocks s'

/-- What a sink has been through for the message in the hands of the worker that has the lock. -/
def Grip.SendsTo (p : SinkPlan) (env : Environment SinkState) (s : SinkState) (xs : List Exchange) (s' : SinkState)
    (g : Grip) : Prop :=
  match g.hold with
  | .waiting => p.Sends [] s xs s' (.ok ())
  | .writing => ∃ sent, g.job.submission.frames? env g.job.message = .ok (sent ++ g.job.left)
      ∧ p.Sends sent s xs s' (.ok ())
  | .failed causes => ∃ sent last, g.job.submission.frames? env g.job.message = .ok (sent ++ last :: g.job.left)
      ∧ p.Sends (sent ++ last :: g.job.left) s xs s' (.error (.transport (.failed causes)))

namespace Transport.Carries

variable {x : Submission} {message : UInt32} {sent : List Frame} {last : Frame} {origin : Origin} {causes : List String}

/-- Frames that were handed over without failure are sent. -/
theorem carried (h : p.transport.Carries s (x.sent message sent) s') :
    ∃ xs, Carriages sent xs none ∧ p.Passes s xs s' := by
  induction sent generalizing s with
  | nil => exact ⟨[], .done, h⟩
  | cons f fs ih =>
    obtain ⟨hfailure, hrest⟩ := h
    obtain ⟨xs, hcarriage, hpasses⟩ := p.carriage_call s f.encode
    obtain ⟨xs', hcarriages, hpasses'⟩ := ih hrest
    rw [hfailure] at hcarriage
    exact ⟨xs ++ xs', .carried hcarriage hcarriages, hpasses.trans hpasses'⟩

/-- If a frame fails after them, the sending ends there, whatever else is left. -/
theorem failing (h : p.transport.Carries s (x.sent message sent ++ [⟨origin, last, some causes⟩]) s')
    (left : List Frame) : ∃ xs, Carriages (sent ++ last :: left) xs (some causes) ∧ p.Passes s xs s' := by
  obtain ⟨m, hsent, hfailure, hlast⟩ := Transport.carries_append.mp h
  obtain ⟨xs, hcarriages, hpasses⟩ := carried hsent
  obtain ⟨xs', hcarriage, hpasses'⟩ := p.carriage_call m last.encode
  rw [hfailure] at hcarriage
  cases hlast
  exact ⟨xs ++ xs', hcarriages.append rfl (.failed hcarriage), hpasses.trans hpasses'⟩

end Transport.Carries

theorem Block.Good.sendsTo {b : Block} (h : b.Good env Frame.OfControl log)
    (hcarries : p.transport.Carries s b.written s') : ∃ xs, b.SendsTo p env s xs s' := by
  cases b with
  | control f failure =>
    obtain ⟨hfailure, hlast⟩ := hcarries
    obtain ⟨xs, hcarriage, hpasses⟩ := p.carriage_call s f.encode
    rw [hfailure] at hcarriage
    cases hlast
    dsimp only at hcarriage
    cases failure with
    | none =>
      have hcarriages : Carriages [f] (xs ++ []) none := .carried hcarriage .done
      rw [List.append_nil] at hcarriages
      exact ⟨xs, hcarriages.sends hpasses⟩
    | some causes => exact ⟨xs, Carriages.sends (.failed hcarriage) hpasses⟩
  | whole x message frames =>
    obtain ⟨xs, hcarriages, hpasses⟩ := hcarries.carried
    exact ⟨xs, h.2, hcarriages.sends hpasses⟩
  | broken x message sent last causes =>
    obtain ⟨-, -, left, hframes⟩ := h
    obtain ⟨xs, hcarriages, hpasses⟩ := hcarries.failing left
    exact ⟨xs, left, hframes, hcarriages.sends hpasses⟩

theorem SinkPlan.sendsAll {blocks : List Block} (hgood : ∀ b ∈ blocks, b.Good env Frame.OfControl log)
    (hcarries : p.transport.Carries s (blocks.flatMap Block.written) s') : p.SendsAll env s blocks s' := by
  induction blocks generalizing s with
  | nil => exact hcarries
  | cons b blocks ih =>
    rw [List.flatMap_cons] at hcarries
    obtain ⟨m, hfirst, hrest⟩ := Transport.carries_append.mp hcarries
    obtain ⟨xs, hsends⟩ := (hgood b List.mem_cons_self).sendsTo hfirst
    exact ⟨xs, m, hsends, ih (fun b' hb' => hgood b' (List.mem_cons_of_mem b hb')) hrest⟩

theorem Grip.Wrote.sendsTo {g : Grip} {written : List Written} (h : g.Wrote env written)
    (hcarries : p.transport.Carries s written s') : ∃ xs, g.SendsTo p env s xs s' := by
  obtain ⟨job, hold⟩ := g
  cases hold with
  | waiting =>
    obtain ⟨rfl, -⟩ := h
    exact ⟨[], Carriages.sends .done hcarries⟩
  | writing =>
    obtain ⟨sent, rfl, hframes⟩ := h
    obtain ⟨xs, hcarriages, hpasses⟩ := hcarries.carried
    exact ⟨xs, sent, hframes, hcarriages.sends hpasses⟩
  | failed causes =>
    obtain ⟨sent, last, rfl, -, hframes⟩ := h
    obtain ⟨xs, hcarriages, hpasses⟩ := hcarries.failing job.left
    exact ⟨xs, sent, last, hframes, hcarriages.sends hpasses⟩

end

/-! ## Reports -/

namespace Outbox

variable {σ : Type} {env : Environment σ} {allowed : Frame → Prop} {log : List Outbound} {blocks : List Block}
  {o : Outbox} {b b' : Block} {x : Submission} {message : UInt32} {n : Nat}

/-- There is one block of a message at most. -/
theorem Traced.eq_of_number (h : Traced env allowed log blocks o) (hb : b ∈ blocks) (hb' : b' ∈ blocks)
    (hn : b.number? = some n) (hn' : b'.number? = some n) : b = b' := by
  have hnodup : (blocks.filterMap Block.number?).Nodup := (List.nodup_append.mp h.apart.nodup).2.1
  have hpairwise := List.pairwise_filterMap.mp hnodup
  by_contra hne
  have : Std.Symm fun b b' : Block => ∀ n, b.number? = some n → ∀ n', b'.number? = some n' → n ≠ n' :=
    ⟨fun b b' hbb' n hn n' hn' heq => hbb' n' hn' n hn heq.symm⟩
  exact hpairwise.forall hb hb' hne n hn n hn' rfl

/-- What was handed over for a message of which there is a block is in that block. -/
theorem Traced.mem_written (h : Traced env allowed log blocks o) (hl : o.Locked) (hb : b ∈ blocks)
    (hn : b.number? = some n) {w : Written} (hw : w ∈ o.handed) (horigin : w.origin = .message n message) :
    w ∈ b.written := by
  obtain ⟨current, hhanded, hcurrent⟩ := h.written
  rw [hhanded] at hw
  rcases List.mem_append.mp hw with hw | hw
  · obtain ⟨b', hb', hw⟩ := List.mem_flatMap.mp hw
    rwa [h.eq_of_number hb hb' hn (number_of_mem_written hw horigin)]
  · by_cases hholder : ∃ id, o.lock.holder = some (.worker id)
    · obtain ⟨id, hid⟩ := hholder
      obtain ⟨g, hg⟩ := hl.exists_grip hid
      have hsame := (mem_frames_of_wrote (hcurrent.worker hid hg) hw).1.symm.trans horigin
      obtain ⟨rfl, -⟩ := Origin.message.inj hsame
      exact absurd (List.mem_append_right _ (List.mem_filterMap.mpr ⟨b, hb, hn⟩)) (h.apart.not_mem (numbers_of_grip hg))
    · rw [not_exists] at hholder
      rw [hcurrent.other hholder] at hw
      cases hw

/-- A message of which there is a block has ended. -/
theorem Accounted.exists_ends (h : Accounted env allowed log o) (htraced : Traced env allowed log blocks o)
    (hb : b ∈ blocks) (hn : b.number? = some x.number) (hx : x.Logged log) :
    ∃ ending, x.Ends env ending (o.account x.number) := by
  have hdone : x.number ∈ blocks.filterMap Block.number? := List.mem_filterMap.mpr ⟨b, hb, hn⟩
  obtain ⟨p, hp⟩ := h.situated x hx
  cases p with
  | queued =>
    have hqueued : x.number ∈ o.queue.map Submission.number := List.mem_map_of_mem hp.1
    exact absurd rfl ((List.nodup_append.mp htraced.apart.nodup).2.2 _ hqueued _ hdone)
  | held =>
    obtain ⟨id, g, hg, rfl, -⟩ := hp
    exact absurd (List.mem_append_right _ hdone) (htraced.apart.not_mem (numbers_of_grip hg))
  | ended ending => exact ⟨ending, hp.2.2⟩

theorem mem_account_of_handed {w : Written} (hw : w ∈ o.handed) (horigin : w.origin = .message n message) :
    w.entry ∈ o.account n := by
  obtain ⟨entry, hentry, hwritten⟩ := List.mem_filterMap.mp hw
  cases entry with
  | written origin frame failure =>
    cases hwritten
    obtain rfl : origin = .message n message := horigin
    exact List.mem_filter.mpr ⟨hentry, decide_eq_true rfl⟩
  | told | taken | dropped => cases hwritten

theorem Traced.mem_handed (h : Traced env allowed log blocks o) (hb : b ∈ blocks) {w : Written} (hw : w ∈ b.written) :
    w ∈ o.handed := by
  obtain ⟨current, hhanded, -⟩ := h.written
  rw [hhanded]
  exact List.mem_append_left _ (List.mem_flatMap.mpr ⟨b, hb, hw⟩)

/-- **If a frame of a message has failed, the listener is told so**, and why. -/
theorem Accounted.told_of_broken (h : Accounted env allowed log o) (htraced : Traced env allowed log blocks o)
    {sent : List Frame} {last : Frame} {causes : List String} (hb : .broken x message sent last causes ∈ blocks) :
    .told (.fault (.sending x) (.transport (.failed causes))) ∈ o.journal := by
  obtain ⟨hx, -⟩ := htraced.good _ hb
  obtain ⟨ending, hends⟩ := h.exists_ends htraced hb rfl hx
  have hfailed : (Entry.written (.message x.number message) last (some causes)) ∈ o.account x.number :=
    mem_account_of_handed (htraced.mem_handed hb (List.mem_append_right _ (List.mem_singleton_self _))) rfl
  suffices htold : .told (.fault (.sending x) (.transport (.failed causes))) ∈ o.account x.number from
    (List.mem_filter.mp htold).1
  generalize o.account x.number = entries at hends hfailed
  cases hends with
  | written split => simp [Submission.sent, Written.entry] at hfailed
  | failed split =>
    simp only [List.map_append, List.cons_append, List.mem_cons, List.mem_append] at hfailed ⊢
    simp [Submission.sent, Written.entry] at hfailed
    simp [hfailed]
  | refused why => simp at hfailed
  | dropped => simp at hfailed

/-- **If all frames of a message are sent, no failure is reported.** -/
theorem Accounted.not_told_of_whole (h : Accounted env allowed log o) (htraced : Traced env allowed log blocks o)
    {frames : List Frame} (hb : .whole x message frames ∈ blocks) (fault : Fault) :
    .told (.fault (.sending x) fault) ∉ o.journal := by
  intro hjournal
  obtain ⟨hx, hframes⟩ := htraced.good _ hb
  obtain ⟨ending, hends⟩ := h.exists_ends htraced hb rfl hx
  have htold : .told (.fault (.sending x) fault) ∈ o.account x.number :=
    List.mem_filter.mpr ⟨hjournal, decide_eq_true rfl⟩
  generalize haccount : o.account x.number = entries at hends htold
  cases hends with
  | written split => simp [Submission.sent, Written.entry] at htold
  | @failed message' frames' left last causes split =>
    -- the frame that has failed would be in the block
    have hfailed : Entry.written (.message x.number message') last (some causes) ∈ o.account x.number := by
      rw [haccount]
      simp [Written.entry]
    have hhanded : ⟨.message x.number message', last, some causes⟩ ∈ o.handed :=
      List.mem_filterMap.mpr ⟨_, (List.mem_filter.mp hfailed).1, rfl⟩
    have hwritten := htraced.mem_written h.locked hb rfl hhanded rfl
    obtain ⟨f, -, hf⟩ := List.mem_map.mp hwritten
    cases hf
  | refused why =>
    -- there would be no frame
    obtain ⟨f, rest, rfl, -⟩ := Envelope.segments_eq_cons hframes
    have hhanded := mem_account_of_handed (htraced.mem_handed hb List.mem_cons_self) rfl
    rw [haccount] at hhanded
    simp [Written.entry] at hhanded
  | dropped => simp at htold

end Outbox

/-! ## Sending -/

/-- **What a sink has been through at some moment**: the blocks that workers and callers have sent, one after the other,
    and what the worker that has the lock has sent so far. -/
structure Link.Transmits (p : SinkPlan) (env : Environment SinkState) (s : SinkState) (log : List Outbound)
    (blocks : List Block) (l : Link SinkState) : Prop where
  /-- The blocks are what the journal says of frames that were handed over. -/
  handed : ∃ current, l.handed = blocks.flatMap Block.written ++ current
  good : ∀ b ∈ blocks, b.Good env Frame.OfControl log
  sent : ∃ m, p.SendsAll env s blocks m
    ∧ (((∀ id, l.lock.holder ≠ some (.worker id)) ∧ l.carrier = m)
      ∨ ∃ id g xs, l.lock.holder = some (.worker id) ∧ l.outbox.grip id = some g ∧ g.SendsTo p env m xs l.carrier)
  /-- Nobody has the lock any more for a message that was sent, or waits for it. -/
  released : ∀ b ∈ blocks, ∀ id g, l.outbox.grip id = some g → b.number? ≠ some g.job.submission.number
  /-- If the sending of a message has failed, the listener is told why, and otherwise it is told nothing. -/
  told : ∀ x message sent last causes, .broken x message sent last causes ∈ blocks →
    .told (.fault (.sending x) (.transport (.failed causes))) ∈ l.journal.toList
  not_told : ∀ x message frames, .whole x message frames ∈ blocks → ∀ fault,
    .told (.fault (.sending x) fault) ∉ l.journal.toList

theorem Link.Course.transmits {p : SinkPlan} {env : Environment SinkState} {s : SinkState} {e : Endpoint SinkState}
    {log : List Outbound} {l : Link SinkState} (hsink : env.transport = p.transport)
    (hopen : Endpoint.open? env s = .ok e) (course : Link.Course env e.link log l) :
    ∃ blocks, l.Transmits p env s log blocks := by
  obtain ⟨hlocked, hblank⟩ := Endpoint.blank_of_open? hopen
  obtain ⟨hl, blocks, htraced⟩ := Link.Course.traced course hlocked hblank
  have haccounted := (Link.Course.accounted course (Endpoint.accounted_of_open? hopen)).1
  obtain ⟨new, hnew, hcarries⟩ := Link.Course.carries course hlocked
  obtain ⟨current, hhanded, hcurrent⟩ := htraced.written
  have hfresh : e.link.handed = [] ∧ e.link.carrier = s := by
    obtain ⟨-, rfl⟩ := Endpoint.eq_of_open? hopen
    exact ⟨rfl, rfl⟩
  rw [List.nil_append] at htraced hhanded haccounted
  have hwritten : new = blocks.flatMap Block.written ++ current := by
    rw [hfresh.1, List.nil_append] at hnew
    exact hnew.symm.trans hhanded
  rw [hsink, hfresh.2, hwritten] at hcarries
  obtain ⟨m, hblocks, hrest⟩ := Transport.carries_append.mp hcarries
  refine ⟨blocks, ⟨current, hhanded⟩, htraced.good, ⟨m, SinkPlan.sendsAll htraced.good hblocks, ?_⟩, ?_, ?_, ?_⟩
  · by_cases hholder : ∃ id, l.lock.holder = some (.worker id)
    · obtain ⟨id, hid⟩ := hholder
      obtain ⟨g, hg⟩ := hl.exists_grip hid
      obtain ⟨xs, hsends⟩ := (hcurrent.worker hid hg).sendsTo hrest
      exact Or.inr ⟨id, g, xs, hid, hg, hsends⟩
    · rw [not_exists] at hholder
      rw [hcurrent.other hholder] at hrest
      exact Or.inl ⟨hholder, hrest⟩
  · intro b hb id g hg hnumber
    exact htraced.apart.not_mem (Outbox.numbers_of_grip hg)
      (List.mem_append_right _ (List.mem_filterMap.mpr ⟨b, hb, hnumber⟩))
  · exact fun _ _ _ _ _ hb => haccounted.told_of_broken htraced hb
  · exact fun _ _ _ hb => haccounted.not_told_of_whole htraced hb

/-- **The sink gets a prefix, and the sender is told truthfully whether it is everything.** Whatever the sink does,
    and whatever has happened before: a caller that sends frames gets the lock, sends them up to the first one that is
    not carried over, and gives the lock back; and all that workers have sent are the frames of messages, each of which
    is sent in the same way. -/
theorem sink_gets_prefix {p : SinkPlan} {env : Environment SinkState} {s : SinkState} {e : Endpoint SinkState}
    (hsink : env.transport = p.transport) (hopen : Endpoint.open? env s = .ok e) :
    (∀ past e', Endpoint.History env e past e' →
        (∀ frames, e'.link.CallerSends p env frames) ∧ ∃ log, Link.Course env e.link log e'.link)
      ∧ ∀ log l, Link.Course env e.link log l → ∃ blocks, l.Transmits p env s log blocks := by
  have hworkers : 0 < env.settings.maxWorkers := (Endpoint.eq_of_open? hopen).1.workers
  have hlocked := (Endpoint.tidy_of_open? hopen).locked
  constructor
  · intro past e' history
    obtain ⟨htidy, hcaller⟩ := history.tidy hopen
    exact ⟨fun frames => htidy.callerSends hsink hworkers hcaller frames, history.course hlocked⟩
  · exact fun log l course => Link.Course.transmits hsink hopen course

/-- A sink that takes 7 bytes at a time, needs 3 milliseconds for each frame, fails the fifth flush, and is closed when
    it has taken 130 bytes. -/
def narrow : SinkPlan :=
  { SinkPlan.bounded 7 (some (130, "reset")) (some (4, "full")) with delay := fun _ => 3 }

/-- Two workers and the caller over that sink. -/
def straits : Environment SinkState where
  settings := { mtu := 20, maxWorkers := 2 }
  transport := narrow.transport

/-- The second message breaks off at a frame that the sink has got in full. Then a caller sends two frames, of which the
    sink gets the first one and a part of the second. -/
theorem sink_gets_prefix_narrow :
    let frames := [.control 2 .nav 1 .startService, .control 2 .audio 1 .startService]
    ∃ e, Endpoint.open? straits {} = .ok e ∧
      let l := (e.run straits crowd).1.link
      l.handed.map Written.failure = [none, none, none, none, some ["flushing frame", "full"], none]
        ∧ l.carrier.taken.size = 112
        ∧ (l.write straits frames).2 = .error (.transport (.failed ["writing frame", "reset"]))
        ∧ (l.write straits frames).1.carrier.taken.size = 131
        ∧ l.CallerSends narrow straits frames
        ∧ ∃ log blocks, l.Transmits narrow straits {} log blocks := by
  intro frames
  have hopen : Endpoint.open? straits {} = .ok _ := rfl
  obtain ⟨hcallers, hcourses⟩ := sink_gets_prefix rfl hopen
  obtain ⟨hsends, log, course⟩ := hcallers _ _ (Endpoint.history_run crowd _)
  obtain ⟨blocks, htransmits⟩ := hcourses log _ course
  exact ⟨_, rfl, by decide +kernel, by decide +kernel, by decide +kernel, by decide +kernel, hsends frames, log, blocks,
    htransmits⟩

end HeadLink
