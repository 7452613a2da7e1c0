import HeadLink.Link.Caller
import HeadLink.Proofs.Outbox

/-!
# Links step as outboxes do

Every step of a worker, every wait of the caller and every call of `Link.write` is a sequence of steps of
the outbox. What is shown for all steps of an outbox therefore holds for links, with no more about clocks,
bells and signals.

## Contents
- **Small moves.** The outbox after a note, after a worker was replaced, after the lock was passed on.
- **The bell.** `Outbox.Roused`: bells only rouse workers without a message.
- **Workers.** `Link.work_works`, by the stage of the worker whose turn it is.
- **The caller.** Waiting (`Link.settle_works`, `Link.sleep_works`) and writing (`Link.write_steps`);
  submissions (`Link.submit_cases`) and the end of a link (`Link.shutDown_roused`).
-/

namespace HeadLink

variable {σ : Type} {env : Environment σ}

/-! ## Small moves -/

namespace Link

theorem grip_outbox {l : Link σ} {id : Nat} {stage : Stage} (h : l.stageOf id = some stage) :
    l.outbox.grip id = stage.grip := by
  show (l.stageOf id).bind Stage.grip = _
  rw [h]
  rfl

theorem outbox_record (l : Link σ) (e : Entry) : (l.record e).outbox = l.outbox.note e := by
  unfold outbox Outbox.note record
  rw [Array.toList_push]
  rfl

theorem outbox_report_some (l : Link σ) (s : Submission) (fault : Fault) :
    (l.report s (some fault)).outbox = l.outbox.note (.told (.fault (.sending s) fault)) :=
  l.outbox_record _

theorem outbox_wake (l : Link σ) (id : Nat) :
    (l.wake id).outbox = { l.outbox with ready := Outbox.rouse id l.ready } := by
  unfold wake Outbox.rouse
  split <;> rfl

theorem outbox_setWorker {l : Link σ} {id : Nat} {stage : Stage} (h : l.stageOf id = some stage)
    (w : Worker) : (l.setWorker id w).outbox = l.outbox.setGrip id w.stage.grip := by
  obtain ⟨old, hold, -⟩ := Option.map_eq_some_iff.mp h
  -- of the fields of an outbox, only what workers have in their hands looks at the table
  have hgrip : (fun id' => ((l.setWorker id w).stageOf id').bind Stage.grip)
      = Function.update l.outbox.grip id w.stage.grip := by
    funext id'
    show (((l.workers.insert id w).get? id').map Worker.stage).bind Stage.grip = _
    rw [Table.get?_insert]
    by_cases hne : id' = id
    · rw [hne, if_pos rfl, Function.update_self]
      rfl
    · rw [if_neg hne, Function.update_of_ne hne]
      rfl
  have hworkers : {id' | ∃ w', (l.setWorker id w).workers.get? id' = some w'} = l.outbox.workers := by
    ext id'
    show (∃ w', (l.workers.insert id w).get? id' = some w') ↔ ∃ w', l.workers.get? id' = some w'
    rw [Table.get?_insert]
    by_cases hne : id' = id
    · rw [hne, if_pos rfl, hold]
      exact ⟨fun _ => ⟨old, rfl⟩, fun _ => ⟨w, rfl⟩⟩
    · rw [if_neg hne]
  unfold outbox Outbox.setGrip
  rw [hgrip, hworkers]
  rfl

/-- A worker may be replaced by one with the same message in its hands. -/
theorem outbox_setWorker_same {l : Link σ} {id : Nat} {stage : Stage} (h : l.stageOf id = some stage)
    {w : Worker} (hgrip : w.stage.grip = stage.grip) : (l.setWorker id w).outbox = l.outbox := by
  rw [outbox_setWorker h, hgrip, ← grip_outbox h]
  unfold Outbox.setGrip
  rw [Function.update_eq_self]

theorem outbox_release (l : Link σ) : l.release.outbox = l.outbox.release := by
  unfold release Outbox.release
  dsimp only
  split
  · rename_i id hid
    rw [outbox_wake, Outbox.readyAfterRelease_of_worker (o := l.outbox) hid]
    rfl
  · rename_i hother
    rw [Outbox.readyAfterRelease_of_not_worker (o := l.outbox) hother]
    rfl

theorem outbox_handOver (l : Link σ) (origin : Origin) (f : Frame) :
    (l.handOver env origin f).1.outbox
      = l.outbox.note (.written origin f (l.handOver env origin f).2.failure) :=
  outbox_record { l with carrier := (env.transport.call l.carrier f.encode).1 } _

end Link

/-! ## The bell -/

namespace Outbox

/-- Only the line of those that run next differs, and nobody has joined it who has a message. -/
def Roused (o o' : Outbox) : Prop :=
  ∃ ready, o' = { o with ready } ∧ (o.ready.Nodup → ready.Nodup)
    ∧ ∀ id ∈ ready, id ∈ o.ready ∨ o.grip id = none

theorem Roused.refl (o : Outbox) : o.Roused o :=
  ⟨o.ready, rfl, id, fun _ => Or.inl⟩

theorem Roused.trans {o₁ o₂ o₃ : Outbox} (h₁ : o₁.Roused o₂) (h₂ : o₂.Roused o₃) : o₁.Roused o₃ := by
  obtain ⟨ready, rfl, hnodup, hready⟩ := h₁
  obtain ⟨ready', rfl, hnodup', hready'⟩ := h₂
  refine ⟨ready', rfl, hnodup' ∘ hnodup, ?_⟩
  intro id hid
  rcases hready' id hid with hid | hid
  · exact hready id hid
  · exact Or.inr hid

theorem Roused.work {o o' : Outbox} (h : o.Roused o') : Work env o o' := by
  obtain ⟨ready, rfl, hnodup, hready⟩ := h
  refine .rest ready o.workers (Set.Subset.refl _) hnodup ?_
  intro id hid
  rcases hready id hid with hid | hnone
  · exact Or.inl hid
  · refine Or.inr fun g hg => ?_
    rw [hnone] at hg
    cases hg

/-- It makes no difference if a worker lets go of its message first. -/
theorem Roused.setGrip_none {o o' : Outbox} (h : o.Roused o') (id : Nat) :
    (o.setGrip id none).Roused (o'.setGrip id none) := by
  obtain ⟨ready, rfl, hnodup, hready⟩ := h
  refine ⟨ready, rfl, hnodup, ?_⟩
  intro id' hid'
  apply (hready id' hid').imp_right
  intro hnone
  show Function.update o.grip id none id' = none
  by_cases hne : id' = id
  · rw [hne, Function.update_self]
  · rw [Function.update_of_ne hne, hnone]

end Outbox

namespace Link

theorem wake_roused (l : Link σ) {id : Nat} (h : l.outbox.grip id = none) :
    l.outbox.Roused (l.wake id).outbox := by
  refine ⟨Outbox.rouse id l.ready, outbox_wake l id, fun hn => Outbox.nodup_rouse hn id, ?_⟩
  intro id' hid'
  rcases Outbox.mem_rouse.mp hid' with hid' | rfl
  · exact Or.inl hid'
  · exact Or.inr h

theorem signal_roused (l : Link σ) (id : Nat) (s : Signal) :
    l.outbox.Roused (l.signal id s).outbox := by
  unfold signal
  cases hw : l.workers.get? id with
  | none => exact .refl _
  | some w =>
    have hstage : l.stageOf id = some w.stage := congrArg (Option.map Worker.stage) hw
    have hset : (l.setWorker id { w with signal := s }).outbox = l.outbox :=
      outbox_setWorker_same hstage rfl
    dsimp only
    split
    · rename_i deadline hidle
      have hidle : (l.setWorker id { w with signal := s }).outbox.grip id = none := by
        rw [hset, grip_outbox hstage, hidle]
        rfl
      exact hset ▸ wake_roused _ hidle
    · rw [hset]
      exact .refl _

theorem ring_roused (l : Link σ) : l.outbox.Roused l.ring.outbox := by
  unfold ring
  split
  · exact .refl _
  · exact signal_roused { l with listeners := _ } _ _

theorem hangUp_roused (l : Link σ) (id : Nat) (s : Signal) :
    l.outbox.Roused (l.hangUp id s).outbox := by
  cases s with
  | rung => exact ring_roused l
  | off | kept | listening | called => exact .refl _

theorem ringAll_roused (l : Link σ) : l.outbox.Roused l.ringAll.outbox := by
  unfold ringAll
  have hfold : ∀ (ids : List Nat) (l : Link σ),
      l.outbox.Roused (ids.foldl (fun l id => l.signal id .called) l).outbox := by
    intro ids
    induction ids with
    | nil => exact fun l => .refl _
    | cons id ids ih => exact fun l => (signal_roused l id .called).trans (ih _)
  exact hfold l.listeners { l with listeners := [] }

end Link

/-! ## Workers -/

namespace Outbox

theorem setGrip_setGrip (o : Outbox) (id : Nat) (g g' : Option Grip) :
    (o.setGrip id g).setGrip id g' = o.setGrip id g' := by
  unfold setGrip
  rw [Function.update_idem]

end Outbox

namespace Link

variable {l : Link σ} {id : Nat}

theorem suspend_step (l : Link σ) : Outbox.Work env l.outbox l.suspend.outbox :=
  .rest l.ready.tail l.outbox.workers (Set.Subset.refl _)
    (fun h => h.sublist (List.tail_sublist _)) fun _ hid => Or.inl (List.mem_of_mem_tail hid)

/-- A worker without a message ends. -/
theorem leave_step (h : l.outbox.grip id = none) :
    Outbox.Work env l.outbox (l.leave id).outbox := by
  have hgrip : (l.leave id).outbox.grip = l.outbox.grip := by
    funext id'
    show (((l.workers.erase id).get? id').map Worker.stage).bind Stage.grip = _
    rw [Table.get?_erase]
    by_cases hne : id' = id
    · rw [if_pos hne, hne, h]
      rfl
    · rw [if_neg hne]
      rfl
  have hsub : (l.leave id).outbox.workers ⊆ l.outbox.workers := by
    rintro id' ⟨w, hw⟩
    have hw' : (l.workers.erase id).get? id' = some w := hw
    rw [Table.get?_erase] at hw'
    split at hw'
    · cases hw'
    · exact ⟨w, hw'⟩
  have hleave : (l.leave id).outbox
      = { l.outbox with ready := l.ready.tail, workers := (l.leave id).outbox.workers } :=
    congrArg (fun grip => ({ l.outbox with
      ready := l.ready.tail, workers := (l.leave id).outbox.workers, grip } : Outbox)) hgrip
  rw [hleave]
  exact .rest _ _ hsub (fun hn => hn.sublist (List.tail_sublist _))
    fun _ hid => Or.inl (List.mem_of_mem_tail hid)

/-- A worker without work waits for the bell, or ends. -/
theorem waitForBell_works (h : l.stageOf id = some .seeking) (s : Signal) :
    Outbox.Works env l.outbox (l.waitForBell env id s).outbox := by
  unfold waitForBell
  split
  · exact .single (leave_step (grip_outbox h))
  · have hset := outbox_setWorker_same (l := { l with idleCount := l.idleCount + 1 }) h
      (w := { signal := s, stage := .idle (l.now + env.settings.idleTimeout) }) rfl
    dsimp only
    split
    · have hstep : Outbox.Work env _ _ :=
        suspend_step ({ l with idleCount := l.idleCount + 1 }.setWorker id
          { signal := s, stage := .idle (l.now + env.settings.idleTimeout) })
      rw [hset] at hstep
      exact .single hstep
    · rw [hset]
      exact .refl

/-- An idle worker goes on, or ends. -/
theorem resume_works {deadline : Nat} (h : l.stageOf id = some (.idle deadline)) (s : Signal) :
    Outbox.Works env l.outbox (l.resume env id s).outbox := by
  unfold resume
  dsimp only
  split
  · have hstep : Outbox.Work env ({ l with idleCount := l.idleCount - 1 } : Link σ).outbox _ :=
      leave_step (grip_outbox (l := { l with idleCount := l.idleCount - 1 }) h)
    exact .single hstep
  · have hset := outbox_setWorker_same
      (l := { l with idleCount := l.idleCount - 1, listeners := l.listeners.erase id }) h
      (w := {}) rfl
    rw [hset]
    exact .refl

theorem prepare_eq (l : Link σ) (s : Submission) :
    l.prepare env s = ({ l with lastMessage := l.outbox.idAfter s }, l.outbox.prepared env s) := by
  have hsessions : l.outbox.sessions = l.sessions := rfl
  unfold prepare Outbox.idAfter Outbox.prepared
  rw [hsessions]
  cases l.sessions.requireStarted s.session <;> rfl

/-- A submission leaves the queue and is prepared. -/
theorem outbox_take (l : Link σ) (s : Submission) (queue : List Submission) :
    ({ ({ l with queue } : Link σ).record (.taken s) with
        lastMessage := l.outbox.idAfter s } : Link σ).outbox = l.outbox.take s queue := by
  show { (({ l with queue } : Link σ).record (.taken s)).outbox with
    lastMessage := l.outbox.idAfter s } = _
  rw [outbox_record]
  rfl

/-- Letting go of a message passes the lock on; whatever bells ring then rouses only workers without a
    message. -/
theorem finish_roused {stage : Stage} (h : l.stageOf id = some stage) (signal : Signal) (s : Submission)
    (fault : Option Fault) :
    ((l.release.report s fault).outbox.setGrip id none).Roused (l.finish id signal s fault).outbox := by
  have hstage : ((l.release.report s fault).hangUp id signal).stageOf id = some stage := by
    rw [stageOf_hangUp, stageOf_report, stageOf_release, h]
  unfold finish moveOn
  rw [outbox_setWorker hstage]
  exact (hangUp_roused _ id signal).setGrip_none id

/-- A worker takes the submission at the front of the queue. -/
theorem takeOn_works (h : l.stageOf id = some .seeking) (hturn : l.ready.head? = some id)
    {s : Submission} {queue : List Submission} (hqueue : l.queue = s :: queue) (signal : Signal) :
    Outbox.Works env l.outbox (({ l with queue } : Link σ).takeOn env id signal s).outbox := by
  have hprepare : (({ l with queue } : Link σ).record (.taken s)).prepare env s
      = ({ ({ l with queue } : Link σ).record (.taken s) with lastMessage := l.outbox.idAfter s },
        l.outbox.prepared env s) := prepare_eq _ s
  have htake := outbox_take l s queue
  unfold takeOn
  rw [hprepare]
  generalize hl' : ({ ({ l with queue } : Link σ).record (.taken s) with
    lastMessage := l.outbox.idAfter s } : Link σ) = l' at htake
  have hstage : l'.stageOf id = some .seeking := by
    rw [← hl']
    exact h
  cases hprepared : l.outbox.prepared env s with
  | error fault =>
    -- the worker stays without a message; the bell that it hangs up may rouse another one
    have hrefuse : Outbox.Work env l.outbox (l'.report s (some fault)).outbox := by
      rw [outbox_report_some, htake]
      exact .refuse hqueue hprepared
    have hafter : ((l'.report s (some fault)).hangUp id signal).stageOf id = some .seeking := by
      rw [stageOf_hangUp, stageOf_report, hstage]
    dsimp only
    unfold moveOn
    rw [outbox_setWorker_same hafter rfl]
    exact (Relation.ReflTransGen.single hrefuse).tail (hangUp_roused _ id signal).work
  | ok job =>
    -- whether the lock is free decides both for the link and for the outbox
    have hstep : Outbox.Work env l.outbox ((l.outbox.take s queue).startJob id job) := by
      obtain ⟨w, hw, -⟩ := Option.map_eq_some_iff.mp h
      exact .takeOn hturn ⟨w, hw⟩ (grip_outbox h) hqueue hprepared
    rw [← htake] at hstep
    have hrequested : ({ l' with lock := l'.lock.request (.worker id) } : Link σ).stageOf id
        = some .seeking := hstage
    refine .single ?_
    dsimp only
    split
    · rename_i hfree
      rw [Outbox.startJob, if_pos (show l'.outbox.lock.holder = none from hfree)] at hstep
      rw [outbox_setWorker hrequested]
      exact hstep
    · rename_i hbusy
      rw [Outbox.startJob, if_neg (show ¬ l'.outbox.lock.holder = none from hbusy)] at hstep
      show Outbox.Work env l.outbox { ({ l' with
        lock := l'.lock.request (.worker id) }.setWorker id
          { signal, stage := .queueing job } : Link σ).outbox with ready := l'.ready.tail }
      rw [outbox_setWorker hrequested]
      exact hstep

/-- Listening changes nothing that an outbox shows. -/
theorem exists_listen (l : Link σ) (id : Nat) :
    ∃ keptRing listeners s, l.listen id = ({ l with keptRing, listeners }, s) := by
  unfold listen
  split
  · exact ⟨_, _, _, rfl⟩
  · exact ⟨_, _, _, rfl⟩

/-- A worker looks for a message. -/
theorem seek_works (h : l.stageOf id = some .seeking) (hturn : l.ready.head? = some id) :
    Outbox.Works env l.outbox (l.seek env id).outbox := by
  obtain ⟨keptRing, listeners, s, hl⟩ := l.exists_listen id
  unfold seek
  rw [hl]
  dsimp only
  split
  · have hstep : Outbox.Work env ({ l with keptRing, listeners } : Link σ).outbox _ :=
      leave_step (grip_outbox (l := { l with keptRing, listeners }) h)
    exact .single hstep
  · split
    · exact waitForBell_works (l := { l with keptRing, listeners }) h s
    · rename_i t ts hqueue
      exact takeOn_works (l := { l with keptRing, listeners }) h hturn hqueue s

/-- After a call of the transport, a worker gets on with its message or gives it up. The call is that of a
    frame that the outbox has noted. -/
theorem afterCall_works {stage : Stage} (h : l.stageOf id = some stage) (signal : Signal) {job : Job}
    (failure : Option (List String)) {o : Outbox}
    (ho : o = l.outbox.setGrip id (some ⟨job, Outbox.holdAfter failure⟩)) (hturn : id ∈ l.ready) :
    Outbox.Works env o (l.afterCall id signal job failure).outbox := by
  unfold afterCall
  cases failure with
  | none =>
    dsimp only
    rw [outbox_setWorker h, ho]
    exact .refl
  | some causes =>
    have hgrip : o.grip id = some ⟨job, .failed causes⟩ := by
      rw [ho]
      exact Function.update_self ..
    have hstep : Outbox.Work env o _ := .giveUp (by rw [ho]; exact hturn) hgrip
    -- the outbox `o` differs from the link's only by the hold, and the message is let go of
    have hroused := finish_roused h signal job.submission (some (.transport (.failed causes)))
    rw [outbox_report_some, outbox_release] at hroused
    have hgone : (o.release.note (.told (.fault (.sending job.submission)
          (.transport (.failed causes))))).setGrip id none
        = (l.outbox.release.note (.told (.fault (.sending job.submission)
          (.transport (.failed causes))))).setGrip id none := by
      rw [ho]
      exact Outbox.setGrip_setGrip (l.outbox.release.note _) id _ none
    rw [hgone] at hstep
    exact (Relation.ReflTransGen.single hstep).tail hroused.work

/-- A worker hands over a frame, or ends its message. -/
theorem writeNext_works {job : Job} (h : l.stageOf id = some (.writing job)) (hturn : id ∈ l.ready)
    (signal : Signal) : Outbox.Works env l.outbox (l.writeNext env id signal job).outbox := by
  have hgrip := grip_outbox h
  unfold writeNext
  cases hleft : job.left with
  | nil =>
    have hstep : Outbox.Work env l.outbox (l.outbox.release.setGrip id none) :=
      .finish hturn hgrip hleft
    have hroused := finish_roused h signal job.submission none
    rw [show (l.release.report job.submission none).outbox = l.outbox.release from outbox_release l]
      at hroused
    exact (Relation.ReflTransGen.single hstep).tail hroused.work
  | cons f left =>
    have hanswer : ∃ carrier, (env.transport.call carrier f.encode).2.failure
        = (l.handOver env job.origin f).2.failure := ⟨l.carrier, rfl⟩
    have hstep : Outbox.Work env l.outbox _ := .hand hturn hgrip hleft hanswer
    have hhanded : (l.handOver env job.origin f).1.outbox = _ := outbox_handOver l job.origin f
    have hstage := (stageOf_handOver env l job.origin f id).trans h
    rw [← hhanded] at hstep
    dsimp only
    -- a call that takes no time is over at once; else the worker waits for its end
    split
    · have hafter : Outbox.Works env _ ((l.handOver env job.origin f).1.afterCall id signal
          { job with left } (l.handOver env job.origin f).2.failure).outbox :=
        afterCall_works hstage signal _ rfl hturn
      exact hafter.head hstep
    · have hcalling : (Stage.calling { job with left } ((l.handOver env job.origin f).1.now
            + (l.handOver env job.origin f).2.delay) (l.handOver env job.origin f).2.failure).grip
          = some ⟨{ job with left }, Outbox.holdAfter (l.handOver env job.origin f).2.failure⟩ := by
        cases (l.handOver env job.origin f).2.failure <;> rfl
      rw [← hcalling, ← outbox_setWorker hstage ⟨signal, _⟩] at hstep
      exact (Relation.ReflTransGen.single hstep).tail (suspend_step _)

/-- **A step of a worker is a sequence of steps of the outbox.** -/
theorem work_works (env : Environment σ) (l : Link σ) :
    Outbox.Works env l.outbox (l.work env).outbox := by
  unfold work
  split
  · exact .refl
  · rename_i id rest hready
    have hhead : l.ready.head? = some id := by
      rw [hready]
      rfl
    have hturn : id ∈ l.ready := List.mem_of_mem_head? hhead
    split
    · exact .single (suspend_step l)
    · rename_i w hw
      have hstage : l.stageOf id = some w.stage := congrArg (Option.map Worker.stage) hw
      split
      · rename_i hseeking
        exact seek_works (hstage.trans (congrArg some hseeking)) hhead
      · rename_i deadline hidle
        exact resume_works (hstage.trans (congrArg some hidle)) w.signal
      · rename_i job hqueueing
        have hq := hstage.trans (congrArg some hqueueing)
        rw [outbox_setWorker hq]
        exact .single (.grant hturn (grip_outbox hq))
      · rename_i job hwriting
        exact writeNext_works (hstage.trans (congrArg some hwriting)) hturn w.signal
      · rename_i job ends failure hcalling
        have hc := hstage.trans (congrArg some hcalling)
        refine afterCall_works hc w.signal failure ?_ hturn
        have hgrip : l.outbox.grip id = some ⟨job, Outbox.holdAfter failure⟩ := by
          rw [grip_outbox hc]
          cases failure <;> rfl
        unfold Outbox.setGrip
        rw [← hgrip, Function.update_eq_self]

end Link

/-! ## The caller -/

namespace Link

variable (env)

/-- Letting the workers run is a sequence of steps. -/
theorem settle_works (l : Link σ) : Outbox.Works env l.outbox (l.settle env).outbox := by
  fun_induction settle env l with
  | case1 l h => exact .refl
  | case2 l h ih => exact (work_works env l).trans ih

/-- A worker whose time has come does not wait for the lock. -/
theorem hold_ne_of_isDue {w : Worker} {now : Nat} (h : w.isDue now = true) {g : Grip}
    (hg : w.stage.grip = some g) : g.hold ≠ .waiting := by
  unfold Worker.isDue Worker.deadline? at h
  split at h
  · rename_i deadline hdeadline
    split at hdeadline
    · rename_i hstage
      rw [hstage] at hg
      cases hg
    · rename_i job ends failure hstage
      rw [hstage] at hg
      cases failure <;> cases hg <;> exact nofun
    · cases hdeadline
  · cases h

/-- Workers whose time has come are to run. -/
theorem wakeDue_works (l : Link σ) : Outbox.Works env l.outbox l.wakeDue.outbox := by
  unfold wakeDue
  have hgrip : ∀ e ∈ l.workers.entries, l.outbox.grip e.1 = e.2.stage.grip := by
    intro e he
    exact grip_outbox (congrArg (Option.map Worker.stage) (Table.get?_of_mem he))
  -- the fold goes over the entries as they were before any worker was roused
  generalize l.workers.entries = entries at hgrip
  induction entries generalizing l with
  | nil => exact .refl
  | cons e es ih =>
    have hrest : ∀ e' ∈ es, l.outbox.grip e'.1 = e'.2.stage.grip :=
      fun e' he' => hgrip e' (List.mem_cons_of_mem e he')
    rw [List.foldl_cons]
    split
    · rename_i hdue
      have hwake := outbox_wake l e.1
      have hstep : Outbox.Work env l.outbox (l.wake e.1).outbox := by
        rw [hwake]
        refine .rest _ l.outbox.workers (Set.Subset.refl _) (fun hn => Outbox.nodup_rouse hn _) ?_
        intro id hid
        rcases Outbox.mem_rouse.mp hid with hid | rfl
        · exact Or.inl hid
        · refine Or.inr fun g hg => ?_
          rw [hgrip e List.mem_cons_self] at hg
          exact hold_ne_of_isDue hdue hg
      have hsame : (l.wake e.1).outbox.grip = l.outbox.grip := by rw [hwake]
      exact (ih (l.wake e.1) (hsame ▸ hrest)).head hstep
    · exact ih l hrest

/-- Waiting is a sequence of steps. -/
theorem sleep_works (ms : Nat) (l : Link σ) :
    Outbox.Works env l.outbox (l.sleep env ms).outbox := by
  fun_induction sleep env ms l with
  | case1 l => exact .refl
  | case2 l n settled skipped ih =>
    have hpass := wakeDue_works env { settled with now := settled.now + (skipped + 1) }
    exact ((settle_works env _).trans hpass).trans ih

/-- Waiting for the lock is a sequence of steps. -/
theorem awaitLock_works (calls : Nat) (l : Link σ) :
    Outbox.Works env l.outbox (l.awaitLock env calls).outbox := by
  induction calls generalizing l with
  | zero => exact settle_works env l
  | succ n ih =>
    unfold awaitLock
    dsimp only
    split
    · exact settle_works env l
    · exact ((settle_works env l).trans (sleep_works env _ _)).trans (ih _)

variable (allowed : Frame → Prop)

/-- Getting the lock is a sequence of steps. -/
theorem acquire_steps (l : Link σ) :
    Outbox.Steps env allowed l.outbox (l.acquire env).outbox := by
  have hrequest : Outbox.Step env allowed l.outbox
      ({ l with lock := l.lock.request .caller } : Link σ).outbox := .request
  unfold acquire
  dsimp only
  split
  · exact .single hrequest
  · exact (Outbox.Works.steps (awaitLock_works env _ _)).head hrequest

variable {allowed}

/-- Writing under the lock is a sequence of steps, after which the caller still has the lock. -/
theorem writeEach_steps {frames : List Frame} (hallowed : ∀ f ∈ frames, allowed f) {l : Link σ}
    (hl : l.outbox.Locked) (hholder : l.lock.holder = some .caller) :
    Outbox.Steps env allowed l.outbox (l.writeEach env frames).1.outbox
      ∧ (l.writeEach env frames).1.lock.holder = some .caller := by
  induction frames generalizing l with
  | nil => exact ⟨.refl, hholder⟩
  | cons f fs ih =>
    have hnote : (l.handOver env .control f).1.outbox = _ := outbox_handOver l .control f
    have hstep : Outbox.Step env allowed l.outbox (l.handOver env .control f).1.outbox := by
      rw [hnote]
      exact .control hholder (hallowed f List.mem_cons_self) ⟨l.carrier, rfl⟩
    have hworks := sleep_works env (l.handOver env .control f).2.delay (l.handOver env .control f).1
    have hlocked := hstep.locked hl
    -- workers run while the call takes its time, but none takes the lock
    have hkeep := hworks.holder_caller hlocked hholder
    have hsteps : Outbox.Steps env allowed l.outbox _ := (Outbox.Works.steps hworks).head hstep
    unfold writeEach
    dsimp only
    split
    · exact ⟨hsteps, hkeep⟩
    · obtain ⟨hrest, hholds⟩ := ih (fun f' hf' => hallowed f' (List.mem_cons_of_mem f hf'))
        (Outbox.Works.locked hworks hlocked) hkeep
      exact ⟨hsteps.trans hrest, hholds⟩

/-- **Writing frames is a sequence of steps of the outbox.** -/
theorem write_steps {frames : List Frame} (hallowed : ∀ f ∈ frames, allowed f) {l : Link σ}
    (hl : l.outbox.Locked) : Outbox.Steps env allowed l.outbox (l.write env frames).1.outbox := by
  have hacquire := acquire_steps env allowed l
  unfold write
  dsimp only
  split
  · rename_i hholder
    obtain ⟨hwrite, hholds⟩ := writeEach_steps env hallowed (Outbox.Steps.locked hacquire hl) hholder
    rw [outbox_release]
    exact (hacquire.trans hwrite).tail (.release hholds)
  · exact hacquire

/-- A worker is started under a number that no worker has. -/
theorem outbox_startWorker {l : Link σ} (hl : l.outbox.Locked) :
    l.startWorker.outbox = l.outbox.enlist := by
  -- messages are in the hands of workers that were started before
  have hfree : l.outbox.grip l.started = none := by
    by_contra hsome
    obtain ⟨g, hg⟩ := Option.ne_none_iff_exists'.mp hsome
    exact Nat.lt_irrefl _ (hl.gripped hg)
  have hgrip : (fun id => (((l.workers.insert l.started {}).get? id).map Worker.stage).bind Stage.grip)
      = l.outbox.grip := by
    funext id
    rw [Table.get?_insert]
    by_cases hid : id = l.started
    · rw [if_pos hid, hid, hfree]
      rfl
    · rw [if_neg hid]
      rfl
  have hworkers : {id | ∃ w, (l.workers.insert l.started {}).get? id = some w}
      = insert l.started l.outbox.workers := by
    ext id
    show (∃ w, (l.workers.insert l.started {}).get? id = some w)
      ↔ id = l.started ∨ ∃ w, l.workers.get? id = some w
    rw [Table.get?_insert]
    by_cases hid : id = l.started
    · rw [if_pos hid]
      exact ⟨fun _ => Or.inl hid, fun _ => ⟨{}, rfl⟩⟩
    · rw [if_neg hid]
      exact ⟨Or.inr, fun h => h.resolve_left hid⟩
  unfold startWorker
  rw [outbox_wake]
  unfold outbox Outbox.enlist
  dsimp only [stageOf]
  rw [hgrip, hworkers]
  rfl

/-- **A message that is brought in is accepted**, which may start a worker and rings the bell. -/
theorem bringIn_roused {l : Link σ} (hl : l.outbox.Locked) (x : Outbound) :
    (l.outbox.accept x).Roused (l.bringIn env x true).1.outbox
      ∨ (l.outbox.accept x).enlist.Roused (l.bringIn env x true).1.outbox := by
  rw [bringIn_true]
  dsimp only
  split
  · have hstart := outbox_startWorker (l := l.accept x) (hl.accept x)
    exact Or.inr (hstart ▸ ring_roused (l.accept x).startWorker)
  · exact Or.inl (ring_roused (l.accept x))

/-- **A submission is refused, or accepted.** -/
theorem submit_cases {l : Link σ} (hl : l.outbox.Locked) (x : Outbound) :
    (∃ fault, l.submit env x true = (l, .error fault))
      ∨ ∃ l', l.submit env x true = (l', .ok ())
        ∧ ((l.outbox.accept x).Roused l'.outbox ∨ (l.outbox.accept x).enlist.Roused l'.outbox) := by
  unfold submit
  cases l.vet x with
  | error fault => exact Or.inl ⟨fault, rfl⟩
  | ok admitted =>
    have haccepted : (l.bringIn env x true).2 = .ok () := congrArg Prod.snd (bringIn_true env l x)
    exact Or.inr ⟨_, Prod.ext rfl haccepted, bringIn_roused env hl x⟩

/-- Shutting down drops what waits and calls the workers. -/
theorem shutDown_roused (l : Link σ) : l.outbox.clear.Roused l.shutDown.outbox := by
  have hdrop : ∀ (queue : List Submission) (l : Link σ),
      (queue.foldl (fun l s => l.record (.dropped s)) l).outbox
        = { l.outbox with journal := l.outbox.journal ++ queue.map .dropped } := by
    intro queue
    induction queue with
    | nil =>
      intro l
      show l.outbox = { l.outbox with journal := l.outbox.journal ++ [] }
      rw [List.append_nil]
    | cons s queue ih =>
      intro l
      rw [List.foldl_cons, ih, outbox_record]
      show { l.outbox with journal := (l.outbox.journal ++ [Entry.dropped s]) ++ queue.map Entry.dropped } = _
      rw [List.append_assoc]
      rfl
  have hring := ringAll_roused { l.queue.foldl (fun l s => l.record (.dropped s)) l with
    isShutDown := true, queue := [] }
  have hcleared : ({ l.queue.foldl (fun l s => l.record (.dropped s)) l with
      isShutDown := true, queue := [] } : Link σ).outbox = l.outbox.clear := by
    show { (l.queue.foldl (fun l s => l.record (.dropped s)) l).outbox with queue := [] } = _
    rw [hdrop]
    rfl
  rw [hcleared] at hring
  exact hring

end Link

end HeadLink
