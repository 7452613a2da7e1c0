import HeadLink.Proofs.Capacity

/-!
# What is refused leaves no trace

Submitting a message fails in three ways. If its session is not started or the link is shut down, nothing has
happened yet. If a worker has to be started for it by somebody who cannot, it has joined the queue already, and
there it stays: its sender is told that it failed, and it is sent as soon as somebody else brings a worker
(`refused_yet_sent`). A refusal is any of the other failures, and it leaves the link as it is
(`Link.submit_error_cases`). The same holds of a message that an endpoint refuses before it is submitted.

So nothing can come of a refusal later. A trial is an event together with what its caller was told
(`Link.Trial`); of any number of them those that were refused may as well be left out (`Link.Trials.without`), and
whatever the journal says about messages is about those that were queued (`Link.Trials.ledger`).

## Contents
- **Submitting.** `Link.submit_error_cases`, `Link.Stranded.submit`.
- **Sending.** `Endpoint.attempt`, `Endpoint.attempt_error_cases`, `Endpoint.run_refused`.
- **Trials.** `Attempt`, `Link.Trial`, `Link.Trials`; every event is one (`Link.Becomes.exists_trials`).
- **Ledgers.** `Entry.BelongsTo`, `Outbox.At.belongsTo`, `Link.Trials.ledger`.
- **Refusals.** `refused_leaves_no_trace`, and the failure that is none: `refused_yet_sent`.
-/

namespace HeadLink

variable {σ : Type} {env : Environment σ}

/-! ## Submitting -/

namespace Link

variable {l l' : Link σ} {x : Outbound} {hasExecutor : Bool} {fault : Fault}

/-- Submitting the message takes one more worker, and the caller cannot start it. -/
structure Stranded (env : Environment σ) (l : Link σ) (x : Outbound) (hasExecutor : Bool) : Prop where
  hasExecutor : hasExecutor = false
  session : ∃ version, l.sessions.requireStarted x.session = .ok version
  isShutDown : l.isShutDown = false
  idleCount : l.idleCount = 0
  workerCount : l.workerCount < env.settings.maxWorkers

/-- **Why submitting a message can fail, and what is left of it**: nothing, unless a worker has to be started and
    cannot be. -/
theorem submit_error_cases (h : l.submit env x hasExecutor = (l', .error fault)) :
    (fault ≠ .transport .noExecutor ∧ l' = l)
      ∨ fault = .transport .noExecutor ∧ l.Stranded env x hasExecutor ∧ l' = l.accept x := by
  unfold submit at h
  cases hvet : l.vet x with
  | error refusal =>
    rw [hvet] at h
    cases h
    refine Or.inl ⟨?_, rfl⟩
    rcases vet_error_cases hvet with hsession | rfl
    · unfold Sessions.requireStarted at hsession
      split at hsession <;> cases hsession
      exact nofun
    · exact nofun
  | ok admitted =>
    rw [hvet] at h
    obtain ⟨hsession, hopen⟩ := vet_eq_ok_iff.mp hvet
    have haccepted := bringIn_true env l x
    cases hasExecutor with
    | true => cases haccepted.symm.trans h
    | false =>
      rcases bringIn_outcome env l x false with hsame | ⟨⟨hidle, hfew⟩, hleft⟩
      · cases (hsame.trans haccepted).symm.trans h
      · cases hleft.symm.trans h
        exact Or.inr ⟨rfl, ⟨rfl, hsession, hopen, hidle, hfew⟩, rfl⟩

/-- The message of a caller who is stranded joins the queue, and nothing else happens. -/
theorem Stranded.submit (h : l.Stranded env x hasExecutor) :
    l.submit env x hasExecutor = (l.accept x, .error (.transport .noExecutor)) := by
  obtain ⟨rfl, hsession, hopen, hidle, hfew⟩ := h
  unfold Link.submit
  rw [vet_eq_ok_iff.mpr ⟨hsession, hopen⟩]
  exact if_pos ⟨hidle, hfew⟩

end Link

/-! ## Sending -/

namespace Endpoint

variable {e e' : Endpoint σ} {m : Message} {hasExecutor : Bool} {fault : Fault}

/-- Queues a message on behalf of somebody who can start workers or cannot. -/
def attempt (env : Environment σ) (e : Endpoint σ) (m : Message) (hasExecutor : Bool) :
    Endpoint σ × Except Fault Unit :=
  match e.outbound env m with
  | .error fault => (e, .error fault)
  | .ok o =>
    let (link, result) := e.link.submit env o hasExecutor
    ({ e with link }, result)

/-- The application can start workers. -/
theorem attempt_true (e : Endpoint σ) (m : Message) : e.attempt env m true = e.send env m := rfl

/-- **What is left of a message that was not accepted**: nothing, unless its sender was stranded. -/
theorem attempt_error_cases (h : e.attempt env m hasExecutor = (e', .error fault)) :
    e' = e ∨ fault = .transport .noExecutor ∧ ∃ x, e.outbound env m = .ok x
      ∧ e.link.Stranded env x hasExecutor ∧ e' = { e with link := e.link.accept x } := by
  unfold attempt at h
  cases hx : e.outbound env m with
  | error notQueued =>
    rw [hx] at h
    cases h
    exact Or.inl rfl
  | ok x =>
    rw [hx] at h
    cases hsubmit : e.link.submit env x hasExecutor with
    | mk link result =>
      simp only [hsubmit] at h
      cases h
      rcases Link.submit_error_cases hsubmit with ⟨-, rfl⟩ | ⟨hfault, hstranded, rfl⟩
      · exact Or.inl rfl
      · exact Or.inr ⟨hfault, x, rfl, hstranded, rfl⟩

/-- A message that is refused leaves the endpoint as it is. -/
theorem eq_of_send_error (h : e.send env m = (e', .error fault)) : e' = e := by
  rw [← attempt_true] at h
  refine (attempt_error_cases h).resolve_right ?_
  rintro ⟨-, x, -, hstranded, -⟩
  cases hstranded.hasExecutor

/-- **A run goes on after a refusal as if nothing had been sent.** -/
theorem run_refused {before : List Action} (after : List Action)
    (h : (e.run env before).1.send env m = (e', .error fault)) :
    e.run env (before ++ .send m :: after) = e.run env (before ++ after) := by
  induction before generalizing e with
  | nil =>
    change e.send env m = (e', .error fault) at h
    have hsame : e.perform env (.send m) = e := by
      show (e.send env m).1 = e
      rw [h]
      exact eq_of_send_error h
    have hnone : e.accepts env (.send m) = [] := by
      simp only [accepts, h]
    rw [List.nil_append, List.nil_append, run, hsame, hnone]
    rfl
  | cons a before ih =>
    have hrest := ih (e := e.perform env a) h
    rw [List.cons_append, List.cons_append, run, run, hrest]

end Endpoint

/-! ## Trials -/

/-- A message that somebody submitted, and what they were told. -/
structure Attempt where
  message : Outbound
  answer : Except Fault Unit

/-- The message of an attempt, if it was queued: because it was accepted, or because its sender was stranded. -/
def Attempt.queued? (a : Attempt) : Option Outbound :=
  match a.answer with
  | .ok () | .error (.transport .noExecutor) => some a.message
  | .error _ => none

theorem Attempt.queued?_of_refused {x : Outbound} {fault : Fault} (h : fault ≠ .transport .noExecutor) :
    Attempt.queued? ⟨x, .error fault⟩ = none := by
  unfold queued?
  split
  · rename_i hanswer
    cases hanswer
  · rename_i hanswer
    cases hanswer
    exact absurd rfl h
  · rfl

/-- **What can happen to a link next**, with the attempt to send something, if it is one. -/
inductive Link.Trial (env : Environment σ) : Link σ → List Attempt → Link σ → Prop
  | step {l l' : Link σ} (step : Step env l [] l') : Trial env l [] l'
  | submit {l : Link σ} (x : Outbound) (hasExecutor : Bool) :
      Trial env l [⟨x, (l.submit env x hasExecutor).2⟩] (l.submit env x hasExecutor).1
  | reorder {l : Link σ} {ready : List Nat} (perm : ready.Perm l.ready) : Trial env l [] { l with ready }

/-- Any number of trials, with all that somebody attempted to send. -/
abbrev Link.Trials (env : Environment σ) : Link σ → List Attempt → Link σ → Prop := Trail (Link.Trial env)

namespace Link

variable {l l' : Link σ} {asked : List Attempt}

/-- Every event is a trial. -/
theorem Event.exists_trial (event : Event env l l') : ∃ asked, Trial env l asked l' := by
  cases event with
  | submit x hasExecutor => exact ⟨_, .submit x hasExecutor⟩
  | reorder perm => exact ⟨_, .reorder perm⟩
  | step step =>
    cases step with
    | @submit _ x accepted =>
      have htrial : Trial env l _ (l.submit env x true).1 := .submit x true
      rw [accepted] at htrial
      exact ⟨_, htrial⟩
    | work => exact ⟨_, .step .work⟩
    | pass ms => exact ⟨_, .step (.pass ms)⟩
    | request => exact ⟨_, .step .request⟩
    | control holder type => exact ⟨_, .step (.control holder type)⟩
    | release holder => exact ⟨_, .step (.release holder)⟩
    | sessions sessions => exact ⟨_, .step (.sessions sessions)⟩
    | tell other => exact ⟨_, .step (.tell other)⟩
    | shutDown => exact ⟨_, .step .shutDown⟩

/-- **Whatever happens to a link is a number of trials.** -/
theorem Becomes.exists_trials (becomes : Becomes env l l') : ∃ asked, Trials env l asked l' := by
  induction becomes with
  | refl => exact ⟨[], .refl⟩
  | tail _ event ih =>
    obtain ⟨asked, htrials⟩ := ih
    obtain ⟨new, htrial⟩ := event.exists_trial
    exact ⟨asked ++ new, htrials.tail htrial⟩

/-- A trial is an event. -/
theorem Trial.event (trial : Trial env l asked l') : Event env l l' := by
  cases trial with
  | step step => exact .step step
  | submit x hasExecutor => exact .submit x hasExecutor
  | reorder perm => exact .reorder perm

theorem Trials.locked (trials : Trials env l asked l') (hl : l.outbox.Locked) : l'.outbox.Locked := by
  induction trials with
  | refl => exact hl
  | tail _ trial ih => exact trial.event.locked ih

/-- A trial changes the outbox as if what was queued had been accepted. -/
theorem Trial.changes (trial : Trial env l asked l') (hl : l.outbox.Locked) :
    Outbox.Changes env l.outbox (asked.filterMap Attempt.queued?) l'.outbox := by
  cases trial with
  | step step => exact step.changes hl
  | reorder perm => exact changes_reorder perm
  | submit x hasExecutor =>
    cases hsubmit : l.submit env x hasExecutor with
    | mk l' answer =>
      cases answer with
      | error fault =>
        rcases submit_error_cases hsubmit with ⟨hfault, rfl⟩ | ⟨rfl, -, rfl⟩
        · simp only [List.filterMap, Attempt.queued?_of_refused hfault]
          exact .refl
        · exact .single (.accept x)
      | ok done =>
        have haccepted : l.submit env x true = (l', .ok ()) := by
          rcases submit_outcome env l x hasExecutor with ⟨fault, hrefused⟩ | ⟨l₁, hsame, haccepted⟩ | ⟨-, -, hleft⟩
          · cases hsubmit.symm.trans hrefused
          · cases hsubmit.symm.trans hsame
            exact haccepted
          · cases hsubmit.symm.trans hleft
        exact Step.changes (.submit haccepted) hl

theorem Trials.changes (trials : Trials env l asked l') (hl : l.outbox.Locked) :
    Outbox.Changes env l.outbox (asked.filterMap Attempt.queued?) l'.outbox := by
  induction trials with
  | refl => exact .refl
  | tail before trial ih =>
    rw [List.filterMap_append]
    exact ih.trans (trial.changes (Trials.locked before hl))

/-- **A trial that was refused may be left out.** -/
theorem Trial.without (trial : Trial env l asked l') :
    Trials env l (asked.filter fun a => a.queued?.isSome) l' := by
  cases trial with
  | step step => exact .single (.step step)
  | reorder perm => exact .single (.reorder perm)
  | submit x hasExecutor =>
    have htrial : Trial env l _ (l.submit env x hasExecutor).1 := .submit x hasExecutor
    cases hsubmit : l.submit env x hasExecutor with
    | mk l' answer =>
      rw [hsubmit] at htrial
      cases answer with
      | ok done => exact .single htrial
      | error fault =>
        rcases submit_error_cases hsubmit with ⟨hfault, rfl⟩ | ⟨rfl, -, rfl⟩
        · simp only [List.filter, Attempt.queued?_of_refused hfault]
          exact .refl
        · exact .single htrial

theorem Trials.without (trials : Trials env l asked l') :
    Trials env l (asked.filter fun a => a.queued?.isSome) l' := by
  induction trials with
  | refl => exact .refl
  | tail _ trial ih =>
    rw [List.filter_append]
    exact ih.trans trial.without

end Link

/-! ## Ledgers -/

/-- The entry is about the message, and a frame that was written is one of its frames. -/
def Entry.BelongsTo (env : Environment σ) (s : Submission) : Entry → Prop
  | .written (.message number message) f _ =>
    number = s.number ∧ ∃ frames, s.frames? env message = .ok frames ∧ f ∈ frames
  | .told (.fault (.sending t) _) | .taken t | .dropped t => t = s
  | _ => False

theorem Written.belongsTo {w : Written} {s : Submission} {message : UInt32} {frames : List Frame}
    (horigin : w.origin = .message s.number message) (hframes : s.frames? env message = .ok frames)
    (hmem : w.frame ∈ frames) : w.entry.BelongsTo env s := by
  obtain ⟨origin, frame, failure⟩ := w
  cases horigin
  exact ⟨rfl, frames, hframes, hmem⟩

/-- **All that is said of a message belongs to it**, whatever situation it is in. -/
theorem Outbox.At.belongsTo {o : Outbox} {s : Submission} {p : Situation} (hp : o.At env s p) {entry : Entry}
    (h : entry ∈ o.account s.number) : entry.BelongsTo env s := by
  cases p with
  | queued =>
    rw [hp.2] at h
    cases h
  | held =>
    obtain ⟨id, g, -, rfl, written, hwrote, haccount⟩ := hp
    rw [haccount] at h
    rcases List.mem_cons.mp h with rfl | h
    · rfl
    · obtain ⟨w, hw, rfl⟩ := List.mem_map.mp h
      obtain ⟨horigin, frames, hframes, hmem⟩ := mem_frames_of_wrote hwrote hw
      exact Written.belongsTo horigin hframes hmem
  | ended ending =>
    obtain ⟨-, -, hends⟩ := hp
    generalize o.account s.number = entries at h hends
    have hsent : ∀ {message : UInt32} {whole frames : List Frame}, s.frames? env message = .ok whole →
        frames ⊆ whole → ∀ w ∈ s.sent message frames, w.entry.BelongsTo env s := by
      intro message whole frames hwhole hsubset w hw
      obtain ⟨horigin, hmem⟩ := mem_sent hw
      exact Written.belongsTo horigin hwhole (hsubset hmem)
    cases hends with
    | written split =>
      rcases List.mem_cons.mp h with rfl | h
      · rfl
      · obtain ⟨w, hw, rfl⟩ := List.mem_map.mp h
        exact hsent split (List.Subset.refl _) w hw
    | @failed message frames left last causes split =>
      rcases List.mem_cons.mp h with rfl | h
      · rfl
      · rcases List.mem_append.mp h with hwritten | htold
        · obtain ⟨w, hw, rfl⟩ := List.mem_map.mp hwritten
          rcases List.mem_append.mp hw with hw | hw
          · exact hsent split (List.subset_append_left _ _) w hw
          · rw [List.mem_singleton.mp hw]
            exact Written.belongsTo rfl split (List.mem_append_right _ List.mem_cons_self)
        · rw [List.mem_singleton.mp htold]
          rfl
    | refused why =>
      rcases List.mem_pair.mp h with rfl | rfl <;> rfl
    | dropped =>
      rw [List.mem_singleton.mp h]
      rfl

/-- **The link has to do with the messages of the log only**: with those that wait, those that are in the hands of
    workers, and those that the journal speaks of. -/
structure Link.Ledger (env : Environment σ) (log : List Outbound) (l : Link σ) : Prop where
  accepted : l.accepted = log.length
  queue : ∀ s ∈ l.queue, s.Logged log
  holds : ∀ id s, l.Holds id s → s.Logged log
  journal : ∀ entry ∈ l.journal.toList, ∀ n, entry.number? = some n → ∃ s, s.Logged log ∧ entry.BelongsTo env s

/-- Accounts are a ledger. -/
theorem Link.ledger {l : Link σ} {log : List Outbound} (h : l.outbox.Accounted env Frame.OfControl log) :
    l.Ledger env log := by
  obtain ⟨blocks, htraced⟩ := h.traced
  refine ⟨htraced.count.symm, htraced.queued, ?_, ?_⟩
  · rintro id s ⟨g, hg, rfl⟩
    exact htraced.held hg
  · intro entry hentry n hn
    have hmem : entry ∈ l.outbox.account n := List.mem_filter.mpr ⟨hentry, decide_eq_true hn⟩
    have hlt : n < log.length := by
      by_contra hge
      rw [h.known n (Nat.not_lt.mp hge)] at hmem
      cases hmem
    have hlogged : (log[n].numbered n).Logged log := List.getElem?_eq_getElem hlt
    obtain ⟨p, hp⟩ := h.situated _ hlogged
    exact ⟨_, hlogged, hp.belongsTo hmem⟩

/-- **After any number of trials, the link has to do with what was queued only.** -/
theorem Link.Trials.ledger {l l' : Link σ} {asked : List Attempt} (trials : Trials env l asked l')
    (h : l.outbox.Accounted env Frame.OfControl []) : l'.Ledger env (asked.filterMap Attempt.queued?) :=
  Link.ledger (h.changes (Trials.changes trials h.locked)).1

/-! ## Refusals -/

/-- **What is refused leaves no trace.** Submitting a message that fails leaves the link as it is, unless a worker has
    to be started and the caller cannot; then the message is always queued, and nothing else happens. Sending a message
    that fails leaves the endpoint as it is, with the same exception, and a run goes on as if it had not been sent.
    Whatever happens to a link after it was opened is a number of trials, and it has to do with the messages only that
    were queued: of no other message a frame is written or a failure reported. The link would be the same without the
    attempts that were refused. -/
theorem refused_leaves_no_trace :
    (∀ (l l' : Link σ) x hasExecutor fault, l.submit env x hasExecutor = (l', .error fault) →
        (fault ≠ .transport .noExecutor ∧ l' = l)
          ∨ fault = .transport .noExecutor ∧ l.Stranded env x hasExecutor ∧ l' = l.accept x)
      ∧ (∀ (l : Link σ) x hasExecutor, l.Stranded env x hasExecutor →
          l.submit env x hasExecutor = (l.accept x, .error (.transport .noExecutor)))
      ∧ (∀ (e e' : Endpoint σ) m hasExecutor fault, e.attempt env m hasExecutor = (e', .error fault) →
          e' = e ∨ fault = .transport .noExecutor ∧ ∃ x, e.outbound env m = .ok x
            ∧ e.link.Stranded env x hasExecutor ∧ e' = { e with link := e.link.accept x })
      ∧ (∀ (e e' : Endpoint σ) before m fault, (e.run env before).1.send env m = (e', .error fault) →
          ∀ after, e.run env (before ++ .send m :: after) = e.run env (before ++ after))
      ∧ ∀ carrier e, Endpoint.open? env carrier = .ok e →
          (∀ actions, ∃ log, List.Forall₂ (Accepted.Queued env) (e.run env actions).2 log
            ∧ (e.run env actions).1.link.Ledger env log)
          ∧ (∀ l, Link.Becomes env e.link l → ∃ asked, Link.Trials env e.link asked l)
          ∧ ∀ asked l, Link.Trials env e.link asked l →
            Link.Trials env e.link (asked.filter fun a => a.queued?.isSome) l
              ∧ l.Ledger env (asked.filterMap Attempt.queued?) := by
  refine ⟨?_, ?_, ?_, ?_, ?_⟩
  · intro l l' x hasExecutor fault h
    exact Link.submit_error_cases h
  · intro l x hasExecutor hstranded
    exact hstranded.submit
  · intro e e' m hasExecutor fault h
    exact Endpoint.attempt_error_cases h
  · intro e e' before m fault h after
    exact Endpoint.run_refused after h
  · intro carrier e hopen
    have haccounted := Endpoint.accounted_of_open? hopen
    refine ⟨?_, ?_, ?_⟩
    · intro actions
      obtain ⟨log, hqueued, course⟩ := Endpoint.course_run (Endpoint.Ordered.fresh hopen) actions
      exact ⟨log, hqueued, Link.ledger (Link.Course.accounted course haccounted).1⟩
    · intro l becomes
      exact becomes.exists_trials
    · intro asked l trials
      exact ⟨Link.Trials.without trials, Link.Trials.ledger trials haccounted⟩

/-- Between two messages, one is refused because its function id is too large, and one because its session is not
    started. The other two are sent as if nothing else had been. A message of the started session joins the queue,
    although whoever submits it cannot start a worker and is told so. -/
theorem refused_leaves_no_trace_between :
    let env := faultless 64
    let oversize : Message := { emptyObject with body := { data := [], functionId := 0x10000000 } }
    let elsewhere : Outbound := { session := 2, service := .rpc, version := 2, correlationId := 0, payload := [] }
    let here : Outbound := { elsewhere with session := 1 }
    let before := [greeting 2, .send emptyObject]
    let after := [.send emptyObject, .sleep 10]
    ∃ e, Endpoint.open? env 0 = .ok e
      ∧ ((e.run env before).1.link.submit env elsewhere true).1 = (e.run env before).1.link
      ∧ (e.run env before).1.link.submit env here false
        = ((e.run env before).1.link.accept here, .error (.transport .noExecutor))
      ∧ ((e.run env before).1.attempt env oversize false).1 = (e.run env before).1
      ∧ e.run env (before ++ .send oversize :: after) = e.run env (before ++ after)
      ∧ (∃ log, log.length = 2 ∧ (e.run env (before ++ .send oversize :: after)).1.link.Ledger env log)
      ∧ (e.run env (before ++ .send oversize :: after)).1.link.handed.length = 2
      ∧ (∃ asked, Link.Trials env e.link asked (e.run env before).1.link)
      ∧ (e.link.submit env elsewhere true).1.Ledger env [] := by
  intro env oversize elsewhere here before after
  have hfacts : ∀ e, Endpoint.open? env 0 = .ok e →
      let e₁ := (e.run env before).1
      (e₁.link.submit env elsewhere true).2 = .error (.notStarted 2)
        ∧ (e₁.link.sessions.requireStarted 1 = .ok 2 ∧ e₁.link.isShutDown = false ∧ e₁.link.idleCount = 0
          ∧ e₁.link.workerCount < env.settings.maxWorkers)
        ∧ (e₁.attempt env oversize false).2 = .error (.argument (.functionIdTooLarge 0x10000000))
        ∧ (e₁.send env oversize).2 = .error (.argument (.functionIdTooLarge 0x10000000))
        ∧ (e.run env (before ++ .send oversize :: after)).2.length = 2
        ∧ (e.run env (before ++ .send oversize :: after)).1.link.handed.length = 2
        ∧ (e.link.submit env elsewhere true).2 = .error (.notStarted 2) := by
    rintro e ⟨⟩
    decide +kernel
  have hopen : Endpoint.open? env 0 = .ok _ := rfl
  obtain ⟨hsubmit, ⟨hsession, hup, hidle, hfew⟩, hattempt, hsend, hcount, hhanded, hfirst⟩ := hfacts _ hopen
  obtain ⟨hlink, hstranded, hendpoint, hrun, hopened⟩ := @refused_leaves_no_trace Nat env
  obtain ⟨hruns, hall, htrials⟩ := hopened 0 _ hopen
  refine ⟨_, rfl, ?_, ?_, ?_, ?_, ?_, hhanded, hall _ (Endpoint.becomes_run hopen before), ?_⟩
  · rcases hlink _ _ _ _ _ (Prod.ext rfl hsubmit) with ⟨-, hsame⟩ | ⟨hfault, -⟩
    · exact hsame
    · cases hfault
  · exact hstranded _ here false ⟨rfl, ⟨2, hsession⟩, hup, hidle, hfew⟩
  · rcases hendpoint _ _ _ _ _ (Prod.ext rfl hattempt) with hsame | ⟨hfault, -⟩
    · exact hsame
    · cases hfault
  · exact hrun _ _ before oversize _ (Prod.ext rfl hsend) after
  · obtain ⟨log, hqueued, hledger⟩ := hruns (before ++ .send oversize :: after)
    exact ⟨log, hqueued.length_eq.symm.trans hcount, hledger⟩
  · obtain ⟨-, hledger⟩ := htrials _ _ (.single (.submit elsewhere true))
    rw [hfirst] at hledger
    exact hledger

/-- **A failure that is no refusal.** The first message is submitted by somebody who cannot start a worker. Its sender
    is told that it failed, and it stays in the queue; when a second one is submitted, both are sent. -/
theorem refused_yet_sent :
    let env := faultless 64
    let first : Outbound := { session := 1, service := .rpc, version := 2, correlationId := 1, payload := [1] }
    let second : Outbound := { session := 1, service := .rpc, version := 2, correlationId := 2, payload := [2] }
    ∃ e, Endpoint.open? env 0 = .ok e
      ∧ let l := (e.run env [greeting 2]).1.link
        let l₁ := (l.submit env first false).1
        let l₂ := (l₁.submit env second true).1.sleep env 10
        (l.submit env first false).2 = .error (.transport .noExecutor)
          ∧ (l.queue.length, l.accepted, l.workerCount) = (0, 0, 0)
          ∧ (l₁.queue.length, l₁.accepted, l₁.workerCount) = (1, 1, 0)
          ∧ l₂.handed.map (fun w => w.frame.payload) = [[1], [2]] := by
  intro env first second
  refine ⟨_, rfl, ?_⟩
  decide +kernel

end HeadLink
