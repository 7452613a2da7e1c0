import HeadLink.Proofs.Closure
import HeadLink.Proofs.FrameSizes
import HeadLink.Proofs.Gate
import HeadLink.Proofs.Teardown
import HeadLink.Proofs.Vacancy

/-!
# Which messages can be sent

Whether a message can be split depends on little: an announcement of its parts has to fit into a frame behind a header
(`Settings.HasRoom`). It makes no difference that a short message needs no announcement, for the budget is checked
first. Settings that break no rule leave room for more than a header, but they may leave less room than that.

If there is room, a message whose session stays started is never refused. A worker refuses a message for one of two
reasons: it cannot be split, or its session is not started at that moment. So as long as the session is started, what
workers and callers do does not add the second reason to the journal (`Outbox.Errands.unrefused`), and no other move
does. In the end the message is written in full, unless the transport has failed one of its frames, or the link was
shut down before. If there is no room, nothing is ever written of it.

## Contents
- **Room.** `Settings.HasRoom`, `Envelope.exists_segments_iff`.
- **Refusals.** `Outbox.Unrefused`, and what keeps it.
- **Endings.** What can have become of a message that is not refused because of its session
  (`Outbox.At.cases_of_unrefused`).
- **Histories.** `Intake.StaysStarted`, `Endpoint.History.unrefused`.
- **Sending.** `Endpoint.Sends`, and what is known of a message from then on (`Endpoint.Tracks`).
- **Outcomes.** `sent_if_room`, and a message that is accepted without room for it.
-/

namespace HeadLink

variable {σ : Type} {env : Environment σ}

/-! ## Room -/

/-- There is room for an announcement behind a header of the version. -/
def Settings.HasRoom (s : Settings) (version : UInt8) : Prop := headerLength version + 8 ≤ s.mtu

instance (s : Settings) (version : UInt8) : Decidable (s.HasRoom version) := inferInstanceAs (Decidable (_ ≤ _))

theorem Settings.le_frameBudget_iff {s : Settings} {version : UInt8} :
    8 ≤ s.frameBudget version ↔ s.HasRoom version := by
  unfold frameBudget HasRoom
  omega

/-- **A payload that is not too large can be split exactly if there is room.** -/
theorem Envelope.exists_segments_iff {s : Settings} {e : Envelope} {payload : Bytes}
    (hsize : payload.length + headerLength e.version < Word.count) :
    (∃ frames, e.segments payload (s.frameBudget e.version) = .ok frames) ↔ s.HasRoom e.version := by
  rw [← Settings.le_frameBudget_iff]
  constructor
  · rintro ⟨frames, hframes⟩
    exact (Envelope.bounds_of_segments hframes).1
  · exact fun hroom => ⟨_, Envelope.segments_eq hroom hsize⟩

/-- The total of the message, a header included, is a word. -/
def Submission.IsSized (s : Submission) : Prop := s.payload.length + headerLength s.version < Word.count

instance (s : Submission) : Decidable s.IsSized := inferInstanceAs (Decidable (_ < _))

/-- The fault of a message for which there is no room. -/
def Settings.noRoom (s : Settings) (version : UInt8) : Fault :=
  .argument (.frameBudgetTooSmall (s.frameBudget version))

section

variable {s : Submission} {message : UInt32}

theorem Submission.exists_frames?_iff (hsize : s.IsSized) :
    (∃ frames, s.frames? env message = .ok frames) ↔ env.settings.HasRoom s.version :=
  Envelope.exists_segments_iff (e := s.envelope message) hsize

theorem Submission.frames?_of_not_hasRoom (h : ¬ env.settings.HasRoom s.version) :
    s.frames? env message = .error (env.settings.noRoom s.version) := by
  rw [← Settings.le_frameBudget_iff, Nat.not_le] at h
  exact if_pos h

end

/-! ## Refusals -/

namespace Outbox

variable {o o' : Outbox} {s : Submission}

/-- Nothing says that the message was refused because of its session. -/
def Unrefused (s : Submission) (o : Outbox) : Prop :=
  .told (.fault (.sending s) (.notStarted s.session)) ∉ o.journal

/-- What else is noted does not matter. -/
theorem Unrefused.note (h : o.Unrefused s) {e : Entry}
    (he : e ≠ .told (.fault (.sending s) (.notStarted s.session))) : (o.note e).Unrefused s := by
  intro hin
  rcases List.mem_append.mp hin with hin | hin
  · exact h hin
  · exact he (List.mem_singleton.mp hin).symm

/-- **A worker refuses no message because of a session that is started.** -/
theorem Work.unrefused (work : Work env o o') (hstarted : o.sessions.get? s.session ≠ none) (h : o.Unrefused s) :
    o'.Unrefused s := by
  cases work with
  | rest | grant | finish => exact h
  | @refuse t queue fault hqueue hprepared =>
    have htaken : (o.take t queue).Unrefused s := h.note (e := .taken t) nofun
    refine htaken.note ?_
    rintro ⟨⟩
    -- on a started session only what cannot be split is refused
    obtain ⟨message, hframes⟩ := frames?_of_started hstarted hprepared
    exact Submission.ne_notStarted_of_frames? hframes s.session rfl
  | @takeOn id t queue job hturn hworker hgrip hqueue hprepared =>
    have htaken : (o.take t queue).Unrefused s := h.note (e := .taken t) nofun
    unfold Unrefused
    rwa [(startJob_eq (o.take t queue) id job).2.1]
  | @hand id job f left failure hturn hgrip hleft hanswer => exact h.note nofun
  | @giveUp id job causes hturn hgrip =>
    have hreleased : o.release.Unrefused s := h
    exact hreleased.note nofun

theorem Works.unrefused (works : Works env o o') (hstarted : o.sessions.get? s.session ≠ none)
    (h : o.Unrefused s) : o'.Unrefused s := by
  induction works with
  | refl => exact h
  | tail works work ih => exact work.unrefused (by rwa [(Works.quiet works).sessions]) ih

theorem Errand.unrefused (errand : Errand env o o') (hstarted : o.sessions.get? s.session ≠ none)
    (h : o.Unrefused s) : o'.Unrefused s := by
  cases errand with
  | step step =>
    cases step with
    | work work => exact work.unrefused hstarted h
    | request | release => exact h
    | control => exact h.note nofun
  | accept | enlist => exact h
  | clear =>
    intro hin
    rcases List.mem_append.mp hin with hin | hin
    · exact h hin
    · obtain ⟨t, -, heq⟩ := List.mem_map.mp hin
      cases heq

/-- **Errands refuse no message because of a session that is started**: the session stays so. -/
theorem Errands.unrefused (errands : Errands env o o') (hstarted : o.sessions.get? s.session ≠ none)
    (h : o.Unrefused s) : o'.Unrefused s := by
  induction errands with
  | refl => exact h
  | tail errands errand ih => exact errand.unrefused (by rwa [(Errands.quiet errands).sessions]) ih

/-! ## Endings -/

/-- **What has become of a message that was not refused because of its session**: it was dropped; it was split, and
    written unless a frame has failed; or it could not be split. -/
theorem At.cases_of_unrefused {ending : Ending} (hp : o.At env s (.ended ending)) (h : o.Unrefused s) :
    ending = .dropped
      ∨ (∃ message frames, s.frames? env message = .ok frames) ∧ (ending = .written ∨ ∃ causes,
          ending = .reported (.transport (.failed causes))
            ∧ ∃ w ∈ o.handed, w.number? = some s.number ∧ w.failure = some causes)
      ∨ ∃ message fault, s.frames? env message = .error fault ∧ ending = .reported fault := by
  obtain ⟨-, -, hends⟩ := hp
  have hjournal : ∀ e ∈ o.account s.number, e ∈ o.journal := fun e he => List.mem_of_mem_filter he
  generalize o.account s.number = entries at hends hjournal
  cases hends with
  | dropped => exact Or.inl rfl
  | written split => exact Or.inr (Or.inl ⟨⟨_, _, split⟩, Or.inl rfl⟩)
  | @failed message frames left last causes split =>
    have hwritten : .written (.message s.number message) last (some causes) ∈ o.journal :=
      hjournal _ (by simp [Written.entry])
    have hhanded : ⟨.message s.number message, last, some causes⟩ ∈ o.handed :=
      List.mem_filterMap.mpr ⟨_, hwritten, rfl⟩
    exact Or.inr (Or.inl ⟨⟨_, _, split⟩, Or.inr ⟨causes, rfl, _, hhanded, rfl, rfl⟩⟩)
  | refused why =>
    rcases why with rfl | ⟨message, hframes⟩
    · exact absurd (hjournal _ (by simp)) h
    · exact Or.inr (Or.inr ⟨message, _, hframes, rfl⟩)

/-- If there is no room for a message, nothing is written of it. -/
theorem At.not_begun_of_not_hasRoom {p : Situation} (hp : o.At env s p) (hroom : ¬ env.settings.HasRoom s.version) :
    ¬ o.Begun s.number := by
  intro hbegun
  obtain ⟨entry, hin, hwritten⟩ := begun_iff.mp hbegun
  have hnumber : entry.number? = some s.number := of_decide_eq_true (List.mem_filter.mp hin).2
  cases entry with
  | told | taken | dropped => cases hwritten
  | written origin f failure =>
    cases origin with
    | control => cases hnumber
    | message number message =>
      cases hnumber
      obtain ⟨frames, hframes, -⟩ := hp.mem_frames hin
      cases hframes.symm.trans (Submission.frames?_of_not_hasRoom hroom)

end Outbox

/-! ## Histories -/

namespace Intake

variable {i : Intake} {session : UInt8} {arrivals more : List Arrival}

/-- The session is started before the arrivals, between them and after them. -/
def StaysStarted (i : Intake) (session : UInt8) (arrivals : List Arrival) : Prop :=
  ∀ before ∈ arrivals.inits, (i.afterAll before).sessions.isStarted session = true

instance : Decidable (i.StaysStarted session arrivals) := inferInstanceAs (Decidable (∀ before ∈ _, _))

theorem StaysStarted.last (h : i.StaysStarted session arrivals) :
    (i.afterAll arrivals).sessions.isStarted session = true :=
  h arrivals ((List.mem_inits _ _).mpr (List.prefix_refl _))

theorem StaysStarted.of_append (h : i.StaysStarted session (arrivals ++ more)) :
    i.StaysStarted session arrivals := by
  intro before hbefore
  rw [List.mem_inits] at hbefore
  exact h before ((List.mem_inits _ _).mpr (hbefore.trans (List.prefix_append _ _)))

/-- What the listener is told of an arrival reports no message. -/
theorem reported?_of_tell {a : Arrival} {notices : List Notice} (h : i.reaction a = .tell notices) :
    ∀ n ∈ notices, n.reported? = none := by
  intro n hn
  rcases cases_of_tell h hn with ⟨_, rfl⟩ | ⟨_, _, -, rfl⟩ | ⟨hother, -⟩
  · rfl
  · rfl
  · unfold Notice.reported?
    split
    · exact absurd rfl (hother _ _)
    · rfl

end Intake

namespace Endpoint

variable {e e' e'' : Endpoint σ} {s : Submission} {past new : List Arrival} {m : Message}

theorem unrefused_tell {n : Notice} (hn : n.reported? = none) (h : e.link.outbox.Unrefused s) :
    (e.tell n).link.outbox.Unrefused s := by
  show (e.link.record (.told n)).outbox.Unrefused s
  rw [Link.outbox_record]
  refine h.note ?_
  rintro ⟨⟩
  cases hn

theorem unrefused_foldl_tell {notices : List Notice} (hn : ∀ n ∈ notices, n.reported? = none)
    (h : e.link.outbox.Unrefused s) : (notices.foldl tell e).link.outbox.Unrefused s := by
  induction notices generalizing e with
  | nil => exact h
  | cons n notices ih =>
    rw [List.forall_mem_cons] at hn
    exact ih hn.2 (unrefused_tell hn.1 h)

theorem unrefused_deliver (h : e.link.outbox.Unrefused s) (m : Message) :
    (e.deliver env m).link.outbox.Unrefused s := by
  have htold : ({ e with delivered := e.delivered + 1 }.tell (.messageReceived m)).link.outbox.Unrefused s :=
    unrefused_tell (e := { e with delivered := e.delivered + 1 }) rfl h
  unfold deliver
  dsimp only
  split <;> split
  · exact unrefused_tell rfl (unrefused_tell rfl htold)
  · exact unrefused_tell rfl htold
  · exact unrefused_tell rfl htold
  · exact htold

theorem unrefused_acknowledge (hl : e.link.outbox.Locked) (hstarted : e.link.sessions.get? s.session ≠ none)
    (h : e.link.outbox.Unrefused s) (header : Header) : (e.acknowledge env header).link.outbox.Unrefused s := by
  have hall : ∀ f ∈ [Frame.control header.version header.service header.session .startServiceAck], f.OfControl := by
    intro f hf
    rw [List.mem_singleton.mp hf]
    rfl
  have hwrite := (Outbox.Steps.errands (Link.write_steps env hall hl)).unrefused hstarted h
  unfold acknowledge
  split
  · rename_i e' heq
    rw [← (Prod.mk.inj heq).1]
    exact hwrite
  · rename_i e' fault heq
    refine unrefused_tell rfl ?_
    rw [← (Prod.mk.inj heq).1]
    exact hwrite

/-- **A move refuses no message because of a session that is started before and after it.** -/
theorem Move.unrefused (move : Move env e new e') (hl : e.link.outbox.Locked)
    (hstarted : e.link.sessions.isStarted s.session = true) (hstill : e'.link.sessions.isStarted s.session = true)
    (h : e.link.outbox.Unrefused s) : e'.link.outbox.Unrefused s := by
  have hbefore := Sessions.get?_ne_none_of_isStarted hstarted
  cases move with
  | call a own => exact (errands_perform hl own).unrefused hbefore h
  | feed d => exact h
  | work => exact (Link.work_works env e.link).unrefused hbefore h
  | pass ms => exact (Link.wakeDue_works env { e.link with now := e.link.now + ms }).unrefused hbefore h
  | arrive a =>
    -- the sessions change first, and then they are those that are found after the move
    have hafter : (e.intake.after a).sessions = (e.onArrival env a).link.sessions :=
      congrArg Intake.sessions (intake_onArrival env hl a).symm
    rw [← hafter] at hstill
    rw [onArrival_eq]
    have hset : (e.withIntake (e.intake.after a)).link.outbox.Unrefused s := h
    cases hr : e.intake.reaction a with
    | tell notices => exact unrefused_foldl_tell (Intake.reported?_of_tell hr) hset
    | deliver m => exact unrefused_deliver hset m
    | grant header =>
      exact unrefused_acknowledge (locked_withIntake hl _) (Sessions.get?_ne_none_of_isStarted hstill) hset header

/-- **As long as its session stays started, a message is not refused because of it.** -/
theorem History.unrefused (history : History env e new e') (hl : e.link.outbox.Locked)
    (hstays : e.intake.StaysStarted s.session new) (h : e.link.outbox.Unrefused s) :
    e'.link.outbox.Unrefused s := by
  induction history with
  | refl => exact h
  | @tail before more e₁ e₂ history move ih =>
    have hstarted : e₁.intake.sessions.isStarted s.session = true := by
      rw [History.intake history hl]
      exact hstays.of_append.last
    have hstill : e₂.intake.sessions.isStarted s.session = true := by
      rw [History.intake (history.tail move) hl]
      exact hstays.last
    exact move.unrefused (History.locked history hl) hstarted hstill (ih hstays.of_append)

theorem History.course (history : History env e new e') (hl : e.link.outbox.Locked) :
    ∃ log, Link.Course env e.link log e'.link := by
  induction history with
  | refl => exact ⟨[], .refl⟩
  | tail history move ih =>
    obtain ⟨log, course⟩ := ih
    obtain ⟨more, course'⟩ := move.course (History.locked history hl)
    exact ⟨log ++ more, course.trans course'⟩

/-! ## Sending -/

/-- **The message is accepted**, and becomes the submission. -/
structure Sends (env : Environment σ) (e : Endpoint σ) (m : Message) (s : Submission) (e' : Endpoint σ) : Prop where
  outbound : e.outbound env m = .ok s.toOutbound
  number : s.number = e.link.accepted
  submit : e.link.submit env s.toOutbound true = (e'.link, .ok ())

theorem exists_sends (h : e.send env m = (e', .ok ())) : ∃ s, e.Sends env m s e' := by
  cases hx : e.outbound env m with
  | error fault =>
    simp only [send, hx] at h
    cases h
  | ok x =>
    simp only [send, hx] at h
    obtain ⟨rfl, hresult⟩ := Prod.mk.inj h
    exact ⟨x.numbered e.link.accepted, hx, rfl, Prod.ext rfl hresult⟩

/-- **An accepted message waits to be settled** on all that follows while its session stays started: the link is on
    its course, the message is in the log, and it has not been refused because of its session. -/
structure Tracks (env : Environment σ) (l₀ : Link σ) (s : Submission) (e : Endpoint σ) : Prop where
  course : ∃ log, Link.Course env l₀ log e.link ∧ s.Logged log
  unrefused : e.link.outbox.Unrefused s

/-- A message that has just been accepted is tracked. -/
theorem Sends.tracks {carrier : σ} (hopen : Endpoint.open? env carrier = .ok e) (history : History env e past e')
    (sends : e'.Sends env m s e'') : Tracks env e.link s e'' := by
  have hfresh := Endpoint.accounted_of_open? hopen
  obtain ⟨log, course⟩ := history.course hfresh.locked
  obtain ⟨h, -⟩ := Link.Course.accounted course hfresh
  rw [List.nil_append] at h
  obtain ⟨blocks, htraced⟩ := h.traced
  have hlength : s.number = log.length := sends.number.trans htraced.count.symm
  refine ⟨⟨log ++ [s.toOutbound], course.tail (.submit sends.submit), ?_⟩, ?_⟩
  · unfold Submission.Logged
    rw [hlength, List.getElem?_concat_length]
  · -- nothing was said of its number before
    unfold Outbox.Unrefused
    rw [(Link.outbox_submit h.locked sends.submit).2]
    intro hin
    have hsaid : .told (.fault (.sending s) (.notStarted s.session)) ∈ e'.link.outbox.account s.number :=
      List.mem_filter.mpr ⟨hin, decide_eq_true rfl⟩
    rw [h.known s.number hlength.ge] at hsaid
    cases hsaid

theorem Tracks.history {l₀ : Link σ} (h : Tracks env l₀ s e) (history : History env e new e')
    (hl : e.link.outbox.Locked) (hstays : e.intake.StaysStarted s.session new) : Tracks env l₀ s e' := by
  obtain ⟨log, course, hlogged⟩ := h.course
  obtain ⟨more, course'⟩ := history.course hl
  exact ⟨⟨log ++ more, course.trans course', hlogged.append more⟩, history.unrefused hl hstays h.unrefused⟩

end Endpoint

/-! ## Outcomes -/

namespace Endpoint.Tracks

variable {e₀ e : Endpoint σ} {s : Submission}

/-- There is an account of what has become of a tracked message. -/
theorem accounted {carrier : σ} (hopen : Endpoint.open? env carrier = .ok e₀) (h : Tracks env e₀.link s e) :
    ∃ log, e.link.outbox.Accounted env Frame.OfControl log ∧ s.Logged log := by
  obtain ⟨log, course, hlogged⟩ := h.course
  obtain ⟨haccounted, -⟩ := Link.Course.accounted course (Endpoint.accounted_of_open? hopen)
  exact ⟨log, haccounted, hlogged⟩

/-- **What a tracked message may have ended as.** If there is room for it, it was written unless a frame has failed;
    if there is none, that is what is reported of it. Or else it was dropped. -/
theorem ending {carrier : σ} (hopen : Endpoint.open? env carrier = .ok e₀) (h : Tracks env e₀.link s e)
    (hsize : s.IsSized) {ending : Ending} (hended : e.link.At env s (.ended ending)) :
    ending = .dropped
      ∨ env.settings.HasRoom s.version ∧ (ending = .written ∨ ∃ causes,
          ending = .reported (.transport (.failed causes))
            ∧ ∃ w ∈ e.link.handed, w.number? = some s.number ∧ w.failure = some causes)
      ∨ ¬ env.settings.HasRoom s.version ∧ ending = .reported (env.settings.noRoom s.version) := by
  obtain ⟨log, haccounted, hlogged⟩ := h.accounted hopen
  rcases ((Link.at_iff haccounted hlogged).mp hended).cases_of_unrefused h.unrefused with
    rfl | ⟨⟨message, hframes⟩, hcases⟩ | ⟨message, fault, hframes, rfl⟩
  · exact Or.inl rfl
  · exact Or.inr (Or.inl ⟨(Submission.exists_frames?_iff hsize).mp hframes, hcases⟩)
  · have hroom : ¬ env.settings.HasRoom s.version := by
      intro hroom
      have hok : ∃ frames, s.frames? env message = .ok frames := (Submission.exists_frames?_iff hsize).mpr hroom
      obtain ⟨frames, hok⟩ := hok
      cases hok.symm.trans hframes
    rw [Submission.frames?_of_not_hasRoom hroom] at hframes
    cases hframes
    exact Or.inr (Or.inr ⟨hroom, rfl⟩)

/-- **Left alone, a link that is not shut down settles a tracked message**, and does not drop it. -/
theorem exists_ended {carrier : σ} (hopen : Endpoint.open? env carrier = .ok e₀) {past : List Arrival}
    (history : Endpoint.History env e₀ past e) (h : Tracks env e₀.link s e)
    (hstarted : e.link.sessions.isStarted s.session = true) (hdown : e.link.isShutDown = false) :
    ∃ ms ending, ending ≠ .dropped ∧ (e.sleep env ms).link.At env s (.ended ending)
      ∧ Tracks env e₀.link s (e.sleep env ms) := by
  obtain ⟨log, course, hlogged⟩ := h.course
  obtain ⟨htidy, hcaller⟩ := history.tidy hopen
  obtain ⟨ms, hsettled⟩ := Link.Course.settles (Endpoint.eq_of_open? hopen).1.workers
    (Endpoint.tidy_of_open? hopen) (Endpoint.accounted_of_open? hopen) course hdown hcaller
  obtain ⟨ending, hdropped, hended⟩ := hsettled s hlogged
  have hsleep : Endpoint.History env e [] (e.sleep env ms) := .single (.call (.sleep ms) nofun)
  have hstays : e.intake.StaysStarted s.session [] := by
    intro before hbefore
    rw [List.mem_singleton.mp hbefore]
    exact hstarted
  exact ⟨ms, ending, hdropped, hended, h.history hsleep htidy.locked hstays⟩

/-- **If there is room for a tracked message, only the transport keeps it from being written.** -/
theorem of_hasRoom {carrier : σ} (hopen : Endpoint.open? env carrier = .ok e₀) {past : List Arrival}
    (history : Endpoint.History env e₀ past e) (h : Tracks env e₀.link s e) (hsize : s.IsSized)
    (hstarted : e.link.sessions.isStarted s.session = true) (hroom : env.settings.HasRoom s.version) :
    (∀ fault, e.link.At env s (.ended (.reported fault)) → ∃ causes, fault = .transport (.failed causes)
        ∧ ∃ w ∈ e.link.handed, w.number? = some s.number ∧ w.failure = some causes)
      ∧ (e.link.isShutDown = false → ∃ ms, (e.sleep env ms).link.At env s (.ended .written)
        ∨ ∃ w ∈ (e.sleep env ms).link.handed, w.number? = some s.number ∧ w.failure ≠ none) := by
  constructor
  · intro fault hreported
    rcases h.ending hopen hsize hreported with hcase | ⟨-, hcase | ⟨causes, hcase, hfailed⟩⟩ | ⟨hnone, -⟩
    · cases hcase
    · cases hcase
    · cases hcase
      exact ⟨causes, rfl, hfailed⟩
    · exact absurd hroom hnone
  · intro hdown
    obtain ⟨ms, ending, hdropped, hended, htracks⟩ := h.exists_ended hopen history hstarted hdown
    refine ⟨ms, ?_⟩
    rcases htracks.ending hopen hsize hended with rfl | ⟨-, rfl | ⟨causes, -, w, hw, hnumber, hfailure⟩⟩ | ⟨hnone, -⟩
    · exact absurd rfl hdropped
    · exact Or.inl hended
    · exact Or.inr ⟨w, hw, hnumber, by rw [hfailure]; exact Option.some_ne_none causes⟩
    · exact absurd hroom hnone

/-- **If there is no room for a tracked message, nothing is written of it**, and that is reported. -/
theorem of_not_hasRoom {carrier : σ} (hopen : Endpoint.open? env carrier = .ok e₀) {past : List Arrival}
    (history : Endpoint.History env e₀ past e) (h : Tracks env e₀.link s e) (hsize : s.IsSized)
    (hstarted : e.link.sessions.isStarted s.session = true) (hnone : ¬ env.settings.HasRoom s.version) :
    ¬ e.link.Begun s
      ∧ (e.link.isShutDown = false → ∃ ms,
        (e.sleep env ms).link.At env s (.ended (.reported (env.settings.noRoom s.version)))) := by
  constructor
  · obtain ⟨log, haccounted, hlogged⟩ := h.accounted hopen
    obtain ⟨p, hp⟩ := haccounted.situated s hlogged
    exact hp.not_begun_of_not_hasRoom hnone
  · intro hdown
    obtain ⟨ms, ending, hdropped, hended, htracks⟩ := h.exists_ended hopen history hstarted hdown
    refine ⟨ms, ?_⟩
    rcases htracks.ending hopen hsize hended with rfl | ⟨hroom, -⟩ | ⟨-, rfl⟩
    · exact absurd rfl hdropped
    · exact absurd hroom hnone
    · exact hended

end Endpoint.Tracks

/-- **A message is sent if there is room for it.** A payload that is not too large can be split exactly if the MTU has
    room for an announcement behind a header. All runs are histories. On every history on which the session of an
    accepted message stays started, if there is room for the message, it is reported only because the transport has
    failed one of its frames, and as long as the link is not shut down, there will be a time at which it is written
    in full or a frame of it has failed. If there is no room for it, none of its frames is ever handed over, and as
    long as the link is not shut down, there will be a time at which that is reported. -/
theorem sent_if_room {carrier : σ} {e : Endpoint σ} (hopen : Endpoint.open? env carrier = .ok e) :
    (∀ (envelope : Envelope) (payload : Bytes), payload.length + headerLength envelope.version < Word.count →
        ((∃ frames, envelope.segments payload (env.settings.frameBudget envelope.version) = .ok frames)
          ↔ env.settings.HasRoom envelope.version))
      ∧ (∀ actions, Endpoint.History env e (e.arrivals env actions) (e.run env actions).1)
      ∧ ∀ past e₁ m e₂, Endpoint.History env e past e₁ → e₁.send env m = (e₂, .ok ()) →
        ∃ s, e₁.Sends env m s e₂ ∧ (s.IsSized →
          ∀ new e₃, Endpoint.History env e₂ new e₃ → e₂.intake.StaysStarted s.session new →
            (env.settings.HasRoom s.version →
              (∀ fault, e₃.link.At env s (.ended (.reported fault)) → ∃ causes, fault = .transport (.failed causes)
                ∧ ∃ w ∈ e₃.link.handed, w.number? = some s.number ∧ w.failure = some causes)
              ∧ (e₃.link.isShutDown = false → ∃ ms, (e₃.sleep env ms).link.At env s (.ended .written)
                ∨ ∃ w ∈ (e₃.sleep env ms).link.handed, w.number? = some s.number ∧ w.failure ≠ none))
            ∧ (¬ env.settings.HasRoom s.version →
              ¬ e₃.link.Begun s
              ∧ (e₃.link.isShutDown = false → ∃ ms,
                (e₃.sleep env ms).link.At env s (.ended (.reported (env.settings.noRoom s.version)))))) := by
  refine ⟨fun envelope payload hsize => Envelope.exists_segments_iff hsize,
    fun actions => Endpoint.history_run actions e, ?_⟩
  intro past e₁ m e₂ history hsend
  obtain ⟨s, sends⟩ := Endpoint.exists_sends hsend
  refine ⟨s, sends, fun hsize new e₃ future hstays => ?_⟩
  have hcall : Endpoint.Move env e₁ [] e₂ := by
    have hmove : Endpoint.Move env e₁ [] (e₁.perform env (.send m)) := .call (.send m) nofun
    rwa [show e₁.perform env (.send m) = e₂ from congrArg Prod.fst hsend] at hmove
  have hlocked := Endpoint.History.locked (history.tail hcall) (Endpoint.accounted_of_open? hopen).locked
  have htracks := (sends.tracks hopen history).history future hlocked hstays
  have hwhole : Endpoint.History env e (past ++ [] ++ new) e₃ := (history.tail hcall).trans future
  have hstarted : e₃.intake.sessions.isStarted s.session = true := by
    rw [Endpoint.History.intake future hlocked]
    exact hstays.last
  exact ⟨htracks.of_hasRoom hopen hwhole hsize hstarted, htracks.of_not_hasRoom hopen hwhole hsize hstarted⟩

/-- The peer starts the rpc service of a session in the given version. -/
def greeting : UInt8 → Action
  | 1 => .receive [0x10, 0x07, 0x02, 1, 0, 0, 0, 0]
  | _ => .receive [0x20, 0x07, 0x02, 1, 0, 0, 0, 0, 0, 0, 0, 5]

/-- A message of two bytes. -/
def emptyObject : Message :=
  { version := 1, service := .rpc, session := 1, body := { data := [0x7B, 0x7D] } }

/-- An MTU of 20 leaves just enough room in version 2. -/
theorem sent_if_room_snug :
    ∃ e, Endpoint.open? (faultless 20) 0 = .ok e
      ∧ ∃ s e₂, (e.run (faultless 20) [greeting 2]).1.Sends (faultless 20) emptyObject s e₂
        ∧ s.payload.length = 14
        ∧ ∃ ms, (e₂.sleep (faultless 20) ms).link.At (faultless 20) s (.ended .written)
          ∨ ∃ w ∈ (e₂.sleep (faultless 20) ms).link.handed, w.number? = some s.number ∧ w.failure ≠ none := by
  have hfacts : ∀ e, Endpoint.open? (faultless 20) 0 = .ok e →
      let e₁ := (e.run (faultless 20) [greeting 2]).1
      let e₂ := (e₁.send (faultless 20) emptyObject).1
      (e₁.send (faultless 20) emptyObject).2 = .ok ()
        ∧ ((e₁.outbound (faultless 20) emptyObject).toOption.map
            fun x => (x.session, x.version, x.payload.length)) = some (1, 2, 14)
        ∧ e₂.intake.StaysStarted 1 [] ∧ e₂.link.isShutDown = false := by
    rintro e ⟨⟩
    decide +kernel
  have hopen : Endpoint.open? (faultless 20) 0 = .ok _ := rfl
  obtain ⟨haccepted, houtbound, hstays, hdown⟩ := hfacts _ hopen
  obtain ⟨-, hruns, hsent⟩ := sent_if_room hopen
  obtain ⟨s, sends, houtcome⟩ := hsent _ _ emptyObject _ (hruns [greeting 2]) (Prod.ext rfl haccepted)
  rw [sends.outbound] at houtbound
  obtain ⟨hsession, hversion, hlength⟩ : s.session = 1 ∧ s.version = 2 ∧ s.payload.length = 14 := by
    simpa [Except.toOption] using houtbound
  have hsize : s.IsSized := by
    unfold Submission.IsSized
    rw [hversion, hlength]
    decide
  have hroom : (faultless 20).settings.HasRoom s.version := by
    rw [hversion]
    decide
  obtain ⟨hwritten, -⟩ := houtcome hsize [] _ .refl (hsession ▸ hstays)
  exact ⟨_, rfl, s, _, sends, hlength, (hwritten hroom).2 hdown⟩

/-- **A message may be accepted although there is no room for it**, and the settings break no rule. Its session is
    started all the time, and the transport never fails; but it is not written. -/
theorem accepted_without_room :
    ∃ e, Endpoint.open? (faultless 15) 0 = .ok e
      ∧ let e₁ := (e.run (faultless 15) [greeting 1]).1
        let e₂ := (e₁.send (faultless 15) emptyObject).1
        (e₁.send (faultless 15) emptyObject).2 = .ok ()
          ∧ e₂.intake.StaysStarted 1 []
          ∧ ((e₂.sleep (faultless 15) 1).link.notices.filterMap Notice.reported?).map Prod.snd
            = [.argument (.frameBudgetTooSmall 7)]
          ∧ (e₂.sleep (faultless 15) 1).link.handed = [] := by
  refine ⟨_, rfl, ?_⟩
  decide +kernel

end HeadLink
