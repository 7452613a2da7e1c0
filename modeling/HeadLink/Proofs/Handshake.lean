import HeadLink.Proofs.Capacity
import HeadLink.Proofs.Correlation
import HeadLink.Proofs.Feeding
import HeadLink.Proofs.Isolation

/-!
# The end of a service

A service is ended by asking the peer for it and getting an answer. The request names the version of the session and
the token of the service, and the answer repeats them. Both are taken from the table of sessions, once when the
request is written and once more when the answer is held against it. In between, nothing but the control frames of
the session can change them, so the answer is believed. The header of a version 1 request has no room for the token,
and the answer comes back without it; but then the session has version 1 as well, and there it need not name it.

That the request is written at all, and written once, is due to the lock: a caller that wants it gets it, and
meanwhile the workers write nothing but frames of messages.

## Contents
- **Control frames.** `Link.controls`; a caller adds one frame to them (`Link.Tidy.controls_write`).
- **Tidings.** `Link.tidings`: what the listener is told of a session.
- **Other sessions.** `Endpoint.Spares`: nothing happens to a session while no control frame of it arrives
  (`Endpoint.History.spares`).
- **Ends.** `Endpoint.Closes`, what the end of a service brings, and `Frame.Confirms`, which answers bring it.
- **Deframing.** A run does not change the ceiling (`Endpoint.ceiling_run`), so the bytes of an answer arrive.
- **The handshake.** `end_handshake_closes`.
-/

namespace HeadLink

variable {σ : Type} {env : Environment σ}

/-! ## Control frames -/

namespace Outbox

variable {o o' : Outbox}

/-- The frames that were handed over outside of messages, in order. -/
def controls (o : Outbox) : List Frame := (o.handed.filter fun w => w.number? = none).map Written.frame

theorem controls_note (o : Outbox) (entry : Entry) : (o.note entry).controls
    = o.controls ++ (entry.written?.toList.filter fun w => w.number? = none).map Written.frame := by
  unfold controls
  rw [handed_note, List.filter_append, List.map_append]

/-- What is handed over for a message is no control frame, and what is not handed over is none either. -/
theorem controls_note_of_none {entry : Entry} (h : (entry.written?.toList.filter fun w => w.number? = none) = [])
    (o : Outbox) : (o.note entry).controls = o.controls := by
  rw [controls_note, h]
  exact List.append_nil _

/-- **Workers write no control frames.** -/
theorem Work.controls (work : Work env o o') : o'.controls = o.controls := by
  have htake (s : Submission) (queue : List Submission) : (o.take s queue).controls = o.controls := by
    have htaken : (o.note (.taken s)).controls = o.controls := controls_note_of_none rfl o
    exact htaken
  cases work with
  | rest | grant | finish => rfl
  | refuse hqueue hprepared => rw [controls_note_of_none rfl, htake]
  | @takeOn id s queue job hturn hworker hgrip hqueue hprepared =>
    rw [← htake s queue]
    unfold startJob
    split <;> rfl
  | @hand id job f left failure hturn hgrip hleft hanswer =>
    have hwritten : (o.note (.written job.origin f failure)).controls = o.controls := controls_note_of_none rfl o
    exact hwritten
  | giveUp hturn hgrip => exact controls_note_of_none rfl o.release

theorem Works.controls (works : Works env o o') : o'.controls = o.controls := by
  induction works with
  | refl => rfl
  | tail _ work ih => exact work.controls.trans ih

end Outbox

namespace Link

variable {l : Link σ}

/-- The frames that were handed over outside of messages, in order. -/
def controls (l : Link σ) : List Frame := l.outbox.controls

theorem controls_acquire (env : Environment σ) (l : Link σ) : (l.acquire env).controls = l.controls := by
  unfold acquire
  dsimp only
  split
  · rfl
  · exact (Outbox.Works.controls (awaitLock_works env l.callsAhead _)).trans rfl

/-- **A caller that writes a frame hands it over once**, whether it has to wait for the lock or not, and whether the
    transport fails or not. Nobody else writes a control frame meanwhile. -/
theorem Tidy.controls_write (hworkers : 0 < env.settings.maxWorkers) (h : l.Tidy) (f : Frame) :
    (l.write env [f]).1.controls = l.controls ++ [f] := by
  obtain ⟨-, hholder, -⟩ := h.acquire hworkers
  let handed := (l.acquire env).handOver env .control f
  have hhand : handed.1.controls = l.controls ++ [f] := by
    rw [← controls_acquire env l]
    show handed.1.outbox.controls = _
    rw [outbox_handOver, Outbox.controls_note]
    rfl
  have hsleep : (handed.1.sleep env handed.2.delay).controls = l.controls ++ [f] :=
    (Outbox.Works.controls (sleep_works env _ _)).trans hhand
  have hrelease (l : Link σ) : l.release.controls = l.controls := by
    unfold controls
    rw [outbox_release]
    rfl
  unfold Link.write
  dsimp only
  rw [if_pos hholder, hrelease, ← hsleep]
  unfold writeEach writeEach
  dsimp only
  split <;> rfl

end Link

/-! ## Tidings -/

/-- Whether the listener is told something about the services of the session. -/
def Notice.isAbout (session : UInt8) : Notice → Bool
  | .serviceStarted _ s _ | .serviceEnded _ s _ | .sessionStarted s _ => s = session
  | _ => false

theorem Notice.isAbout_of_not {n : Notice} (hn : n.isOfServices = false) (session : UInt8) :
    n.isAbout session = false := by
  cases n <;> first | rfl | cases hn

/-- What the listener was told about the services of a session, in order. -/
def Link.tidings (l : Link σ) (session : UInt8) : List Notice := l.notices.filter (Notice.isAbout session)

/-- The header that says what the peer says of a service. -/
def Ruling.header : Ruling → Header
  | .started h | .ended h => h

/-- **A ruling on one session** leaves the others as they are, and the listener is told nothing of them. -/
theorem Intake.follow_of_ne {r : Ruling} {session : UInt8} (hother : r.header.session ≠ session) (i : Intake) :
    (i.follow r).sessions.get? session = i.sessions.get? session
      ∧ (i.told r).filter (Notice.isAbout session) = [] := by
  cases r with
  | started h =>
    have hne : h.session ≠ session := hother
    refine ⟨Sessions.get?_start_of_ne hne.symm _ _ _, ?_⟩
    by_cases hrpc : h.service = .rpc
    · simp [told, Notice.isAbout, hrpc, hne]
    · simp [told, Notice.isAbout, hrpc, hne]
  | ended h =>
    have hne : h.session ≠ session := hother
    by_cases hbelieved : i.believes h = true
    · simp only [follow, told, if_pos hbelieved]
      exact ⟨Sessions.get?_stop_of_ne hne.symm _, by simp [Notice.isAbout, hne]⟩
    · simp [follow, told, hbelieved]

namespace Endpoint

variable {e e' e'' : Endpoint σ} {session : UInt8}

theorem sessions_foldl_tell (notices : List Notice) (e : Endpoint σ) :
    (notices.foldl tell e).link.sessions = e.link.sessions :=
  foldl_keeps (f := fun e => e.link.sessions) (g := tell) (fun _ _ _ => rfl) e

theorem notices_foldl_tell (notices : List Notice) (e : Endpoint σ) :
    (notices.foldl tell e).link.notices = e.link.notices ++ notices := by
  induction notices generalizing e with
  | nil => exact (List.append_nil _).symm
  | cons n notices ih =>
    rw [List.foldl_cons, ih, notices_tell, List.append_assoc]
    rfl

/-- **What the peer says of a service** changes the intake, and the listener is told. -/
theorem onArrival_eq_of_ruling (env : Environment σ) {a : Arrival} {r : Ruling} (hruling : a.ruling? = some r)
    (e : Endpoint σ) :
    e.onArrival env a = (e.intake.told r).foldl tell (e.withIntake (e.intake.follow r)) := by
  rw [onArrival_of_ruling hruling]
  cases r with
  | started h => exact @noteStarted_eq σ env e h
  | ended h => exact @noteEnded_eq σ env e h

/-! ## Other sessions -/

/-- **Nothing happens to a session**, and the listener is told nothing of it. -/
structure Spares (session : UInt8) (e e' : Endpoint σ) : Prop where
  kept : e'.link.sessions.get? session = e.link.sessions.get? session
  tidings : e'.link.tidings session = e.link.tidings session

theorem Spares.refl (session : UInt8) (e : Endpoint σ) : e.Spares session e := ⟨rfl, rfl⟩

theorem Spares.trans (first : Spares session e e') (second : Spares session e' e'') : Spares session e e'' :=
  ⟨second.kept.trans first.kept, second.tidings.trans first.tidings⟩

/-- Quiet changes spare every session. -/
theorem Quiet.spares (h : e.Quiet e') (session : UInt8) : Spares session e e' := by
  obtain ⟨more, htold, hmore⟩ := h.outbox.told
  have hnotices : e'.link.notices = e.link.notices ++ more := htold
  have hsessions : e'.link.sessions = e.link.sessions := h.outbox.sessions
  refine ⟨congrArg (Table.get? · session) hsessions, ?_⟩
  have hnone : more.filter (Notice.isAbout session) = [] := by
    simp only [List.filter_eq_nil_iff, Bool.not_eq_true]
    exact fun n hn => Notice.isAbout_of_not (hmore n hn) session
  unfold Link.tidings
  rw [hnotices, List.filter_append, hnone, List.append_nil]

/-- What the peer says of a service spares all other sessions. -/
theorem spares_of_ruling {a : Arrival} {r : Ruling} (hruling : a.ruling? = some r) (hother : r.header.session ≠ session)
    (e : Endpoint σ) : Spares session e (e.onArrival env a) := by
  obtain ⟨hkept, htold⟩ := e.intake.follow_of_ne hother
  rw [onArrival_eq_of_ruling env hruling]
  constructor
  · rw [sessions_foldl_tell]
    exact hkept
  · unfold Link.tidings
    rw [notices_foldl_tell, List.filter_append, htold]
    exact List.append_nil _

/-- **Only control frames of a session concern it.** -/
theorem spares_onArrival (hl : e.link.outbox.Locked) {a : Arrival}
    (hother : ∀ f, a = .ok f → f.header.type = .control → f.header.session ≠ session) :
    Spares session e (e.onArrival env a) := by
  cases a with
  | error fault => exact (quiet_onArrival hl rfl).spares session
  | ok f =>
    by_cases hcontrol : f.header.type = .control
    · have hruling : Arrival.ruling? (.ok f) = f.header.ruling? := if_pos hcontrol
      rcases f.header.ruling?_eq with hnone | hstarted | hended
      · exact (quiet_onArrival hl (hruling.trans hnone)).spares session
      · exact spares_of_ruling (hruling.trans hstarted) (hother f rfl hcontrol) e
      · exact spares_of_ruling (hruling.trans hended) (hother f rfl hcontrol) e
    · have hruling : Arrival.ruling? (.ok f) = none := if_neg hcontrol
      exact (quiet_onArrival hl hruling).spares session

/-- **While no control frame of a session arrives, nothing happens to it.** -/
theorem History.spares {past : List Arrival} (history : History env e past e') (hl : e.link.outbox.Locked)
    (hother : ∀ f, .ok f ∈ past → f.header.type = .control → f.header.session ≠ session) :
    Spares session e e' := by
  induction history with
  | refl => exact .refl session e
  | tail before move ih =>
    have hlocked := History.locked before hl
    refine (ih fun f hf => hother f (List.mem_append_left _ hf)).trans ?_
    rcases move.quiet_or_arrive hlocked with ⟨-, hquiet⟩ | ⟨a, rfl, rfl⟩
    · exact hquiet.spares session
    · refine spares_onArrival hlocked fun f hf => hother f (List.mem_append_right _ ?_)
      exact List.mem_singleton.mpr hf.symm

/-! ## Ends -/

/-- **What the end of a service brings.** The listener is told of it, once, and of nothing else that concerns the
    session; the service is started no longer; and the session is removed exactly if the service is the rpc service
    or was the last one of the session. -/
structure Closes (service : ServiceType) (session version : UInt8) (e e' : Endpoint σ) : Prop where
  tidings : e'.link.tidings session = e.link.tidings session ++ [.serviceEnded service session version]
  ended : e'.link.sessions.token? session service = none
  removed : e'.link.sessions.isStarted session = false
    ↔ service = .rpc ∨ ∀ other, other ≠ service → e.link.sessions.token? session other = none

/-- It does not matter what has happened to other sessions before. -/
theorem Spares.closes {service : ServiceType} {version : UInt8} (h : Spares session e e')
    (hcloses : Closes service session version e' e'') : Closes service session version e e'' := by
  have htokens (other : ServiceType) : e'.link.sessions.token? session other = e.link.sessions.token? session other := by
    unfold Sessions.token?
    rw [h.kept]
  refine ⟨by rw [hcloses.tidings, h.tidings], hcloses.ended, ?_⟩
  rw [hcloses.removed]
  simp only [htokens]

/-- **An end that is believed ends its service.** -/
theorem closes_of_believed {a : Arrival} {h : Header} {service : ServiceType} {version : UInt8}
    (hruling : a.ruling? = some (.ended h)) (hbelieved : e.intake.believes h = true) (hservice : h.service = service)
    (hsession : h.session = session) (hstarted : (e.link.sessions.token? session service).isSome)
    (hversion : e.link.sessions.version? session = some version) :
    Closes service session version e (e.onArrival env a) := by
  subst hservice hsession
  have hsessions : (e.onArrival env a).link.sessions = (e.link.sessions.stop h.session h.service).1 := by
    rw [onArrival_eq_of_ruling env hruling, sessions_foldl_tell]
    show (e.intake.follow (.ended h)).sessions = _
    unfold Intake.follow
    dsimp only
    rw [if_pos hbelieved]
    rfl
  have htold : e.intake.told (.ended h) = [.serviceEnded h.service h.session version] := by
    have hof : e.intake.versionOf h = version := by
      unfold Intake.versionOf
      exact congrArg (Option.getD · h.version) hversion
    simp [Intake.told, hbelieved, hof]
  refine ⟨?_, ?_, ?_⟩
  · unfold Link.tidings
    rw [onArrival_eq_of_ruling env hruling, notices_foldl_tell, htold, List.filter_append]
    simp [Notice.isAbout, withIntake, Link.notices]
  · rw [hsessions]
    exact Sessions.token?_stop_self
  · rw [hsessions]
    exact Sessions.stop_removes_iff hstarted

end Endpoint

/-- **The frame confirms the end that the header asks for**: it repeats what the header says, with or without the
    token in the payload. -/
structure Frame.Confirms (request : Header) (f : Frame) : Prop where
  type : f.header.controlType? = some .endService ∨ f.header.controlType? = some .endServiceAck
  version : f.header.version = request.version
  service : f.header.service = request.service
  session : f.header.session = request.session
  message : f.header.message = request.message
  size : f.header.size.toNat = f.payload.length
  payload : f.payload = [] ∨ f.payload.length = 4

namespace Frame.Confirms

variable {request : Header} {f : Frame}

/-- The peer says that the service has ended. -/
theorem ruling? (h : f.Confirms request) : Arrival.ruling? (.ok f) = some (.ended f.header) := by
  have hcontrol : f.header.type = .control := by
    by_contra hother
    have hnone : f.header.controlType? = none := if_neg hother
    simpa [hnone] using h.type
  have hruling : Arrival.ruling? (.ok f) = f.header.ruling? := if_pos hcontrol
  rw [hruling, Header.ruling?]
  rcases h.type with htype | htype <;> rw [htype]

/-- What repeats a header that fits the layout fits it as well. -/
theorem fits (h : f.Confirms request) (hrequest : request.Fits) {ceiling : UInt32} (hceiling : 4 ≤ ceiling) :
    f.Fits ceiling where
  header := by
    refine ⟨h.version ▸ hrequest.one_le, h.version ▸ hrequest.le_fifteen, ?_⟩
    rw [h.version, h.message]
    exact hrequest.message_eq
  size := h.size
  within := by
    have hshort : f.payload.length ≤ 4 := by
      rcases h.payload with hempty | hfour
      · simp [hempty]
      · exact Nat.le_of_eq hfour
    refine UInt32.le_trans ?_ hceiling
    rw [UInt32.le_iff_toNat_le, h.size]
    exact hshort

end Frame.Confirms

/-- **A confirmation is believed**, as long as the table has the version and the token that were asked with. From
    version 2 on it names the token, and below no token is needed. -/
theorem Intake.believes_of_confirms {i : Intake} {session version : UInt8} {service : ServiceType} {token size : UInt32}
    {f : Frame} (hversion : i.sessions.version? session = some version)
    (htoken : i.sessions.token? session service = some token)
    (h : f.Confirms (.control version service session .endService token size)) : i.believes f.header = true := by
  obtain ⟨-, -, hservice, hsession, hmessage, -, -⟩ := h
  have hof : i.versionOf f.header = version := by
    unfold versionOf
    rw [hsession]
    exact congrArg (Option.getD · f.header.version) hversion
  unfold believes
  rw [hof, hservice, hsession, hmessage]
  by_cases h2 : 2 ≤ version
  · have hnamed : Header.messageFor version token = token := if_pos h2
    simpa [Header.control, hnamed] using Or.inr htoken
  · simp [UInt8.not_le.mp h2]

/-! ## Deframing -/

namespace Endpoint

variable {e : Endpoint σ}

theorem ceiling_perform (env : Environment σ) (e : Endpoint σ) (a : Action) :
    (e.perform env a).deframer.ceiling = e.deframer.ceiling := by
  by_cases own : ∀ chunk, a ≠ .receive chunk
  · obtain ⟨link, hlink⟩ := exists_link_perform env e own
    rw [hlink]
  · simp only [ne_eq, not_forall, not_not] at own
    obtain ⟨chunk, rfl⟩ := own
    show (e.receive env chunk).deframer.ceiling = _
    rw [deframer_receive, Deframer.ceiling_push]

/-- **On every run the ceiling is that of the settings.** -/
theorem ceiling_run {carrier : σ} (hopen : Endpoint.open? env carrier = .ok e) (actions : List Action) :
    (e.run env actions).1.deframer.ceiling = env.settings.maxFramePayload := by
  have hkept (e : Endpoint σ) : (e.run env actions).1.deframer.ceiling = e.deframer.ceiling := by
    induction actions generalizing e with
    | nil => rfl
    | cons a actions ih => exact (ih _).trans (ceiling_perform env e a)
  obtain ⟨-, rfl⟩ := Endpoint.eq_of_open? hopen
  exact hkept _

/-- The bytes of a frame, in whatever chunks they come, are the arrival of the frame. -/
theorem foldl_receive_frame (env : Environment σ) (hidle : e.deframer.isIdle = true) {f : Frame}
    (hfits : f.Fits e.deframer.ceiling) {chunks : List Bytes} (hchunks : chunks.flatten = f.encode) :
    (chunks.foldl (receive env) e).link = (e.onArrival env (.ok f)).link := by
  have hphase := Deframer.phase_of_isIdle hidle
  rw [foldl_receive, Deframer.pushAll_eq_push (Deframer.sound_of_header_nil hphase), hchunks,
    Deframer.push_frame hphase hfits]
  rfl

end Endpoint

/-! ## The handshake -/

namespace Endpoint

variable {e : Endpoint σ}

/-- **What an endpoint asks with.** The frame that asks for the end of a started service is read back as a request
    with the version of the session and the token of the service. -/
theorem decode?_endFrame {session version : UInt8} {service : ServiceType} {token : UInt32} (h : e.Steady env)
    (htoken : e.link.sessions.token? session service = some token)
    (hversion : e.link.sessions.version? session = some version) :
    (Header.control version service session .endService token 4).Fits
      ∧ Header.decode? (e.endFrame service session).encode
        = .ok (.control version service session .endService token 4, Word.encode token) := by
  obtain ⟨log, houtbox⟩ := h.outbox
  have hvalid : ValidVersion version := houtbox.sessions session version hversion
  have hframe : e.endFrame service session
      = { header := .control version service session .endService token 4, payload := Word.encode token } := by
    unfold endFrame
    rw [hversion, htoken]
    rfl
  rw [hframe]
  exact ⟨fits_control hvalid .., (isControl_endService hvalid service session token).fits.isWhole.decode⟩

end Endpoint

/-- **The handshake that ends a service always closes.** All runs are histories in which the headers that arrive fit
    the layout, and the ceiling of the deframer is that of the settings. At every moment of every such history, for
    each service that is started: asking for its end hands over one control frame, which is read back as a request to
    end this service, in the version of its session. Whatever comes of the endpoint then, if no control frame of the
    session arrives before the answer, the answer closes the service. This is so if the answer is dealt with as a
    frame, and it is so for its bytes in whatever chunks they come between two frames. -/
theorem end_handshake_closes {carrier : σ} {e : Endpoint σ} (hopen : Endpoint.open? env carrier = .ok e) :
    (∀ actions, Endpoint.History env e (e.arrivals env actions) (e.run env actions).1
        ∧ Endpoint.Legible (e.arrivals env actions)
        ∧ (e.run env actions).1.deframer.ceiling = env.settings.maxFramePayload)
      ∧ ∀ past e₁, Endpoint.History env e past e₁ → Endpoint.Legible past → ∀ session service token version,
        e₁.link.sessions.token? session service = some token → e₁.link.sessions.version? session = some version →
          (e₁.endService env service session).1.link.controls
              = e₁.link.controls ++ [e₁.endFrame service session]
            ∧ ∃ request, Header.decode? (e₁.endFrame service session).encode = .ok (request, Word.encode token)
              ∧ request.controlType? = some .endService ∧ request.service = service ∧ request.session = session
              ∧ request.version = version
              ∧ ∀ between e₂, Endpoint.History env (e₁.endService env service session).1 between e₂ →
                (∀ f, .ok f ∈ between → f.header.type = .control → f.header.session ≠ session) →
                  ∀ answer : Frame, answer.Confirms request →
                    Endpoint.Closes service session version e₁ (e₂.onArrival env (.ok answer))
                      ∧ (e₂.deframer.isIdle = true → e₂.deframer.ceiling = env.settings.maxFramePayload →
                        ∀ chunks : List Bytes, chunks.flatten = answer.encode →
                          Endpoint.Closes service session version e₁ (chunks.foldl (Endpoint.receive env) e₂)) := by
  have hrules := (Endpoint.eq_of_open? hopen).1
  have hfresh := Endpoint.Ordered.fresh hopen
  refine ⟨fun actions => ⟨Endpoint.history_run actions e, hfresh.fits_of_mem_arrivals actions,
    Endpoint.ceiling_run hopen actions⟩, ?_⟩
  intro past e₁ history hpast session service token version htoken hversion
  obtain ⟨htidy, -⟩ := history.tidy hopen
  obtain ⟨hfits, hdecode⟩ := Endpoint.decode?_endFrame (history.steady hpast hfresh.steady) htoken hversion
  refine ⟨htidy.controls_write hrules.workers _, _, hdecode, rfl, rfl, rfl, rfl, ?_⟩
  intro between e₂ later hother answer hconfirms
  have hasked : Endpoint.History env e₁ [] (e₁.endService env service session).1 :=
    .single (.call (.endService service session) nofun)
  -- nothing has happened to the session since it was asked for the end of its service
  have hspares : Endpoint.Spares session e₁ e₂ :=
    Endpoint.History.spares (hasked.trans later) htidy.locked fun f hf => hother f (by simpa using hf)
  have htoken' : e₂.link.sessions.token? session service = some token := by
    rw [← htoken]
    exact congrArg (Option.bind · _) hspares.kept
  have hversion' : e₂.link.sessions.version? session = some version := by
    rw [← hversion]
    exact congrArg (Option.map Session.version) hspares.kept
  have hcloses : Endpoint.Closes service session version e₁ (e₂.onArrival env (.ok answer)) := by
    have hbelieved : e₂.intake.believes answer.header = true :=
      Intake.believes_of_confirms hversion' htoken' hconfirms
    exact hspares.closes (Endpoint.closes_of_believed hconfirms.ruling? hbelieved hconfirms.service
      hconfirms.session (by simp [htoken']) hversion')
  refine ⟨hcloses, fun hidle hceiling chunks hchunks => ?_⟩
  -- a payload of 4 bytes is within the ceiling, which is no lower than the MTU
  have hfour : 4 ≤ e₂.deframer.ceiling := by
    have hmtu := hrules.mtu
    have hpayload := hrules.framePayload
    rw [hceiling, UInt32.le_iff_toNat_le]
    show 4 ≤ _
    omega
  have hlink := Endpoint.foldl_receive_frame env hidle (hconfirms.fits hfits hfour) hchunks
  obtain ⟨htidings, hended, hremoved⟩ := hcloses
  exact ⟨by rwa [hlink], by rwa [hlink], by rwa [hlink]⟩

/-- The peer starts another session. -/
def diversion : List Action := [.sleep 5, .receive [0x20, 0x07, 0x02, 2, 0, 0, 0, 0, 0, 0, 0, 7]]

/-- A service that was started in version 2 is ended after its session was started anew in version 1, and another
    session is started before the answer comes. Neither the header of the request nor the answer has room for the
    token of the service, but the service ends, and the rpc service keeps its session. -/
theorem end_handshake_closes_demotion :
    ∃ e, Endpoint.open? contention 0 = .ok e ∧
      let e₁ := (e.run contention demotion).1
      let e₂ := ((e₁.endService contention .nav 1).1.run contention diversion).1
      let e₃ := [[0x10, 0x0B, 0x05], [1, 0, 0, 0, 0]].foldl (Endpoint.receive contention) e₂
      e₁.endFrame .nav 1 = ⟨.control 1 .nav 1 .endService 0 4, [0, 0, 0, 5]⟩
        ∧ (e₁.endService contention .nav 1).1.link.controls = e₁.link.controls ++ [e₁.endFrame .nav 1]
        ∧ Endpoint.Closes .nav 1 1 e₁ e₃ ∧ e₃.link.sessions.isStarted 1 = true := by
  have hfacts : ∀ e, Endpoint.open? contention 0 = .ok e →
      let e₁ := (e.run contention demotion).1
      let asked := (e₁.endService contention .nav 1).1
      let e₂ := (asked.run contention diversion).1
      e₁.link.sessions.token? 1 .nav = some 5 ∧ e₁.link.sessions.version? 1 = some 1
        ∧ e₁.endFrame .nav 1 = ⟨.control 1 .nav 1 .endService 0 4, [0, 0, 0, 5]⟩
        ∧ asked.arrivals contention diversion = [.ok ⟨.control 2 .rpc 2 .startServiceAck 7 0, []⟩]
        ∧ e₂.deframer.isIdle = true ∧ e₂.deframer.ceiling = contention.settings.maxFramePayload
        ∧ ([[0x10, 0x0B, 0x05], [1, 0, 0, 0, 0]].foldl (Endpoint.receive contention) e₂).link.sessions.isStarted 1
          = true := by
    rintro e ⟨⟩
    decide +kernel
  have hopen : Endpoint.open? contention 0 = .ok _ := rfl
  obtain ⟨htoken, hversion, hframe, harrivals, hidle, hceiling, hstarted⟩ := hfacts _ hopen
  obtain ⟨hruns, hhandshake⟩ := end_handshake_closes hopen
  obtain ⟨history, hlegible, -⟩ := hruns demotion
  obtain ⟨hcontrols, request, hdecode, -, -, -, -, hanswer⟩ := hhandshake _ _ history hlegible 1 .nav 5 1 htoken hversion
  have hread : Header.decode? (Frame.encode ⟨.control 1 .nav 1 .endService 0 4, [0, 0, 0, 5]⟩)
      = .ok (.control 1 .nav 1 .endService 0 4, Word.encode 5) := rfl
  rw [hframe, hread] at hdecode
  cases hdecode
  obtain ⟨-, hbytes⟩ := hanswer _ _ (Endpoint.history_run diversion _) (by rw [harrivals]; simp [Header.control])
    (.control 1 .nav 1 .endServiceAck) ⟨.inr rfl, rfl, rfl, rfl, rfl, rfl, .inl rfl⟩
  exact ⟨_, rfl, hframe, hcontrols, hbytes hidle hceiling _ rfl, hstarted⟩

end HeadLink
