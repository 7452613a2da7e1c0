import Mathlib.Data.List.Forall2
import HeadLink.Endpoint.Receive
import HeadLink.Endpoint.Request
import HeadLink.Proofs.Alignment
import HeadLink.Proofs.Blocks
import HeadLink.Proofs.BodyCodec
import HeadLink.Proofs.SessionTable
import HeadLink.Proofs.Simulation

/-!
# Runs of an endpoint

An endpoint is driven from outside: messages are sent, services are started and ended, bytes come in, time
passes, the endpoint is closed. Whatever the order, it keeps to versions that fit into a header, and what it
hands to its transport is blocks of frames that belong to the messages it has accepted.

## Contents
- **Runs.** `Action`, `Endpoint.perform` and `Endpoint.run`, with the log of the messages that were
  accepted.
- **Control frames.** `Frame.IsControl`: the frames that are written outside of messages.
- **Outboxes.** `Outbox.Ordered` joins what is known of an outbox to the log.
- **Endpoints.** `Endpoint.Ordered` is what every action preserves (`Endpoint.Ordered.perform`) and every
  run (`Endpoint.Ordered.run`).
-/

namespace HeadLink

/-! ## Runs -/

/-- Something that is done to an endpoint. -/
inductive Action where
  | send (m : Message)
  | startSession (session : UInt8)
  | startService (service : ServiceType) (session : UInt8)
  | endService (service : ServiceType) (session : UInt8)
  | receive (chunk : Bytes)
  | sleep (ms : Nat)
  | close
  deriving DecidableEq

/-- A message that was accepted for sending, and the version of its session at that moment. -/
structure Accepted where
  message : Message
  version : UInt8
  deriving DecidableEq

/-- What the peer is to get: a request in the version of the session, on the service that the message is
    sent on. Version 1 carries nothing but the data, and empty bulk data is the same as none. -/
def Accepted.atPeer (a : Accepted) : Message where
  version := a.version
  service := a.message.outboundService
  session := a.message.session
  body :=
    if 2 ≤ a.version then { a.message.body with rpcType := .request }.withBulk a.message.body.bulkBytes
    else { rpcType := .request, data := a.message.body.data }

theorem Accepted.asReceived_asRequest (a : Accepted) :
    (Endpoint.asRequest a.message a.version).asReceived a.version = a.atPeer := rfl

namespace Endpoint

variable {σ : Type} (env : Environment σ)

/-- What becomes of an endpoint with an action. -/
def perform (e : Endpoint σ) : Action → Endpoint σ
  | .send m => (e.send env m).1
  | .startSession session => (e.startSession env session).1
  | .startService service session => (e.startService env service session).1
  | .endService service session => (e.endService env service session).1
  | .receive chunk => e.receive env chunk
  | .sleep ms => e.sleep env ms
  | .close => e.close

/-- The message that is accepted with an action, if one is. -/
def accepts (e : Endpoint σ) : Action → List Accepted
  | .send m =>
    match (e.send env m).2, e.link.sessions.version? m.session with
    | .ok (), some version => [{ message := m, version }]
    | _, _ => []
  | _ => []

/-- What becomes of an endpoint with actions, and the messages that are accepted, in order. -/
def run (e : Endpoint σ) : List Action → Endpoint σ × List Accepted
  | [] => (e, [])
  | a :: actions =>
    let (e', more) := run (e.perform env a) actions
    (e', e.accepts env a ++ more)

end Endpoint

/-! ## Valid settings -/

/-- A version that fits into a header. -/
structure ValidVersion (version : UInt8) : Prop where
  one_le : 1 ≤ version
  le_fifteen : version ≤ 15

/-- The rules that settings keep if none is broken. -/
structure Settings.Rules (s : Settings) : Prop where
  mtu : 12 < s.mtu
  framePayload : s.mtu ≤ s.maxFramePayload.toNat
  openMessages : 0 < s.maxOpenMessages
  workers : 0 < s.maxWorkers
  minWorkers : s.minWorkers ≤ s.maxWorkers
  initialVersion : ValidVersion s.initialVersion
  receiveBuffer : 0 < s.receiveBufferSize

theorem Settings.fault?_eq_none_iff {s : Settings} : s.fault? = none ↔ s.Rules := by
  unfold Settings.fault?
  constructor
  · intro h
    -- a rule that is broken gives a fault, so all conditions are false
    repeat' split at h
    all_goals try cases h
    rename_i hmtu hframe hopen hmax hmin hversion hbuffer
    rw [not_or, UInt8.not_lt, UInt8.not_lt] at hversion
    exact ⟨by omega, by omega, by omega, by omega, by omega, ⟨hversion.1, hversion.2⟩, by omega⟩
  · rintro ⟨hmtu, hframe, hopen, hmax, hmin, ⟨hone, hfifteen⟩, hbuffer⟩
    have hversion : ¬ (s.initialVersion < 1 ∨ 15 < s.initialVersion) := by
      rw [not_or, UInt8.not_lt, UInt8.not_lt]
      exact ⟨hone, hfifteen⟩
    rw [if_neg (by omega), if_neg (by omega), if_neg (by omega), if_neg (by omega), if_neg (by omega),
      if_neg hversion, if_neg (by omega)]

/-! ## Control frames -/

/-- A frame that may be written outside of messages: a control frame with a payload of at most 4 bytes, which is
    empty unless the frame ends a service. -/
structure Frame.IsControl (f : Frame) : Prop where
  type : f.header.type = .control
  fits : f.Fits 4
  length_payload : f.payload.length = if f.header.detail = ControlType.endService.code then 4 else 0

/-- The header of a control frame fits the layout. -/
theorem fits_control {version : UInt8} (h : ValidVersion version) (service : ServiceType)
    (session : UInt8) (type : ControlType) (message size : UInt32) :
    (Header.control version service session type message size).Fits where
  one_le := h.one_le
  le_fifteen := h.le_fifteen
  message_eq h2 := if_neg h2

theorem isControl_control {version : UInt8} (h : ValidVersion version) (service : ServiceType)
    (session : UInt8) (type : ControlType) (hother : type ≠ .endService) :
    (Frame.control version service session type).IsControl where
  type := rfl
  fits := ⟨fits_control h service session type 0 0, rfl, (by decide : (0 : UInt32) ≤ 4)⟩
  length_payload := by
    refine (if_neg ?_).symm
    show type.code ≠ ControlType.endService.code
    cases type <;> first | exact absurd rfl hother | decide

theorem isControl_endService {version : UInt8} (h : ValidVersion version) (service : ServiceType)
    (session : UInt8) (token : UInt32) :
    ({ header := .control version service session .endService token 4,
       payload := Word.encode token } : Frame).IsControl where
  type := rfl
  fits := ⟨fits_control h service session .endService token 4, (Word.length_encode token).symm,
    UInt32.le_refl 4⟩
  length_payload := rfl

/-! ## Outboxes -/

/-- The versions of all sessions fit into headers. -/
def Sessions.Valid (s : Sessions) : Prop :=
  ∀ session version, s.version? session = some version → ValidVersion version

namespace Sessions

theorem Valid.start {s : Sessions} (h : s.Valid) {version : UInt8} (hv : ValidVersion version)
    (session : UInt8) (service : ServiceType) (token : UInt32) :
    (s.start session service version token).Valid := by
  intro session' version' hversion
  rw [version?_start] at hversion
  split at hversion
  · cases hversion
    exact hv
  · exact h _ _ hversion

theorem Valid.stop {s : Sessions} (h : s.Valid) (session : UInt8) (service : ServiceType) :
    (s.stop session service).1.Valid :=
  fun _ _ hversion => h _ _ (version?_of_stop hversion)

end Sessions

/-- What is queued for a message that was accepted. -/
structure Accepted.Queued {σ : Type} (env : Environment σ) (a : Accepted) (x : Outbound) : Prop where
  valid : ValidVersion a.version
  version : x.version = a.version
  service : x.service = (Endpoint.asRequest a.message a.version).outboundService
  session : x.session = a.message.session
  correlationId : x.correlationId = a.message.body.correlationId
  payload : (Endpoint.asRequest a.message a.version).payload a.version = .ok x.payload
  length_le : x.payload.length ≤ env.settings.maxMessageSize

namespace Outbox

variable {σ : Type} {env : Environment σ} {log : List Accepted} {o o' : Outbox}

/-- An outbox keeps to the lock, to the messages of the log, and to versions that fit into headers. -/
structure Ordered (env : Environment σ) (log : List Accepted) (o : Outbox) : Prop where
  locked : o.Locked
  traced : ∃ queued blocks, List.Forall₂ (Accepted.Queued env) log queued
    ∧ Traced env Frame.IsControl queued blocks o
  sessions : o.sessions.Valid

theorem Work.sessions (work : Work env o o') : o'.sessions = o.sessions := by
  cases work with
  | takeOn hturn hworker hgrip hqueue hprepared =>
    unfold startJob
    split <;> rfl
  | rest | refuse | grant | hand | finish | giveUp => rfl

theorem Steps.sessions {allowed : Frame → Prop} (steps : Steps env allowed o o') :
    o'.sessions = o.sessions := by
  induction steps with
  | refl => rfl
  | tail _ step ih =>
    rw [← ih]
    cases step with
    | work hwork => exact hwork.sessions
    | request | control | release => rfl

/-- **Steps keep an outbox in order.** -/
theorem Ordered.steps (h : o.Ordered env log) (steps : Steps env Frame.IsControl o o') :
    o'.Ordered env log := by
  obtain ⟨queued, blocks, hqueued, htraced⟩ := h.traced
  obtain ⟨new, hnew⟩ := Steps.traced steps h.locked htraced
  refine ⟨Steps.locked steps h.locked, ⟨queued, blocks ++ new, hqueued, hnew⟩, ?_⟩
  rw [Steps.sessions steps]
  exact h.sessions

theorem Ordered.roused (h : o.Ordered env log) (hroused : o.Roused o') : o'.Ordered env log :=
  h.steps (.single (.work hroused.work))

theorem Ordered.note (h : o.Ordered env log) (n : Notice) : (o.note (.told n)).Ordered env log := by
  obtain ⟨queued, blocks, hqueued, htraced⟩ := h.traced
  exact ⟨h.locked.note _, ⟨queued, blocks, hqueued, htraced.note rfl⟩, h.sessions⟩

theorem Ordered.setSessions (h : o.Ordered env log) {sessions : Sessions} (hs : sessions.Valid) :
    Ordered env log { o with sessions } := by
  obtain ⟨queued, blocks, hqueued, htraced⟩ := h.traced
  obtain ⟨current, hhanded, hcurrent⟩ := htraced.written
  have hl := h.locked
  exact ⟨⟨hl.parties, hl.holding, hl.turn, hl.nodup, hl.known, hl.gripped⟩,
    ⟨queued, blocks, hqueued, htraced.count, htraced.queued, htraced.held, htraced.apart, htraced.good,
      htraced.waiting, current, hhanded, hcurrent.worker, hcurrent.other⟩, hs⟩

theorem Ordered.clear (h : o.Ordered env log) : o.clear.Ordered env log := by
  obtain ⟨queued, blocks, hqueued, htraced⟩ := h.traced
  exact ⟨h.locked.clear, ⟨queued, blocks, hqueued, htraced.clear⟩, h.sessions⟩

theorem Ordered.enlist (h : o.Ordered env log) : o.enlist.Ordered env log := by
  obtain ⟨queued, blocks, hqueued, htraced⟩ := h.traced
  exact ⟨h.locked.enlist, ⟨queued, blocks, hqueued, htraced.enlist⟩, h.sessions⟩

/-- A message is accepted, and the log grows by it. -/
theorem Ordered.accept (h : o.Ordered env log) {a : Accepted} {x : Outbound} (hx : a.Queued env x) :
    (o.accept x).Ordered env (log ++ [a]) := by
  obtain ⟨queued, blocks, hqueued, htraced⟩ := h.traced
  exact ⟨h.locked.accept x,
    ⟨queued ++ [x], blocks, List.rel_append hqueued (.cons hx .nil), htraced.accept x⟩, h.sessions⟩

end Outbox

/-! ## Endpoints -/

namespace Endpoint

variable {σ : Type} {env : Environment σ} {log : List Accepted} {e : Endpoint σ}

/-- An endpoint whose outbox is in order, whose version fits into headers, and whose deframer is sound. -/
structure Ordered (env : Environment σ) (log : List Accepted) (e : Endpoint σ) : Prop where
  outbox : e.link.outbox.Ordered env log
  version : ValidVersion e.version
  deframer : e.deframer.Sound

theorem Ordered.tell (h : e.Ordered env log) (n : Notice) : (e.tell n).Ordered env log where
  outbox := by
    show (e.link.record (.told n)).outbox.Ordered env log
    rw [Link.outbox_record]
    exact h.outbox.note n
  version := h.version
  deframer := h.deframer

theorem Ordered.write (h : e.Ordered env log) {f : Frame} (hf : f.IsControl) :
    (e.write env f).1.Ordered env log where
  outbox := by
    have hall : ∀ g ∈ [f], g.IsControl := by
      intro g hg
      rw [List.mem_singleton.mp hg]
      exact hf
    exact h.outbox.steps (Link.write_steps env hall h.outbox.locked)
  version := h.version
  deframer := h.deframer

/-- The version of a session, or else that of the endpoint, fits into headers. -/
theorem Ordered.validVersion (h : e.Ordered env log) (session : UInt8) :
    ValidVersion ((e.link.sessions.version? session).getD e.version) := by
  cases hv : e.link.sessions.version? session with
  | none => exact h.version
  | some version => exact h.outbox.sessions _ _ hv

theorem Ordered.acknowledge (h : e.Ordered env log) {header : Header} (hh : header.Fits) :
    (e.acknowledge env header).Ordered env log := by
  have hw := h.write (isControl_control ⟨hh.one_le, hh.le_fifteen⟩ header.service header.session
    .startServiceAck (by decide))
  unfold Endpoint.acknowledge
  split
  · rename_i e' heq
    rw [heq] at hw
    exact hw
  · rename_i e' fault heq
    rw [heq] at hw
    exact hw.tell _

theorem Ordered.noteStarted (h : e.Ordered env log) {header : Header} (hh : header.Fits) :
    (e.noteStarted header).Ordered env log := by
  have hv : ValidVersion header.version := ⟨hh.one_le, hh.le_fifteen⟩
  have hstarted : ∀ token version, ValidVersion version → ({ e with
      link := { e.link with
        sessions := e.link.sessions.start header.session header.service header.version token }
      version } : Endpoint σ).Ordered env log := fun token version hversion =>
    ⟨h.outbox.setSessions (Sessions.Valid.start h.outbox.sessions hv _ _ token), hversion, h.deframer⟩
  unfold Endpoint.noteStarted
  dsimp only
  -- whether or not the endpoint adopts the version, it is one that came in a header
  split
  · exact ((hstarted _ _ hv).tell _).tell _
  · exact (hstarted _ _ h.version).tell _

theorem Ordered.noteEnded (h : e.Ordered env log) (header : Header) :
    (e.noteEnded header).Ordered env log := by
  unfold Endpoint.noteEnded
  split
  · have hs := Sessions.Valid.stop h.outbox.sessions header.session header.service
    have hended : ({ e with link := { e.link with
        sessions := (e.link.sessions.stop header.session header.service).1 } }
        : Endpoint σ).Ordered env log := ⟨h.outbox.setSessions hs, h.version, h.deframer⟩
    dsimp only
    split
    · have htold := hended.tell (.serviceEnded header.service header.session
        ((e.link.sessions.version? header.session).getD header.version))
      exact ⟨htold.outbox, htold.version, htold.deframer⟩
    · exact hended.tell _
  · exact h

theorem Ordered.onControl (h : e.Ordered env log) {header : Header} (hh : header.Fits) :
    (e.onControl env header).Ordered env log := by
  unfold Endpoint.onControl
  split
  · exact h.acknowledge hh
  · exact h.noteStarted hh
  · exact h.tell _
  · exact h.noteEnded header
  · exact h.noteEnded header
  · exact h.tell _
  · split
    · exact h.tell _
    · exact h
  · exact h
  · exact h
  · exact h

theorem Ordered.deliver (h : e.Ordered env log) (m : Message) : (e.deliver env m).Ordered env log := by
  have hcounted : ({ e with delivered := e.delivered + 1 } : Endpoint σ).Ordered env log :=
    ⟨h.outbox, h.version, h.deframer⟩
  have htold := hcounted.tell (.messageReceived m)
  unfold Endpoint.deliver
  dsimp only
  -- the listener may fail, and a message that unregisters the app is told once more
  split <;> split
  · exact (htold.tell _).tell _
  · exact htold.tell _
  · exact htold.tell _
  · exact htold

theorem Ordered.onArrival (h : e.Ordered env log) {arrival : Arrival}
    (ha : ∀ f, arrival = .ok f → f.header.Fits) : (e.onArrival env arrival).Ordered env log := by
  unfold Endpoint.onArrival
  split
  · rename_i f
    unfold Endpoint.onFrame
    split
    · exact h.onControl (ha f rfl)
    · have hput : ({ e with reassembly := (e.reassembly.accept f).1 } : Endpoint σ).Ordered env log :=
        ⟨h.outbox, h.version, h.deframer⟩
      dsimp only
      split
      · exact hput.deliver _
      · exact hput
      · exact hput.tell _
  · exact h.tell _

theorem Ordered.foldl_onArrival (h : e.Ordered env log) {arrivals : List Arrival}
    (hfits : ∀ f, .ok f ∈ arrivals → f.header.Fits) :
    (arrivals.foldl (Endpoint.onArrival env) e).Ordered env log := by
  induction arrivals generalizing e with
  | nil => exact h
  | cons arrival arrivals ih =>
    refine ih (h.onArrival ?_) fun f hf => hfits f (List.mem_cons_of_mem _ hf)
    rintro f rfl
    exact hfits f List.mem_cons_self

/-- **Received bytes keep an endpoint in order**: the headers that its deframer lets through fit the
    layout. -/
theorem Ordered.receive (h : e.Ordered env log) (chunk : Bytes) :
    (e.receive env chunk).Ordered env log := by
  have hpushed : ({ e with deframer := (e.deframer.push chunk).1 } : Endpoint σ).Ordered env log :=
    ⟨h.outbox, h.version, Deframer.sound_push h.deframer chunk⟩
  exact hpushed.foldl_onArrival fun f hf => (Deframer.fits_of_mem_push h.deframer hf).header

/-- What a message is queued as, if it is not refused. -/
theorem Ordered.queued (h : e.Ordered env log) {m : Message} {x : Outbound}
    (hx : e.outbound env m = .ok x) :
    ∃ version, e.link.sessions.version? m.session = some version
      ∧ Accepted.Queued env { message := m, version } x := by
  unfold Endpoint.outbound Sessions.requireStarted at hx
  cases hv : e.link.sessions.version? m.session with
  | none =>
    rw [hv] at hx
    cases hx
  | some version =>
    rw [hv] at hx
    have hx' : ((asRequest m version).payload version).bind (fun payload =>
        if env.settings.maxMessageSize < payload.length then .error (.tooLarge payload.length)
        else .ok { session := m.session, service := (asRequest m version).outboundService, version
                   correlationId := m.body.correlationId, payload }) = .ok x := hx
    cases hp : (asRequest m version).payload version with
    | error fault =>
      rw [hp] at hx'
      cases hx'
    | ok payload =>
      rw [hp] at hx'
      dsimp only [Except.bind] at hx'
      split at hx'
      · cases hx'
      · rename_i hsize
        cases hx'
        exact ⟨version, rfl, h.outbox.sessions _ _ hv, rfl, rfl, rfl, rfl, hp, Nat.not_lt.mp hsize⟩

/-- **Sending keeps an endpoint in order**, and the log grows by the message if it is accepted. -/
theorem Ordered.send (h : e.Ordered env log) (m : Message) :
    (e.send env m).1.Ordered env (log ++ e.accepts env (.send m)) := by
  have hsame : e.Ordered env (log ++ []) := (List.append_nil log).symm ▸ h
  unfold Endpoint.accepts
  dsimp only
  cases hx : e.outbound env m with
  | error fault =>
    have hsend : e.send env m = (e, .error fault) := by
      unfold Endpoint.send
      rw [hx]
    rw [hsend]
    exact hsame
  | ok x =>
    have hsend : e.send env m
        = ({ e with link := (e.link.submit env x true).1 }, (e.link.submit env x true).2) := by
      unfold Endpoint.send
      rw [hx]
    obtain ⟨version, hv, hqueued⟩ := h.queued hx
    rw [hsend, hv]
    -- a link that refuses is as it was; one that accepts may start a worker before it rings
    rcases Link.submit_cases env h.outbox.locked x with ⟨fault, hs⟩ | ⟨l', hs, hroused⟩
    · rw [hs]
      exact hsame
    · rw [hs]
      have haccepted := h.outbox.accept hqueued
      refine ⟨?_, h.version, h.deframer⟩
      rcases hroused with hroused | hroused
      · exact haccepted.roused hroused
      · exact haccepted.enlist.roused hroused

/-- **Every action keeps an endpoint in order.** -/
theorem Ordered.perform (h : e.Ordered env log) (a : Action) :
    (e.perform env a).Ordered env (log ++ e.accepts env a) := by
  cases a with
  | send m => exact h.send m
  | startSession session =>
    rw [show e.accepts env (.startSession session) = [] from rfl, List.append_nil]
    exact h.write (isControl_control h.version .rpc session .startService (by decide))
  | startService service session =>
    rw [show e.accepts env (.startService service session) = [] from rfl, List.append_nil]
    show (e.startService env service session).1.Ordered env log
    unfold Endpoint.startService
    split
    · exact h
    · exact h.write (isControl_control h.version service session .startService (by decide))
  | endService service session =>
    rw [show e.accepts env (.endService service session) = [] from rfl, List.append_nil]
    exact h.write (isControl_endService (h.validVersion session) service session _)
  | receive chunk =>
    rw [show e.accepts env (.receive chunk) = [] from rfl, List.append_nil]
    exact h.receive chunk
  | sleep ms =>
    rw [show e.accepts env (.sleep ms) = [] from rfl, List.append_nil]
    exact ⟨h.outbox.steps (Link.sleep_works env ms e.link).steps, h.version, h.deframer⟩
  | close =>
    rw [show e.accepts env .close = [] from rfl, List.append_nil]
    exact ⟨h.outbox.clear.roused (Link.shutDown_roused e.link), h.version, h.deframer⟩

/-- **Every run keeps an endpoint in order.** -/
theorem Ordered.run (h : e.Ordered env log) (actions : List Action) :
    (e.run env actions).1.Ordered env (log ++ (e.run env actions).2) := by
  induction actions generalizing e log with
  | nil => exact (List.append_nil log).symm ▸ h
  | cons a actions ih =>
    have hrest := ih (h.perform a)
    rw [List.append_assoc] at hrest
    exact hrest

/-- A fresh endpoint has settings that break no rule. -/
theorem eq_of_open? {carrier : σ} (h : Endpoint.open? env carrier = .ok e) :
    env.settings.Rules ∧ e = {
      link := { carrier }
      deframer := { version := env.settings.initialVersion, ceiling := env.settings.maxFramePayload }
      reassembly := { maxMessageSize := env.settings.maxMessageSize
                      maxOpen := env.settings.maxOpenMessages }
      version := env.settings.initialVersion } := by
  unfold Endpoint.open? at h
  dsimp only at h
  split at h
  · cases h
  · rename_i hvalid
    cases h
    exact ⟨Settings.fault?_eq_none_iff.mp hvalid, rfl⟩

/-- A fresh endpoint is in order. -/
theorem Ordered.fresh {carrier : σ} (h : Endpoint.open? env carrier = .ok e) : e.Ordered env [] := by
  obtain ⟨hrules, rfl⟩ := eq_of_open? h
  have hworkers : (({ carrier } : Link σ).outbox).workers = ∅ := by
    refine Set.eq_empty_iff_forall_notMem.mpr ?_
    rintro id ⟨w, hw⟩
    cases hw
  have hempty : (({ carrier } : Link σ).outbox).Ordered env [] :=
    ⟨.blank (fun _ => rfl) rfl rfl hworkers, ⟨[], [], .nil, .blank (fun _ => rfl) rfl rfl rfl⟩, nofun⟩
  exact ⟨hempty, hrules.initialVersion, Deframer.sound_of_header_nil rfl⟩

end Endpoint

end HeadLink
