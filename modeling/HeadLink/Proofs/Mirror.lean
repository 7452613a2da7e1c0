import Mathlib.Data.Finset.Basic
import HeadLink.Proofs.Histories
import HeadLink.Proofs.Contiguity
import HeadLink.Proofs.Tables

/-!
# What the listener knows

A listener that keeps a book of the services it is told about has the same sessions in its book as the endpoint has
in its table, at every moment. It need not be told anything else, and nothing of what it is told is to be taken
back: every ruling of the peer that changes the table is told, one that is ignored is not, and one that is told but
changes nothing changes nothing in the book.

## Contents
- **The book.** `View` of a session and `Mirror`, the book; `Mirror.hear` enters a notice.
- **The table.** `Sessions.mirror` is what the book should show; `Sessions.mirror_start`, `Sessions.mirror_stop`.
- **Pairs.** `Notice.Paired`: the start of an rpc service and of its session are told as one.
- **Endpoints.** `Endpoint.Mirrored`, which quiet changes and rulings keep.
- **The gate.** `Endpoint.send_eq_notStarted_iff`.
- **Mirroring.** `notices_mirror_sessions`.
-/

namespace HeadLink

/-! ## The book -/

/-- What a listener knows of a session. -/
@[ext]
structure View where
  version : UInt8
  services : Finset ServiceType

-- a derived instance would compare the services in the order in which they were put in
instance : DecidableEq View := fun v w =>
  decidable_of_iff (v.version = w.version ∧ v.services = w.services) View.ext_iff.symm

/-- What a listener knows of all sessions. -/
abbrev Mirror := UInt8 → Option View

namespace Mirror

/-- A service is started, and the session has the version from now on. -/
def start (m : Mirror) (service : ServiceType) (session version : UInt8) : Mirror :=
  Function.update m session
    (some { version, services := insert service (((m session).map View.services).getD ∅) })

/-- A service has ended. The session ends with its rpc service, and if nothing is left of it. -/
def stop (m : Mirror) (service : ServiceType) (session : UInt8) : Mirror :=
  Function.update m session ((m session).bind fun view =>
    if service = .rpc ∨ view.services.erase service = ∅ then none
    else some { view with services := view.services.erase service })

/-- Enters a notice. -/
def hear (m : Mirror) : Notice → Mirror
  | .serviceStarted service session version => m.start service session version
  | .serviceEnded service session _ => m.stop service session
  | _ => m

/-- What a listener knows that has been told all of this. -/
def ofNotices (notices : List Notice) : Mirror := notices.foldl hear fun _ => none

theorem hear_of_not {n : Notice} (hn : n.isOfServices = false) (m : Mirror) : m.hear n = m := by
  cases n <;> first | rfl | simp [Notice.isOfServices] at hn

theorem foldl_hear_of_not {notices : List Notice} (hnot : ∀ n ∈ notices, n.isOfServices = false) (m : Mirror) :
    notices.foldl hear m = m :=
  foldl_keeps (f := id) (fun n hn => hear_of_not (hnot n hn)) m

end Mirror

/-! ## The table -/

/-- What is to be known of a session. -/
def Session.view (s : Session) : View where
  version := s.version
  services := s.services.keys.toFinset

@[simp] theorem Session.mem_view {s : Session} {service : ServiceType} :
    service ∈ s.view.services ↔ (s.services.get? service).isSome := by
  simp [view, Table.mem_keys]

/-- Nothing is to be known of the services of a session exactly if it has none. -/
theorem Session.view_eq_empty_iff (s : Session) : s.view.services = ∅ ↔ s.services.size = 0 := by
  simp [view, Table.keys, Table.size]

/-- What is to be known of all sessions. -/
def Sessions.mirror (s : Sessions) : Mirror := fun session => (s.get? session).map Session.view

namespace Sessions

theorem mirror_insert (s : Sessions) (session : UInt8) (state : Session) :
    mirror (s.insert session state) = Function.update s.mirror session (some state.view) := by
  funext session'
  by_cases h : session' = session
  · simp [mirror, Table.get?_insert, h]
  · simp [mirror, Table.get?_insert, h]

theorem mirror_erase (s : Sessions) (session : UInt8) :
    mirror (s.erase session) = Function.update s.mirror session none := by
  funext session'
  by_cases h : session' = session
  · simp [mirror, Table.get?_erase, h]
  · simp [mirror, Table.get?_erase, h]

/-- **A service that is started in the table is started in the book.** -/
theorem mirror_start (s : Sessions) (session : UInt8) (service : ServiceType) (version : UInt8)
    (token : UInt32) :
    (s.start session service version token).mirror = s.mirror.start service session version := by
  unfold start Mirror.start
  dsimp only
  rw [mirror_insert]
  congr 2
  -- the versions are the same; so are the services, one by one
  unfold Session.view
  congr 1
  ext service'
  cases hs : s.get? session with
  | none => simp [mirror, hs, Table.mem_keys, Table.get?_insert]
  | some state =>
    by_cases h : service' = service
    · simp [mirror, hs, h, Table.mem_keys, Table.get?_insert]
    · simp [mirror, hs, h, Table.mem_keys, Table.get?_insert]

/-- A session from which a service is taken shows all others. -/
theorem view_erase (state : Session) (service : ServiceType) :
    ({ state with services := state.services.erase service } : Session).view
      = { state.view with services := state.view.services.erase service } := by
  unfold Session.view
  congr 1
  ext service'
  by_cases h : service' = service
  · simp [h, Table.mem_keys, Table.get?_erase]
  · simp [h, Table.mem_keys, Table.get?_erase]

/-- **A service that is stopped in the table is stopped in the book.** -/
theorem mirror_stop (s : Sessions) (session : UInt8) (service : ServiceType) :
    (s.stop session service).1.mirror = s.mirror.stop service session := by
  unfold stop Mirror.stop
  cases hs : s.get? session with
  | none =>
    have hnone : s.mirror session = none := by simp [mirror, hs]
    simp [hnone]
  | some state =>
    have hsome : s.mirror session = some state.view := by simp [mirror, hs]
    have hview := view_erase state service
    have hempty : state.view.services.erase service = ∅ ↔ (state.services.erase service).size = 0 := by
      rw [← Session.view_eq_empty_iff { state with services := state.services.erase service }, hview]
    simp only [hsome, Option.bind_some, hempty]
    split
    · exact mirror_erase s session
    · rw [mirror_insert, hview]

end Sessions

/-! ## Pairs -/

/-- The session that a notice says is started, and its version. -/
def Notice.opened? : Notice → Option (UInt8 × UInt8)
  | .sessionStarted session version => some (session, version)
  | _ => none

/-- The session that a ruling starts, and its version. -/
def Ruling.opens? : Ruling → Option (UInt8 × UInt8)
  | .started h => if h.service = .rpc then some (h.session, h.version) else none
  | .ended _ => none

/-- The session that an arrival starts: its rpc service is acknowledged. -/
def Arrival.opens? (a : Arrival) : Option (UInt8 × UInt8) := a.ruling?.bind Ruling.opens?

namespace Notice

/-- Of a session that is started the listener is told right after its rpc service, and of an rpc service right before
    its session. -/
def Paired (notices : List Notice) : Prop :=
  ∀ before n after, notices = before ++ n :: after → ∀ session version,
    (n = .sessionStarted session version → before.getLast? = some (.serviceStarted .rpc session version))
      ∧ (n = .serviceStarted .rpc session version → after.head? = some (.sessionStarted session version))

theorem Paired.append {notices more : List Notice} (h : Paired notices) (h' : Paired more) :
    Paired (notices ++ more) := by
  intro before n after heq session version
  rcases List.append_eq_append_iff.mp heq with ⟨rest, rfl, hrest⟩ | ⟨rest, rfl, hrest⟩
  · -- the notice is one of the later ones
    obtain ⟨hopened, hstarted⟩ := h' rest n after hrest session version
    refine ⟨fun hn => ?_, hstarted⟩
    simp [hopened hn]
  · cases rest with
    | nil =>
      obtain ⟨hopened, hstarted⟩ := h' [] n after hrest.symm session version
      exact ⟨fun hn => by simpa using hopened hn, hstarted⟩
    | cons n' rest =>
      rw [List.cons_append, List.cons.injEq] at hrest
      obtain ⟨rfl, rfl⟩ := hrest
      obtain ⟨hopened, hstarted⟩ := h before n rest rfl session version
      refine ⟨hopened, fun hn => ?_⟩
      simp [hstarted hn]

/-- Where neither is told, there is nothing to pair. -/
theorem Paired.of_neither {notices : List Notice} (hopened : ∀ n ∈ notices, n.opened? = none)
    (hstarted : ∀ session version, Notice.serviceStarted .rpc session version ∉ notices) : Paired notices := by
  rintro before n after rfl session version
  constructor
  · rintro rfl
    simpa [Notice.opened?] using hopened _ (List.mem_append_right before List.mem_cons_self)
  · rintro rfl
    exact absurd (List.mem_append_right before List.mem_cons_self) (hstarted session version)

/-- The start of an rpc service and that of its session are a pair. -/
theorem paired_opening (session version : UInt8) :
    Paired [.serviceStarted .rpc session version, .sessionStarted session version] := by
  intro before n after heq session' version'
  rcases before with _ | ⟨b, _ | ⟨b', before⟩⟩
  · simp only [List.nil_append, List.cons.injEq] at heq
    obtain ⟨rfl, rfl⟩ := heq
    simp
  · simp only [List.cons_append, List.nil_append, List.cons.injEq] at heq
    obtain ⟨rfl, rfl, rfl⟩ := heq
    simp
  · simp at heq

theorem opened?_of_not {n : Notice} (hn : n.isOfServices = false) : n.opened? = none := by
  cases n <;> first | rfl | simp [isOfServices] at hn

end Notice

/-! ## Endpoints -/

namespace Endpoint

variable {σ : Type} {env : Environment σ} {e e' : Endpoint σ} {initial : UInt8} {said : List Ruling}

theorem notices_tell (e : Endpoint σ) (n : Notice) : (e.tell n).link.notices = e.link.notices ++ [n] := by
  simp [tell, Link.tell, Link.record, Link.notices, Entry.notice?]

/-- The version of the session that was started last, or else a given one. -/
def lastVersion (initial : UInt8) (notices : List Notice) : UInt8 :=
  ((notices.filterMap Notice.opened?).getLast?.map Prod.snd).getD initial

theorem lastVersion_append (initial : UInt8) (notices more : List Notice) :
    lastVersion initial (notices ++ more) = lastVersion (lastVersion initial notices) more := by
  unfold lastVersion
  rw [List.filterMap_append, List.getLast?_append]
  cases (more.filterMap Notice.opened?).getLast? <;> simp

/-- The listener's book shows the sessions of the endpoint, and it has been told of sessions what the peer has
    said. -/
structure Mirrored (initial : UInt8) (said : List Ruling) (e : Endpoint σ) : Prop where
  mirror : Mirror.ofNotices e.link.notices = e.link.sessions.mirror
  opened : e.link.notices.filterMap Notice.opened? = said.filterMap Ruling.opens?
  paired : Notice.Paired e.link.notices
  version : e.version = lastVersion initial e.link.notices

namespace Mirrored

/-- The book is kept if what is told and what is done go together. -/
theorem told (h : e.Mirrored initial said) {ruled : List Ruling} (more : List Notice)
    (hnotices : e'.link.notices = e.link.notices ++ more)
    (hsessions : e'.link.sessions.mirror = more.foldl Mirror.hear e.link.sessions.mirror)
    (hopened : more.filterMap Notice.opened? = ruled.filterMap Ruling.opens?) (hpaired : Notice.Paired more)
    (hversion : e'.version = lastVersion e.version more) : e'.Mirrored initial (said ++ ruled) where
  mirror := by
    rw [hnotices, hsessions, ← h.mirror]
    exact List.foldl_append
  opened := by rw [hnotices, List.filterMap_append, List.filterMap_append, h.opened, hopened]
  paired := by
    rw [hnotices]
    exact h.paired.append hpaired
  version := by rw [hversion, hnotices, lastVersion_append, h.version]

/-- **Quiet changes keep the book.** -/
theorem quiet (h : e.Mirrored initial said) (hquiet : e.Quiet e') : e'.Mirrored initial said := by
  obtain ⟨more, htold, hmore⟩ := hquiet.outbox.told
  have hnone : more.filterMap Notice.opened? = [] :=
    List.filterMap_eq_nil_iff.mpr fun n hn => Notice.opened?_of_not (hmore n hn)
  have hkept : e'.Mirrored initial (said ++ []) := by
    refine h.told more htold ?_ hnone (.of_neither ?_ ?_) ?_
    · rw [Mirror.foldl_hear_of_not hmore]
      exact congrArg Sessions.mirror hquiet.outbox.sessions
    · exact fun n hn => Notice.opened?_of_not (hmore n hn)
    · intro session version hn
      cases hmore _ hn
    · simpa [lastVersion, hnone] using hquiet.version
  rwa [List.append_nil] at hkept

theorem noteStarted (h : e.Mirrored initial said) (header : Header) :
    (e.noteStarted header).Mirrored initial (said ++ [.started header]) := by
  unfold Endpoint.noteStarted
  dsimp only
  split
  · rename_i hrpc
    refine h.told [.serviceStarted .rpc header.session header.version,
      .sessionStarted header.session header.version] ?_ ?_ ?_ (Notice.paired_opening _ _) ?_
    · rw [notices_tell, notices_tell, hrpc, List.append_assoc]
      rfl
    · rw [hrpc]
      exact Sessions.mirror_start ..
    · simp [List.filterMap_cons, Notice.opened?, Ruling.opens?, hrpc]
    · simp [lastVersion, List.findSome?_cons, Notice.opened?, tell]
  · rename_i hrpc
    refine h.told [.serviceStarted header.service header.session header.version]
      (notices_tell _ _) ?_ ?_ (.of_neither ?_ ?_) ?_
    · exact Sessions.mirror_start ..
    · simp [List.filterMap_cons, Notice.opened?, Ruling.opens?, hrpc]
    · simp [Notice.opened?]
    · simp [Ne.symm hrpc]
    · simp [lastVersion, Notice.opened?, tell]

theorem noteEnded (h : e.Mirrored initial said) (header : Header) :
    (e.noteEnded header).Mirrored initial (said ++ [.ended header]) := by
  unfold Endpoint.noteEnded
  split
  · dsimp only
    -- whether the session closes with the service makes a difference only for unfinished messages
    have htold : ({ e with link := { e.link with
        sessions := (e.link.sessions.stop header.session header.service).1 } }.tell
        (.serviceEnded header.service header.session
          ((e.link.sessions.version? header.session).getD header.version))).Mirrored initial
          (said ++ [Ruling.ended header]) := by
      refine h.told _ (notices_tell _ _) ?_ ?_ (.of_neither ?_ ?_) ?_
      · exact Sessions.mirror_stop ..
      · simp [List.filterMap_cons, Notice.opened?, Ruling.opens?]
      · simp [Notice.opened?]
      · simp
      · simp [lastVersion, Notice.opened?, tell]
    split
    · exact ⟨htold.mirror, htold.opened, htold.paired, htold.version⟩
    · exact htold
  · -- a frame that is not believed changes nothing and is not told
    refine h.told [] (by simp) rfl (by simp [Ruling.opens?]) (.of_neither ?_ ?_) ?_
    · simp
    · simp
    · simp [lastVersion]

/-- **Rulings keep the book.** -/
theorem follow (h : e.Mirrored initial said) (r : Ruling) : (e.follow r).Mirrored initial (said ++ [r]) := by
  cases r with
  | started header => exact h.noteStarted header
  | ended header => exact h.noteEnded header

/-- The book of a fresh endpoint is empty. -/
theorem fresh {carrier : σ} (h : Endpoint.open? env carrier = .ok e) :
    e.Mirrored env.settings.initialVersion [] := by
  obtain ⟨-, rfl⟩ := Endpoint.eq_of_open? h
  exact ⟨rfl, rfl, .of_neither (by simp [Link.notices]) (by simp [Link.notices]), rfl⟩

end Mirrored

/-! ## The gate -/

/-- That a session is not started is no fault of a payload. -/
theorem ne_notStarted_of_payload {m : Message} {version : UInt8} {fault : Fault}
    (h : m.payload version = .error fault) (session : UInt8) : fault ≠ .notStarted session := by
  rintro rfl
  unfold Message.payload at h
  split at h
  · rw [Body.encode_eq] at h
    split at h
    · cases h
    · split at h <;> cases h
  · cases h

/-- A message whose session is in the table is not refused for its session. -/
theorem ne_notStarted_of_outbound {m : Message} {state : Session} {fault : Fault}
    (hsession : e.link.sessions.get? m.session = some state) (h : e.outbound env m = .error fault)
    (session : UInt8) : fault ≠ .notStarted session := by
  have hrequire : e.link.sessions.requireStarted m.session = .ok state.version := by
    simp [Sessions.requireStarted, Sessions.version?, hsession]
  simp only [outbound, hrequire, bind, Except.bind] at h
  split at h
  · rename_i fault' hpayload
    cases h
    exact ne_notStarted_of_payload hpayload session
  · split at h
    · cases h
      simp
    · cases h

theorem session_of_outbound {m : Message} {x : Outbound} (h : e.outbound env m = .ok x) : x.session = m.session := by
  simp only [outbound, bind, Except.bind] at h
  split at h
  · cases h
  · split at h
    · cases h
    · split at h <;> cases h
      rfl

/-- Nor is it when it is queued. -/
theorem ne_notStarted_of_submit {l : Link σ} {x : Outbound} {state : Session} {fault : Fault}
    (hsession : l.sessions.get? x.session = some state) (h : (l.submit env x true).2 = .error fault)
    (session : UInt8) : fault ≠ .notStarted session := by
  have hrequire : l.sessions.requireStarted x.session = .ok state.version := by
    simp [Sessions.requireStarted, Sessions.version?, hsession]
  unfold Link.submit at h
  cases hvet : l.vet x with
  | error refusal =>
    rw [hvet] at h
    cases h
    rcases Link.vet_error_cases hvet with hrefused | rfl
    · cases hrequire.symm.trans hrefused
    · intro hsame
      cases hsame
  | ok admitted =>
    rw [hvet] at h
    cases (congrArg Prod.snd (Link.bringIn_true env l x)).symm.trans h

/-- **A message is refused for its session exactly if the session is not in the table.** -/
theorem send_eq_notStarted_iff (e : Endpoint σ) (m : Message) :
    (e.send env m).2 = .error (.notStarted m.session) ↔ e.link.sessions.get? m.session = none := by
  cases hsession : e.link.sessions.get? m.session with
  | none => simp [send, outbound, Sessions.requireStarted, Sessions.version?, hsession, bind, Except.bind]
  | some state =>
    simp only [reduceCtorEq, iff_false]
    intro hsend
    cases hx : e.outbound env m with
    | error fault =>
      simp only [send, hx, Except.error.injEq] at hsend
      exact ne_notStarted_of_outbound hsession hx m.session hsend
    | ok x =>
      simp only [send, hx] at hsend
      rw [← session_of_outbound hx] at hsession
      exact ne_notStarted_of_submit hsession hsend m.session rfl

end Endpoint

/-! ## Mirroring -/

/-- **What the listener is told mirrors the sessions.** At every moment of every history of an endpoint, and hence of
    every run, the book of the listener shows the sessions of the endpoint, with their versions and their services.
    It is told of the start of a session exactly for each acknowledged rpc service, right after the start of that
    service; the version of the endpoint is that of the session that was started last, or else the initial one. A
    message is refused for its session exactly if the book does not have the session. Only what arrives changes the
    sessions. -/
theorem notices_mirror_sessions {σ : Type} (env : Environment σ) (carrier : σ) {e : Endpoint σ}
    (hopen : Endpoint.open? env carrier = .ok e) :
    (∀ actions, Endpoint.History env e (e.arrivals env actions) (e.run env actions).1)
      ∧ ∀ past e', Endpoint.History env e past e' →
        Mirror.ofNotices e'.link.notices = e'.link.sessions.mirror
          ∧ e'.link.notices.filterMap Notice.opened? = past.filterMap Arrival.opens?
          ∧ Notice.Paired e'.link.notices
          ∧ e'.version = Endpoint.lastVersion env.settings.initialVersion e'.link.notices
          ∧ (∀ m : Message, (e'.send env m).2 = .error (.notStarted m.session) ↔
            Mirror.ofNotices e'.link.notices m.session = none)
          ∧ ∀ e'', Endpoint.Move env e' [] e'' → e''.link.sessions = e'.link.sessions := by
  refine ⟨fun actions => Endpoint.history_run actions e, ?_⟩
  intro past e' history
  have hlocked := (Endpoint.Ordered.fresh hopen).outbox.locked
  have hmirrored : e'.Mirrored env.settings.initialVersion (past.filterMap Arrival.ruling?) :=
    Endpoint.History.keeps (P := fun said e => e.Mirrored env.settings.initialVersion said)
      (fun _ _ _ h hquiet => h.quiet hquiet) (fun _ _ r h => h.follow r) history hlocked (.fresh hopen)
  refine ⟨hmirrored.mirror, ?_, hmirrored.paired, hmirrored.version, ?_, ?_⟩
  · rw [hmirrored.opened, List.filterMap_filterMap]
    rfl
  · intro m
    rw [Endpoint.send_eq_notStarted_iff, hmirrored.mirror]
    simp [Sessions.mirror]
  · intro e'' move
    rcases move.quiet_or_arrive (history.locked hlocked) with ⟨-, hquiet⟩ | ⟨a, hnone, -⟩
    · exact hquiet.outbox.sessions
    · cases hnone

/-- The peer starts two services of session 1 and one of session 2. It ends a service under a wrong token, one of a
    session that it has never started, and the last one of session 2. -/
def comings : List Action :=
  [.receive [0x20, 0x07, 0x02, 1, 0, 0, 0, 0, 0, 0, 0, 5], .startService .nav 1,
    .receive [0x20, 0x0B, 0x02, 1, 0, 0, 0, 0, 0, 0, 0, 6], .receive [0x10, 0x0A, 0x02, 2, 0, 0, 0, 0],
    .receive [0x20, 0x0B, 0x04, 1, 0, 0, 0, 0, 0, 0, 0, 9, 0x10, 0x07, 0x04, 3, 0, 0, 0, 0], .sleep 5,
    .receive [0x10, 0x0A, 0x04, 2, 0, 0, 0, 0]]

/-- The ruling under the wrong token is not told, the one about the unknown session is told. In the end there is
    session 1 with both of its services, and a message can be sent on it, but not on session 2. -/
theorem notices_mirror_sessions_comings :
    ∃ e, Endpoint.open? contention 0 = .ok e ∧
      let e' := (e.run contention comings).1
      e'.link.notices = [.serviceStarted .rpc 1 2, .sessionStarted 1 2, .serviceStarted .nav 1 2,
          .serviceStarted .audio 2 1, .serviceEnded .rpc 3 1, .serviceEnded .audio 2 1]
        ∧ e'.link.sessions.mirror 1 = some { version := 2, services := {.rpc, .nav} }
        ∧ e'.link.sessions.mirror 2 = none ∧ e'.version = 2
        ∧ (∀ m : Message, m.session = 1 → (e'.send contention m).2 ≠ .error (.notStarted m.session))
        ∧ ∀ m : Message, m.session = 2 → (e'.send contention m).2 = .error (.notStarted m.session) := by
  have hopen : Endpoint.open? contention 0 = .ok _ := rfl
  obtain ⟨hruns, hhistories⟩ := notices_mirror_sessions contention 0 hopen
  obtain ⟨hmirror, -, -, hversion, hgate, -⟩ := hhistories _ _ (hruns comings)
  refine ⟨_, rfl, ?_, ?_, ?_, ?_, ?_, ?_⟩
  · decide +kernel
  · rw [← hmirror]
    decide +kernel
  · rw [← hmirror]
    decide +kernel
  · rw [hversion]
    decide +kernel
  · intro m hm
    rw [ne_eq, hgate m, hm]
    decide +kernel
  · intro m hm
    rw [hgate m, hm]
    decide +kernel

end HeadLink
