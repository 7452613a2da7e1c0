import HeadLink.Proofs.Histories
import HeadLink.Proofs.Contiguity

/-!
# Ends and starts

A frame that ends a service names the token of the start that it ends, so that a late one does not end what has
been started anew. Tokens came with version 2; in a session of version 1 there is nothing to compare, and every end
counts. The version of a session is that of its latest start, whichever service this was of: a session that is
renegotiated to version 1 ends its services without tokens, also those that were started under version 2.

## Contents
- **Latest starts.** `Ruling.latest?`, `Header.token`.
- **Endpoints.** `Endpoint.Informed`: the table has the version and the tokens of the latest starts, so that
  `Endpoint.Informed.endsService_eq` says which ends count.
- **Mismatched ends.** `mismatched_end_ignored`; `demoted_end_counts` shows why the version of the session matters.
-/

namespace HeadLink

/-! ## Latest starts -/

/-- The header of the start that a ruling is. -/
def Ruling.start? : Ruling → Option Header
  | .started h => some h
  | .ended _ => none

/-- The latest start with a property. -/
def Ruling.latest? (p : Header → Bool) (said : List Ruling) : Option Header :=
  (said.filterMap fun r => r.start?.filter p).getLast?

/-- The token that a start gives to its service. -/
def Header.token (h : Header) : UInt32 := Header.messageFor h.version h.message

/-- The header is about the session. -/
def Header.isOfSession (session : UInt8) (h : Header) : Bool := h.session = session

/-- The header is about the service of the session. -/
def Header.isOfService (session : UInt8) (service : ServiceType) (h : Header) : Bool :=
  h.session = session ∧ h.service = service

namespace Ruling

variable {p : Header → Bool} {said : List Ruling} {h : Header}

theorem latest?_started (hp : p h = true) : latest? p (said ++ [.started h]) = some h := by
  simp [latest?, start?, hp]

theorem latest?_started_of_not (hp : p h = false) : latest? p (said ++ [.started h]) = latest? p said := by
  simp [latest?, start?, hp]

theorem latest?_ended : latest? p (said ++ [.ended h]) = latest? p said := by
  simp [latest?, start?]

end Ruling

/-! ## Endpoints -/

namespace Endpoint

variable {σ : Type} {env : Environment σ} {e e' : Endpoint σ} {said : List Ruling}

/-- **What the table knows is the latest that the peer has said**: each session has the version of its latest start,
    and each service has the token of its own. -/
structure Informed (said : List Ruling) (e : Endpoint σ) : Prop where
  version : ∀ session version, e.link.sessions.version? session = some version →
    (Ruling.latest? (Header.isOfSession session) said).map Header.version = some version
  token : ∀ session service token, e.link.sessions.token? session service = some token →
    (Ruling.latest? (Header.isOfService session service) said).map Header.token = some token

namespace Informed

theorem of_sessions (h : e.Informed said) (hsessions : e'.link.sessions = e.link.sessions) : e'.Informed said := by
  refine ⟨fun session version hv => ?_, fun session service token ht => ?_⟩
  · rw [hsessions] at hv
    exact h.version session version hv
  · rw [hsessions] at ht
    exact h.token session service token ht

/-- A start is the latest one for its session and its service, and for no others. -/
theorem noteStarted (h : e.Informed said) (header : Header) :
    (e.noteStarted header).Informed (said ++ [.started header]) := by
  have hsessions : (e.noteStarted header).link.sessions
      = e.link.sessions.start header.session header.service header.version header.token := by
    unfold Endpoint.noteStarted
    dsimp only
    split <;> rfl
  refine ⟨fun session version hv => ?_, fun session service token ht => ?_⟩
  · rw [hsessions, Sessions.version?_start] at hv
    by_cases hsession : session = header.session
    · rw [if_pos hsession] at hv
      rw [Ruling.latest?_started (by simp [Header.isOfSession, hsession])]
      exact hv
    · rw [if_neg hsession] at hv
      rw [Ruling.latest?_started_of_not (by simp [Header.isOfSession, Ne.symm hsession])]
      exact h.version session version hv
  · rw [hsessions, Sessions.token?_start] at ht
    by_cases hservice : session = header.session ∧ service = header.service
    · rw [if_pos hservice] at ht
      rw [Ruling.latest?_started (by simp [Header.isOfService, hservice])]
      exact ht
    · rw [if_neg hservice] at ht
      rw [Ruling.latest?_started_of_not (by
        simpa [Header.isOfService, eq_comm (a := header.session), eq_comm (a := header.service)] using hservice)]
      exact h.token session service token ht

/-- An end leaves what it does not take. -/
theorem noteEnded (h : e.Informed said) (header : Header) :
    (e.noteEnded header).Informed (said ++ [.ended header]) := by
  have hsessions : (e.noteEnded header).link.sessions = e.link.sessions
      ∨ (e.noteEnded header).link.sessions = (e.link.sessions.stop header.session header.service).1 := by
    unfold Endpoint.noteEnded
    split
    · right
      dsimp only
      split <;> rfl
    · exact Or.inl rfl
  refine ⟨fun session version hv => ?_, fun session service token ht => ?_⟩
  · rw [Ruling.latest?_ended]
    apply h.version
    rcases hsessions with hsame | hstop
    · rwa [hsame] at hv
    · rw [hstop] at hv
      exact Sessions.version?_of_stop hv
  · rw [Ruling.latest?_ended]
    apply h.token
    rcases hsessions with hsame | hstop
    · rwa [hsame] at ht
    · rw [hstop] at ht
      exact Sessions.token?_of_stop ht

theorem follow (h : e.Informed said) (r : Ruling) : (e.follow r).Informed (said ++ [r]) := by
  cases r with
  | started header => exact h.noteStarted header
  | ended header => exact h.noteEnded header

/-- Nothing is known of a fresh endpoint. -/
theorem fresh {carrier : σ} (h : Endpoint.open? env carrier = .ok e) : e.Informed [] := by
  obtain ⟨-, rfl⟩ := Endpoint.eq_of_open? h
  constructor
  · intro session version hv
    simp [Sessions.version?] at hv
  · intro session service token ht
    simp [Sessions.token?] at ht

/-- **Every history keeps the table informed.** -/
theorem of_history {carrier : σ} (hopen : Endpoint.open? env carrier = .ok e) {past : List Arrival}
    (history : History env e past e') : e'.Informed (past.filterMap Arrival.ruling?) :=
  History.keeps (P := fun said e => e.Informed said) (fun _ _ _ h hquiet => h.of_sessions hquiet.outbox.sessions)
    (fun _ _ r h => h.follow r) history (Endpoint.Ordered.fresh hopen).outbox.locked (.fresh hopen)

/-- **Which ends count.** The end of a started service counts if the latest start of the session was of version 1, or
    if it names the token of the latest start of the service. -/
theorem endsService_eq (h : e.Informed said) {header latest latestOfService : Header}
    (hstarted : (e.link.sessions.token? header.session header.service).isSome)
    (hlatest : Ruling.latest? (Header.isOfSession header.session) said = some latest)
    (hservice : Ruling.latest? (Header.isOfService header.session header.service) said = some latestOfService) :
    e.endsService header = decide (latest.version < 2 ∨ latestOfService.token = header.message) := by
  obtain ⟨version, hv⟩ := Sessions.exists_version_of_token hstarted
  obtain ⟨token, ht⟩ := Option.isSome_iff_exists.mp hstarted
  have hversion := h.version _ _ hv
  have htoken := h.token _ _ _ ht
  rw [hlatest, Option.map_some, Option.some.injEq] at hversion
  rw [hservice, Option.map_some, Option.some.injEq] at htoken
  simp [endsService, hv, ht, hversion, htoken]

end Informed

end Endpoint

/-! ## Mismatched ends -/

/-- **An end that names the wrong token is ignored.** Let the latest start of a service have version 2 or more, and
    let the service be started still. If the latest start of the session, of whatever service, has version 2 or more
    as well, an end of the service that does not name the id of its latest start leaves the whole endpoint as it is:
    nothing is told, and neither a session nor an unfinished message is touched. -/
theorem mismatched_end_ignored {σ : Type} (env : Environment σ) (carrier : σ) {e e' : Endpoint σ} {past : List Arrival}
    (hopen : Endpoint.open? env carrier = .ok e) (history : Endpoint.History env e past e') {a : Arrival}
    (header latest latestOfService : Header) (hend : a.ruling? = some (.ended header))
    (hstarted : (e'.link.sessions.token? header.session header.service).isSome)
    (hservice : Ruling.latest? (Header.isOfService header.session header.service) (past.filterMap Arrival.ruling?)
      = some latestOfService)
    (hversion : 2 ≤ latestOfService.version)
    (hlatest : Ruling.latest? (Header.isOfSession header.session) (past.filterMap Arrival.ruling?) = some latest)
    (hnegotiated : 2 ≤ latest.version) (hmismatch : header.message ≠ latestOfService.message) :
    e'.onArrival env a = e' := by
  have hends : e'.endsService header = false := by
    rw [(Endpoint.Informed.of_history hopen history).endsService_eq hstarted hlatest hservice]
    have htoken : latestOfService.token = latestOfService.message := if_pos hversion
    simpa [htoken, UInt8.not_lt] using ⟨hnegotiated, hmismatch.symm⟩
  rw [Endpoint.onArrival_of_ruling hend]
  simp [Endpoint.follow, Endpoint.noteEnded, hends]

/-- Two services of session 1 are started under version 2, and then the session is started anew under version 1. -/
def demotion : List Action :=
  [.receive [0x20, 0x07, 0x02, 1, 0, 0, 0, 0, 0, 0, 0, 4], .receive [0x20, 0x0B, 0x02, 1, 0, 0, 0, 0, 0, 0, 0, 5],
    .receive [0x10, 0x07, 0x02, 1, 0, 0, 0, 0]]

/-- A third service of session 1 is started under version 3. -/
def promotion : List Action :=
  demotion ++ [.receive [0x30, 0x0A, 0x02, 1, 0, 0, 0, 0, 0, 0, 0, 6]]

/-- After that, an end of the second service without its id is ignored, even in a frame of version 1. -/
theorem mismatched_end_ignored_promotion :
    ∃ e, Endpoint.open? contention 0 = .ok e ∧
      let e' := (e.run contention promotion).1
      e'.link.sessions.token? 1 .nav = some 5
        ∧ e'.onArrival contention (.ok (.control 1 .nav 1 .endService)) = e' := by
  have hopen : Endpoint.open? contention 0 = .ok _ := rfl
  refine ⟨_, rfl, by decide +kernel, ?_⟩
  apply mismatched_end_ignored contention 0 hopen (Endpoint.history_run promotion _)
    (.control 1 .nav 1 .endService 0 0) (.control 3 .audio 1 .startServiceAck 6 0)
    (.control 2 .nav 1 .startServiceAck 5 0)
  · decide
  · decide +kernel
  · decide +kernel
  · decide
  · decide +kernel
  · decide
  · decide

/-- **In a session of version 1 every end counts**, whatever version its services were started under. The latest start
    of the second service has version 2 and the id 5; since the session was started anew under version 1, an end
    without an id ends the service. -/
theorem demoted_end_counts :
    ∃ e latestOfService, Endpoint.open? contention 0 = .ok e ∧
      let e' := (e.run contention demotion).1
      let past := e.arrivals contention demotion
      let after := e'.onArrival contention (.ok (.control 1 .nav 1 .endService))
      Endpoint.History contention e past e' ∧ (e'.link.sessions.token? 1 .nav).isSome
        ∧ Ruling.latest? (Header.isOfService 1 .nav) (past.filterMap Arrival.ruling?) = some latestOfService
        ∧ 2 ≤ latestOfService.version
        ∧ (Frame.control 1 .nav 1 .endService).header.message ≠ latestOfService.message
        ∧ after.link.notices = e'.link.notices ++ [.serviceEnded .nav 1 1]
        ∧ after.link.sessions.token? 1 .nav = none := by
  refine ⟨_, .control 2 .nav 1 .startServiceAck 5 0, rfl, Endpoint.history_run demotion _, ?_, ?_, ?_, ?_, ?_, ?_⟩
  · decide +kernel
  · decide +kernel
  · decide
  · decide
  · decide +kernel
  · decide +kernel

end HeadLink
