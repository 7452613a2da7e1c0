import HeadLink.Endpoint.Basic

/-!
# Control frames

Control frames open and close services. The answer to each concerns the service and the session that
its header names.

## Contents
- **Opening.** `Endpoint.acknowledge` answers the peer's requests, `Endpoint.noteStarted` takes note of
  the peer's answers.
- **Closing.** `Endpoint.noteEnded` closes a service if the frame names its token.
- **All of them.** `Endpoint.onControl`.
-/

namespace HeadLink.Endpoint

variable {σ : Type} (env : Environment σ)

/-! ## Opening -/

/-- Grants the peer's request to start a service. -/
def acknowledge (e : Endpoint σ) (h : Header) : Endpoint σ :=
  match e.write env (.control h.version h.service h.session .startServiceAck) with
  | (e, .ok ()) => e
  | (e, .error fault) => e.tell (.fault (.acknowledging h.service h.session) fault)

/-- Takes note of a service that the peer has acknowledged. The rpc service settles the endpoint's
    version and opens the session. -/
def noteStarted (e : Endpoint σ) (h : Header) : Endpoint σ :=
  let token := if 2 ≤ h.version then h.message else 0
  let e := { e with
    link := { e.link with sessions := e.link.sessions.start h.session h.service h.version token } }
  if h.service = .rpc then
    ({ e with version := h.version }.tell (.serviceStarted h.service h.session h.version)).tell
      (.sessionStarted h.session h.version)
  else e.tell (.serviceStarted h.service h.session h.version)

/-! ## Closing -/

/-- Whether a frame that ends a service is to be believed: from version 2 on, only if it names the
    token of the service. The version is the session's, or the frame's if there is no session. -/
def endsService (e : Endpoint σ) (h : Header) : Bool :=
  let version := (e.link.sessions.version? h.session).getD h.version
  version < 2 || e.link.sessions.token? h.session h.service = some h.message

/-- Closes a service. If the session closes with it, its unfinished messages are forgotten. -/
def noteEnded (e : Endpoint σ) (h : Header) : Endpoint σ :=
  if e.endsService h then
    let version := (e.link.sessions.version? h.session).getD h.version
    let (sessions, closed) := e.link.sessions.stop h.session h.service
    let e := { e with link := { e.link with sessions } }.tell
      (.serviceEnded h.service h.session version)
    if closed then { e with reassembly := e.reassembly.discardSession h.session } else e
  else e

/-! ## All of them -/

/-- Reacts to a control frame. Unknown kinds are ignored. -/
def onControl (e : Endpoint σ) (h : Header) : Endpoint σ :=
  match h.controlType? with
  | some .startService => e.acknowledge env h
  | some .startServiceAck => e.noteStarted h
  | some .startServiceNack => e.tell (.startRejected h.service h.session h.version)
  | some .endService | some .endServiceAck => e.noteEnded h
  | some .heartbeatAck => e.tell (.heartbeatAck h.session)
  | some .navAck => if h.service = .nav then e.tell (.navAck h.message) else e
  | some .endServiceNack | some .heartbeat | none => e

end HeadLink.Endpoint
