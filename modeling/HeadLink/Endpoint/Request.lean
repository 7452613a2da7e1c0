import HeadLink.Endpoint.Basic

/-!
# Requests of the application

What the owner of an endpoint asks it to do.

## Contents
- **Services.** `Endpoint.startSession`, `Endpoint.startService` and `Endpoint.endService` write a
  request to the peer. The peer's answer decides.
- **Messages.** `Endpoint.send` queues a message on an acknowledged session.
-/

namespace HeadLink.Endpoint

variable {σ : Type} (env : Environment σ)

/-! ## Services -/

/-- Asks the peer to open a session by starting its rpc service. -/
def startSession (e : Endpoint σ) (session : UInt8) : Endpoint σ × Except Fault Unit :=
  e.write env (.control e.version .rpc session .startService)

/-- Asks the peer to start a service on a session. Session 0 is reserved for opening sessions. -/
def startService (e : Endpoint σ) (service : ServiceType) (session : UInt8) :
    Endpoint σ × Except Fault Unit :=
  if session = 0 then (e, .error (.argument (.reservedSession service)))
  else e.write env (.control e.version service session .startService)

/-- The frame that asks the peer to end a service. It names the token of the service in the header,
    if the version has room for it, and in the payload. -/
def endFrame (e : Endpoint σ) (service : ServiceType) (session : UInt8) : Frame :=
  let version := (e.link.sessions.version? session).getD e.version
  let token := (e.link.sessions.token? session service).getD 0
  { header := .control version service session .endService token 4, payload := Word.encode token }

/-- Asks the peer to end a service. -/
def endService (e : Endpoint σ) (service : ServiceType) (session : UInt8) :
    Endpoint σ × Except Fault Unit :=
  e.write env (e.endFrame service session)

/-! ## Messages -/

/-- A message as it is sent: a request, in the version of its session. -/
def asRequest (m : Message) (version : UInt8) : Message :=
  { m with version, body := { m.body with rpcType := .request } }

/-- The message as it is queued for sending, if its session is acknowledged and its payload is within
    bounds. -/
def outbound (e : Endpoint σ) (m : Message) : Except Fault Outbound := do
  let version ← e.link.sessions.requireStarted m.session
  let m := asRequest m version
  let payload ← m.payload version
  if env.settings.maxMessageSize < payload.length then .error (.tooLarge payload.length)
  else .ok { session := m.session, service := m.outboundService, version
             correlationId := m.body.correlationId, payload }

/-- Queues a message for sending. What goes wrong later is reported to the listener. -/
def send (e : Endpoint σ) (m : Message) : Endpoint σ × Except Fault Unit :=
  match e.outbound env m with
  | .error fault => (e, .error fault)
  | .ok o =>
    let (link, result) := e.link.submit env o true
    ({ e with link }, result)

end HeadLink.Endpoint
