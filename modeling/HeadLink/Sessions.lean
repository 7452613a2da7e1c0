import HeadLink.Table
import HeadLink.Fault

/-!
# Sessions

The services that the peer has acknowledged. A message may be sent on a session as long as one of the
session's services is started.

## Contents
- **State.** `Session` and `Sessions`.
- **Look-up.** `Sessions.version?`, `Sessions.requireStarted`, `Sessions.token?`,
  `Sessions.isStarted`.
- **Changes.** `Sessions.start` and `Sessions.stop`; a session closes with its rpc service or with its
  last one.
-/

namespace HeadLink

/-! ## State -/

/-- An acknowledged session. -/
structure Session where
  /-- The version of the session's latest acknowledgement. -/
  version : UInt8
  /-- The started services, each with the token of its acknowledgement. -/
  services : Table ServiceType UInt32 := ∅

/-- The acknowledged sessions. -/
abbrev Sessions := Table UInt8 Session

/-- The started services with their tokens, by ascending code. -/
def Session.serviceTokens (s : Session) : List (ServiceType × UInt32) :=
  ServiceType.all.filterMap fun service => (s.services.get? service).map (service, ·)

namespace Sessions

/-! ## Look-up -/

/-- The version of a session. -/
def version? (s : Sessions) (session : UInt8) : Option UInt8 :=
  (s.get? session).map Session.version

/-- Whether a session is acknowledged. -/
def isStarted (s : Sessions) (session : UInt8) : Bool := s.contains session

/-- The version to send with on a session, which has to be acknowledged. -/
def requireStarted (s : Sessions) (session : UInt8) : Except Fault UInt8 :=
  match s.version? session with
  | some version => .ok version
  | none => .error (.notStarted session)

/-- The token of a started service. -/
def token? (s : Sessions) (session : UInt8) (service : ServiceType) : Option UInt32 :=
  (s.get? session).bind fun state => state.services.get? service

/-! ## Changes -/

/-- Notes that the peer has acknowledged a service. -/
def start (s : Sessions) (session : UInt8) (service : ServiceType) (version : UInt8)
    (token : UInt32) : Sessions :=
  let services := ((s.get? session).map Session.services).getD ∅
  s.insert session { version, services := services.insert service token }

/-- Notes that a service has ended, and says whether the session closes with it. -/
def stop (s : Sessions) (session : UInt8) (service : ServiceType) : Sessions × Bool :=
  match s.get? session with
  | none => (s, false)
  | some state =>
    let services := state.services.erase service
    if service = .rpc ∨ services.size = 0 then (s.erase session, true)
    else (s.insert session { state with services }, false)

end Sessions

end HeadLink
