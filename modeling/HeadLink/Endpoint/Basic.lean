import HeadLink.Frame.Deframer
import HeadLink.Message.Reassembly
import HeadLink.Link.Caller

/-!
# Endpoints

An endpoint is one end of a connection: a link for sending, and what it takes to turn received bytes
into messages. It does not own the connection; received bytes are fed to it, and it writes to the
transport of its environment.

## Contents
- **The endpoint.** `Endpoint`, and `Endpoint.open?`, which refuses settings that break a rule.
- **Time and ending.** `Endpoint.sleep` and `Endpoint.close`.
-/

namespace HeadLink

/-- One end of a connection. -/
structure Endpoint (σ : Type) where
  link : Link σ
  deframer : Deframer
  reassembly : Reassembly
  /-- The version of the latest acknowledged rpc service, or else the initial version. -/
  version : UInt8
  /-- How many messages the listener has got. -/
  delivered : Nat := 0

namespace Endpoint

variable {σ : Type} (env : Environment σ)

/-- A fresh endpoint over a transport in the given state, if the settings break no rule. -/
def open? (carrier : σ) : Except SettingsFault (Endpoint σ) :=
  let s := env.settings
  match s.fault? with
  | some fault => .error fault
  | none => .ok {
      link := { carrier }
      deframer := { version := s.initialVersion, ceiling := s.maxFramePayload }
      reassembly := { maxMessageSize := s.maxMessageSize, maxOpen := s.maxOpenMessages }
      version := s.initialVersion }

/-- Tells the listener something. -/
def tell (e : Endpoint σ) (n : Notice) : Endpoint σ :=
  { e with link := e.link.tell n }

/-- Writes a frame, waiting for the write lock. -/
def write (e : Endpoint σ) (f : Frame) : Endpoint σ × Except Fault Unit :=
  let (link, result) := e.link.write env [f]
  ({ e with link }, result)

/-- Milliseconds pass. -/
def sleep (e : Endpoint σ) (ms : Nat) : Endpoint σ :=
  { e with link := e.link.sleep env ms }

/-- Ends the endpoint: nothing more is accepted for sending, and what waits is dropped. -/
def close (e : Endpoint σ) : Endpoint σ :=
  { e with link := e.link.shutDown }

end Endpoint

end HeadLink
