import Blinex.Native.Engine
import Blinex.Native.SyncStreams

/-!
# `client/internal/mgmclient`: a `Sync` stream and the agent behind it

The server with all its streams and writers, and one agent, which has opened the stream `id`. What
the handler of that stream sends is in flight until `stream.Recv` returns it; `applySync` handles
one response before the next one is received. An agent that loses its stream ends, so it has one
stream.

`applied` is history: the agent never reads it.
-/

namespace Blinex.Native.Management.Streams

open Managementv1 (SyncResponse)

/-- The server, the responses in flight on the stream, and the agent. -/
structure Delivery where
  server : State
  inFlight : List SyncResponse := []
  engine : Engine := {}
  applied : List Sync := []

/-- What happens at the server, or the agent receives a response and the system answers its calls
    with `env`. -/
inductive DeliveryEvent where
  | server (e : Event)
  | recv (env : Native.Env)

/-- What a handler hands to gRPC in an action: the response of a `stream.Send` without an error. -/
def Stream.sends (st : Stream) : Action → List SyncResponse
  | .send none =>
    match st.phase with
    | .sending out => [out.resp]
    | _ => []
  | _ => []

/-- What an event sends on the stream `id`. -/
def State.sendsOn (s : State) (id : StreamId) : Event → List SyncResponse
  | .act x a => if x = id then ((s.streams id).map (·.sends a)).getD [] else []
  | _ => []

/-- One event of an interleaving. -/
def deliveryStep (network : String) (cfg : Config) (id : StreamId) (d : Delivery) :
    DeliveryEvent → Option Delivery
  | .server e =>
    -- what the server writes on this stream is under way
    (step network d.server e).map fun server =>
      { d with server, inFlight := d.inFlight ++ d.server.sendsOn id e }
  -- the stream delivers in order, and the engine applies what it receives
  | .recv env =>
    match d.inFlight with
    | [] => none
    | resp :: inFlight =>
      some { d with
        inFlight
        engine := d.engine.step cfg ⟨env, resp⟩
        applied := d.applied ++ [⟨env, resp⟩] }

end Blinex.Native.Management.Streams
