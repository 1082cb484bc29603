import Mathlib.Data.UInt
import Mathlib.Logic.Function.Basic
import Tortuga.LoggedEvents

/-!
`NetworkPublisher` and the `NetworkHub`s of other programs: a hub sends a request to the publisher, which sends each event from then on to the
endpoint that the request came from, as the text of an archive. The datagrams may be lost, come twice or in another order.
-/
namespace Tortuga.EventRelays
open Tortuga.LoggedEvents

/-- The codes of an `archive_exception`, of which only one is caught. -/
inductive Code
  | inputStreamError
  | other

/-- Text archives: what is written for some data, and what a text is read as. The publishers of a hub's program are found by their names. -/
structure Archive (A D F P : Type) where
  text : List (Datum D F) → List UInt8
  read : List UInt8 → Except Code (List (Datum D F))
  registry : Registry P
  lookupByName : A → String → Option P

/-- The publishers that an event may have in the program of an endpoint. -/
def Archive.found {A D F P : Type} (archive : Archive A D F P) (a : A) : Registry P :=
  { archive.registry with lookupByName := archive.lookupByName a }

def maxLength : ℕ := 512

/-- A hub at an endpoint. `waiting` says that its thread has not come to its end, and `failed` that an exception has left it. -/
structure NetworkHub (D F P I R S : Type) where
  active : Bool
  waiting : Bool
  failed : Bool
  published : List (AnyEvent D F P I R S)

/-- The endpoints of the publisher, the datagrams that are on their way to it and to each endpoint, and the hubs there. `sent` are the events
    that the publisher has sent to each endpoint. -/
structure Network (A D F P I R S : Type) where
  endpoints : List A
  requests : List A
  flight : A → List (List UInt8)
  hub : A → NetworkHub D F P I R S
  sent : A → List (AnyEvent D F P I R S)

inductive Act (A D F P I R S : Type)
  | construct (a : A)
  | destruct (a : A)
  | leave (a : A)
  | handleReceiveFrom (request : Option ℕ)
  | handleEvent (memory : Memory D F R S) (event : AnyEvent D F P I R S)
  | receive (a : A) (i : ℕ) (memory : Memory D F R S)
  | loseRequest (i : ℕ)
  | duplicateRequest (i : ℕ)
  | lose (a : A) (i : ℕ)
  | duplicate (a : A) (i : ℕ)

section
variable {A D F P I R S : Type} [DecidableEq A] [Zero D] (archive : Archive A D F P)

/-- The datagram of an event, if its class can be converted. `sstream.str().size() + 1` bytes are sent, of which the last one is zero. -/
def datagram (memory : Memory D F R S) (event : AnyEvent D F P I R S) : Option (List UInt8) :=
  let written := writeEvent archive.registry memory [] event
  if written.1 then some (archive.text written.2 ++ [0]) else none

/-- `daemon` receives a datagram, of which it gets the first bytes. -/
def NetworkHub.daemon (hub : NetworkHub D F P I R S) (a : A) (memory : Memory D F R S) (message : List UInt8) : NetworkHub D F P I R S :=
  let reply := message.take maxLength
  if reply = [] then { hub with waiting := hub.active }
  else
    match archive.read reply with
    | .ok data =>
      match readEvent (archive.found a) memory data with
      | some read => { hub with waiting := hub.active, published := hub.published ++ [read.1] }
      | none => { hub with waiting := hub.active }
    | .error .inputStreamError => { hub with waiting := hub.active }
    | .error .other => { hub with active := false, waiting := false, failed := true }

namespace Network

/-- `handleEvent` -/
def handleEvent (s : Network A D F P I R S) (memory : Memory D F R S) (event : AnyEvent D F P I R S) : Network A D F P I R S :=
  match datagram archive memory event with
  | none => s
  | some message =>
    { s with
      flight := fun a => if a ∈ s.endpoints then s.flight a ++ [message] else s.flight a
      sent := fun a => if a ∈ s.endpoints then s.sent a ++ [event] else s.sent a }

/-- A request is taken off the network. -/
def handleReceiveFrom (s : Network A D F P I R S) : Option ℕ → Option (Network A D F P I R S)
  | none => some s
  | some i => s.requests[i]?.map fun a =>
    { s with requests := s.requests.eraseIdx i, endpoints := if a ∈ s.endpoints then s.endpoints else s.endpoints ++ [a] }

def setHub (s : Network A D F P I R S) (a : A) (hub : NetworkHub D F P I R S) : Network A D F P I R S :=
  { s with hub := Function.update s.hub a hub }

def setFlight (s : Network A D F P I R S) (a : A) (flight : List (List UInt8)) : Network A D F P I R S :=
  { s with flight := Function.update s.flight a flight }

end Network

open Network

def step (s : Network A D F P I R S) : Act A D F P I R S → Option (Network A D F P I R S)
  | .construct a =>
    if (s.hub a).active = false ∧ (s.hub a).waiting = false then
      some { s.setHub a { s.hub a with active := true, waiting := true } with requests := s.requests ++ [a] }
    else none
  | .destruct a => if (s.hub a).active then some (s.setHub a { s.hub a with active := false }) else none
  | .leave a =>
    if (s.hub a).active = false ∧ (s.hub a).waiting then some (s.setHub a { s.hub a with waiting := false }) else none
  | .handleReceiveFrom request => s.handleReceiveFrom request
  | .handleEvent memory event => some (s.handleEvent archive memory event)
  | .receive a i memory =>
    if (s.hub a).waiting then
      (s.flight a)[i]?.map fun message =>
        (s.setFlight a ((s.flight a).eraseIdx i)).setHub a ((s.hub a).daemon archive a memory message)
    else none
  | .loseRequest i => s.requests[i]?.map fun _ => { s with requests := s.requests.eraseIdx i }
  | .duplicateRequest i => s.requests[i]?.map fun a => { s with requests := s.requests ++ [a] }
  | .lose a i => (s.flight a)[i]?.map fun _ => s.setFlight a ((s.flight a).eraseIdx i)
  | .duplicate a i => (s.flight a)[i]?.map fun message => s.setFlight a (s.flight a ++ [message])

end

def start {A D F P I R S : Type} : Network A D F P I R S := ⟨[], [], fun _ => [], fun _ => ⟨false, false, false, []⟩, fun _ => []⟩

end Tortuga.EventRelays
