import MonitorExport.Json.Decode
import MonitorExport.Sender.Frame
import MonitorExport.Sender.Metric

/-!
Sending metrics and reading the response, from a packet that is all there or from a stream.
-/

namespace MonitorExport

/-- A failure of sending. -/
inductive SenderError where
  /-- Writing or reading failed. -/
  | io (reason : String)
  /-- The response is no text of the expected form. -/
  | malformed
  | badHeader
  /-- The server did not take the metrics. -/
  | rejected (info : String)
deriving DecidableEq

/-- The sentence shown to people. -/
def SenderError.message : SenderError → String
  | .io reason => s!"i/o failed: {reason}"
  | .malformed => "malformed payload"
  | .badHeader => "response does not start with a sender header"
  | .rejected info => s!"server rejected the data: {info}"

/-- What a server answers. -/
structure SenderResponse where
  response : String
  info : Option String
deriving DecidableEq

namespace SenderResponse

/-- The response by which a server tells that it took the metrics. -/
def success : String := "success"

/-- The response that a term is. -/
def ofTerm? (t : Json.Term) : Option SenderResponse :=
  match t.record? ["response", "info"] with
  | some [some response, info] =>
    match response.text?, (Json.Term.given info).map Json.Term.text? with
    | some response, none => some ⟨response, none⟩
    | some response, some (some info) => some ⟨response, some info⟩
    | _, _ => none
  | _ => none

/-- The response that the body of a frame is. -/
def parse? (body : Bytes) : Option SenderResponse :=
  (String.fromUTF8? ⟨body.toArray⟩).bind fun s => (Json.Term.read? s).bind ofTerm?

/-- Reads the body of a frame with a parser of bodies. -/
def ofBodyBy (parse : Bytes → Option SenderResponse) (body : Bytes) : Except SenderError SenderResponse :=
  match parse body with
  | some response => .ok response
  | none => .error .malformed

/-- Reads a packet with a parser of bodies. Whatever follows the frame is ignored. -/
def decodeBy (parse : Bytes → Option SenderResponse) (packet : Bytes) : Except SenderError SenderResponse :=
  match Frame.body? packet with
  | some body => ofBodyBy parse body
  | none => .error .badHeader

/-- Reads a packet. -/
def decode (packet : Bytes) : Except SenderError SenderResponse :=
  decodeBy parse? packet

/-- What the server tells about metrics that it took. -/
def accepted (r : SenderResponse) : Except SenderError (Option String) :=
  if r.response = success then .ok r.info
  else .error (.rejected (r.info.getD "error from server"))

end SenderResponse

/-- A connection: what was written to it, what can still be read from it, and why writing fails, if it
does. -/
structure Stream where
  written : Bytes
  pending : Bytes
  fault : Option String

abbrev Sending := ExceptT SenderError (StateM Stream)

namespace Stream

/-- Writes bytes, all of them or none. -/
def write (bytes : Bytes) : Sending Unit := fun s =>
  match s.fault with
  | some reason => (.error (.io reason), s)
  | none => (.ok (), { s with written := s.written ++ bytes })

/-- Reads `count` bytes. If there are fewer, they are gone. -/
def readExact (count : Nat) : Sending Bytes := fun s =>
  if count ≤ s.pending.length then
    (.ok (s.pending.take count), { s with pending := s.pending.drop count })
  else
    (.error (.io "failed to fill whole buffer"), { s with pending := [] })

end Stream

namespace Metric

def packet (metrics : List Metric) (now : Int) : Bytes :=
  Frame.write (request metrics now).compact.toUTF8.toList

/-- Sends metrics over a connection and reads what the server tells about them, with a parser of bodies. -/
def sendBy (parse : Bytes → Option SenderResponse) (metrics : List Metric) (now : Int) :
    Sending (Option String) := do
  Stream.write (packet metrics now)
  match Frame.announced? (← Stream.readExact Frame.prefixSize) with
  | none => throw .badHeader
  | some length =>
    let body ← Stream.readExact length
    match (SenderResponse.ofBodyBy parse body).bind SenderResponse.accepted with
    | .ok info => return info
    | .error failure => throw failure

/-- Sends metrics over a connection and reads what the server tells about them. -/
def send (metrics : List Metric) (now : Int) : Sending (Option String) :=
  sendBy SenderResponse.parse? metrics now

end Metric

end MonitorExport
