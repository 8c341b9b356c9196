import MonitorExport.Json.Decode
import MonitorExport.Text.Blank
import MonitorExport.Text.Digits

/-!
Messages of the JSON-RPC interface of a monitoring server: requests, replies, and what can fail.
-/

namespace MonitorExport

/-- A failure of a call. -/
inductive RpcError where
  /-- The server answered with an error. -/
  | remote (message : String) (code : Int) (data : Option String)
  /-- The request was not answered. -/
  | transport (reason : String)
  /-- The reply is not what a server answers. -/
  | malformed
  /-- The reply to a login holds no text. -/
  | noToken

/-- The sentence shown to people. -/
def RpcError.message : RpcError → String
  | .remote message code data =>
    let details := data.getD "no details"
    s!"{message}({code}): {details}"
  | .transport reason => s!"transport failed: {reason}"
  | .malformed => "malformed payload"
  | .noToken => "login did not return a token"

namespace Rpc

/-- A request: a numbered call of a method, with the token of a login if the method asks for one. -/
structure Request where
  id : Nat
  method : String
  params : Json
  auth : Option String

/-- The document of a request. -/
def Request.toJson (r : Request) : Json :=
  .obj ([("jsonrpc", .str "2.0"), ("id", .int r.id), ("method", .str r.method), ("params", r.params)]
    ++ (r.auth.map fun token => ("auth", Json.str token)).toList)

def Request.body (r : Request) : String :=
  r.toJson.compact

/-- The error that a reply tells. -/
structure Fault where
  message : String
  code : Int
  data : Option Json

/-- What a reply holds. -/
structure Reply where
  result : Option Json
  error : Option Fault

/-- Parses the text of a reply. -/
abbrev Parser := String → Option Reply

/-- The code of an error: an integer of 64 bits. -/
def code? : Json.Term → Option Int
  | .number (.int n) => if Text.int64Min ≤ n ∧ n ≤ Text.int64Max then some n else none
  | _ => none

/-- The document of a term that stands below `above` records, or nothing if there is none. Fails if
it is nested too deep or is none. -/
def documentBelow (above : Nat) (t : Option Json.Term) : Option (Option Json) :=
  match Json.Term.given t with
  | none => some none
  | some t => (t.toJsonWithin (Json.Term.depthLimit - above)).map some

/-- The error that a term is. -/
def fault? (t : Json.Term) : Option Fault :=
  match t.record? ["message", "code", "data"] with
  | some [some message, some code, data] =>
    match message.text?, code? code, documentBelow 2 data with
    | some message, some code, some data => some ⟨message, code, data⟩
    | _, _, _ => none
  | _ => none

/-- The reply that a text is. -/
def Reply.parse? : Parser := fun body =>
  match (Json.Term.read? body).bind (·.record? ["result", "error"]) with
  | some [result, error] =>
    match documentBelow 1 result, (Json.Term.given error).map fault? with
    | some result, none => some ⟨result, none⟩
    | some result, some (some fault) => some ⟨result, some fault⟩
    | _, _ => none
  | _ => none

/-- The details of an error: a string as it is, anything else as text. -/
def detail : Json → String
  | .str s => s
  | j => j.compact

/-- What a reply holds that is read with a parser of replies: the error it tells, else the result, which is
null if it has none. An empty reply is a null result. -/
def readReply (parse : Parser) (body : String) : Except RpcError Json :=
  if (Text.trimmed body.toList).isEmpty then .ok .null else
  match parse body with
  | some ⟨_, some fault⟩ => .error (.remote fault.message fault.code (fault.data.map detail))
  | some ⟨result, none⟩ => .ok (result.getD .null)
  | none => .error .malformed

end Rpc

end MonitorExport
