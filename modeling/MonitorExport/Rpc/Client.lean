import MonitorExport.Json.Numbers
import MonitorExport.Rpc.Message

/-!
A client of the JSON-RPC interface. Requests are numbered from one, and the token of a login is kept
and sent along with the methods that ask for it. The client is open in how requests travel.
-/

namespace MonitorExport

/-- Sends a body to an address and waits for the body of the reply, or tells why there is none. -/
abbrev Transport (m : Type → Type) := String → String → m (Except String String)

/-- A server as a client has it: how it is posted to, and how the bodies of its replies are parsed. -/
structure RpcServer (m : Type → Type) where
  post : Transport m
  parse : Rpc.Parser

/-- A user of a server, with the token of the last login and the number of the next request. -/
structure RpcClient where
  url : String
  user : String
  password : String
  token : Option String
  nextId : Nat

/-- A step that uses a client and may fail. The client after a failure is the one at that point. -/
abbrev Calling (m : Type → Type) := ExceptT RpcError (StateT RpcClient m)

namespace RpcClient

/-- A client that has not logged in. -/
def ofUser (url user password : String) : RpcClient where
  url
  user
  password
  token := none
  nextId := 1

def openMethods : List String :=
  ["user.login", "user.checkAuthentication", "apiinfo.version"]

def needsToken (method : String) : Bool :=
  !openMethods.contains method

def loginParams (c : RpcClient) : Json :=
  Json.objSorted [("user", .str c.user), ("password", .str c.password)]

/-- The kinds of elements of which the server creates the missing ones only. -/
def createdKinds : List String :=
  ["groups", "applications", "templateLinkage"]

/-- The kinds of elements that the server also updates. -/
def updatedKinds : List String :=
  ["hosts", "templates", "templateScreens", "items", "discoveryRules", "triggers", "graphs", "screens",
    "valueMaps"]

/-- What an import tells the server: the document, and to create and update all it holds. -/
def importParams (source : String) : Json :=
  let create := Json.objSorted [("createMissing", .bool true)]
  let update := Json.objSorted [("createMissing", .bool true), ("updateExisting", .bool true)]
  let rules := Json.objSorted
    (createdKinds.map (fun kind => (kind, create)) ++ updatedKinds.map (fun kind => (kind, update)))
  Json.objSorted [("format", .str "xml"), ("source", .str source), ("rules", rules)]

def takeId (c : RpcClient) : Nat × RpcClient :=
  (c.nextId, { c with nextId := c.nextId + 1 })

variable {m : Type → Type} [Monad m]

/-- Calls a method and returns what the reply holds. -/
def call (server : RpcServer m) (method : String) (params : Json) (auth : Option String) :
    Calling m Json := do
  let id ← modifyGet takeId
  let request : Rpc.Request := { id, method, params, auth }
  match ← liftM (server.post (← get).url request.body) with
  | .error reason => throw (.transport reason)
  | .ok body => liftExcept (Rpc.readReply server.parse body)
where
  /-- A result as a step. -/
  liftExcept : Except RpcError Json → Calling m Json
    | .ok j => pure j
    | .error failure => throw failure

/-- Logs in and keeps the token as it is returned. -/
def login (server : RpcServer m) : Calling m String := do
  match ← call server "user.login" (← get).loginParams none with
  | .str token => do
    modify fun c => { c with token := some token }
    return token
  | _ => throw .noToken

/-- The token of the client; logs in if there is none or a new one is asked for. -/
def authenticate (server : RpcServer m) (reset : Bool) : Calling m String := do
  match (← get).token with
  | some token => if reset then login server else return token
  | none => login server

/-- The token for a method, if it asks for one. -/
def tokenFor (server : RpcServer m) (method : String) : Calling m (Option String) := do
  if needsToken method then return some (← authenticate server false) else return none

/-- Calls a method, after a login if it asks for a token, and restores the numbers in the result. -/
def request (server : RpcServer m) (method : String) (params : Json) : Calling m Json := do
  let token ← tokenFor server method
  return (← call server method params token).withNumbers

def importDocument (server : RpcServer m) (source : String) : Calling m Json :=
  request server "configuration.import" (importParams source)

end RpcClient

end MonitorExport
