import MonitorExport.Rpc.Client

/-!
Recorded exchanges: a transport that answers with given replies in turn and keeps what was sent.
-/

namespace MonitorExport

/-- The replies to come, and the addresses and bodies sent so far. -/
structure Exchange where
  replies : List (Except String String)
  sent : List (String × String)

namespace Exchange

def ofReplies (bodies : List String) : Exchange :=
  ⟨bodies.map .ok, []⟩

/-- Records a request and answers it with the next reply. -/
def record : Transport (StateM Exchange) := fun url body exchange =>
  match exchange.replies with
  | [] => (.error "no reply queued", ⟨[], exchange.sent ++ [(url, body)]⟩)
  | reply :: rest => (reply, ⟨rest, exchange.sent ++ [(url, body)]⟩)

/-- The exchange as a server, with a parser of its replies. -/
def serving (parse : Rpc.Parser) : RpcServer (StateM Exchange) :=
  ⟨record, parse⟩

/-- The exchange as a server whose replies are parsed as JSON. -/
def post : RpcServer (StateM Exchange) :=
  serving Rpc.Reply.parse?

/-- Runs a step of a client. Returns its result, the client after it, and the exchange after it. -/
def run {α : Type} (step : Calling (StateM Exchange) α) (client : RpcClient) (exchange : Exchange) :
    Except RpcError α × RpcClient × Exchange :=
  let ((result, client), exchange) := step client exchange
  (result, client, exchange)

end Exchange

end MonitorExport
