import Mathlib.Data.List.Basic
import MonitorExport.Proofs.Json.Reading
import MonitorExport.Rpc.Exchange

/-!
# Sessions of a client

A session is any sequence of calls of one client, whatever the replies are. What it posts is told by a log: each
posting takes the next number and the next reply, and carries the token that the client has then if its method asks
for one. The token is that of the latest login that brought one. All this stands in the texts that are posted.
-/

namespace MonitorExport

namespace Rpc

open Json

/-- What the object that a text is has under a key, however often it has it. -/
def members (text key : String) : List Term :=
  match Term.read? text with
  | some (.obj members) => (members.filter fun member => member.1 = some key).map (·.2)
  | _ => []

/-- Whether a text has a number: it begins with it, and is read with it as long as it fits 64 bits. -/
structure Numbered (text : String) (id : Nat) : Prop where
  written : ("\x7b\"jsonrpc\":\"2.0\",\"id\":" ++ toString id ++ ",").toList <+: text.toList
  read : id < Text.int64Count → members text "id" = [.number (.int id)]

variable (r : Request)

theorem read?_body : Term.read? r.body = some (.ofJson r.toJson) := Term.read?_compact r.toJson

theorem members_method : members r.body "method" = [.str (some r.method)] := by
  obtain ⟨id, method, params, auth⟩ := r
  rw [members, read?_body]
  cases auth <;> rfl

theorem members_params : members r.body "params" = [.ofJson r.params] := by
  obtain ⟨id, method, params, auth⟩ := r
  rw [members, read?_body]
  cases auth <;> rfl

theorem members_auth : members r.body "auth" = r.auth.toList.map fun token => .str (some token) := by
  obtain ⟨id, method, params, auth⟩ := r
  rw [members, read?_body]
  cases auth <;> rfl

/-- The text of a request has its number. -/
theorem numbered_body : Numbered r.body r.id where
  written := by
    obtain ⟨id, method, params, auth⟩ := r
    have hversion : characters (.str "2.0") = quote "2.0" := rfl
    have hid : characters (.int id) = (toString id).toList := rfl
    have hbody : (Request.body ⟨id, method, params, auth⟩).toList =
        ("\x7b\"jsonrpc\":\"2.0\",\"id\":" ++ toString id ++ ",").toList ++
          (memberCharacters ([("method", .str method), ("params", params)]
            ++ (auth.map fun token => ("auth", Json.str token)).toList) ++ ['\x7d']) := by
      rw [Request.body, compact, String.toList_ofList, Request.toJson, characters]
      simp [memberCharacters, hid, hversion, quote, escaped]
    exact ⟨_, hbody.symm⟩
  read h := by
    obtain ⟨id, method, params, auth⟩ := r
    have hid : members (Request.body ⟨id, method, params, auth⟩) "id" = [.number (.ofText (toString id))] := by
      rw [members, read?_body]
      cases auth <;> rfl
    rw [hid, Number.ofText_natCast h]

end Rpc

/-- What a client makes of a reply. -/
def Exchange.answer (parse : Rpc.Parser) : Except String String → Except RpcError Json
  | .ok body => Rpc.readReply parse body
  | .error reason => .error (.transport reason)

namespace RpcClient

/-- A call that a user makes. -/
inductive Ask
  | authenticate (reset : Bool)
  | request (method : String) (params : Json)
  | importDocument (source : String)

namespace Ask

def step {m : Type → Type} [Monad m] (server : RpcServer m) : Ask → Calling m Unit
  | .authenticate reset => do let _ ← RpcClient.authenticate server reset
  | .request method params => do let _ ← RpcClient.request server method params
  | .importDocument source => do let _ ← RpcClient.importDocument server source

/-- The method that a call is for, with its parameters. -/
def method? : Ask → Option (String × Json)
  | .authenticate _ => none
  | .request method params => some (method, params)
  | .importDocument source => some ("configuration.import", importParams source)

end Ask

/-- A request that was posted with what the client made of the reply to it, and whether it was posted to log in. -/
structure Posting where
  request : Rpc.Request
  answer : Except RpcError Json
  login : Bool

namespace Posting

/-- The token that a login brings: the text that the reply to it holds. -/
def token? (p : Posting) : Option String :=
  if p.login then p.answer.toOption.bind (·.str?) else none

/-- Whether a posting logs in. -/
structure LogsIn (credentials : Json) (p : Posting) : Prop where
  login : p.login = true
  method : p.request.method = "user.login"
  params : p.request.params = credentials

/-- Whether a posting calls a method for a user, also if this is the method to log in. -/
structure Calls (method : String) (params : Json) (p : Posting) : Prop where
  login : p.login = false
  method : p.request.method = method
  params : p.request.params = params

end Posting

/-- The token of the latest login that brought one. -/
def tokenAfter (ps : List Posting) : Option String := (ps.filterMap Posting.token?).getLast?

/-- What a call posts if the client holds a token or none. -/
inductive Posts (credentials : Json) (held : Option String) : Ask → List Posting → Prop
  | cached (h : held.isSome) : Posts credentials held (.authenticate false) []
  | login {reset : Bool} {p : Posting} (h : reset = true ∨ held = none) (hp : p.LogsIn credentials) :
      Posts credentials held (.authenticate reset) [p]
  | direct {ask : Ask} {method : String} {params : Json} {p : Posting} (hm : ask.method? = some (method, params))
      (h : needsToken method = true → held.isSome) (hp : p.Calls method params) : Posts credentials held ask [p]
  | afterLogin {ask : Ask} {method : String} {params : Json} {l p : Posting}
      (hm : ask.method? = some (method, params)) (h : needsToken method = true) (hn : held = none)
      (hl : l.LogsIn credentials) (ht : l.token?.isSome) (hp : p.Calls method params) :
      Posts credentials held ask [l, p]
  | loginFailed {ask : Ask} {method : String} {params : Json} {l : Posting}
      (hm : ask.method? = some (method, params)) (h : needsToken method = true) (hn : held = none)
      (hl : l.LogsIn credentials) (ht : l.token? = none) : Posts credentials held ask [l]

/-- The client and the exchange after calls, whatever comes of them. -/
def afterAll (parse : Rpc.Parser) (asks : List Ask) (client : RpcClient) (exchange : Exchange) :
    RpcClient × Exchange :=
  asks.foldl (fun s ask => (Exchange.run (ask.step (Exchange.serving parse)) s.1 s.2).2) (client, exchange)

end RpcClient

namespace Exchange

variable {α β : Type} {parse : Rpc.Parser} {c : RpcClient} {x : Exchange} {method : String} {params : Json}
  {auth : Option String}

/-- The reply to the next request. -/
def next (x : Exchange) : Except String String := x.replies.headD (.error "no reply queued")

/-- The exchange after a request. -/
def sending (x : Exchange) (url body : String) : Exchange := ⟨x.replies.tail, x.sent ++ [(url, body)]⟩

theorem record_eq (url body : String) (x : Exchange) : record url body x = (x.next, x.sending url body) := by
  obtain ⟨replies, sent⟩ := x
  cases replies <;> rfl

theorem run_bind (step : Calling (StateM Exchange) α) (rest : α → Calling (StateM Exchange) β) :
    run (step >>= rest) c x = match run step c x with
      | (.ok a, c', x') => run (rest a) c' x'
      | (.error e, c', x') => (.error e, c', x') := by
  simp only [run, bind, ExceptT.bind, ExceptT.mk, StateT.bind, ExceptT.bindCont]
  rcases step c x with ⟨⟨_ | _, _⟩, _⟩ <;> rfl

theorem run_get : run (get : Calling (StateM Exchange) RpcClient) c x = (.ok c, c, x) := rfl

theorem run_modifyGet (f : RpcClient → α × RpcClient) :
    run (modifyGet f : Calling (StateM Exchange) α) c x = (.ok (f c).1, (f c).2, x) := rfl

theorem run_post (url body : String) :
    run (liftM ((serving parse).post url body) : Calling (StateM Exchange) _) c x =
      (.ok x.next, c, x.sending url body) := by
  have hpost : run (liftM ((serving parse).post url body) : Calling (StateM Exchange) _) c x =
      (.ok (record url body x).1, c, (record url body x).2) := rfl
  rw [hpost, record_eq]

theorem run_liftExcept (r : Except RpcError Json) :
    run (RpcClient.call.liftExcept r : Calling (StateM Exchange) Json) c x = (r, c, x) := by
  cases r <;> rfl

theorem run_call : run (RpcClient.call (serving parse) method params auth) c x =
    (answer parse x.next, { c with nextId := c.nextId + 1 },
      x.sending c.url (Rpc.Request.body ⟨c.nextId, method, params, auth⟩)) := by
  rw [RpcClient.call, run_bind, run_modifyGet]
  dsimp only [RpcClient.takeId]
  rw [run_bind, run_get]
  dsimp only
  rw [run_bind, run_post]
  dsimp only
  cases hnext : x.next with
  | error reason => rfl
  | ok body => exact run_liftExcept _

end Exchange

namespace RpcClient

open Exchange

variable {parse : Rpc.Parser} {c c' c'' : RpcClient} {x x' x'' : Exchange} {p : Posting}
  {ps qs : List Posting} {ask : Ask} {method : String} {params : Json}

/-! ## One posting -/

/-- The client after a posting. -/
def posted (c : RpcClient) (p : Posting) : RpcClient := { c with token := p.token? <|> c.token, nextId := c.nextId + 1 }

/-- Whether a posting is the next one of a client: it has the number and the token that the client has, the token if
its method asks for one. -/
structure Next (parse : Rpc.Parser) (c : RpcClient) (x : Exchange) (p : Posting) : Prop where
  id : p.request.id = c.nextId
  answer : p.answer = Exchange.answer parse x.next
  auth : p.request.auth = if needsToken p.request.method then c.token else none
  held : needsToken p.request.method = true → c.token.isSome

/-- The posting of a login. -/
def loginPosting (parse : Rpc.Parser) (c : RpcClient) (x : Exchange) : Posting :=
  ⟨⟨c.nextId, "user.login", c.loginParams, none⟩, answer parse x.next, true⟩

theorem loginPosting_next (c : RpcClient) (x : Exchange) : Next parse c x (loginPosting parse c x) :=
  ⟨rfl, rfl, rfl, nofun⟩

theorem run_login (parse : Rpc.Parser) (c : RpcClient) (x : Exchange) : ∃ result,
    run (login (serving parse)) c x =
        (result, c.posted (loginPosting parse c x), x.sending c.url (loginPosting parse c x).request.body) ∧
      result.toOption = (loginPosting parse c x).token? := by
  have htoken : (loginPosting parse c x).token? = (answer parse x.next).toOption.bind (·.str?) := rfl
  rw [login, run_bind, run_get]
  dsimp only
  rw [run_bind, run_call, posted, htoken]
  cases answer parse x.next with
  | error e => exact ⟨.error e, rfl, rfl⟩
  | ok j =>
      cases j with
      | str token => exact ⟨.ok token, rfl, rfl⟩
      | _ => exact ⟨.error .noToken, rfl, rfl⟩

/-- The posting of a call with the token that the client has. -/
def callPosting (parse : Rpc.Parser) (c : RpcClient) (x : Exchange) (method : String) (params : Json) :
    Posting :=
  ⟨⟨c.nextId, method, params, if needsToken method then c.token else none⟩, answer parse x.next, false⟩

theorem callPosting_next (h : needsToken method = true → c.token.isSome) :
    Next parse c x (callPosting parse c x method params) :=
  ⟨rfl, rfl, rfl, h⟩

theorem callPosting_calls (parse : Rpc.Parser) (c : RpcClient) (x : Exchange) (method : String) (params : Json) :
    (callPosting parse c x method params).Calls method params :=
  ⟨rfl, rfl, rfl⟩

theorem run_callPosting {auth : Option String} (h : auth = if needsToken method then c.token else none) :
    (run (call (serving parse) method params auth) c x).2 = (c.posted (callPosting parse c x method params),
      x.sending c.url (callPosting parse c x method params).request.body) := by
  rw [run_call, h]
  rfl

/-! ## One call -/

/-- Postings in turn, from one state of client and exchange to another one. -/
inductive Turns (parse : Rpc.Parser) : RpcClient × Exchange → List Posting → RpcClient × Exchange → Prop
  | nil {s : RpcClient × Exchange} : Turns parse s [] s
  | cons {c : RpcClient} {x : Exchange} {p : Posting} {ps : List Posting} {t : RpcClient × Exchange}
      (h : Next parse c x p) (ht : Turns parse (c.posted p, x.sending c.url p.request.body) ps t) :
      Turns parse (c, x) (p :: ps) t

theorem Turns.append {s t u : RpcClient × Exchange} (h : Turns parse s ps t) (h' : Turns parse t qs u) :
    Turns parse s (ps ++ qs) u := by
  induction h with
  | nil => exact h'
  | cons hp _ ih => exact .cons hp (ih h')

theorem run_map {α β : Type} (step : Calling (StateM Exchange) α) (f : α → β) :
    (run (do return f (← step)) c x).2 = (run step c x).2 := by
  rw [run_bind]
  rcases run step c x with ⟨_ | _, _⟩ <;> rfl

theorem run_authenticate_cached {token : String} (h : c.token = some token) :
    run (authenticate (serving parse) false) c x = (.ok token, c, x) := by
  rw [authenticate, run_bind, run_get]
  simp only [h]
  rfl

theorem run_authenticate_login {reset : Bool} (h : reset = true ∨ c.token = none) :
    run (authenticate (serving parse) reset) c x = run (login (serving parse)) c x := by
  rw [authenticate, run_bind, run_get]
  dsimp only
  rcases h with rfl | h
  · cases c.token <;> rfl
  · rw [h]

theorem run_tokenFor (h : needsToken method = true) : run (tokenFor (serving parse) method) c x =
    match run (authenticate (serving parse) false) c x with
      | (.ok token, s) => (.ok (some token), s)
      | (.error e, s) => (.error e, s) := by
  rw [tokenFor, if_pos h, run_bind]
  rcases run (authenticate (serving parse) false) c x with ⟨_ | _, _⟩ <;> rfl

/-- A request goes on with the token that it found. -/
theorem run_request_of_token {auth : Option String}
    (h : run (tokenFor (serving parse) method) c x = (.ok auth, c', x'))
    (hauth : auth = if needsToken method then c'.token else none) :
    (run (request (serving parse) method params) c x).2 =
      (c'.posted (callPosting parse c' x' method params),
        x'.sending c'.url (callPosting parse c' x' method params).request.body) := by
  rw [request, run_bind, h]
  dsimp only
  rw [run_map, run_callPosting hauth]

theorem run_request_of_error {e : RpcError}
    (h : run (tokenFor (serving parse) method) c x = (.error e, c', x')) :
    (run (request (serving parse) method params) c x).2 = (c', x') := by
  rw [request, run_bind, h]

theorem request_posts_held (hm : ask.method? = some (method, params))
    (h : needsToken method = true → c.token.isSome) :
    ∃ ps, Turns parse (c, x) ps (run (request (serving parse) method params) c x).2 ∧
      Posts c.loginParams c.token ask ps := by
  have hfor : run (tokenFor (serving parse) method) c x =
      (.ok (if needsToken method then c.token else none), c, x) := by
    by_cases hneed : needsToken method = true
    · obtain ⟨token, htoken⟩ := Option.isSome_iff_exists.mp (h hneed)
      rw [run_tokenFor hneed, run_authenticate_cached htoken, if_pos hneed, htoken]
    · rw [tokenFor, if_neg hneed, if_neg hneed]
      rfl
  refine ⟨[callPosting parse c x method params], ?_, .direct hm h (callPosting_calls parse c x method params)⟩
  rw [run_request_of_token hfor rfl]
  exact .cons (callPosting_next h) .nil

/-- A client without a token logs in before a call that asks for one, and does not call if that brings none. -/
theorem request_posts_login (hm : ask.method? = some (method, params)) (h : needsToken method = true)
    (hn : c.token = none) :
    ∃ ps, Turns parse (c, x) ps (run (request (serving parse) method params) c x).2 ∧
      Posts c.loginParams c.token ask ps := by
  have hlogs : (loginPosting parse c x).LogsIn c.loginParams := ⟨rfl, rfl, rfl⟩
  obtain ⟨result, hlogin, hresult⟩ := run_login parse c x
  have hfor := @run_tokenFor parse c x method h
  rw [run_authenticate_login (.inr hn), hlogin] at hfor
  cases result with
  | error e =>
      refine ⟨[loginPosting parse c x], ?_, .loginFailed hm h hn hlogs hresult.symm⟩
      rw [run_request_of_error hfor]
      exact .cons (loginPosting_next c x) .nil
  | ok token =>
      have hposted : (c.posted (loginPosting parse c x)).token = some token := by
        rw [posted, ← hresult]
        rfl
      have hauth : some token =
          if needsToken method then (c.posted (loginPosting parse c x)).token else none := by
        rw [if_pos h, hposted]
      have hnext : ∀ x', Next parse (c.posted (loginPosting parse c x)) x'
          (callPosting parse (c.posted (loginPosting parse c x)) x' method params) :=
        fun _ => callPosting_next fun _ => Option.isSome_of_eq_some hposted
      have hcalls := callPosting_calls parse (c.posted (loginPosting parse c x))
        (x.sending c.url (loginPosting parse c x).request.body) method params
      refine ⟨[_, _], ?_, .afterLogin hm h hn hlogs (hresult ▸ rfl) hcalls⟩
      rw [run_request_of_token hfor hauth]
      exact .cons (loginPosting_next c x) (.cons (hnext _) .nil)

theorem request_posts (hm : ask.method? = some (method, params)) :
    ∃ ps, Turns parse (c, x) ps (run (request (serving parse) method params) c x).2 ∧
      Posts c.loginParams c.token ask ps := by
  by_cases h : needsToken method = true → c.token.isSome
  · exact request_posts_held hm h
  · obtain ⟨hneed, hnone⟩ := Classical.not_imp.mp h
    exact request_posts_login hm hneed (Option.not_isSome_iff_eq_none.mp hnone)

/-- What a call posts is in turn, and is what it asks for. -/
theorem step_posts (ask : Ask) (c : RpcClient) (x : Exchange) :
    ∃ ps, Turns parse (c, x) ps (run (ask.step (serving parse)) c x).2 ∧
      Posts c.loginParams c.token ask ps := by
  cases ask with
  | authenticate reset =>
      rw [Ask.step, run_map]
      by_cases h : reset = true ∨ c.token = none
      · obtain ⟨result, hlogin, _⟩ := run_login parse c x
        rw [run_authenticate_login h, hlogin]
        exact ⟨[loginPosting parse c x], .cons (loginPosting_next c x) .nil, .login h ⟨rfl, rfl, rfl⟩⟩
      · obtain ⟨hreset, hsome⟩ := not_or.mp h
        obtain ⟨token, htoken⟩ := Option.ne_none_iff_exists'.mp hsome
        rw [Bool.not_eq_true] at hreset
        subst hreset
        rw [run_authenticate_cached htoken]
        exact ⟨[], .nil, .cached (htoken ▸ rfl)⟩
  | request method params =>
      rw [Ask.step, run_map]
      exact request_posts rfl
  | importDocument source =>
      rw [Ask.step, run_map]
      exact request_posts rfl

/-! ## Postings in turn -/

theorem tokenAfter_cons (p : Posting) (ps : List Posting) : tokenAfter (p :: ps) = (tokenAfter ps <|> p.token?) := by
  unfold tokenAfter
  cases h : p.token? with
  | none => simp [h]
  | some token =>
      rw [List.filterMap_cons_some h, List.getLast?_cons]
      cases (ps.filterMap Posting.token?).getLast? <;> rfl

namespace Turns

variable {s t : RpcClient × Exchange}

theorem client (h : Turns parse s ps t) :
    t.1 = { s.1 with token := tokenAfter ps <|> s.1.token, nextId := s.1.nextId + ps.length } := by
  induction h with
  | nil => rfl
  | @cons c x p ps t _ _ ih =>
      rw [ih, tokenAfter_cons]
      simp only [posted, List.length_cons, mk.injEq, true_and]
      refine ⟨?_, by omega⟩
      cases tokenAfter ps <;> rfl

theorem exchange (h : Turns parse s ps t) :
    t.2 = ⟨s.2.replies.drop ps.length, s.2.sent ++ ps.map fun p => (s.1.url, p.request.body)⟩ := by
  induction h with
  | nil => simp
  | cons _ _ ih =>
      rw [ih]
      simp [sending, posted]

theorem split {before after : List Posting} (h : Turns parse s (before ++ p :: after) t) :
    ∃ u, Turns parse s before u ∧ Next parse u.1 u.2 p := by
  induction before generalizing s with
  | nil =>
      cases h with
      | cons hp _ => exact ⟨_, .nil, hp⟩
  | cons q before ih =>
      cases h with
      | cons hq ht =>
          obtain ⟨u, hu, hp⟩ := ih ht
          exact ⟨u, .cons hq hu, hp⟩

end Turns

/-! ## Sessions -/

/-- What any number of calls post is in turn, one part for each. -/
theorem exists_log (asks : List Ask) (c : RpcClient) (x : Exchange) : ∃ log : List (List Posting),
    log.length = asks.length ∧ ∀ k, Turns parse (c, x) (log.take k).flatten (afterAll parse (asks.take k) c x) ∧
      ∀ ask, asks[k]? = some ask → ∃ ps, log[k]? = some ps ∧
        Posts c.loginParams (afterAll parse (asks.take k) c x).1.token ask ps := by
  induction asks generalizing c x with
  | nil => exact ⟨[], rfl, fun k => ⟨by simpa [afterAll] using .nil, nofun⟩⟩
  | cons ask asks ih =>
      obtain ⟨ps, hps, hasks⟩ := step_posts ask c x
      obtain ⟨log, hlength, hlog⟩ :=
        ih (run (ask.step (serving parse)) c x).2.1 (run (ask.step (serving parse)) c x).2.2
      have hparams : (run (ask.step (serving parse)) c x).2.1.loginParams = c.loginParams := by
        rw [hps.client]
        rfl
      refine ⟨ps :: log, by rw [List.length_cons, hlength, List.length_cons], fun k => ?_⟩
      cases k with
      | zero => exact ⟨.nil, fun _ h => ⟨ps, rfl, by cases h; exact hasks⟩⟩
      | succ k =>
          obtain ⟨hturns, hcalls⟩ := hlog k
          exact ⟨hps.append hturns, fun ask' h => hparams ▸ hcalls ask' h⟩

/-- Whether a log tells what the calls of a session post, each in a part of its own. -/
structure Tells (parse : Rpc.Parser) (url user password : String) (replies : List (Except String String))
    (asks : List Ask) (log : List (List Posting)) : Prop where
  length : log.length = asks.length
  /-- The texts that are sent are those of the postings. -/
  sent : (afterAll parse asks (ofUser url user password) ⟨replies, []⟩).2.sent =
    log.flatten.map fun p => (url, p.request.body)
  /-- They are numbered from one on. -/
  numbered : ∀ i p, log.flatten[i]? = some p → Rpc.Numbered p.request.body (i + 1)
  /-- What is read from them as the method and its parameters is that of the postings. -/
  read : ∀ p ∈ log.flatten, Rpc.members p.request.body "method" = [.str (some p.request.method)] ∧
    Rpc.members p.request.body "params" = [.ofJson p.request.params]
  /-- They are answered by the replies in turn. -/
  replied : ∀ i p, log.flatten[i]? = some p →
    p.answer = Exchange.answer parse (replies.getD i (.error "no reply queued"))
  /-- If its method asks for a token, a text has that of the latest login that brought one, and there was one. Other
  texts have none. -/
  authorized : ∀ before p after, log.flatten = before ++ p :: after →
    Rpc.members p.request.body "auth" = (if needsToken p.request.method then
        (tokenAfter before).toList.map fun token => .str (some token) else []) ∧
      (needsToken p.request.method = true → (tokenAfter before).isSome)
  /-- Each call posts what it is for, after a login if it needs one. -/
  calls : ∀ k ask, asks[k]? = some ask → ∃ ps, log[k]? = some ps ∧
    Posts (ofUser url user password).loginParams (tokenAfter (log.take k).flatten) ask ps
  /-- After each call, the client has the token of the latest login that brought one. -/
  held : ∀ k, (afterAll parse (asks.take k) (ofUser url user password) ⟨replies, []⟩).1.token =
    tokenAfter (log.take k).flatten

theorem exists_append_of_getElem? {α : Type} {l : List α} {a : α} {i : Nat} (h : l[i]? = some a) :
    ∃ before after, l = before ++ a :: after ∧ before.length = i := by
  obtain ⟨hi, rfl⟩ := List.getElem?_eq_some_iff.mp h
  refine ⟨l.take i, l.drop (i + 1), ?_, List.length_take_of_le (Nat.le_of_lt hi)⟩
  rw [← List.drop_eq_getElem_cons, List.take_append_drop]

theorem Turns.token_of_start {url user password : String} {x : Exchange} {t : RpcClient × Exchange}
    (h : Turns parse (ofUser url user password, x) ps t) : t.1.token = tokenAfter ps := by
  rw [h.client]
  cases tokenAfter ps <;> simp [ofUser]

/-- A posting in a session depends on those before it. -/
theorem Turns.next_of_start {url user password : String} {replies : List (Except String String)}
    {before after : List Posting} {t : RpcClient × Exchange}
    (h : Turns parse (ofUser url user password, ⟨replies, []⟩) (before ++ p :: after) t) :
    p.request.id = 1 + before.length ∧
      p.answer = answer parse (replies.getD before.length (.error "no reply queued")) ∧
      p.request.auth = (if needsToken p.request.method then tokenAfter before else none) ∧
      (needsToken p.request.method = true → (tokenAfter before).isSome) := by
  obtain ⟨u, hu, hp⟩ := h.split
  have htoken : u.1.token = tokenAfter before := hu.token_of_start
  refine ⟨?_, ?_, htoken ▸ hp.auth, htoken ▸ hp.held⟩
  · rw [hp.id, hu.client]
    rfl
  · rw [hp.answer, hu.exchange, next]
    simp [List.headD_eq_head?_getD, List.getD_eq_getElem?_getD]

theorem tells_of_turns {url user password : String} {replies : List (Except String String)} {asks : List Ask}
    {log : List (List Posting)} (hlength : log.length = asks.length)
    (h : ∀ k, Turns parse (ofUser url user password, ⟨replies, []⟩) (log.take k).flatten
      (afterAll parse (asks.take k) (ofUser url user password) ⟨replies, []⟩))
    (hcalls : ∀ k ask, asks[k]? = some ask → ∃ ps, log[k]? = some ps ∧ Posts (ofUser url user password).loginParams
      (afterAll parse (asks.take k) (ofUser url user password) ⟨replies, []⟩).1.token ask ps) :
    Tells parse url user password replies asks log := by
  have hturns : Turns parse (ofUser url user password, ⟨replies, []⟩) log.flatten
      (afterAll parse asks (ofUser url user password) ⟨replies, []⟩) := by
    have hall := h asks.length
    rwa [List.take_length, ← hlength, List.take_length] at hall
  have hheld : ∀ k, (afterAll parse (asks.take k) (ofUser url user password) ⟨replies, []⟩).1.token =
      tokenAfter (log.take k).flatten := fun k => (h k).token_of_start
  exact {
    length := hlength
    sent := by
      rw [hturns.exchange]
      rfl
    numbered := fun i p hp => by
      obtain ⟨before, after, hsplit, rfl⟩ := exists_append_of_getElem? hp
      obtain ⟨hid, _⟩ := (hsplit ▸ hturns).next_of_start
      rw [Nat.add_comm, ← hid]
      exact Rpc.numbered_body p.request
    read := fun p _ => ⟨Rpc.members_method p.request, Rpc.members_params p.request⟩
    replied := fun i p hp => by
      obtain ⟨before, after, hsplit, rfl⟩ := exists_append_of_getElem? hp
      exact (hsplit ▸ hturns).next_of_start.2.1
    authorized := fun before p after hsplit => by
      obtain ⟨_, _, hauth, hsome⟩ := (hsplit ▸ hturns).next_of_start
      rw [Rpc.members_auth, hauth]
      exact ⟨by split <;> rfl, hsome⟩
    calls := fun k ask hask => by
      rw [← hheld k]
      exact hcalls k ask hask
    held := hheld }

/-- Whatever is called and replied, and however replies are parsed, there is a log of it. -/
theorem session_told (parse : Rpc.Parser) (url user password : String)
    (replies : List (Except String String)) (asks : List Ask) :
    ∃ log, Tells parse url user password replies asks log := by
  obtain ⟨log, hlength, hlog⟩ := exists_log asks (ofUser url user password) ⟨replies, []⟩
  exact ⟨log, tells_of_turns hlength (fun k => (hlog k).1) fun k => (hlog k).2⟩

/-- A token of digits is kept as a text. -/
example : (afterAll Rpc.Reply.parse? [.request "item.get" .null] (ofUser "" "" "")
    ⟨[.ok "\x7b\"result\":\"0042\"\x7d", .error "timeout"], []⟩).1.token = some "0042" := by
  decide +kernel

end RpcClient

end MonitorExport
