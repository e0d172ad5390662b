import ProjectsApi.Api.Errors
import ProjectsApi.Domain.NameRules
import ProjectsApi.Foundation.JsonDict
import ProjectsApi.Foundation.Unicode
import ProjectsApi.Foundation.Wrapper

/-!
# One HTTP request

What the application sees of a request (the ASGI scope), what it sends back (messages), and the
operations it performs in between.  `requestId` of `api/context.py` is one of them: its answer
depends on the id that is stashed on the scope's state, which every `Request` view of the scope
shares.
-/

namespace ProjectsApi

/-! ## URLs -/

/-- What the URL of a request is built from, besides its path. -/
structure Address where
  scheme : String
  /-- host and port of the server -/
  server : Option (String × Option Nat)
  /-- the header `Host` -/
  host : Option String
  /-- the bytes of the query string -/
  query : List Nat

/-- The path of `request.url`: Starlette writes address and path as one text and splits it again.
An error is the text of an exception: the query is no UTF-8, or the text is no URL. -/
class RequestUrl where
  path : Address → String → Except String String

/-- A URL without control characters and with a plain host: its path ends where the query or a
fragment starts. -/
abbrev RequestUrl.plain : RequestUrl where
  path address path :=
    match Foundation.utf8Decode address.query with
    | none => .error "invalid start byte"
    | some _ => .ok (String.ofList (path.toList.takeWhile fun c => c ≠ '?' && c ≠ '#'))

namespace Sample

scoped instance requestUrl : RequestUrl := .plain

end Sample

end ProjectsApi

namespace ProjectsApi.Http

open Foundation Dynamo

/-! ## The scope -/

/-- A request id: text that fits into a header, which carries Latin-1 characters. -/
@[ext] structure RequestId where
  text : String
  latin1 : ∀ c ∈ text.toList, c.toNat < 256

/-- What the code reads of an API Gateway event.  A section of the event is an object or is
missing: Mangum reads `requestContext.identity` for the address of the client, so it makes no
scope of an event with a null section.  The ids fit into a header, as those of the gateway do. -/
structure GatewayEvent where
  /-- `requestContext.requestId` -/
  requestId : Option RequestId
  /-- `requestContext.identity.apiKeyId` -/
  apiKeyId : Option String

inductive ScopeType where
  | http
  | websocket
  | lifespan
  deriving DecidableEq

/-- The ASGI scope of a request. -/
structure Scope where
  type : ScopeType
  method : String
  path : String
  address : Address
  /-- `aws.event`, if it is a dictionary -/
  event : Option GatewayEvent
  /-- `aws.context.aws_request_id` -/
  awsRequestId : Option RequestId
  /-- the header `X-Request-Id` -/
  requestIdHeader : Option RequestId
  /-- the header `x-api-key-id` -/
  identityHeader : Option String

/-- `request.url.path` -/
def Scope.urlPath [RequestUrl] (scope : Scope) : Except String String :=
  RequestUrl.path scope.address scope.path

/-- `request.url.path` can be read. -/
def Scope.HasUrl [RequestUrl] (scope : Scope) : Prop := ∃ path, scope.urlPath = .ok path

theorem Scope.not_hasUrl_iff [RequestUrl] {scope : Scope} :
    ¬ scope.HasUrl ↔ ∃ text, scope.urlPath = .error text := by
  unfold HasUrl
  cases scope.urlPath <;> simp

/-! ## The request id -/

/-- `str.isprintable` of Latin-1 characters. -/
def isPrintable (c : Char) : Bool :=
  (0x20 ≤ c.toNat && c.toNat ≤ 0x7E) || (0xA1 ≤ c.toNat && c.toNat ≠ 0xAD)

/-- `str.strip` -/
def RequestId.strip (id : RequestId) : RequestId where
  text := stripWhitespace isSpace id.text
  latin1 := by
    intro c hc
    rw [stripWhitespace, String.toList_ofList] at hc
    exact id.latin1 c ((List.dropWhile_sublist isSpace).subset
      ((List.rdropWhile_prefix isSpace _).subset hc))

def maxClientRequestIdLength : Nat := 128

/-- A candidate of the client that is neither empty nor too long, and printable. -/
def RequestId.Usable (id : RequestId) : Prop :=
  0 < id.text.length ∧ id.text.length ≤ maxClientRequestIdLength ∧
    id.text.toList.all isPrintable = true

instance (id : RequestId) : Decidable id.Usable := inferInstanceAs (Decidable (_ ∧ _ ∧ _))

/-- The identifier that the gateway gave, unless it is missing or empty. -/
def Scope.gatewayId? (scope : Scope) : Option RequestId :=
  (scope.event.bind GatewayEvent.requestId).filter fun id => id.text ≠ ""

/-- The identifier of the Lambda invocation, unless it is missing or empty. -/
def Scope.lambdaId? (scope : Scope) : Option RequestId :=
  scope.awsRequestId.filter fun id => id.text ≠ ""

/-- The identifier of the client, if it is usable. -/
def Scope.clientId? (scope : Scope) : Option RequestId :=
  (scope.requestIdHeader.map RequestId.strip).filter fun id => id.Usable

/-- `str(uuid)`: the hexadecimal digits in groups of 8, 4, 4, 4 and 12. -/
def hyphenated (hex : List Char) : List Char :=
  hex.take 8 ++ '-' :: (hex.drop 8).take 4 ++ '-' :: (hex.drop 12).take 4 ++
    '-' :: (hex.drop 16).take 4 ++ '-' :: hex.drop 20

theorem mem_of_mem_hyphenated {hex : List Char} {c : Char} (h : c ∈ hyphenated hex) :
    c = '-' ∨ c ∈ hex := by
  simp only [hyphenated, List.mem_append, List.mem_cons] at h
  rcases h with ((((h | h | h) | h | h) | h | h) | h | h)
  all_goals first
    | exact Or.inl h
    | exact Or.inr (List.mem_of_mem_take h)
    | exact Or.inr (List.mem_of_mem_drop h)
    | exact Or.inr (List.mem_of_mem_drop (List.mem_of_mem_take h))

theorem toNat_lt_of_isLowerHex {c : Char} (h : isLowerHex c = true) : c.toNat < 256 := by
  simp only [isLowerHex, Bool.or_eq_true, Bool.and_eq_true, decide_eq_true_eq, Char.le_def,
    UInt32.le_iff_toNat_le] at h
  change (0x30 ≤ c.toNat ∧ c.toNat ≤ 0x39) ∨ 0x61 ≤ c.toNat ∧ c.toNat ≤ 0x66 at h
  omega

/-- `str(uuid4())` -/
def uuidText (uuid : Uuid4) : RequestId where
  text := String.ofList (hyphenated uuid.hex.toList)
  latin1 := by
    intro c hc
    rw [String.toList_ofList] at hc
    rcases mem_of_mem_hyphenated hc with rfl | hhex
    · decide
    · exact toNat_lt_of_isLowerHex (uuid.isLowerHex_hex c hhex)

/-- `_resolve` -/
def resolve (scope : Scope) (uuid : Uuid4) : RequestId :=
  match scope.gatewayId? with
  | some gatewayId => gatewayId
  | none =>
      match scope.lambdaId? with
      | some lambdaId => lambdaId
      | none => scope.clientId?.getD (uuidText uuid)

/-- `request_id`: the stashed id, else the one that is resolved and stashed now. -/
def requestId (scope : Scope) (uuid : Uuid4) (stash : Option RequestId) : RequestId :=
  match stash with
  | some existing => existing
  | none => resolve scope uuid

/-! ## Messages -/

/-- The content of a response body. -/
inductive Content where
  /-- the rendering of a problem document -/
  | problem (members : Json.Members)
  /-- the rendering of another body -/
  | entity (body : Body)
  | json (value : Json)
  /-- a documentation page of the framework -/
  | page
  | empty

/-- The ASGI messages of a response; header names are in lower case. -/
inductive Message where
  /-- `http.response.start` -/
  | start (status : Nat) (headers : List (String × String))
  /-- `http.response.body` -/
  | body (content : Content)
  /-- any other message, by its type -/
  | other (type : String)

def Message.IsStart : Message → Prop
  | .start _ _ => True
  | _ => False

instance : DecidablePred Message.IsStart
  | .start _ _ => isTrue trivial
  | .body _ => isFalse id
  | .other _ => isFalse id

/-- A response, before it is sent. -/
structure Response where
  status : Nat
  headers : List (String × String)
  content : Content

/-! ## Operations -/

/-- The routes that `create_app` registers; the documentation only locally. -/
inductive Endpoint where
  | health
  | createProject
  | listProjects
  | getProject
  | deleteProject
  | openapi
  | docs
  | oauth2Redirect
  deriving DecidableEq

/-- The query parameters of `list_projects`. -/
structure ListQuery where
  limit : Nat
  nextToken : Option String
  one_le : 1 ≤ limit
  le_hundred : limit ≤ 100

/-- What the framework reads from a request for an endpoint. -/
abbrev Endpoint.Arguments : Endpoint → Type
  | .createProject => CreateProjectRequest
  | .listProjects => ListQuery
  | .getProject => String
  | .deleteProject => String
  | _ => Unit

/-- A part of a location: a name or a position. -/
inductive LocPart where
  | name (text : String)
  | index (position : Int)
  deriving DecidableEq

/-- `str(p)` -/
def LocPart.str : LocPart → String
  | .name text => text
  | .index position => toString position

/-- One error of a `RequestValidationError`. -/
structure FieldError where
  loc : List LocPart
  msg : String

/-- Why the framework does not call an endpoint. -/
inductive Rejection where
  /-- `RequestValidationError`: the body is no JSON -/
  | undecodable (errors : List FieldError)
  /-- `RequestValidationError`: an argument is missing or invalid -/
  | invalid (errors : List FieldError)
  /-- `HTTPException(400)`: the body cannot be read -/
  | unreadable (detail : String)
  /-- any other exception, by its text -/
  | failed (text : String)

/-- The operations of a request. -/
inductive AsgiOp where
  /-- `request_id(Request(scope))` -/
  | requestId
  | send (message : Message)
  /-- `scope.get("route")`, by its path format -/
  | route
  /-- the framework reads the arguments of an endpoint -/
  | bind (endpoint : Endpoint)
  /-- the framework goes on; an answer is the text of an exception -/
  | proceed
  /-- an operation of the service -/
  | effect (op : Op)

abbrev AsgiOp.Ans : AsgiOp → Type
  | .requestId => RequestId
  | .send _ => Unit
  | .route => Option String
  | .bind endpoint => Except Rejection endpoint.Arguments
  | .proceed => Option String
  | .effect op => op.Ans

/-- Programs over these operations. -/
abbrev Asgi (α : Type) : Type := Program AsgiOp AsgiOp.Ans α

namespace Asgi

abbrev requestId : Asgi RequestId := Program.perform AsgiOp.requestId

abbrev send (message : Message) : Asgi Unit := Program.perform (AsgiOp.send message)

abbrev route : Asgi (Option String) := Program.perform AsgiOp.route

abbrev bind (endpoint : Endpoint) : Asgi (Except Rejection endpoint.Arguments) :=
  Program.perform (AsgiOp.bind endpoint)

abbrev proceed : Asgi (Option String) := Program.perform AsgiOp.proceed

abbrev log (entry : LogEntry) : Asgi Unit := Program.perform (AsgiOp.effect (.log entry))

/-- A program over the service, as a part of a request. -/
def ofAction {α : Type} (p : Action α) : Asgi α :=
  Program.embed AsgiOp.effect (fun _ answer => answer) p

end Asgi

/-- The environment of one request. -/
structure World where
  /-- `request.state.request_id` -/
  stash : Option RequestId
  sent : List Message
  lines : List LogEntry
  table : Table

/-- The environment of a request that has just arrived. -/
def World.fresh (t : Table) : World := ⟨none, [], [], t⟩

/-- The log line of an operation of the service. -/
def loggedBy : Op → List LogEntry
  | .log entry => [entry]
  | _ => []

/-- One operation of a request: its answer, and the environment before and after it. -/
inductive Exec (svc : Service) (scope : Scope) (w : World) :
    (op : AsgiOp) → op.Ans → World → Prop where
  | requestId (uuid : Uuid4) :
      Exec svc scope w .requestId (requestId scope uuid w.stash)
        { w with stash := some (requestId scope uuid w.stash) }
  | send (message : Message) :
      Exec svc scope w (.send message) () { w with sent := w.sent ++ [message] }
  | route (pathFormat : Option String) : Exec svc scope w .route pathFormat w
  | bind (endpoint : Endpoint) (answer : Except Rejection endpoint.Arguments) :
      Exec svc scope w (.bind endpoint) answer w
  | proceed (answer : Option String) : Exec svc scope w .proceed answer w
  | effect {op : Op} {answer : op.Ans} {t : Table} (h : svc.Exec w.table op answer t) :
      Exec svc scope w (.effect op) answer
        { w with table := t, lines := w.lines ++ loggedBy op }

/-! ## The id is stashed once -/

section Stash

variable {svc : Service} {scope : Scope} {id : RequestId}

/-- One operation in a request whose id is stashed. -/
theorem Exec.stashed {w w' : World} {op : AsgiOp} {answer : op.Ans} (hw : w.stash = some id)
    (h : Exec svc scope w op answer w') :
    w'.stash = some id ∧
      ∀ x, (⟨op, answer⟩ : (op : AsgiOp) × op.Ans) = ⟨.requestId, x⟩ → x = id := by
  cases h with
  | requestId uuid =>
      have hid : Http.requestId scope uuid w.stash = id := by
        rw [hw]
        rfl
      refine ⟨by rw [hid], ?_⟩
      intro x hx
      rw [hid] at hx
      cases hx
      rfl
  | send message => exact ⟨hw, fun x hx => nomatch hx⟩
  | route pathFormat => exact ⟨hw, fun x hx => nomatch hx⟩
  | bind endpoint answer => exact ⟨hw, fun x hx => nomatch hx⟩
  | proceed answer => exact ⟨hw, fun x hx => nomatch hx⟩
  | effect hexec => exact ⟨hw, fun x hx => nomatch hx⟩

/-- Once the id is stashed, every call of `request_id` returns it. -/
theorem traced_stashed {α : Type} {p : Asgi α} {w w' : World} {value : α}
    {ops : List ((op : AsgiOp) × op.Ans)} (hw : w.stash = some id)
    (h : p.Traced (Exec svc scope) w ops value w') :
    w'.stash = some id ∧ ∀ x, ⟨.requestId, x⟩ ∈ ops → x = id := by
  induction h with
  | done w value => exact ⟨hw, by simp⟩
  | call hexec hnext ih =>
      obtain ⟨hmid, hid⟩ := hexec.stashed hw
      obtain ⟨hend, hrest⟩ := ih hmid
      refine ⟨hend, ?_⟩
      intro x hx
      rcases List.mem_cons.mp hx with hx | hx
      · exact hid x hx.symm
      · exact hrest x hx

end Stash

end ProjectsApi.Http
