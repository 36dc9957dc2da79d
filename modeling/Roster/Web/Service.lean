/-
Remotes behind a web service.

The relations of an owner stand at `owners/OWNER/relations` below a base address, each one at its
target's own address below that.  Listing asks for one page after another, as far as each answer
links to a next one; an address that was asked before ends it with an error.  A server that links on
to ever new addresses is asked without end.

A server is any function of a request and of a state; `none` stands for a server that cannot be
reached.  Redirects are outside of what a server is here: they are followed before an answer is
looked at, and the answer to a request is the one that they lead to.

* `advance_of_mem`: an address that was asked before is not asked again.
-/
import Roster.Relation.Wire
import Roster.Remote
import Roster.Web.Link
import Roster.Web.Url

namespace Roster

/-- What a request does. -/
inductive Method where
  | get
  | put
  | delete
  deriving DecidableEq, Repr

def Method.text : Method → String
  | get => "GET"
  | put => "PUT"
  | delete => "DELETE"

/-- What is sent to a server. -/
structure Request where
  method : Method
  url : Url
  /-- What answers are accepted. -/
  accept : String
  authorization : Option String
  body : Option String
  deriving DecidableEq, Repr

/-- What a server answers. -/
structure Response where
  status : Nat
  link : Option String
  body : String
  deriving DecidableEq, Repr

/-- A server with states of type `σ`. -/
abbrev Server (σ : Type) := Request → σ → Option Response × σ

/-- How a service is reached. -/
structure Service where
  /-- The address below which everything stands. -/
  base : String
  token : Option String

namespace Service

variable {σ : Type}

def root (s : Service) : String :=
  String.ofList (s.base.toList.reverse.dropWhile (· == '/')).reverse

def segment (text : String) : String := Text.Percent.encode Text.Percent.isUnreserved text

def relationsUrl (s : Service) (owner : OwnerId) : String :=
  s.root ++ "/owners/" ++ segment owner.text ++ "/relations"

def relationUrl (s : Service) (owner : OwnerId) (target : TargetId) : String :=
  s.relationsUrl owner ++ "/" ++ segment target.text

def isHeaderChar (c : Char) : Bool := c == '\t' || (0x20 ≤ c.toNat && c.toNat ≤ 0x7E)

/-- The header that carries the token. -/
def authorization (s : Service) : Option String := s.token.map ("Bearer " ++ ·)

def accepted (r : Response) : Except RemoteError Response :=
  if r.status = 404 then .error .notFound
  else if 400 ≤ r.status then .error (.rejected r.status (Text.trimmed r.body))
  else .ok r

/-- What is said of an address that is none. -/
def unusableAddress : String := "the address cannot be used"

/-- What is said of a token with characters that no header may hold. -/
def unusableToken : String := "the token cannot be sent"

/-- What is said of a server that gives no answer. -/
def unreachableServer : String := "the server cannot be reached"

/-- Sends a request to an address. -/
def send (s : Service) (server : Server σ) (method : Method) (url : String) (body : Option String)
    (state : σ) : Except RemoteError Response × σ :=
  match Url.parse? url with
  | none => (.error (.unavailable unusableAddress), state)
  | some u =>
    if (s.authorization.getD "").toList.all isHeaderChar then
      match server ⟨method, u, "application/json", s.authorization, body⟩ state with
      | (some r, state) => (accepted r, state)
      | (none, state) => (.error (.unavailable unreachableServer), state)
    else (.error (.unavailable unusableToken), state)

/-- Sends a request of which only the status counts. -/
def command (s : Service) (server : Server σ) (method : Method) (url : String)
    (body : Option String) (state : σ) : Except RemoteError Unit × σ :=
  let (answer, state) := s.send server method url body state
  (answer.map fun _ => (), state)

/-- The relations on a page. -/
def page (r : Response) : Except RemoteError (List Relation) :=
  match Json.readWhole (Json.list WireRelation.decoder) r.body with
  | .error fault => .error (.malformed fault.message)
  | .ok wires =>
    match WireRelation.decodeAll wires with
    | .error e => .error (.malformed e.message)
    | .ok relations => .ok relations

/-- The page at an address, and the address of the next one. -/
def fetch (s : Service) (server : Server σ) (url : String) (state : σ) :
    Except RemoteError (List Relation × Option String) × σ :=
  match s.send server .get url none state with
  | (.error e, state) => (.error e, state)
  | (.ok r, state) => ((page r).map fun relations => (relations, r.link.bind Link.next?), state)

/-- The error of a page that links to an address that was asked before. -/
def loopError (url : String) : RemoteError :=
  .malformed ("pagination loop: " ++ url ++ " was already fetched")

/-- A listing under way: the relations so far, the addresses that were asked, and the one to ask
next. -/
structure Progress where
  collected : List Relation
  asked : List String
  next : String

/-- Asks for one page: how the listing goes on after it, or how it ends there. -/
def advance (s : Service) (server : Server σ) :
    Progress × σ → (Progress × σ) ⊕ (Except RemoteError (List Relation) × σ)
  | (p, state) =>
    if p.next ∈ p.asked then .inr (.error (loopError p.next), state)
    else
      match s.fetch server p.next state with
      | (.error e, state) => .inr (.error e, state)
      | (.ok (relations, none), state) => .inr (.ok (p.collected ++ relations), state)
      | (.ok (relations, some next), state) =>
        .inl (⟨p.collected ++ relations, p.next :: p.asked, next⟩, state)

/-- The listing of an owner's relations before any page was asked for. -/
def started (s : Service) (owner : OwnerId) : Progress := ⟨[], [], s.relationsUrl owner⟩

/-- All relations of an owner, page after page. -/
def list (s : Service) (server : Server σ) (owner : OwnerId) (state : σ) :
    Except RemoteError (List Relation) × σ :=
  have : Nonempty (Except RemoteError (List Relation) × σ) := ⟨(.error .notFound, state)⟩
  Id.run (repeatM (s.advance server) (s.started owner, state))

/-- The service as a remote. -/
def remote (s : Service) (server : Server σ) : Remote σ where
  upsert owner relation state :=
    s.command server .put (s.relationUrl owner relation.target)
      (some (WireRelation.encode relation).toJson.compact) state
  delete owner target state := s.command server .delete (s.relationUrl owner target) none state
  list := s.list server

theorem advance_of_mem {s : Service} {server : Server σ} {p : Progress}
    (h : p.next ∈ p.asked) (state : σ) :
    s.advance server (p, state) = .inr (.error (loopError p.next), state) := by
  rw [advance, if_pos h]

end Service

/-- A server that gives canned answers, one to each request, and keeps what it was sent. -/
structure Canned where
  responses : List Response
  requests : List Request

namespace Canned

def serve : Server Canned := fun request c =>
  match c.responses with
  | [] => (none, c)
  | r :: rest => (some r, ⟨rest, c.requests ++ [request]⟩)

end Canned

end Roster
