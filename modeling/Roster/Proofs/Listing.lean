/-
Listings of a service: which pages they read, and how they end.

The pages that a server's links lead through, from an address on, are settled by the server alone; a
walk follows them as far as each page is a success whose body decodes, and does not mind coming by
an address again.  A listing takes the walk that comes by no address twice, and ends where it leads
nowhere, where it comes back, or where a page fails.  If the addresses that the server links to are
finitely many, there is such an end.

* `Service.outgoing`, `Succeeds`, `Refuses`, `send_cases`: what is sent, and what comes of it;
* `Decodes`, `Undecodable`, `decodes_or_undecodable`: the relations on a page, and why there are
  none;
* `Walk`, `Ending`: walks, and the three ends of a listing;
* `Finishes`, `list_eq_of_finishes`: a listing that takes finitely many rounds;
* `finishes_of_walk`: the listing of a walk, and what it answers;
* `exists_ending`: among finitely many addresses there is an end;
* `Server.ofHistory`, `history_of_ending`: what is asked of a server that remembers;
* `listing_ends`: how the listing ends, and what is asked for it.
-/
import Mathlib.Data.Finset.Card
import Roster.Web.Service

namespace Roster

variable {σ : Type}

namespace Service

/-- A page that was read. -/
structure Page where
  address : String
  relations : List Relation

/-- The addresses of some pages, in order. -/
def addresses (pages : List Page) : List String := pages.map (·.address)

/-- The relations on some pages, in order. -/
def gathered (pages : List Page) : List Relation := pages.flatMap (·.relations)

variable {s : Service} {server : Server σ} {url : String} {state t u : σ}

@[simp] theorem addresses_nil : addresses [] = [] := rfl

@[simp] theorem addresses_cons (p : Page) (pages : List Page) :
    addresses (p :: pages) = p.address :: addresses pages := rfl

@[simp] theorem addresses_append (pages more : List Page) :
    addresses (pages ++ more) = addresses pages ++ addresses more := List.map_append

/-! ### Requests -/

/-- The header with the token can be sent, or there is no token. -/
def Sendable (s : Service) : Prop := (s.authorization.getD "").toList.all isHeaderChar = true

instance (s : Service) : Decidable s.Sendable := inferInstanceAs (Decidable (_ = _))

/-- What is sent to an address; none if there is nothing that could be sent. -/
def outgoing (s : Service) (method : Method) (url : String) (body : Option String) :
    Option Request :=
  if s.Sendable then
    (Url.parse? url).map fun u => ⟨method, u, "application/json", s.authorization, body⟩
  else none

/-- The request for the page at an address. -/
def inquiry (s : Service) (url : String) : Option Request := s.outgoing .get url none

/-- Asked for the page at an address, the server answers with a success. -/
def Succeeds (s : Service) (server : Server σ) (url : String) (state : σ) (r : Response) (t : σ) :
    Prop :=
  ∃ request, s.inquiry url = some request ∧ server request state = (some r, t) ∧ r.status < 400

/-- The page at an address cannot be asked for, or the server does not answer with a success. -/
inductive Refuses (s : Service) (server : Server σ) (url : String) (state : σ) :
    RemoteError → σ → Prop
  | address (unusable : Url.parse? url = none) :
    Refuses s server url state (.unavailable unusableAddress) state
  | token {u : Url} (usable : Url.parse? url = some u) (unusable : ¬s.Sendable) :
    Refuses s server url state (.unavailable unusableToken) state
  | unreachable {request : Request} {t : σ} (sent : s.inquiry url = some request)
    (silent : server request state = (none, t)) :
    Refuses s server url state (.unavailable unreachableServer) t
  | notFound {request : Request} {r : Response} {t : σ} (sent : s.inquiry url = some request)
    (answered : server request state = (some r, t)) (status : r.status = 404) :
    Refuses s server url state .notFound t
  | rejected {request : Request} {r : Response} {t : σ} (sent : s.inquiry url = some request)
    (answered : server request state = (some r, t)) (status : 400 ≤ r.status)
    (other : r.status ≠ 404) :
    Refuses s server url state (.rejected r.status (Text.trimmed r.body)) t

theorem send_of_outgoing {method : Method} {body : Option String} {request : Request}
    (sent : s.outgoing method url body = some request) :
    s.send server method url body state =
      match server request state with
      | (some r, t) => (accepted r, t)
      | (none, t) => (.error (.unavailable unreachableServer), t) := by
  rw [outgoing] at sent
  split at sent
  · rename_i sendable
    obtain ⟨u, hurl, rfl⟩ := Option.map_eq_some_iff.1 sent
    simp only [send, hurl]
    exact if_pos sendable
  · cases sent

theorem send_of_succeeds {r : Response} (h : Succeeds s server url state r t) :
    s.send server .get url none state = (.ok r, t) := by
  obtain ⟨request, sent, answered, status⟩ := h
  rw [send_of_outgoing sent, answered]
  simp only [accepted]
  rw [if_neg (by omega), if_neg (by omega)]

theorem send_of_refuses {e : RemoteError} (h : Refuses s server url state e t) :
    s.send server .get url none state = (.error e, t) := by
  cases h with
  | address unusable => rw [send, unusable]
  | token usable unusable =>
    simp only [send, usable]
    exact if_neg unusable
  | unreachable sent silent => rw [send_of_outgoing sent, silent]
  | notFound sent answered status =>
    rw [send_of_outgoing sent, answered]
    simp only [accepted]
    rw [if_pos status]
  | rejected sent answered status other =>
    rw [send_of_outgoing sent, answered]
    simp only [accepted]
    rw [if_neg other, if_pos status]

/-- What is asked for is answered with a success, or it is not. -/
theorem send_cases (s : Service) (server : Server σ) (url : String) (state : σ) :
    (∃ r t, Succeeds s server url state r t) ∨ ∃ e t, Refuses s server url state e t := by
  -- the checks in the order in which they are made
  cases hurl : Url.parse? url with
  | none => exact .inr ⟨_, _, .address hurl⟩
  | some u =>
    by_cases sendable : s.Sendable
    · have sent : s.inquiry url =
          some ⟨.get, u, "application/json", s.authorization, none⟩ := by
        rw [inquiry, outgoing, if_pos sendable, hurl, Option.map_some]
      rcases answered : server ⟨.get, u, "application/json", s.authorization, none⟩ state with
        ⟨_ | r, t⟩
      · exact .inr ⟨_, _, .unreachable sent answered⟩
      · by_cases status : r.status < 400
        · exact .inl ⟨r, t, _, sent, answered, status⟩
        · by_cases missing : r.status = 404
          · exact .inr ⟨_, _, .notFound sent answered missing⟩
          · exact .inr ⟨_, _, .rejected sent answered (Nat.not_lt.1 status) missing⟩
    · exact .inr ⟨_, _, .token hurl sendable⟩

/-! ### Pages -/

/-- The body of a page is a list of relations on the wire, each of which is one of these
relations. -/
def Decodes (r : Response) (relations : List Relation) : Prop :=
  ∃ wires, Json.readWhole (Json.list WireRelation.decoder) r.body = .ok wires ∧
    WireRelation.decodeAll wires = .ok relations

/-- The body of a page is no list of relations on the wire, or one of them is not a relation. -/
inductive Undecodable (r : Response) : RemoteError → Prop
  | body {fault : Json.Fault}
    (unread : Json.readWhole (Json.list WireRelation.decoder) r.body = .error fault) :
    Undecodable r (.malformed fault.message)
  | relation {wires : List WireRelation} {e : RelationError}
    (read : Json.readWhole (Json.list WireRelation.decoder) r.body = .ok wires)
    (undecoded : WireRelation.decodeAll wires = .error e) : Undecodable r (.malformed e.message)

/-- Asked for the page at an address, the server fails, or answers what does not decode. -/
inductive PageFails (s : Service) (server : Server σ) (url : String) (state : σ) :
    RemoteError → σ → Prop
  | unanswered {e : RemoteError} {t : σ} (refused : Refuses s server url state e t) :
    PageFails s server url state e t
  | undecoded {r : Response} {e : RemoteError} {t : σ} (answered : Succeeds s server url state r t)
    (fault : Undecodable r e) : PageFails s server url state e t

/-- From the address `next`, if it is one, the links of the server lead through some pages, each one
a success whose body decodes, to the address `last`, if it is one. -/
inductive Walk (s : Service) (server : Server σ) :
    Option String → σ → List Page → Option String → σ → Prop
  | here (next : Option String) (state : σ) : Walk s server next state [] next state
  | page {url : String} {state t u : σ} {r : Response} {relations : List Relation}
    {pages : List Page} {last : Option String} (answered : Succeeds s server url state r t)
    (decoded : Decodes r relations) (rest : Walk s server (r.link.bind Link.next?) t pages last u) :
    Walk s server (some url) state (⟨url, relations⟩ :: pages) last u

/-- The ends of a listing that has read some pages and stands before the address `last`, if it is
one. -/
inductive Ending (s : Service) (server : Server σ) (pages : List Page) :
    Option String → σ → Except RemoteError (List Relation) → σ → Prop
  | complete (state : σ) : Ending s server pages none state (.ok (gathered pages)) state
  | loop {url : String} (seen : url ∈ addresses pages) (state : σ) :
    Ending s server pages (some url) state (.error (loopError url)) state
  | failed {url : String} {state t : σ} {e : RemoteError} (unseen : url ∉ addresses pages)
    (fails : PageFails s server url state e t) : Ending s server pages (some url) state (.error e) t

theorem page_of_decodes {r : Response} {relations : List Relation} (h : Decodes r relations) :
    page r = .ok relations := by
  obtain ⟨wires, read, decoded⟩ := h
  simp only [page, read, decoded]

theorem page_of_undecodable {r : Response} {e : RemoteError} (h : Undecodable r e) :
    page r = .error e := by
  cases h with
  | body unread => simp only [page, unread]
  | relation read undecoded => simp only [page, read, undecoded]

theorem decodes_or_undecodable (r : Response) :
    (∃ relations, Decodes r relations) ∨ ∃ e, Undecodable r e := by
  cases read : Json.readWhole (Json.list WireRelation.decoder) r.body with
  | error fault => exact .inr ⟨_, .body read⟩
  | ok wires =>
    cases decoded : WireRelation.decodeAll wires with
    | error e => exact .inr ⟨_, .relation read decoded⟩
    | ok relations => exact .inl ⟨relations, wires, read, decoded⟩

theorem fetch_of_answered {r : Response} {relations : List Relation}
    (answered : Succeeds s server url state r t) (decoded : Decodes r relations) :
    s.fetch server url state = (.ok (relations, r.link.bind Link.next?), t) := by
  rw [fetch, send_of_succeeds answered]
  simp only [page_of_decodes decoded]
  rfl

theorem fetch_of_fails {e : RemoteError} (fails : PageFails s server url state e t) :
    s.fetch server url state = (.error e, t) := by
  cases fails with
  | unanswered refused => rw [fetch, send_of_refuses refused]
  | undecoded answered fault =>
    rw [fetch, send_of_succeeds answered]
    simp only [page_of_undecodable fault]
    rfl

/-- A page is a success that decodes, or it fails. -/
theorem page_cases (s : Service) (server : Server σ) (url : String) (state : σ) :
    (∃ r relations t, Succeeds s server url state r t ∧ Decodes r relations) ∨
      ∃ e t, PageFails s server url state e t := by
  rcases send_cases s server url state with ⟨r, t, answered⟩ | ⟨e, t, refused⟩
  · rcases decodes_or_undecodable r with ⟨relations, decoded⟩ | ⟨e, fault⟩
    · exact .inl ⟨r, relations, t, answered, decoded⟩
    · exact .inr ⟨e, t, .undecoded answered fault⟩
  · exact .inr ⟨e, t, .unanswered refused⟩

/-- A walk that starts nowhere is at its end. -/
theorem Walk.of_none {pages : List Page} {last : Option String}
    (h : Walk s server none state pages last t) :
    pages = [] ∧ last = none ∧ t = state := by
  cases h
  exact ⟨rfl, rfl, rfl⟩

/-! ### Rounds -/

/-- The listing ends after so many rounds. -/
inductive Finishes (s : Service) (server : Server σ) :
    Nat → Progress × σ → Except RemoteError (List Relation) × σ → Prop
  | last {p : Progress × σ} {answer : Except RemoteError (List Relation) × σ}
    (ends : s.advance server p = .inr answer) : Finishes s server 1 p answer
  | round {n : Nat} {p q : Progress × σ} {answer : Except RemoteError (List Relation) × σ}
    (goes : s.advance server p = .inl q) (rest : Finishes s server n q answer) :
    Finishes s server (n + 1) p answer

theorem repeatM_of_finishes [Nonempty (Except RemoteError (List Relation) × σ)] {n : Nat}
    {p : Progress × σ} {answer : Except RemoteError (List Relation) × σ}
    (h : Finishes s server n p answer) :
    Id.run (repeatM (s.advance server) p) = answer := by
  induction h with
  | last ends =>
    rw [repeatM_eq_of_monadTail]
    simp only [repeatM.body, ends]
    rfl
  | round goes rest ih =>
    rw [repeatM_eq_of_monadTail]
    simp only [repeatM.body, goes]
    exact ih

/-- A listing that ends answers what it ends with. -/
theorem list_eq_of_finishes {owner : OwnerId} {n : Nat}
    {answer : Except RemoteError (List Relation) × σ}
    (h : Finishes s server n (s.started owner, state) answer) :
    s.list server owner state = answer := by
  have : Nonempty (Except RemoteError (List Relation) × σ) := ⟨answer⟩
  exact repeatM_of_finishes h

/-- The progress of a listing that has read some pages and asks for another one. -/
def reached (before : List Page) (url : String) : Progress :=
  ⟨gathered before, (addresses before).reverse, url⟩

theorem advance_of_fails {before : List Page} {e : RemoteError} (unseen : url ∉ addresses before)
    (fails : PageFails s server url state e t) :
    s.advance server (reached before url, state) = .inr (.error e, t) := by
  rw [advance, if_neg (by simpa [reached] using unseen)]
  simp only [reached, fetch_of_fails fails]

theorem advance_of_answered {before : List Page} {r : Response} {relations : List Relation}
    (unseen : url ∉ addresses before) (answered : Succeeds s server url state r t)
    (decoded : Decodes r relations) :
    s.advance server (reached before url, state) =
      match r.link.bind Link.next? with
      | none => .inr (.ok (gathered (before ++ [⟨url, relations⟩])), t)
      | some next => .inl (reached (before ++ [⟨url, relations⟩]) next, t) := by
  rw [advance, if_neg (by simpa [reached] using unseen)]
  simp only [reached, fetch_of_answered answered decoded]
  cases r.link.bind Link.next? with
  | none => simp [gathered]
  | some next => simp [gathered, addresses]

/-- Having read the pages `before`, a listing takes the walk from `url` on, as long as it comes by
no address twice, and ends as the walk does. -/
theorem finishes_of_walk (before : List Page) {pages : List Page} {last : Option String}
    {answer : Except RemoteError (List Relation)}
    (walk : Walk s server (some url) state pages last t)
    (once : (addresses (before ++ pages)).Nodup)
    (ending : Ending s server (before ++ pages) last t answer u) :
    ∃ n ≤ pages.length + 1, Finishes s server n (reached before url, state) (answer, u) := by
  -- induction on the pages ahead, with those that were read as part of the claim
  induction pages generalizing before url state with
  | nil =>
    cases walk
    rw [List.append_nil] at ending
    refine ⟨1, le_rfl, .last ?_⟩
    cases ending with
    | loop seen =>
      have hasked : (reached before url).next ∈ (reached before url).asked :=
        List.mem_reverse.2 seen
      exact advance_of_mem hasked t
    | failed unseen fails => exact advance_of_fails unseen fails
  | cons p pages ih =>
    obtain ⟨address, relations⟩ := p
    cases walk with
    | @page _ _ v _ r _ _ _ answered decoded rest =>
      have hsplit : before ++ (⟨url, relations⟩ :: pages) = (before ++ [⟨url, relations⟩]) ++
          pages := by simp
      have hunseen : url ∉ addresses before := by
        intro hseen
        rw [addresses_append, List.nodup_append] at once
        exact once.2.2 url hseen url (by simp) rfl
      have hadvance := advance_of_answered hunseen answered decoded
      rw [hsplit] at once ending
      cases hnext : r.link.bind Link.next? with
      | none =>
        rw [hnext] at rest hadvance
        obtain ⟨rfl, rfl, rfl⟩ := rest.of_none
        cases ending
        rw [List.append_nil]
        exact ⟨1, by omega, .last hadvance⟩
      | some next =>
        rw [hnext] at rest hadvance
        obtain ⟨n, hn, hfinishes⟩ := ih _ rest once ending
        refine ⟨n + 1, ?_, .round hadvance hfinishes⟩
        rw [List.length_cons]
        omega

/-- A listing takes the walk from the owner's address that comes by no address twice. -/
theorem list_of_walk {owner : OwnerId} {pages : List Page} {last : Option String}
    {answer : Except RemoteError (List Relation)}
    (walk : Walk s server (some (s.relationsUrl owner)) state pages last t)
    (once : (addresses pages).Nodup) (ending : Ending s server pages last t answer u) :
    s.list server owner state = (answer, u) := by
  obtain ⟨n, -, hfinishes⟩ := finishes_of_walk [] walk once ending
  exact list_eq_of_finishes hfinishes

/-! ### Finitely many addresses -/

/-- Whatever the server answers, it links to no address outside of `links`. -/
def LinksWithin (server : Server σ) (links : Finset String) : Prop :=
  ∀ request state r next, (server request state).1 = some r →
    r.link.bind Link.next? = some next → next ∈ links

theorem LinksWithin.next_mem {links : Finset String} (h : LinksWithin server links) {r : Response}
    {next : String} (answered : Succeeds s server url state r t)
    (hnext : r.link.bind Link.next? = some next) : next ∈ links := by
  obtain ⟨request, -, hserved, -⟩ := answered
  exact h request state r next (congrArg Prod.fst hserved) hnext

/-- Having read the pages `before`, from `url` on a walk that comes by no address twice leads to an
end, and all its addresses are among those given. -/
def HasEnding (s : Service) (server : Server σ) (within : Finset String) (before : List Page)
    (url : String) (state : σ) : Prop :=
  ∃ pages last t answer u, Walk s server (some url) state pages last t ∧
    (addresses (before ++ pages)).Nodup ∧
    Ending s server (before ++ pages) last t answer u ∧ (∀ a ∈ addresses pages, a ∈ within) ∧
    ∀ a, last = some a → a ∈ within

variable {within : Finset String} {before : List Page}

theorem hasEnding_here {answer : Except RemoteError (List Relation)} (hurl : url ∈ within)
    (once : (addresses before).Nodup) (ending : Ending s server before (some url) state answer u) :
    HasEnding s server within before url state := by
  refine ⟨[], some url, state, answer, u, .here _ _, ?_, ?_, nofun, ?_⟩
  · rwa [List.append_nil]
  · rwa [List.append_nil]
  · rintro a ⟨⟩
    exact hurl

theorem hasEnding_last {r : Response} {relations : List Relation} (hurl : url ∈ within)
    (once : (addresses (before ++ [⟨url, relations⟩])).Nodup)
    (answered : Succeeds s server url state r t) (decoded : Decodes r relations)
    (hnext : r.link.bind Link.next? = none) : HasEnding s server within before url state := by
  refine ⟨[⟨url, relations⟩], none, t, _, t, .page answered decoded (hnext ▸ .here _ _), once,
    .complete t, ?_, nofun⟩
  simpa using hurl

theorem HasEnding.page {r : Response} {relations : List Relation} {next : String}
    (hurl : url ∈ within) (answered : Succeeds s server url state r t)
    (decoded : Decodes r relations) (hnext : r.link.bind Link.next? = some next)
    (h : HasEnding s server within (before ++ [⟨url, relations⟩]) next t) :
    HasEnding s server within before url state := by
  obtain ⟨pages, last, v, answer, w, walk, once, ending, hpages, hlast⟩ := h
  rw [List.append_assoc, List.singleton_append] at once ending
  refine ⟨⟨url, relations⟩ :: pages, last, v, answer, w, .page answered decoded (hnext ▸ walk),
    once, ending, ?_, hlast⟩
  simpa using ⟨hurl, hpages⟩

/-- From an address among finitely many, which no link leaves, there is an end. -/
theorem exists_ending {links : Finset String} (hlinks : LinksWithin server links)
    (hsub : links ⊆ within) (hurl : url ∈ within) (once : (addresses before).Nodup) :
    HasEnding s server within before url state := by
  -- with every page that is read there is one address less to come by
  induction hn : (within \ (addresses before).toFinset).card using Nat.strongRecOn
    generalizing before url state with
  | _ n ih =>
    by_cases hseen : url ∈ addresses before
    · exact hasEnding_here hurl once (.loop hseen state)
    rcases page_cases s server url state with ⟨r, relations, t, answered, decoded⟩ | ⟨e, t, fails⟩
    · have honce : (addresses (before ++ [⟨url, relations⟩])).Nodup := by
        rw [addresses_append]
        exact once.append (List.nodup_singleton url) (by simpa using hseen)
      cases hnext : r.link.bind Link.next? with
      | none => exact hasEnding_last hurl honce answered decoded hnext
      | some next =>
        have hless : (within \ (addresses (before ++ [⟨url, relations⟩])).toFinset).card < n := by
          rw [← hn]
          refine Finset.card_lt_card ⟨fun a ha => ?_, fun h => ?_⟩
          · simp only [Finset.mem_sdiff, List.mem_toFinset, addresses_append,
              List.mem_append] at ha ⊢
            exact ⟨ha.1, fun hb => ha.2 (.inl hb)⟩
          · have hmem := h (Finset.mem_sdiff.2 ⟨hurl, by simpa using hseen⟩)
            simp at hmem
        have hmem : next ∈ within := hsub (hlinks.next_mem answered hnext)
        exact .page hurl answered decoded hnext (ih _ hless hmem honce rfl)
    · exact hasEnding_here hurl once (.failed hseen fails)

/-- Different addresses among finitely many are at most as many. -/
theorem length_le_card {asked : List String} (once : asked.Nodup) (h : ∀ a ∈ asked, a ∈ within) :
    asked.length ≤ within.card := by
  rw [← List.toFinset_card_of_nodup once]
  exact Finset.card_le_card fun a ha => h a (List.mem_toFinset.1 ha)

/-! ### Servers that remember -/

end Service

/-- A server that answers each request by all that it was asked before. -/
def Server.ofHistory (respond : Request → List Request → Option Response) : Server (List Request) :=
  fun request past => (respond request past, past ++ [request])

namespace Service

variable {respond : Request → List Request → Option Response} {past now : List Request}
  {s : Service} {url : String} {within : Finset String}

theorem history_outgoing (s : Service) (respond : Request → List Request → Option Response)
    (method : Method) (url : String) (body : Option String) (past : List Request) :
    (s.send (.ofHistory respond) method url body past).2 =
      past ++ (s.outgoing method url body).toList := by
  cases sent : s.outgoing method url body with
  | some request =>
    rw [send_of_outgoing sent]
    simp only [Server.ofHistory]
    cases respond request past <;> rfl
  | none =>
    rw [Option.toList_none, List.append_nil, send]
    split
    · rfl
    · rename_i u hurl
      -- an address that can be read is asked unless there is a token in the way
      have hunsendable : ¬s.Sendable := by
        intro sendable
        rw [outgoing, if_pos sendable, hurl] at sent
        cases sent
      exact congrArg Prod.snd (if_neg hunsendable)

theorem history_inquiry (s : Service) (respond : Request → List Request → Option Response)
    (url : String) (past : List Request) :
    (s.send (.ofHistory respond) .get url none past).2 = past ++ (s.inquiry url).toList :=
  history_outgoing s respond .get url none past

theorem history_of_succeeds {r : Response} (h : Succeeds s (.ofHistory respond) url past r now) :
    now = past ++ (s.inquiry url).toList := by
  rw [← history_inquiry s respond url past, send_of_succeeds h]

theorem history_of_fails {e : RemoteError} (h : PageFails s (.ofHistory respond) url past e now) :
    now = past ++ (s.inquiry url).toList := by
  cases h with
  | unanswered refused => rw [← history_inquiry s respond url past, send_of_refuses refused]
  | undecoded answered => exact history_of_succeeds answered

theorem history_of_walk {start last : Option String} {pages : List Page}
    (h : Walk s (.ofHistory respond) start past pages last now) :
    now = past ++ (addresses pages).filterMap s.inquiry := by
  induction h with
  | here => simp
  | @page url past t u r relations pages last answered _ _ ih =>
    rw [ih, history_of_succeeds answered, addresses_cons, List.filterMap_cons]
    cases s.inquiry url with
    | none => rw [Option.toList_none, List.append_nil]
    | some request => rw [Option.toList_some, List.append_assoc, List.singleton_append]

/-- What is asked for a listing: the pages of its walk, and the one that fails, if one does. -/
theorem history_of_ending {pages : List Page} {last : Option String} {start : Option String}
    {answer : Except RemoteError (List Relation)} {t : List Request}
    (walk : Walk s (.ofHistory respond) start past pages last t) (once : (addresses pages).Nodup)
    (ending : Ending s (.ofHistory respond) pages last t answer now)
    (hpages : ∀ a ∈ addresses pages, a ∈ within) (hlast : ∀ a, last = some a → a ∈ within) :
    ∃ asked : List String, asked.Nodup ∧ (∀ a ∈ asked, a ∈ within) ∧
      now = past ++ asked.filterMap s.inquiry := by
  have ht := history_of_walk walk
  cases ending with
  | complete => exact ⟨addresses pages, once, hpages, ht⟩
  | loop => exact ⟨addresses pages, once, hpages, ht⟩
  -- the page that fails is asked for as well
  | @failed url _ _ _ unseen fails =>
    refine ⟨addresses pages ++ [url],
      once.append (List.nodup_singleton url) (by simpa using unseen), ?_, ?_⟩
    · intro a ha
      rcases List.mem_append.1 ha with ha | ha
      · exact hpages a ha
      · rw [List.mem_singleton.1 ha]
        exact hlast url rfl
    · rw [history_of_fails fails, ht, List.filterMap_append, List.append_assoc]
      cases h : s.inquiry url <;> simp [h]

end Service

open Service

namespace Service

def firstAddress : String := "https://h/owners/app/relations"

def secondAddress : String := "https://h/owners/app/relations?page=2"

/-- A page with a relation, which links to the second one. -/
def firstPage : Response :=
  ⟨200, some "<https://h/owners/app/relations?page=2>; rel=\"next\"", "[\x7b\"id\":\"a\"\x7d]"⟩

/-- A server whose second page is given. -/
def twoPages (second : Response) (request : Request) (_ : List Request) : Option Response :=
  some (if request.url.query.isEmpty then firstPage else second)

def lastPage : Response := ⟨200, none, "[\x7b\"id\":\"b\",\"priority\":2\x7d]"⟩

/-- A page that links back to the first one. -/
def circularPage : Response :=
  ⟨200, some "<https://h/owners/app/relations>; rel=\"next\"", "[\x7b\"id\":\"b\"\x7d]"⟩

/-- A page with a priority that is no number. -/
def misrankedPage : Response := ⟨200, none, "[\x7b\"id\":\"b\",\"priority\":\"high\"\x7d]"⟩

/-- A page that is cut short. -/
def brokenPage : Response := ⟨200, none, "[\x7b\"id\":\"b\""⟩

def busyPage : Response := ⟨503, none, " busy "⟩

def pagedService : Service := ⟨"https://h/", none⟩

def pageRequest (query : String) : Request :=
  ⟨.get, ⟨.https, ['h'], 443, ["owners".toList, "app".toList, "relations".toList], query.toList⟩,
    "application/json", none, none⟩

theorem next?_firstPage : firstPage.link.bind Link.next? = some secondAddress := by decide +kernel

theorem twoPages_finite {second : Response}
    (hsecond : ∀ next, second.link.bind Link.next? = some next → next = firstAddress)
    (request : Request) (past : List Request) (r : Response) (next : String)
    (hr : twoPages second request past = some r) (hnext : r.link.bind Link.next? = some next) :
    next ∈ ({firstAddress, secondAddress} : Finset String) := by
  rw [← Option.some.inj hr] at hnext
  split at hnext
  · rw [next?_firstPage] at hnext
    simp [← Option.some.inj hnext]
  · simp [hsecond next hnext]

theorem inquiry_firstAddress : pagedService.inquiry firstAddress = some (pageRequest "") := by
  decide +kernel

theorem inquiry_secondAddress :
    pagedService.inquiry secondAddress = some (pageRequest "page=2") := by
  decide +kernel

theorem succeeds_firstPage (second : Response) :
    Succeeds pagedService (.ofHistory (twoPages second)) firstAddress [] firstPage
      [pageRequest ""] :=
  ⟨_, inquiry_firstAddress, rfl, by decide⟩

theorem succeeds_secondPage {second : Response} (status : second.status < 400) :
    Succeeds pagedService (.ofHistory (twoPages second)) secondAddress [pageRequest ""] second
      [pageRequest "", pageRequest "page=2"] :=
  ⟨_, inquiry_secondAddress, rfl, status⟩

theorem decodes_firstPage : Decodes firstPage [.bare ⟨"a"⟩] := ⟨[⟨"a", none, none⟩], rfl, rfl⟩

theorem decodes_lastPage : Decodes lastPage [⟨⟨"b"⟩, .explicit 2, .empty⟩] :=
  ⟨[⟨"b", some (Json.ofInt 2), none⟩], rfl, rfl⟩

theorem decodes_circularPage : Decodes circularPage [.bare ⟨"b"⟩] :=
  ⟨[⟨"b", none, none⟩], rfl, rfl⟩

theorem undecodable_misrankedPage : Undecodable misrankedPage
    (.malformed "target 'b' has a malformed ordering value: \"high\"") := by
  have read : Json.readWhole (Json.list WireRelation.decoder) misrankedPage.body =
      .ok [⟨"b", some (.string "high"), none⟩] := rfl
  have undecoded : WireRelation.decodeAll [⟨"b", some (.string "high"), none⟩] =
      .error (.invalidPriority ⟨"b"⟩ (.string "high")) := rfl
  exact .relation read undecoded

theorem undecodable_brokenPage : Undecodable brokenPage (.malformed Json.Fault.truncated.message) :=
  .body rfl

/-- The walk to the second page, which may fail. -/
theorem walk_firstPage (second : Response) :
    Walk pagedService (.ofHistory (twoPages second)) (some firstAddress) []
      [⟨firstAddress, [.bare ⟨"a"⟩]⟩] (some secondAddress) [pageRequest ""] := by
  refine .page (succeeds_firstPage second) decodes_firstPage ?_
  rw [next?_firstPage]
  exact .here _ _

/-- The walk over both pages, if the second one is a success that decodes. -/
theorem walk_twoPages {second : Response} {relations : List Relation} (status : second.status < 400)
    (decoded : Decodes second relations) :
    Walk pagedService (.ofHistory (twoPages second)) (some firstAddress) []
      [⟨firstAddress, [.bare ⟨"a"⟩]⟩, ⟨secondAddress, relations⟩] (second.link.bind Link.next?)
      [pageRequest "", pageRequest "page=2"] := by
  refine .page (succeeds_firstPage second) decodes_firstPage ?_
  rw [next?_firstPage]
  exact .page (succeeds_secondPage status) decoded (.here _ _)

end Service

end Roster
