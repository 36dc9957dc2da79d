/-
The addresses of relations.

Whatever an owner and a target are called, percent-encoding makes one segment of either name, so
that a relation has an address of its own below the base, and from the address both names can be
read back.  There is one exception: dots stand for themselves in percent-encoding and for a way
through the path in an address.  A relation whose owner or target is called `.` or `..` is asked for
somewhere else, be it at its owner's address.

* `Service.base?`, `relationSegments`: the base of a service, and where a relation belongs below it;
* `landing`, `resolve_relationSegments`: where a relation is asked for;
* `parse?_relationUrl`: what the address of a relation is read as, below any base;
* `Asks`: the requests that are made about a relation;
* `relations_stand_apart`: the whole account.
-/
import Roster.Proofs.Listing
import Roster.Proofs.PathSegments

namespace Roster

namespace Service

open Text.Percent (isUnreserved encodeBytes decode utf8)

/-- The address that the base of a service is: what it is read as with a slash behind it, without
the empty segment that the slash makes. -/
def base? (s : Service) : Option Url :=
  (Url.parse? (s.root ++ "/")).map fun u => { u with path := u.path.dropLast }

/-- The base has neither a query nor a fragment. -/
def PathOnly (s : Service) : Prop := '?' ∉ s.base.toList ∧ '#' ∉ s.base.toList

instance (s : Service) : Decidable s.PathOnly := inferInstanceAs (Decidable (_ ∧ _))

/-- The segment below which the owners stand. -/
@[irreducible] def ownersSegment : List Char := "owners".toList

/-- The segment below which the relations of an owner stand. -/
@[irreducible] def relationsSegment : List Char := "relations".toList

/-- Where an owner stands below the base. -/
def ownerSegments (owner : OwnerId) : List (List Char) :=
  [ownersSegment, (segment owner.text).toList]

/-- Where the relations of an owner stand below the base. -/
def collectionSegments (owner : OwnerId) : List (List Char) :=
  [ownersSegment, (segment owner.text).toList, relationsSegment]

/-- Where a relation belongs below the base. -/
def relationSegments (owner : OwnerId) (target : TargetId) : List (List Char) :=
  [ownersSegment, (segment owner.text).toList, relationsSegment, (segment target.text).toList]

/-- The text is a way through a path and not a name in it. -/
def IsDots (text : String) : Prop := text = "." ∨ text = ".."

instance (text : String) : Decidable (IsDots text) := inferInstanceAs (Decidable (_ ∨ _))

/-- Where the relations of an owner are asked for, if dots lead through the path. -/
def collectionLanding (owner : OwnerId) : List (List Char) :=
  if owner.text = "." then [ownersSegment, relationsSegment]
  else if owner.text = ".." then [relationsSegment]
  else collectionSegments owner

/-- Where a relation is asked for, if dots lead through the path. -/
def landing (owner : OwnerId) (target : TargetId) : List (List Char) :=
  if target.text = "." then collectionLanding owner ++ [[]]
  else if target.text = ".." then (collectionLanding owner).dropLast ++ [[]]
  else collectionLanding owner ++ [(segment target.text).toList]

variable {s : Service} {owner other : OwnerId} {target goal : TargetId} {text : String}

/-! ### Encoded names -/

theorem toList_segment (text : String) :
    (segment text).toList = encodeBytes isUnreserved (utf8 text) :=
  String.toList_ofList

theorem decode_segment (text : String) : decode (segment text).toList = some (utf8 text) := by
  rw [toList_segment, Text.Percent.decode_encodeBytes Text.Percent.plain_isUnreserved]

theorem toList_segment_inj {other : String} :
    (segment text).toList = (segment other).toList ↔ text = other := by
  refine ⟨fun h => ?_, fun h => by rw [h]⟩
  rw [toList_segment, toList_segment] at h
  exact Text.Percent.utf8_injective
    (Text.Percent.encodeBytes_injective Text.Percent.plain_isUnreserved h)

theorem isPlain_of_mem_segment {c : Char} (h : c ∈ (segment text).toList) : Url.isPlain c = true :=
  Url.isPlain_of_mem (toList_segment text ▸ h)

theorem isSingleDot_segment (text : String) :
    Url.isSingleDot (segment text).toList = decide (text = ".") := by
  have hdot : ['.'] = (segment ".").toList := by decide +kernel
  rw [Bool.eq_iff_iff, decide_eq_true_eq, Url.isSingleDot, toList_segment, Url.dots_encodeBytes,
    ← toList_segment, beq_iff_eq, hdot, toList_segment_inj]

theorem isDoubleDot_segment (text : String) :
    Url.isDoubleDot (segment text).toList = decide (text = "..") := by
  have hdots : ['.', '.'] = (segment "..").toList := by decide +kernel
  rw [Bool.eq_iff_iff, decide_eq_true_eq, Url.isDoubleDot, toList_segment, Url.dots_encodeBytes,
    ← toList_segment, beq_iff_eq, hdots, toList_segment_inj]

theorem segment_ne_nil (h : text ≠ "") : (segment text).toList ≠ [] := by
  have hnil : [] = (segment "").toList := by decide +kernel
  rw [hnil, Ne, toList_segment_inj]
  exact h

/-! ### Where a relation is asked for -/

theorem isPlain_ownersSegment : ∀ c ∈ ownersSegment, Url.isPlain c = true :=
  List.all_eq_true.1 (by decide +kernel)

theorem isPlain_relationsSegment : ∀ c ∈ relationsSegment, Url.isPlain c = true :=
  List.all_eq_true.1 (by decide +kernel)

theorem ownersSegment_not_dots :
    Url.isSingleDot ownersSegment = false ∧ Url.isDoubleDot ownersSegment = false := by
  decide +kernel

theorem relationsSegment_not_dots :
    Url.isSingleDot relationsSegment = false ∧ Url.isDoubleDot relationsSegment = false := by
  decide +kernel

theorem isPlain_of_mem_relationSegments (owner : OwnerId) (target : TargetId) :
    ∀ part ∈ relationSegments owner target, ∀ c ∈ part, Url.isPlain c = true :=
  List.forall_mem_cons.2 ⟨isPlain_ownersSegment,
    List.forall_mem_cons.2 ⟨fun _ hc => isPlain_of_mem_segment hc,
    List.forall_mem_cons.2 ⟨isPlain_relationsSegment,
      List.forall_mem_singleton.2 fun _ hc => isPlain_of_mem_segment hc⟩⟩⟩

/-- From anywhere, the segments of a relation lead below the place, and to where they lead from the
top. -/
theorem resolveFrom_relationSegments (above : List (List Char)) (owner : OwnerId)
    (target : TargetId) :
    Url.resolveFrom above (relationSegments owner target) =
      above.reverse ++ Url.resolve (relationSegments owner target) :=
  Url.resolveFrom_alternating ownersSegment_not_dots relationsSegment_not_dots _ _ above

theorem encode_segment (text : String) :
    Url.encode Url.isPathByte (segment text).toList = (segment text).toList :=
  Url.encode_of_plain fun _ hc => isPlain_of_mem_segment hc

theorem resolve_relationSegments (owner : OwnerId) (target : TargetId) :
    Url.resolve (relationSegments owner target) = landing owner target := by
  obtain ⟨howners, howners'⟩ := ownersSegment_not_dots
  obtain ⟨hrelations, hrelations'⟩ := relationsSegment_not_dots
  have hdots : ∀ {text : String}, text = "." → text ≠ ".." := by
    rintro _ rfl
    decide
  simp only [Url.resolve, relationSegments, Url.resolveFrom, howners, howners',
    hrelations, hrelations', isSingleDot_segment, isDoubleDot_segment, encode_segment,
    Url.encode_of_plain isPlain_ownersSegment, Url.encode_of_plain isPlain_relationsSegment,
    Bool.false_eq_true, if_false, decide_eq_true_eq, List.tail_cons]
  simp only [landing, collectionLanding, collectionSegments]
  -- one dot or two, in either name; nothing is both
  by_cases howner : owner.text = "." <;> by_cases howner' : owner.text = ".." <;>
    by_cases htarget : target.text = "." <;> by_cases htarget' : target.text = ".." <;>
    first
      | exact absurd howner' (hdots howner)
      | exact absurd htarget' (hdots htarget)
      | simp only [howner, howner', htarget, htarget', if_true, if_false]; rfl

theorem collectionLanding_eq_iff :
    collectionLanding other = collectionSegments owner ↔ ¬IsDots other.text ∧ other = owner := by
  rw [collectionLanding]
  split
  · rename_i hdot
    refine iff_of_false (fun h => ?_) fun h => h.1 (.inl hdot)
    -- a dot shortens the way by one segment, and two dots by two
    have hlength : 2 = 3 := congrArg List.length h
    omega
  · rename_i hdot
    split
    · rename_i hdots
      refine iff_of_false (fun h => ?_) fun h => h.1 (.inr hdots)
      have hlength : 1 = 3 := congrArg List.length h
      omega
    · rename_i hdots
      constructor
      · intro h
        have howner : other = owner :=
          congrArg OwnerId.mk (toList_segment_inj.1 (List.cons.inj (List.cons.inj h).2).1)
        exact ⟨fun hor => hor.elim hdot hdots, howner⟩
      · rintro ⟨-, rfl⟩
        rfl

theorem relationSegments_eq (owner : OwnerId) (target : TargetId) :
    relationSegments owner target = collectionSegments owner ++
      [(segment target.text).toList] := rfl

/-- A relation does not stand at a place with a slash behind it. -/
theorem relationSegments_ne_append (named : target.text ≠ "") (ss : List (List Char)) :
    relationSegments owner target ≠ ss ++ [[]] := fun h =>
  segment_ne_nil named
    (List.append_singleton_inj.1 ((relationSegments_eq owner target).symm.trans h)).2

/-- A relation is asked for at its own place exactly if neither name is dots; no other relation is
asked for there. -/
theorem landing_eq_iff (named : target.text ≠ "") :
    landing other goal = relationSegments owner target ↔
    (¬IsDots other.text ∧ other = owner) ∧ ¬IsDots goal.text ∧ goal = target := by
  -- where the target is dots the way ends in a slash, and no relation is called that
  have hend : ∀ ss, ss ++ [[]] ≠ relationSegments owner target := fun ss =>
    (relationSegments_ne_append named ss).symm
  rw [landing]
  split
  · rename_i hdot
    exact iff_of_false (hend _) fun h => h.2.1 (.inl hdot)
  · rename_i hdot
    split
    · rename_i hdots
      exact iff_of_false (hend _) fun h => h.2.1 (.inr hdots)
    · rename_i hdots
      rw [← collectionLanding_eq_iff, relationSegments_eq]
      constructor
      · intro h
        obtain ⟨hcollection, hlast⟩ := List.append_singleton_inj.1 h
        have htarget : goal = target := congrArg TargetId.mk (toList_segment_inj.1 hlast)
        exact ⟨hcollection, fun hor => hor.elim hdot hdots, htarget⟩
      · rintro ⟨hcollection, -, rfl⟩
        rw [hcollection]

/-! ### Slashes -/

theorem slashless_segment (text : String) : Url.Slashless [(segment text).toList] :=
  Url.slashless_singleton fun _ hc => isPlain_of_mem_segment hc

theorem slashless_end : Url.Slashless [[]] :=
  Url.slashless_singleton fun _ hc => absurd hc List.not_mem_nil

theorem slashless_ownerSegments (owner : OwnerId) : Url.Slashless (ownerSegments owner) :=
  (Url.slashless_singleton isPlain_ownersSegment).append (slashless_segment owner.text)

theorem slashless_collectionSegments (owner : OwnerId) : Url.Slashless (collectionSegments owner) :=
  (slashless_ownerSegments owner).append (Url.slashless_singleton isPlain_relationsSegment)

theorem slashless_relationSegments (owner : OwnerId) (target : TargetId) :
    Url.Slashless (relationSegments owner target) :=
  (slashless_collectionSegments owner).append (slashless_segment target.text)

theorem collectionLanding_sublist (owner : OwnerId) :
    (collectionLanding owner).Sublist (collectionSegments owner) := by
  rw [collectionLanding]
  split
  · exact ((List.Sublist.refl _).cons _).cons_cons _
  · split
    · exact ((List.Sublist.refl _).cons _).cons _
    · exact List.Sublist.refl _

theorem slashless_landing (owner : OwnerId) (target : TargetId) :
    Url.Slashless (landing owner target) := by
  have hcollection := (slashless_collectionSegments owner).sublist (collectionLanding_sublist owner)
  rw [landing]
  split
  · exact hcollection.append slashless_end
  · split
    · exact (hcollection.sublist (List.dropLast_sublist _)).append slashless_end
    · exact hcollection.append (slashless_segment target.text)

/-! ### What an address is read as -/

theorem notMem_root {c : Char} (h : c ∉ s.base.toList) : c ∉ s.root.toList := by
  intro hc
  rw [root, String.toList_ofList, List.mem_reverse] at hc
  exact h (List.mem_reverse.1 ((List.dropWhile_sublist _).mem hc))

/-- The characters of the segments of a relation. -/
def relationText (owner : OwnerId) (target : TargetId) : List Char :=
  ownersSegment ++
    [(segment owner.text).toList, relationsSegment, (segment target.text).toList].flatMap ('/' :: ·)

theorem relationUrl_eq (s : Service) (owner : OwnerId) (target : TargetId) :
    s.relationUrl owner target = String.ofList
      (s.root.toList ++ '/' :: relationText owner target) := by
  rw [← String.toList_inj]
  simp [relationUrl, relationsUrl, relationText, ownersSegment, relationsSegment]

theorem split_relationText (owner : OwnerId) (target : TargetId) :
    Text.split Url.isSlash (relationText owner target) = relationSegments owner target := by
  obtain ⟨hfront, hparts⟩ := List.forall_mem_cons.1 (slashless_relationSegments owner target)
  exact Text.split_flatMap_cons rfl hfront hparts

theorem isBelow_relationText (owner : OwnerId) (target : TargetId) :
    Url.IsBelow (relationText owner target) := by
  obtain ⟨hfront, hparts⟩ := List.forall_mem_cons.1 (isPlain_of_mem_relationSegments owner target)
  intro c hc
  rcases List.mem_append.1 hc with hc | hc
  · exact .inl (hfront c hc)
  · obtain ⟨part, hpart, hc⟩ := List.mem_flatMap.1 hc
    rcases List.mem_cons.1 hc with hc | hc
    · exact .inr hc
    · exact .inl (hparts part hpart c hc)

/-- The address of a relation is read as what its segments lead to below the base. -/
theorem parse?_relationUrl {base : Url} (address : s.base? = some base) (bare : s.PathOnly)
    (owner : OwnerId) (target : TargetId) :
    Url.parse? (s.relationUrl owner target) = some (base.below (landing owner target)) := by
  have hroot : s.root ++ "/" = String.ofList (s.root.toList ++ ['/']) := by
    rw [← String.toList_inj]
    simp
  rw [base?, hroot] at address
  -- the base with a slash is an address, and so it is with anything behind the slash
  rcases Url.parse?_slash (notMem_root bare.1) (notMem_root bare.2) with
    hnone | ⟨scheme, host, port, above, hbelow⟩
  · rw [hnone] at address
    cases address
  · rw [hbelow [] fun c hc => absurd hc List.not_mem_nil] at address
    obtain ⟨reached, hreached⟩ := Url.exists_reached above []
    have hbase : Url.resolve (above ++ Text.split Url.isSlash []) = reached.reverse ++ [[]] := by
      rw [Url.resolve, Text.split, hreached, Url.resolveFrom_nil]
    have hrelation : Url.resolve (above ++ relationSegments owner target) =
        reached.reverse ++ landing owner target := by
      rw [← resolve_relationSegments, ← resolveFrom_relationSegments, Url.resolve]
      exact hreached _ _
    rw [relationUrl_eq, hbelow _ (isBelow_relationText owner target), split_relationText, hrelation,
      ← Option.some.inj address, hbase]
    simp [Url.below]

/-! ### The requests about a relation -/

/-- Told to put or to delete a relation of an owner, the service sends the request. -/
inductive Asks (s : Service) (owner : OwnerId) (target : TargetId) (request : Request) : Prop
  | put {relation : Relation} {respond : Request → List Request → Option Response}
      {past : List Request}
    (names : relation.target = target)
    (sent : ((s.remote (.ofHistory respond)).upsert owner relation past).2 = past ++ [request]) :
    Asks s owner target request
  | delete {respond : Request → List Request → Option Response} {past : List Request}
    (sent : ((s.remote (.ofHistory respond)).delete owner target past).2 = past ++ [request]) :
    Asks s owner target request

theorem state_command {σ : Type} (s : Service) (server : Server σ) (method : Method) (url : String)
    (body : Option String) (state : σ) :
    (s.command server method url body state).2 = (s.send server method url body state).2 :=
  rfl

theorem history_upsert (s : Service) (respond : Request → List Request → Option Response)
    (owner : OwnerId) (relation : Relation) (past : List Request) :
    ((s.remote (.ofHistory respond)).upsert owner relation past).2 = past ++
      (s.outgoing .put (s.relationUrl owner relation.target)
        (some (WireRelation.encode relation).toJson.compact)).toList := by
  rw [← history_outgoing s respond, ← state_command]
  rfl

theorem history_delete (s : Service) (respond : Request → List Request → Option Response)
    (owner : OwnerId) (target : TargetId) (past : List Request) :
    ((s.remote (.ofHistory respond)).delete owner target past).2 = past ++
      (s.outgoing .delete (s.relationUrl owner target) none).toList := by
  rw [← history_outgoing s respond, ← state_command]
  rfl

theorem Asks.exists_outgoing {request : Request} (h : s.Asks owner target request) :
    ∃ method body, s.outgoing method (s.relationUrl owner target) body = some request := by
  -- the history grows by the request that is sent, if one is
  have hsingle : ∀ {past : List Request} {sent : Option Request},
      past ++ sent.toList = past ++ [request] → sent = some request := by
    intro past sent h
    have h := List.append_cancel_left h
    cases sent with
    | none => cases h
    | some r => rw [List.singleton_inj.1 h]
  cases h with
  | put names sent =>
    rw [history_upsert, names] at sent
    exact ⟨_, _, hsingle sent⟩
  | delete sent =>
    rw [history_delete] at sent
    exact ⟨_, _, hsingle sent⟩

/-- What is sent about a relation goes to what its segments lead to below the base. -/
theorem Asks.url_eq {base : Url} {request : Request} (h : s.Asks owner target request)
    (address : s.base? = some base) (bare : s.PathOnly) :
    request.url = base.below (landing owner target) := by
  obtain ⟨method, body, h⟩ := h.exists_outgoing
  rw [outgoing, parse?_relationUrl address bare] at h
  split at h
  · rw [← Option.some.inj h]
  · cases h

theorem exists_outgoing_relation {base : Url} (address : s.base? = some base) (bare : s.PathOnly)
    (sendable : s.Sendable) (method : Method) (owner : OwnerId) (target : TargetId)
    (body : Option String) :
    ∃ request, request.method = method ∧
      s.outgoing method (s.relationUrl owner target) body = some request := by
  refine ⟨⟨method, base.below (landing owner target), "application/json", s.authorization, body⟩,
    rfl, ?_⟩
  rw [outgoing, if_pos sendable, parse?_relationUrl address bare, Option.map_some]

/-- The request is about this relation and about nothing else. -/
structure StandsApart (s : Service) (base : Url) (owner : OwnerId) (target : TargetId)
    (request : Request) : Prop where
  /-- The path is the path of the base with the four segments behind it. -/
  place : request.url = base.below (relationSegments owner target)
  /-- What is sent about another relation asks the host for something else. -/
  alone : ∀ other goal again, s.Asks other goal again → again.url.target = request.url.target →
    other = owner ∧ goal = target
  /-- It is no owner that the host is asked for, with or without a slash behind it. -/
  notOwner : ∀ other, ∀ slash ∈ [[], [[]]],
    request.url.target ≠ (base.below (ownerSegments other ++ slash)).target
  /-- It is nobody's relations, with or without a slash behind them. -/
  notCollection : ∀ other, ∀ slash ∈ [[], [[]]],
    request.url.target ≠ (base.below (collectionSegments other ++ slash)).target
  /-- It stands at no other owner and below no other owner. -/
  within : ∀ other, base.path ++ ownerSegments other <+: request.url.path → other = owner

variable {base : Url} {request : Request}

theorem StandsApart.not_dots (h : s.StandsApart base owner target request)
    (named : target.text ≠ "") (lands : request.url = base.below (landing owner target)) :
    ¬IsDots owner.text ∧ ¬IsDots target.text := by
  have hpath := congrArg Url.path (lands.symm.trans h.place)
  rw [Url.path_below, Url.path_below, List.append_cancel_left_eq, landing_eq_iff named] at hpath
  exact ⟨hpath.1.1, hpath.2.1⟩

theorem standsApart_of_place (address : s.base? = some base) (bare : s.PathOnly)
    (named : target.text ≠ "") (place : request.url = base.below (relationSegments owner target)) :
    s.StandsApart base owner target request := by
  have hslashless := slashless_relationSegments owner target
  -- without slashes in them, segments are told apart again by what is asked of the host
  have hmeets : ∀ {ss}, Url.Slashless ss → request.url.target = (base.below ss).target →
      relationSegments owner target = ss := by
    intro ss hss h
    rwa [place, Url.target_below_inj hslashless hss] at h
  refine ⟨place, ?_, ?_, ?_, ?_⟩
  · intro other goal again hasks htarget
    have hlands := hmeets (slashless_landing other goal) (hasks.url_eq address bare ▸ htarget.symm)
    obtain ⟨⟨-, howner⟩, -, hgoal⟩ := (landing_eq_iff named).1 hlands.symm
    exact ⟨howner, hgoal⟩
  · intro other slash hslash htarget
    rcases List.mem_pair.1 hslash with rfl | rfl
    · rw [List.append_nil] at htarget
      have hlength : 4 = 2 := congrArg List.length (hmeets (slashless_ownerSegments other) htarget)
      omega
    · exact relationSegments_ne_append named _
        (hmeets ((slashless_ownerSegments other).append slashless_end) htarget)
  · intro other slash hslash htarget
    rcases List.mem_pair.1 hslash with rfl | rfl
    · rw [List.append_nil] at htarget
      have hlength : 4 = 3 :=
        congrArg List.length (hmeets (slashless_collectionSegments other) htarget)
      omega
    · exact relationSegments_ne_append named _
        (hmeets ((slashless_collectionSegments other).append slashless_end) htarget)
  · intro other hprefix
    rw [place, Url.path_below, List.prefix_append_right_inj] at hprefix
    obtain ⟨-, hprefix⟩ := List.cons_prefix_cons.1 hprefix
    obtain ⟨hsegment, -⟩ := List.cons_prefix_cons.1 hprefix
    exact congrArg OwnerId.mk (toList_segment_inj.1 hsegment)

/-- Below a base without query and fragment, every relation is put and deleted with one request,
which goes where its segments lead.  It stands for the relation alone exactly if neither name is
dots: then no other relation's request asks the host for its path, and the path is neither of an
owner nor of the relations of one, nor of anything of another owner's. -/
theorem relations_stand_apart (address : s.base? = some base) (bare : s.PathOnly) :
    (s.Sendable → ∀ respond past owner (relation : Relation),
      (∃ put, ((s.remote (.ofHistory respond)).upsert owner relation past).2 = past ++ [put] ∧
        put.method = .put) ∧
      ∃ delete, ((s.remote (.ofHistory respond)).delete owner relation.target past).2 =
        past ++ [delete] ∧ delete.method = .delete) ∧
    (∀ name, decode (segment name).toList = some (utf8 name)) ∧
    ∀ owner target request, target.text ≠ "" → s.Asks owner target request →
      request.url = base.below (landing owner target) ∧
      (s.StandsApart base owner target request ↔ ¬IsDots owner.text ∧ ¬IsDots target.text) := by
  refine ⟨fun sendable respond past owner relation => ⟨?_, ?_⟩, decode_segment, ?_⟩
  · obtain ⟨put, hmethod, hsent⟩ :=
      exists_outgoing_relation address bare sendable .put owner relation.target
        (some (WireRelation.encode relation).toJson.compact)
    exact ⟨put, by rw [history_upsert, hsent, Option.toList_some], hmethod⟩
  · obtain ⟨delete, hmethod, hsent⟩ :=
      exists_outgoing_relation address bare sendable .delete owner relation.target none
    exact ⟨delete, by rw [history_delete, hsent, Option.toList_some], hmethod⟩
  · intro owner target request named asks
    have lands := asks.url_eq address bare
    refine ⟨lands, fun apart => apart.not_dots named lands, fun ⟨howner, htarget⟩ => ?_⟩
    have hlanding : landing owner target = relationSegments owner target :=
      (landing_eq_iff named).2 ⟨⟨howner, rfl⟩, htarget, rfl⟩
    exact standsApart_of_place address bare named (hlanding ▸ lands)

/-- A service with a path of its own and a token. -/
def sampleService : Service := ⟨"https://h/api/", some "secret"⟩

def sampleBase : Url := ⟨.https, "h".toList, 443, ["api".toList], []⟩

/-- A slash in a name is part of its segment; a target called `..` is taken for its owner. -/
theorem relations_stand_apart_sample :
    sampleService.base? = some sampleBase ∧ sampleService.PathOnly ∧
    sampleService.Sendable ∧
    (∃ request, sampleService.Asks ⟨"app"⟩ ⟨"a/b"⟩ request ∧
      sampleService.StandsApart sampleBase ⟨"app"⟩ ⟨"a/b"⟩ request ∧
      request.url.target = "/api/owners/app/relations/a%2Fb") ∧
    ∃ request, sampleService.Asks ⟨"app"⟩ ⟨".."⟩ request ∧
      ¬sampleService.StandsApart sampleBase ⟨"app"⟩ ⟨".."⟩ request ∧
      request.url.target = "/api/owners/app/" := by
  have address : sampleService.base? = some sampleBase := by decide +kernel
  have bare : sampleService.PathOnly := by decide +kernel
  have sendable : sampleService.Sendable := by decide +kernel
  obtain ⟨sends, -, stand⟩ := relations_stand_apart address bare
  obtain ⟨⟨put, hput, -⟩, -⟩ := sends sendable (fun _ _ => none) [] ⟨"app"⟩ (.bare ⟨"a/b"⟩)
  obtain ⟨-, delete, hdelete, -⟩ := sends sendable (fun _ _ => none) [] ⟨"app"⟩ (.bare ⟨".."⟩)
  have asksPut : sampleService.Asks ⟨"app"⟩ ⟨"a/b"⟩ put := .put rfl hput
  have asksDelete : sampleService.Asks ⟨"app"⟩ ⟨".."⟩ delete := .delete hdelete
  obtain ⟨landsPut, apartPut⟩ := stand _ _ _ (by decide) asksPut
  obtain ⟨landsDelete, apartDelete⟩ := stand _ _ _ (by decide) asksDelete
  refine ⟨address, bare, sendable, ⟨put, asksPut, apartPut.2 (by decide), ?_⟩,
    ⟨delete, asksDelete, fun h => absurd (apartDelete.1 h) (by decide), ?_⟩⟩
  · rw [landsPut]
    decide +kernel
  · rw [landsDelete]
    decide +kernel

end Service

end Roster
