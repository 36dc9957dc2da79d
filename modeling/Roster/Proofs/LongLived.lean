/-
Fixtures as long-lived remotes.

A command on a fixture builds its remote anew from the file, and what the remote was asked before is
lost with it: only the lists of its owners are in the file.  As no remote that is built so renumbers
or refuses anything, that is all that shows.  So commands on a fixture come to the same as on one
remote that lasts, as long as what is written is read back, and as long as the fixture is not itself
the file in which an owner of theirs is remembered: there the lists that are written take the place
of the state.

* `MemoryRemote.SameLists`: remotes that hold the same lists, and cannot be told apart;
* `Fixture.read_text`: relations are read back from their wire form, in their order and however
  often a target occurs;
* `Fixture.Mirrors`, `Fixture.Mirrors.run`: a fixture in step with a remote, and one command on
  both;
* `fixture_long_lived`: commands one after another.
-/
import Roster.Fixture
import Roster.Proofs.ForeignFile
import Roster.Proofs.Formed
import Roster.Proofs.Separation

namespace Roster

open Roster.Action (Agree)
open Roster.StoredState (Aside EqButTime Keeps)
open Roster.WireRelation (Fits)

/-! ### Remotes that hold the same -/

namespace MemoryRemote

variable {m n : MemoryRemote} {owner : OwnerId}

/-- Remotes that renumber nothing, with the same settings and the same lists, whatever they were
asked before. -/
structure SameLists (m n : MemoryRemote) : Prop where
  settings : SameSettings m n
  verbatim : m.compacting = false
  owners : m.owners = n.owners

theorem SameLists.relations? (h : SameLists m n) (owner : OwnerId) :
    n.relations? owner = m.relations? owner := by
  rw [MemoryRemote.relations?, MemoryRemote.relations?, h.owners]

theorem SameLists.record (h : SameLists m n) (call : Call) :
    SameLists (m.record call) (n.record call) :=
  ⟨⟨h.settings.compacting, h.settings.pinned, h.settings.failures⟩, h.verbatim, h.owners⟩

theorem unseen_sameLists (owner : OwnerId) : Unseen owner SameLists where
  failures _ _ h := h.settings.failures
  list _ _ h := h.relations? owner
  record _ _ h := h.record
  request _ _ h _ _ :=
    ⟨⟨h.settings.compacting, h.settings.pinned, h.settings.failures⟩, h.verbatim, h.owners⟩
  setRelations _ _ h relations := by
    refine ⟨⟨h.settings.compacting, h.settings.pinned, h.settings.failures⟩, h.verbatim, ?_⟩
    exact congrArg (Fields.insert owner.text relations) h.owners
  relationsAfter m n h r relations := by
    have hn : n.compacting = false := h.settings.compacting.trans h.verbatim
    simp only [MemoryRemote.relationsAfter, h.verbatim, hn, h.settings.stored_eq,
      Bool.false_eq_true, if_false]

/-- Such remotes cannot be told apart. -/
theorem simulates_sameLists : remote.Simulates SameLists remote where
  upsert owner r _ _ h := (unseen_sameLists owner).upsert h r
  delete owner id _ _ h := (unseen_sameLists owner).delete h id
  list owner _ _ h := (unseen_sameLists owner).listed h

/-- A remote as it is built from lists, but for what it was asked since: its owners stand in the
order of their names, and the priorities of their relations have 64 bits. -/
structure Built (m : MemoryRemote) : Prop where
  settings : SameSettings empty m
  sorted : Fields.Sorted m.owners
  fits : ∀ e ∈ m.owners, ∀ r ∈ e.2, Fits r

theorem Built.sameLists (h : m.Built) (hn : n.Built) (owners : m.owners = n.owners) :
    SameLists m n where
  settings := ⟨hn.settings.compacting.trans h.settings.compacting.symm,
    hn.settings.pinned.trans h.settings.pinned.symm,
      hn.settings.failures.trans h.settings.failures.symm⟩
  verbatim := h.settings.compacting
  owners := owners

theorem built_ofOwners {owners : List (String × List Relation)}
    (h : ∀ e ∈ owners, ∀ r ∈ e.2, Fits r) :
    (ofOwners owners).Built where
  settings := ⟨rfl, rfl, rfl⟩
  sorted := Fields.sorted_ofList owners
  fits e he := h e (Fields.mem_of_mem_ofList he)

theorem Built.record (h : m.Built) (call : Call) : (m.record call).Built :=
  ⟨h.settings.trans ⟨rfl, rfl, rfl⟩, h.sorted, h.fits⟩

theorem Built.request (h : m.Built) (owner : OwnerId) (target : TargetId) (value : Option Int) :
    (m.request owner target value).Built :=
  ⟨h.settings.trans ⟨rfl, rfl, rfl⟩, h.sorted, h.fits⟩

theorem Built.setRelations (h : m.Built) {relations : List Relation}
    (hr : ∀ r ∈ relations, Fits r) :
    (m.setRelations owner relations).Built where
  settings := h.settings.trans ⟨rfl, rfl, rfl⟩
  sorted := Fields.sorted_insert _ _ h.sorted
  fits e he := by
    rcases Fields.mem_insert he with rfl | he
    · exact hr
    · exact h.fits e he

theorem Built.relations? {relations : List Relation} (h : m.Built)
    (hr : m.relations? owner = some relations) :
    ∀ r ∈ relations, Fits r := h.fits _ (Fields.mem_of_get? hr)

theorem Built.upsert (h : m.Built) {r : Relation} (hr : Fits r) : (upsert owner r m).2.Built := by
  rcases hu : MemoryRemote.upsert owner r m with ⟨error | _, n⟩
  · obtain rfl := of_upsert_error hu
    exact h.record _
  · obtain ⟨relations, hlist, rfl⟩ := of_upsert_ok hu
    refine ((h.record _).request _ _ _).setRelations fun s hs => ?_
    -- the remote neither renumbers nor pins
    have hafter : (m.noted owner r).relationsAfter owner r relations = putFirst r relations := by
      have hflat : m.compacting = false := h.settings.compacting
      have hpinned : m.pinned r.target = none := congrFun h.settings.pinned r.target
      simp [MemoryRemote.relationsAfter, stored, noted, MemoryRemote.request, MemoryRemote.record,
        hflat, hpinned]
    rw [hafter] at hs
    rcases mem_putFirst hs with rfl | hs
    · exact hr
    · exact h.relations? hlist s hs

theorem Built.delete (h : m.Built) (target : TargetId) : (delete owner target m).2.Built := by
  unfold MemoryRemote.delete
  dsimp only
  split
  · exact h.record _
  · exact h.record _
  · rename_i relations _ hlist
    split
    · exact h.record _
    · refine ((h.record _).request _ _ _).setRelations fun s hs => ?_
      exact h.relations? hlist s (List.mem_of_mem_filter hs)

end MemoryRemote

open MemoryRemote (Built SameLists)

/-! ### The text of a fixture -/

namespace Fixture

variable {l : Location} {home : Home} {owner : OwnerId} {d e : Disk} {memory : MemoryRemote}
  {owners : List (String × List Relation)}

/-- The owners with their relations as they are written. -/
def wire (owners : List (String × List Relation)) : List (String × List WireRelation) :=
  owners.map fun e => (e.1, e.2.map WireRelation.encode)

/-- The text that is written is read as what was written. -/
def Legible (owners : List (String × List Relation)) : Prop :=
  Json.readWhole decoder (text owners) = .ok (wire owners)

/-- What is written is read back, relation by relation. -/
theorem read_text (h : Legible owners) (hf : ∀ e ∈ owners, ∀ r ∈ e.2, Fits r) :
    read (text owners) = .ok owners := by
  rw [read, show Json.readWhole decoder (text owners) = .ok (wire owners) from h]
  refine mapM_map_eq_ok fun e he => ?_
  rw [decodeOwner, WireRelation.decodeAll_encode (hf e he)]

theorem fits_of_read {content : String} (h : read content = .ok owners) :
    ∀ e ∈ owners, ∀ r ∈ e.2, Fits r := by
  intro e he
  unfold read at h
  split at h
  · obtain ⟨w, -, hw⟩ := exists_of_mapM_eq_ok h he
    unfold decodeOwner at hw
    split at hw
    · rename_i relations hr
      obtain rfl := Except.ok.inj hw
      exact WireRelation.fits_of_decodeAll hr
    · cases hw
  · cases h

theorem of_load (h : load l d = .ok memory) :
    ∃ content owners, d.entry l = .ok (.text content) ∧ read content = .ok owners ∧
      memory = MemoryRemote.ofOwners owners := by
  cases he : d.entry l with
  | error cause => simp [load, Disk.read, he] at h
  | ok x =>
    cases x with
    | directory | binary => simp [load, Disk.read, he] at h
    | text content =>
      simp only [load, Disk.read, he] at h
      cases ho : read content with
      | error error =>
        rw [ho] at h
        cases h
      | ok owners =>
        rw [ho] at h
        exact ⟨content, owners, rfl, ho, (Except.ok.inj h).symm⟩

theorem built_of_load (h : load l d = .ok memory) : memory.Built := by
  obtain ⟨content, owners, -, hread, rfl⟩ := of_load h
  exact MemoryRemote.built_ofOwners (fits_of_read hread)

theorem load_of_entry {content : String} (he : d.entry l = .ok (.text content))
    (hr : read content = .ok owners) :
    load l d = .ok (MemoryRemote.ofOwners owners) := by
  unfold load Disk.read
  rw [he]
  dsimp only
  rw [hr]
  rfl

/-! ### One command -/

/-- What is on the way to the directory of the home: the fixture, if it stands there, and no file in
the place of its temporary file. -/
structure Clear (l : Location) (home : Home) (d : Disk) : Prop where
  file : l <+: StoredState.directory home → ∃ content, d.find? l = some (.text content)
  temporary : Path.temporary l <+: StoredState.directory home →
    (d.find? (Path.temporary l)).getD .directory = .directory

/-- The fixture on a disk is in step with a remote that lasts, and the disk with the one below
it. -/
structure Mirrors (l : Location) (home : Home) (d : Disk) (w : World MemoryRemote) : Prop where
  disk : Aside home l d w.disk
  content : (load l d).map (·.owners) = .ok w.remote.owners
  built : w.remote.Built
  clear : Clear l home w.disk

variable {w : World MemoryRemote}

theorem Mirrors.load (h : Mirrors l home d w) :
    ∃ memory, Fixture.load l d = .ok memory ∧ SameLists memory w.remote := by
  have hcontent := h.content
  cases hload : Fixture.load l d with
  | error error =>
    rw [hload] at hcontent
    cases hcontent
  | ok memory =>
    rw [hload] at hcontent
    exact ⟨memory, rfl, (built_of_load hload).sameLists h.built (Except.ok.inj hcontent)⟩

/-- The same is remembered of every owner whose file is not the fixture, but for the time. -/
theorem Mirrors.stored (h : Mirrors l home d w) (hl : StoredState.location home owner ≠ l) :
    Agree Eq EqButTime (StoredState.load home owner d) (StoredState.load home owner w.disk) :=
  StoredState.agree_load (h.disk.close hl)

theorem keeps_run (home : Home) (now : Timestamp) (declaration : Declaration) (mode : Mode)
    (w : World MemoryRemote) :
    Keeps home w.disk
      ((Run.run MemoryRemote.remote home now declaration mode).run w).state.disk := by
  let Q : Disk → Prop := Keeps home w.disk
  exact (Run.invariant_run (P := fun _ => True) (Q := Q) (fun _ _ _ _ => trivial)
    (fun _ _ _ => trivial) (fun _ _ => trivial)
    (fun s disk hk => hk.trans (StoredState.keeps_save home declaration.owner s disk))
    (fun disk hk => hk.trans (StoredState.keeps_remove home declaration.owner disk)) trivial
    (.refl home w.disk) now mode).2

theorem built_run {declaration : Declaration} (fits : ∀ r ∈ declaration.desired.relations, Fits r)
    (h : w.remote.Built) (home : Home) (now : Timestamp) (mode : Mode) :
    ((Run.run MemoryRemote.remote home now declaration mode).run w).state.remote.Built :=
  (Run.invariant_run (Q := fun _ => True) (fun r hr _ hs => hs.upsert (fits r hr))
    (fun id _ hs => hs.delete id)
    (fun s hs => MemoryRemote.state_list declaration.owner s ▸ hs.record _) (fun _ _ _ => trivial)
    (fun _ _ => trivial) h trivial now mode).1

/-- What is on the way to the directory of the home does not change, but that directories are
made. -/
theorem Clear.of_keeps (h : Clear l home d) (hk : Keeps home d e) : Clear l home e where
  file hway := by
    obtain ⟨content, hcontent⟩ := h.file hway
    have hlevel := (hk.same.above l hway).same
    rw [hcontent, Option.getD_some] at hlevel
    cases he : e.find? l with
    | none =>
      rw [he] at hlevel
      cases hlevel
    | some x =>
      rw [he] at hlevel
      exact ⟨content, congrArg some hlevel.symm⟩
  temporary hway := (hk.same.above _ hway).same.symm.trans (h.temporary hway)

/-- After a command that cannot have changed the remote the fixture stands as it did. -/
theorem load_of_not_changes {declaration : Declaration} {mode : Mode} (hm : mode.changes = false)
    (apart : StoredState.location home declaration.owner ≠ l)
    (hload : Fixture.load l d = .ok memory) (now : Timestamp) :
    Fixture.load l
      ((Run.run MemoryRemote.remote home now declaration mode).run ⟨memory, d⟩).state.disk =
        .ok memory ∧
      ((Run.run MemoryRemote.remote home now declaration mode).run
        ⟨memory, d⟩).state.remote.owners =
        memory.owners := by
  obtain ⟨content, owners, hentry, hread, rfl⟩ := of_load hload
  -- forgetting an owner may write the disk, but not to the file of the fixture
  constructor
  · refine load_of_entry ?_ hread
    exact Run.disk_of_not_changes (Q := fun disk => disk.entry l = .ok (.text content)) hm hentry
      (StoredState.entry_remove apart hentry)
  · let P : MemoryRemote → Prop := fun m => m.owners = (MemoryRemote.ofOwners owners).owners
    have hlisted : P (MemoryRemote.list declaration.owner (MemoryRemote.ofOwners owners)).2 := by
      rw [MemoryRemote.state_list]
      rfl
    exact Run.remote_of_not_changes (P := P) hm rfl hlisted

theorem yields_of_save (h : (save l memory d).result = .ok ()) :
    (Disk.replace (Path.temporary l) l (text memory.owners)).Yields d ()
      (save l memory d).state := by
  unfold save at h ⊢
  unfold Action.Yields Action.run
  dsimp only at h ⊢
  cases hr : (Disk.replace (Path.temporary l) l (text memory.owners) d).result with
  | error cause =>
    rw [hr] at h
    cases h
  | ok => exact ⟨rfl, rfl⟩

/-- The fixture that is written is the one that is loaded next. -/
theorem load_of_save (h : (Disk.replace (Path.temporary l) l (text owners)).Yields d () e)
    (hl : Legible owners) (hb : ∀ e ∈ owners, ∀ r ∈ e.2, Fits r) :
    Fixture.load l e = .ok (MemoryRemote.ofOwners owners) := by
  have hentry : e.entry l = .ok (.text (text owners)) := by
    rcases List.eq_nil_or_concat l with rfl | ⟨above, name, rfl⟩
    · obtain ⟨-, hl, -⟩ := Disk.yields_replace_iff.1 h
      exact absurd rfl (Disk.ne_nil_of_misplaced (Disk.refusesWrite_eq_none_iff.1 hl).1)
    · rw [List.concat_eq_append] at h ⊢
      exact Disk.entry_of_replace h
  exact load_of_entry hentry (read_text hl hb)

/-- Where the temporary file can be written after a run, its place is that of no owner's file. -/
theorem temporary_ne_location (hload : Fixture.load l d = .ok memory) (hk : Keeps home d e)
    (hw : e.refusesWrite (Path.temporary l) = none) (owner : OwnerId) :
    Path.temporary l ≠ StoredState.location home owner := by
  intro hsame
  obtain ⟨content, owners, hentry, -, -⟩ := of_load hload
  have habove : l.dropLast.dropLast <+: l := (List.dropLast_prefix _).trans (List.dropLast_prefix _)
  have hne : l.dropLast.dropLast ≠ l := by
    intro he
    have hlength := congrArg List.length he
    simp only [List.length_dropLast] at hlength
    obtain rfl : l = [] := List.eq_nil_of_length_eq_zero (by omega)
    cases hentry
  -- two steps above the fixture there is a directory, and the run leaves it
  have hdir : d.find? (Path.temporary l) = some .directory :=
    StoredState.temporary_of_location hsame ▸ Disk.find?_above_of_entry hentry habove hne
  rw [hsame] at hdir hw
  exact Disk.ne_directory_of_misplaced (Disk.refusesWrite_eq_none_iff.1 hw).1
    ((hk.same.inside _).1 hdir)

/-- Writing the fixture after a run leaves all else as it is where the fixture is not written. -/
theorem aside_of_save {content : String} {before v after : Disk}
    (hload : Fixture.load l d = .ok memory) (hk : Keeps home d before)
    (haside : Aside home l before v) (clear : Clear l home v)
    (hwritten : (Disk.replace (Path.temporary l) l content).Yields before () after) :
    Aside home l after v := by
  have hw := (Disk.yields_replace_iff.1 hwritten).1
  -- the fixture is no state file, and its temporary file is none either
  refine haside.of_replace hwritten (fun owner ht => ?_) (fun hway => ?_) fun hway hne => ?_
  · exact absurd ht (temporary_ne_location hload hk hw owner)
  · obtain ⟨content, hcontent⟩ := clear.file hway
    rw [hcontent]
    rfl
  · have hplace := clear.temporary hway
    cases hx : v.find? (Path.temporary l) with
    | none => rfl
    | some x =>
      rw [hx] at hplace hne
      exact absurd (congrArg some hplace) hne

/-- If the fixture was used at all, it could be written. -/
def Written : Except FixtureError Finish → Prop
  | .ok finish => finish.saved = .ok ()
  | .error _ => True

instance : DecidablePred Written
  | .ok finish => inferInstanceAs (Decidable (finish.saved = .ok ()))
  | .error _ => inferInstanceAs (Decidable True)

/-- What a command comes to on the fixture, as on the remote that lasts. -/
structure SameCommand (l : Location) (home : Home) (o : Outcome Disk FixtureError Finish)
    (p : Outcome (World MemoryRemote) RunError RunResult) : Prop where
  result : o.result = .ok ⟨p.result, .ok ()⟩
  notices : o.log = p.log
  stored : ∀ owner, StoredState.location home owner ≠ l →
    Agree Eq EqButTime (StoredState.load home owner o.state)
      (StoredState.load home owner p.state.disk)
  content : (Fixture.load l o.state).map (·.owners) = .ok p.state.remote.owners

/-- A command keeps the fixture in step with the remote, and comes to the same. -/
theorem Mirrors.run (h : Mirrors l home d w) {j k : Job} (same : Job.Same j k)
    (apart : StoredState.location home j.declaration.owner ≠ l)
    (fits : ∀ r ∈ j.declaration.desired.relations, Fits r)
    (written : Written ((Fixture.run l home j.now j.declaration j.mode).run d).result)
    (legible : j.mode.changes = true → Legible (k.outcome home w).state.remote.owners) :
    SameCommand l home ((Fixture.run l home j.now j.declaration j.mode).run d) (k.outcome home w) ∧
      Mirrors l home ((Fixture.run l home j.now j.declaration j.mode).run d).state
        (k.outcome home w).state := by
  obtain ⟨memory, hload, hlists⟩ := h.load
  let o := (Run.run MemoryRemote.remote home j.now j.declaration j.mode).run ⟨memory, d⟩
  have hfinish : (Fixture.run l home j.now j.declaration j.mode).run d = finish l j.mode o := by
    simp only [Fixture.run, Action.run, hload]
    rfl
  have hk : k.outcome home w =
      (Run.run MemoryRemote.remote home k.now j.declaration j.mode).run w := by
    rw [Job.outcome, ← same.declaration, ← same.mode]
  obtain ⟨hresult, ⟨hremote, hdisk⟩, hlog⟩ :=
    Run.alike_run_of_hides MemoryRemote.simulates_sameLists
      (StoredState.hides_aside apart j.time k.time) j.mode ⟨memory, d⟩ w ⟨hlists, h.disk⟩
  have hbuilt := built_run fits h.built home k.now j.mode
  have hclear := h.clear.of_keeps (keeps_run home k.now j.declaration j.mode w)
  rw [← hk] at hresult hremote hdisk hlog hbuilt hclear
  rw [hfinish] at written ⊢
  -- it is enough that the fixture is written as the lasting remote now is
  suffices hdone : ∃ e, finish l j.mode o = ⟨.ok ⟨o.result, .ok ()⟩, e, o.log⟩ ∧
      Mirrors l home e (k.outcome home w).state by
    obtain ⟨e, he, hmirrors⟩ := hdone
    rw [he]
    have hfinished :=
      congrArg (fun r => (Except.ok ⟨r, .ok ()⟩ : Except FixtureError Finish)) hresult
    exact ⟨⟨hfinished, hlog, fun owner => hmirrors.stored, hmirrors.content⟩, hmirrors⟩
  cases hm : j.mode.changes with
  | false =>
    obtain ⟨hloaded, howners⟩ := load_of_not_changes hm apart hload j.now
    refine ⟨o.state.disk, finish_of_not_changes hm o, hdisk, ?_, hbuilt, hclear⟩
    rw [hloaded]
    exact congrArg Except.ok (howners.symm.trans hremote.owners)
  | true =>
    let s := save l o.state.remote o.state.disk
    have hsave : finish l j.mode o = ⟨.ok ⟨o.result, s.result⟩, s.state, o.log⟩ := by
      simp [finish, hm, s]
    have hsaved : s.result = .ok () := by
      rw [hsave] at written
      exact written
    have hreplace := yields_of_save hsaved
    rw [hremote.owners] at hreplace
    refine ⟨s.state, by rw [hsave, hsaved], ?_, ?_, hbuilt, hclear⟩
    · exact aside_of_save hload (keeps_run home j.now j.declaration j.mode ⟨memory, d⟩) hdisk
        hclear hreplace
    · -- what was written is read back as the owners of the lasting remote
      rw [load_of_save hreplace (legible hm) hbuilt.fits]
      exact congrArg Except.ok (Fields.ofList_eq_self hbuilt.sorted)

/-! ### Commands one after another -/

/-- What jobs come to on the fixture, each on the disk as the one before it left it. -/
def outcomes (l : Location) (home : Home) :
    List Job → Disk → List (Outcome Disk FixtureError Finish)
  | [], _ => []
  | j :: jobs, d =>
    let o := (run l home j.now j.declaration j.mode).run d
    o :: outcomes l home jobs o.state

/-- What jobs come to on a remote that lasts. -/
def lasting (home : Home) :
    List Job → World MemoryRemote → List (Outcome (World MemoryRemote) RunError RunResult)
  | [], _ => []
  | j :: jobs, w => j.outcome home w :: lasting home jobs (j.outcome home w).state

/-- What is written of the remote, after each job that may have changed it, is read back. -/
def ReadsBack (home : Home) : List Job → World MemoryRemote → Prop
  | [], _ => True
  | j :: jobs, w =>
    (j.mode.changes = true → Legible (j.outcome home w).state.remote.owners) ∧
      ReadsBack home jobs (j.outcome home w).state

theorem Mirrors.commands {jobs later : List Job} (h : Mirrors l home d w)
    (same : List.Forall₂ Job.Same jobs later)
    (apart : ∀ j ∈ jobs, StoredState.location home j.declaration.owner ≠ l)
    (fits : ∀ j ∈ jobs, ∀ r ∈ j.declaration.desired.relations, Fits r)
    (written : ∀ o ∈ outcomes l home jobs d, Written o.result)
    (readsBack : ReadsBack home later w) :
    List.Forall₂ (SameCommand l home) (outcomes l home jobs d) (lasting home later w) := by
  -- each command leaves disks and remotes that mirror each other again
  induction same generalizing d w with
  | nil => exact .nil
  | cons hjk _ ih =>
    obtain ⟨hcommand, hmirrors⟩ :=
      h.run hjk (apart _ List.mem_cons_self) (fits _ List.mem_cons_self)
        (written _ List.mem_cons_self) fun hm => readsBack.1 (hjk.mode ▸ hm)
    exact .cons hcommand (ih hmirrors (fun j hj => apart j (List.mem_cons_of_mem _ hj))
      (fun j hj => fits j (List.mem_cons_of_mem _ hj))
      (fun o ho => written o (List.mem_cons_of_mem _ ho)) readsBack.2)

/-- What is taken for granted of commands on a fixture, and of the same ones on a remote that lasts:
the fixture can be loaded, its text can be written after each command that asks for it and is then
read back, and the priorities that are declared have 64 bits. -/
structure Usable (l : Location) (home : Home) (d : Disk) (memory : MemoryRemote)
    (jobs later : List Job) : Prop where
  load : Fixture.load l d = .ok memory
  same : List.Forall₂ Job.Same jobs later
  fits : ∀ j ∈ jobs, ∀ r ∈ j.declaration.desired.relations, Fits r
  written : ∀ o ∈ outcomes l home jobs d, Written o.result
  readsBack : ReadsBack home later ⟨memory, d⟩

theorem mirrors_of_load (h : Fixture.load l d = .ok memory)
    (clear : Path.temporary l <+: StoredState.directory home →
      (d.find? (Path.temporary l)).getD .directory = .directory) : Mirrors l home d
        ⟨memory, d⟩ where
  disk := .refl home l d
  content := by
    rw [h]
    rfl
  built := built_of_load h
  clear.file _ := by
    obtain ⟨content, owners, hentry, -, -⟩ := of_load h
    exact ⟨content, Disk.find?_of_entry hentry⟩
  clear.temporary := clear

end Fixture

/-- **A fixture is one long-lived remote.**  Commands on a fixture come to the same as on one remote
that was built from it at the start: the same results and notices, the same remembered but for the
time, and the same lists when the fixture is loaded.  The fixture must not be the file of one of
their owners, nor may its temporary file stand in the way of the home. -/
theorem fixture_long_lived {l : Location} {home : Home} {d : Disk} {memory : MemoryRemote}
    {jobs later : List Job} (usable : Fixture.Usable l home d memory jobs later)
    (apart : ∀ j ∈ jobs, StoredState.location home j.declaration.owner ≠ l)
    (clear : Path.temporary l <+: StoredState.directory home →
      (d.find? (Path.temporary l)).getD .directory = .directory) :
    List.Forall₂ (Fixture.SameCommand l home) (Fixture.outcomes l home jobs d)
      (Fixture.lasting home later ⟨memory, d⟩) :=
  (Fixture.mirrors_of_load usable.load clear).commands usable.same apart usable.fits usable.written
    usable.readsBack

/-! ### Three fixtures -/

namespace Fixture

def sampleHome : Home := ⟨"/home", ["home"]⟩

def samplePlace : Location := ["fixture.json"]

/-- A disk with a fixture that knows one owner. -/
def sampleDisk (l : Location) : Disk := Disk.empty.withFile l (.text "\x7b\"app\": []\x7d")

def sampleMemory : MemoryRemote := .ofOwners [("app", [])]

def sampleSet : DesiredSet := ⟨[.bare ⟨"x"⟩], by decide, by decide⟩

/-- A job for an owner in the first second, or in the one after it. -/
def jobAt (second : Fin 2) (owner : OwnerId) (declared : DesiredSet) (mode : Mode) : Job where
  now := ⟨second, 0⟩
  time := by
    match second with
    | 0 => exact ⟨by decide, by decide, by decide⟩
    | 1 => exact ⟨by decide, by decide, by decide⟩
  declaration := ⟨owner, declared⟩
  mode := mode

/-- One relation is declared, and then none. -/
def sampleJobs (second : Fin 2) (mode : Mode) : List Job :=
  [jobAt second ⟨"app"⟩ sampleSet (.apply false), jobAt second ⟨"app"⟩ .empty mode]

theorem fits_sampleJobs (mode : Mode) :
    ∀ j ∈ sampleJobs 0 mode, ∀ r ∈ j.declaration.desired.relations, Fits r := by
  intro j hj r hr
  simp only [sampleJobs, List.mem_cons, List.not_mem_nil, or_false] at hj
  rcases hj with rfl | rfl
  · obtain rfl := List.mem_singleton.1 hr
    exact nofun
  · cases hr

theorem legible_bare : Legible [("app", [.bare ⟨"x"⟩])] := by
  unfold Legible
  rfl

end Fixture

open Fixture (Legible SameCommand Usable lasting outcomes sampleDisk sampleHome sampleJobs
  sampleMemory samplePlace)

theorem fixture_long_lived_sample :
    Usable samplePlace sampleHome (sampleDisk samplePlace) sampleMemory (sampleJobs 0 .read)
      (sampleJobs 1 .read) ∧
      List.Forall₂ (SameCommand samplePlace sampleHome)
        (outcomes samplePlace sampleHome (sampleJobs 0 .read) (sampleDisk samplePlace))
        (lasting sampleHome (sampleJobs 1 .read) ⟨sampleMemory, sampleDisk samplePlace⟩) := by
  have husable : Usable samplePlace sampleHome (sampleDisk samplePlace) sampleMemory
      (sampleJobs 0 .read) (sampleJobs 1 .read) :=
    { load := by rfl
      same := .cons ⟨rfl, rfl⟩ (.cons ⟨rfl, rfl⟩ .nil)
      fits := Fixture.fits_sampleJobs .read
      written := by decide +kernel
      readsBack := ⟨fun _ => Fixture.legible_bare, nofun, trivial⟩ }
  refine ⟨husable, fixture_long_lived husable (fun j hj => ?_) ?_⟩
  · simp only [sampleJobs, List.mem_cons, List.not_mem_nil, or_false] at hj
    rcases hj with rfl | rfl <;> decide +kernel
  · decide +kernel

namespace Fixture

/-- A run in short: what became of the operations, or why it failed. -/
def runInShort : Except RunError RunResult → Except String (List Applied)
  | .ok (.reconciled r) => .ok r.applied
  | .ok (.destroyed as) => .ok as
  | .error e => .error e.message

/-- A command on a fixture in short. -/
def inShort : Except FixtureError Finish → Except String (List Applied)
  | .ok finish => runInShort finish.result
  | .error e => .error e.message

/-- Commands that come to the same do so in short. -/
theorem inShort_eq {l : Location} {home : Home} {os : List (Outcome Disk FixtureError Finish)}
    {ps : List (Outcome (World MemoryRemote) RunError RunResult)}
    (h : List.Forall₂ (SameCommand l home) os ps) :
    os.map (fun o => inShort o.result) = ps.map fun p => runInShort p.result := by
  induction h with
  | nil => rfl
  | cons hop _ ih =>
    rw [List.map_cons, List.map_cons, ih, hop.result]
    rfl

/-- A fixture in the place where an owner is remembered. -/
def ownPlace : Location := StoredState.location sampleHome ⟨"app"⟩

/-- A home in the place of a fixture's temporary file. -/
def coveredHome : Home := ⟨"/fixture.json.tmp", ["fixture.json.tmp"]⟩

/-- A disk on which that place is taken. -/
def coveredDisk : Disk := (sampleDisk samplePlace).withFile coveredHome.location (.text "")

/-- A set cannot be remembered, and then an owner that is gone is looked for. -/
def coveredJobs : List Job := [jobAt 0 ⟨"app"⟩ sampleSet (.apply false), jobAt 0 ⟨"b"⟩ .empty .read]

end Fixture

open Fixture (coveredDisk coveredHome coveredJobs inShort ownPlace runInShort)

/-- A fixture that takes the place of what is remembered makes the next apply forget what to delete,
and one whose temporary file takes the place of a file makes room for a home. -/
theorem not_long_lived_in_the_way :
    (Usable ownPlace sampleHome (sampleDisk ownPlace) sampleMemory (sampleJobs 0 (.apply true))
        (sampleJobs 0 (.apply true)) ∧
      ((outcomes ownPlace sampleHome (sampleJobs 0 (.apply true)) (sampleDisk ownPlace)).map
          fun o => inShort o.result) = [.ok [.upserted ⟨"x"⟩], .ok []] ∧
      ((lasting sampleHome (sampleJobs 0 (.apply true)) ⟨sampleMemory, sampleDisk ownPlace⟩).map
          fun p => runInShort p.result) = [.ok [.upserted ⟨"x"⟩], .ok [.wouldDelete ⟨"x"⟩]] ∧
      ¬List.Forall₂ (SameCommand ownPlace sampleHome)
        (outcomes ownPlace sampleHome (sampleJobs 0 (.apply true)) (sampleDisk ownPlace))
        (lasting sampleHome (sampleJobs 0 (.apply true)) ⟨sampleMemory, sampleDisk ownPlace⟩)) ∧
    (Usable samplePlace coveredHome coveredDisk sampleMemory coveredJobs coveredJobs ∧
      ¬List.Forall₂ (SameCommand samplePlace coveredHome)
        (outcomes samplePlace coveredHome coveredJobs coveredDisk)
        (lasting coveredHome coveredJobs ⟨sampleMemory, coveredDisk⟩)) := by
  have hown : ((outcomes ownPlace sampleHome (sampleJobs 0 (.apply true)) (sampleDisk ownPlace)).map
      fun o => inShort o.result) = [.ok [.upserted ⟨"x"⟩], .ok []] := by decide +kernel
  have hlasting :
      ((lasting sampleHome (sampleJobs 0 (.apply true)) ⟨sampleMemory, sampleDisk ownPlace⟩).map
        fun p => runInShort p.result) =
        [.ok [.upserted ⟨"x"⟩], .ok [.wouldDelete ⟨"x"⟩]] := by decide +kernel
  have hcovered : ((outcomes samplePlace coveredHome coveredJobs coveredDisk).map fun o =>
      inShort o.result) ≠
      (lasting coveredHome coveredJobs ⟨sampleMemory, coveredDisk⟩).map fun p =>
        runInShort p.result := by
    decide +kernel
  refine ⟨⟨?_, hown, hlasting, fun h => ?_⟩, ?_, fun h => hcovered (Fixture.inShort_eq h)⟩
  · exact
      { load := by rfl
        same := .cons ⟨rfl, rfl⟩ (.cons ⟨rfl, rfl⟩ .nil)
        fits := Fixture.fits_sampleJobs (.apply true)
        written := by decide +kernel
        readsBack := ⟨fun _ => Fixture.legible_bare, nofun, trivial⟩ }
  · have hsame := Fixture.inShort_eq h
    rw [hown, hlasting] at hsame
    exact absurd hsame (by decide)
  · exact
      { load := by rfl
        same := .cons ⟨rfl, rfl⟩ (.cons ⟨rfl, rfl⟩ .nil)
        fits := fun j hj r hr => by
          simp only [coveredJobs, List.mem_cons, List.not_mem_nil, or_false] at hj
          rcases hj with rfl | rfl
          · obtain rfl := List.mem_singleton.1 hr
            exact nofun
          · cases hr
        written := by decide +kernel
        readsBack := ⟨fun _ => Fixture.legible_bare, nofun, trivial⟩ }

end Roster
