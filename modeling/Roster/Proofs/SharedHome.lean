/-
A home that several owners share.

What is loaded, saved and removed for an owner depends on a disk only by its file and by the
directories of the home.  On two disks that agree in these it comes out the same on both, and they
agree again after it.  What is saved and removed for others leaves such disks in agreement, since it
keeps the directories and does not reach the file.  A name that is too long is the exception:
whether removing finds that nothing is stored or refuses the name depends on whether the directory
above is there.

* `Keeps`, `keeps_save`, `keeps_remove`: what saving and removing leave of the directories;
* `result_save`: whether saving ends well is settled by the directories;
* `Twin`: disks that agree for an owner, `Twin.loaded`, `Twin.saved` and `Twin.removed` for what is
  done on both, `Twin.of_keeps_left` for what is done on one of them.
-/
import Roster.Proofs.Grounded
import Roster.Proofs.StateTime

namespace Roster.Disk

variable {d : Disk} {l : Location} {name : String}

/-- In a directory no file can stand under a name that is too long, and where a directory stands. -/
theorem misplaced_concat (h : d.entry l = .ok .directory) :
    d.misplaced (l ++ [name]) =
      if isName name then if d.find? (l ++ [name]) = some .directory
        then some .isDirectory else none
      else some .nameTooLong := by
  have hparent : d.isDirectory l = true := isDirectory_iff.2 h
  rw [misplaced, entry_concat, h, List.dropLast_concat, hparent, below]
  by_cases hn : isName name = true
  · rw [if_pos hn, if_pos hn]
    cases d.find? (l ++ [name]) with
    | none => rfl
    | some x => cases x <;> rfl
  · rw [if_neg hn, if_neg hn]

/-- Above what is a directory no file can stand. -/
theorem misplaced_dropLast (hl : l ≠ []) (h : d.entry l = .ok .directory) :
    d.misplaced l.dropLast = some .isDirectory := by
  rw [← List.dropLast_append_getLast hl] at h
  rw [misplaced, (of_entry_concat h).1]

end Roster.Disk

namespace Roster.StoredState

open Roster.Action (Agree)

variable {home : Home} {owner other : OwnerId} {d e f d' e' : Disk} {s s' : StoredState}
  {name content : String} {t u : Timestamp}

/-! ### The directories of a home -/

/-- The disks deny the same and have the same directories where the home keeps its files; on the way
there one of them may lack some. -/
structure SameDirectories (home : Home) (d e : Disk) : Prop where
  denies : d.denies = e.denies
  above : ∀ k, k <+: directory home → Disk.Level d e k
  inside : ∀ name, d.find? (directory home ++ [name]) = some .directory ↔
    e.find? (directory home ++ [name]) = some .directory

theorem SameDirectories.refl (home : Home) (d : Disk) : SameDirectories home d d :=
  ⟨rfl, fun _ _ => .of_eq rfl, fun _ => Iff.rfl⟩

theorem SameDirectories.symm (h : SameDirectories home d e) : SameDirectories home e d :=
  ⟨h.denies.symm, fun k hk => (h.above k hk).symm, fun name => (h.inside name).symm⟩

theorem SameDirectories.trans (h : SameDirectories home d e) (h' : SameDirectories home e f) :
    SameDirectories home d f :=
  ⟨h.denies.trans h'.denies, fun k hk => (h.above k hk).trans h.denies h'.denies (h'.above k hk),
    fun name => (h.inside name).trans (h'.inside name)⟩

/-- The second disk is what the first one becomes, with the directories of the home as they were. -/
structure Keeps (home : Home) (d e : Disk) : Prop where
  grounded : d.Grounded → e.Grounded
  same : SameDirectories home d e

theorem Keeps.refl (home : Home) (d : Disk) : Keeps home d d := ⟨id, .refl home d⟩

theorem Keeps.trans (h : Keeps home d e) (h' : Keeps home e f) : Keeps home d f :=
  ⟨h'.grounded ∘ h.grounded, h.same.trans h'.same⟩

theorem keeps_makeDirectories (home : Home) (d : Disk) :
    Keeps home d (Disk.makeDirectories (directory home) d).state where
  grounded h := h.makeDirectories (directory home)
  same := by
    refine ⟨(Disk.denies_makeDirectories d _).symm,
      fun k _ => Disk.level_makeDirectories d (directory home) k, fun name => ?_⟩
    rcases Disk.find?_makeDirectories d (directory home) (directory home ++ [name]) with
      hs | ⟨-, -, hp, -⟩
    · rw [hs]
    · exact absurd rfl (Disk.ne_concat_of_above hp)

theorem keeps_put (hd : d.find? (directory home) = some .directory)
    (hx : d.find? (directory home ++ [name]) ≠ some .directory) (content : String) :
    Keeps home d (d.put (directory home ++ [name]) (.text content)) where
  grounded h := h.put hd (.inr hx)
  same := by
    refine ⟨rfl, fun k hk => .of_eq ?_, fun n => ?_⟩
    · rw [Disk.find?_put_of_ne (Disk.ne_concat_of_above hk)]
    · by_cases hn : directory home ++ [n] = directory home ++ [name]
      · rw [hn, Disk.find?_put_self (by simp)]
        exact iff_of_false hx (by simp)
      · rw [Disk.find?_put_of_ne hn]

theorem keeps_erase (hx : d.find? (directory home ++ [name]) ≠ some .directory) :
    Keeps home d (d.erase (directory home ++ [name])) where
  grounded h := h.erase hx
  same := by
    refine ⟨rfl, fun k hk => .of_eq ?_, fun n => ?_⟩
    · rw [Disk.find?_erase_of_ne (Disk.ne_concat_of_above hk)]
    · by_cases hn : directory home ++ [n] = directory home ++ [name]
      · rw [hn, Disk.find?_erase_self (by simp)]
        exact iff_of_false hx (by simp)
      · rw [Disk.find?_erase_of_ne hn]

/-! ### Saving -/

/-- A temporary file that can stand at its place stands beside the files of owners. -/
theorem temporary_beside (hd : d.entry (directory home) = .ok .directory)
    (hw : d.misplaced (temporaryLocation home owner) = none) :
    ∃ name, temporaryLocation home owner = directory home ++ [name] ∧
    ∀ other, name ≠ fileName other := by
  rcases temporaryLocation_cases home owner with ht | hbeside
  · rw [ht, Disk.misplaced_dropLast (by simp [directory, directoryNames]) hd] at hw
    cases hw
  · exact hbeside

/-- A file that is put beside the files of owners leaves their directory reached. -/
theorem entry_directory_put (hd : d.entry (directory home) = .ok .directory) (content : String) :
    (d.put (directory home ++ [name]) (.text content)).entry (directory home) = .ok .directory :=
  Disk.entry_of_find? hd fun _ hk => Disk.find?_put_of_ne (Disk.ne_concat_of_above hk) d _

theorem keeps_spoiled (hd : d.find? (directory home) = some .directory)
    (hx : d.find? (directory home ++ [name]) ≠ some .directory) (error : DiskError) :
    Keeps home d (d.spoiled (directory home ++ [name]) error) := by
  cases error with
  | noRoom => exact keeps_put hd hx ""
  | notFound | notDirectory | isDirectory | nameTooLong | notText | notPermitted =>
    exact .refl home d

theorem keeps_replace (hd : d.entry (directory home) = .ok .directory) (owner : OwnerId)
    (content : String) :
    Keeps home d
      ((Disk.replace (temporaryLocation home owner) (location home owner) content).run
        d).state := by
  have hdir : d.find? (directory home) = some .directory := Disk.find?_of_entry hd
  rw [Disk.run_replace]
  cases hw : d.misplaced (temporaryLocation home owner) with
  | some error => exact .refl home d
  | none =>
    obtain ⟨name, hname, hne⟩ := temporary_beside hd hw
    rw [hname] at hw ⊢
    have hfile := Disk.ne_directory_of_misplaced hw
    cases d.denies (directory home ++ [name]) with
    | some error => exact keeps_spoiled hdir hfile error
    | none =>
      -- the temporary file comes and goes, whether or not it takes the place of the other one
      have htemporary : Keeps home d ((d.put (directory home ++ [name]) (.text content)).erase
          (directory home ++ [name])) := by
        refine (keeps_put hdir hfile content).trans (keeps_erase ?_)
        rw [Disk.find?_put_self (by simp)]
        simp
      cases hl : (d.put (directory home ++ [name]) (.text content)).refusesWrite
          (location home owner) with
      | some error => exact htemporary
      | none =>
        have hlocation : location home owner ≠ directory home ++ [name] := fun hsame =>
          hne owner (by simpa [location] using hsame.symm)
        have hdirectory : directory home ≠ directory home ++ [name] :=
          Disk.ne_concat_of_above List.prefix_rfl
        refine htemporary.trans (keeps_put ?_ ?_ content)
        · rw [Disk.find?_erase_of_ne hdirectory, Disk.find?_put_of_ne hdirectory, hdir]
        · rw [← location, Disk.find?_erase_of_ne hlocation]
          exact Disk.ne_directory_of_misplaced (Disk.refusesWrite_eq_none_iff.1 hl).1

/-- Saving keeps the directories of the home. -/
theorem keeps_save (home : Home) (owner : OwnerId) (s : StoredState) (d : Disk) :
    Keeps home d ((save home owner s).run d).state := by
  have hmade := keeps_makeDirectories home d
  unfold Action.run save
  dsimp only
  cases hm : (Disk.makeDirectories (directory home) d).result with
  | error cause => exact hmade
  | ok =>
    have hd : (Disk.makeDirectories (directory home) d).state.entry (directory home) =
        .ok .directory :=
      Disk.entry_of_makeDirectories (Action.yields_of_result hm)
    have hreplaced := keeps_replace hd owner s.text
    unfold Action.run at hreplaced
    exact hmade.trans hreplaced

/-- Whether a file can stand in the directory of the home is settled by the directories. -/
theorem SameDirectories.misplaced (h : SameDirectories home d e)
    (hd : d.entry (directory home) = .ok .directory)
    (he : e.entry (directory home) = .ok .directory) (name : String) :
    d.misplaced (directory home ++ [name]) = e.misplaced (directory home ++ [name]) := by
  simp only [Disk.misplaced_concat hd, Disk.misplaced_concat he, h.inside name]

/-- So it is with whether one can be moved there when a temporary file was written on both. -/
theorem SameDirectories.refusesWrite_put (h : SameDirectories home d e)
    (hd : d.entry (directory home) = .ok .directory)
    (he : e.entry (directory home) = .ok .directory)
    (hw : d.misplaced (directory home ++ [name]) = none) (owner : OwnerId)
    (content other : String) :
    (d.put (directory home ++ [name]) (.text content)).refusesWrite (location home owner) =
      (e.put (directory home ++ [name]) (.text other)).refusesWrite (location home owner) := by
  have hw' : e.misplaced (directory home ++ [name]) = none := by rw [← h.misplaced hd he name, hw]
  have hkeeps := keeps_put (Disk.find?_of_entry hd) (Disk.ne_directory_of_misplaced hw) content
  have hkeeps' := keeps_put (Disk.find?_of_entry he) (Disk.ne_directory_of_misplaced hw') other
  have hput := (hkeeps.same.symm.trans h).trans hkeeps'.same
  rw [Disk.refusesWrite, Disk.refusesWrite, hput.denies, location,
    hput.misplaced (entry_directory_put hd content) (entry_directory_put he other)]

theorem SameDirectories.result_replace (h : SameDirectories home d e)
    (hd : d.entry (directory home) = .ok .directory)
    (he : e.entry (directory home) = .ok .directory) (owner : OwnerId) (content other : String) :
    ((Disk.replace (temporaryLocation home owner) (location home owner) content).run d).result =
      ((Disk.replace (temporaryLocation home owner) (location home owner) other).run e).result := by
  rw [Disk.run_replace, Disk.run_replace]
  rcases temporaryLocation_cases home owner with ht | ⟨name, ht, -⟩
  · have hne : directory home ≠ [] := by simp [directory, directoryNames]
    rw [ht, Disk.misplaced_dropLast hne hd, Disk.misplaced_dropLast hne he]
  · -- what may be written below the directory is the same on both, whatever the text
    rw [ht, ← h.misplaced hd he name, ← h.denies]
    cases hw : d.misplaced (directory home ++ [name]) with
    | some error => rfl
    | none =>
      cases d.denies (directory home ++ [name]) with
      | some error => rfl
      | none =>
        dsimp only
        rw [h.refusesWrite_put hd he hw owner content other]
        cases (e.put (directory home ++ [name]) (.text other)).refusesWrite
          (location home owner) <;> rfl

/-- Whether a state can be saved, and why not, is settled by the directories of the home. -/
theorem result_save (h : SameDirectories home d e) (owner : OwnerId) (s s' : StoredState) :
    ((save home owner s).run d).result = ((save home owner s').run e).result := by
  have hmade := Disk.result_makeDirectories h.denies h.above
  unfold Action.run save
  dsimp only
  cases hm : (Disk.makeDirectories (directory home) d).result with
  | error cause =>
    rw [hm] at hmade
    rw [← hmade]
  | ok =>
    rw [hm] at hmade
    rw [← hmade]
    have hd : (Disk.makeDirectories (directory home) d).state.entry (directory home) =
        .ok .directory :=
      Disk.entry_of_makeDirectories (Action.yields_of_result hm)
    have he : (Disk.makeDirectories (directory home) e).state.entry (directory home) =
        .ok .directory :=
      Disk.entry_of_makeDirectories (Action.yields_of_result hmade.symm)
    -- with the directories made, the two homes agree in all of them
    have hsame :=
      ((keeps_makeDirectories home d).same.symm.trans h).trans (keeps_makeDirectories home e).same
    have hreplaced := hsame.result_replace hd he owner s.text s'.text
    unfold Action.run at hreplaced
    dsimp only
    rw [hreplaced]

/-- Saving for one owner leaves what stands at the file of another. -/
theorem find?_save_of_ne (hne : other ≠ owner) (s : StoredState) (d : Disk) :
    ((save home owner s).run d).state.find? (location home other) =
      d.find? (location home other) := by
  rcases Action.yields_or_fails (save home owner s) d with ⟨_, e, hy⟩ | ⟨error, e, hf⟩
  · rw [hy.state]
    exact (untouched_save_of_ne hy hne).entry
  · exact (untouched_save_of_error hf.1).entry

/-! ### Removing -/

/-- What removing comes to, by what stands at the file. -/
theorem run_remove (home : Home) (owner : OwnerId) (d : Disk) :
    (remove home owner).run d =
      match d.entry (location home owner) with
      | .ok .directory => ⟨.error (.inaccessible (path home owner) .isDirectory), d, []⟩
      | .ok _ => ⟨.ok true, d.erase (location home owner), []⟩
      | .error .notFound => ⟨.ok false, d, []⟩
      | .error cause => ⟨.error (.inaccessible (path home owner) cause), d, []⟩ := by
  unfold Action.run remove Disk.remove
  cases d.entry (location home owner) with
  | ok x => cases x <;> rfl
  | error cause => cases cause <;> rfl

/-- Removing keeps the directories of the home. -/
theorem keeps_remove (home : Home) (owner : OwnerId) (d : Disk) :
    Keeps home d ((remove home owner).run d).state := by
  rw [run_remove]
  cases he : d.entry (location home owner) with
  | error cause => cases cause <;> exact .refl home d
  | ok x =>
    cases x with
    | directory => exact .refl home d
    | text | binary =>
      refine keeps_erase ?_
      rw [← location, Disk.find?_of_entry he]
      simp

/-! ### Disks that agree for an owner -/

/-- The same, or the texts of states of the owner that differ in their time only. -/
inductive SameFile (owner : OwnerId) : Entry → Entry → Prop
  | same (x : Entry) : SameFile owner x x
  | texts {t u : Timestamp} (ht : t.Valid) (hu : u.Valid) (declared : DesiredSet)
      (view : List Relation) :
    SameFile owner (.text (ofOwner owner t declared view).text)
      (.text (ofOwner owner u declared view).text)

theorem SameFile.symm {x y : Entry} (h : SameFile owner x y) : SameFile owner y x := by
  cases h with
  | same => exact .same _
  | texts ht hu declared view => exact .texts hu ht declared view

/-- Disks without orphans that agree in the directories of the home and, but for the time, in what
stands at the owner's file. -/
structure Twin (home : Home) (owner : OwnerId) (d e : Disk) : Prop where
  left : d.Grounded
  right : e.Grounded
  directories : SameDirectories home d e
  file : Option.Rel (SameFile owner) (d.find? (location home owner)) (e.find? (location home owner))

theorem twin_refl (home : Home) (owner : OwnerId) (h : d.Grounded) : Twin home owner d d where
  left := h
  right := h
  directories := .refl home d
  file := by
    cases d.find? (location home owner) with
    | none => exact .none
    | some x => exact .some (.same x)

/-- Disks that agree are changed with their directories kept, and agree in the file again. -/
theorem Twin.of_keeps (h : Twin home owner d e) (hd : Keeps home d d') (he : Keeps home e e')
    (hf : Option.Rel (SameFile owner) (d'.find? (location home owner))
      (e'.find? (location home owner))) :
    Twin home owner d' e' where
  left := hd.grounded h.left
  right := he.grounded h.right
  directories := (hd.same.symm.trans h.directories).trans he.same
  file := hf

/-- What is saved and removed for other owners on one of the disks leaves them in agreement. -/
theorem Twin.of_keeps_left (h : Twin home owner d e) (hd : Keeps home d d')
    (hf : d'.find? (location home owner) = d.find? (location home owner)) : Twin home owner d' e :=
  h.of_keeps hd (.refl home e) (hf ▸ h.file)

/-- A name on the way to the owner's file is too long. -/
def Overlong (home : Home) (owner : OwnerId) : Prop :=
  ∃ name ∈ location home owner, Disk.isName name = false

/-- The name of a file has a byte for every character of its owner, and five more. -/
theorem isName_fileName (h : 250 < owner.text.toList.length) :
    Disk.isName (fileName owner) = false := by
  have hchar : ∀ c, 0 < (String.utf8EncodeChar c).length := fun c => by
    rw [String.length_utf8EncodeChar]
    exact c.utf8Size_pos
  have hbyte : ∀ b, 0 < (Text.Percent.encodeByte Text.Percent.isFileNameByte b).length := by
    intro b
    unfold Text.Percent.encodeByte
    split <;> exact Nat.succ_pos _
  -- encoding and writing only lengthen a name
  have hstem : owner.text.toList.length ≤ (fileStem owner).toList.length := by
    unfold fileStem Text.Percent.encode Text.Percent.encodeBytes Text.Percent.utf8
    rw [String.toList_ofList]
    exact (Json.length_le_flatMap hchar _).trans (Json.length_le_flatMap hbyte _)
  have hsize : (fileStem owner).toList.length ≤ (fileStem owner).utf8ByteSize := by
    rw [← String.size_toByteArray, ← String.utf8Encode_toList, List.utf8Encode,
      List.size_toByteArray]
    exact Json.length_le_flatMap hchar _
  have hjson : ".json".utf8ByteSize = 5 := rfl
  rw [Disk.isName, fileName, String.utf8ByteSize_append, hjson]
  exact decide_eq_false (by omega)

theorem Twin.close (h : Twin home owner d e) :
    Disk.Close (Overlong home owner) (SameFile owner) (d.entry (location home owner))
      (e.entry (location home owner)) := by
  refine Disk.close_entry h.left h.right (fun _ _ => SameFile.symm) (fun k hk hne => ?_) h.file
  exact h.directories.above k ((List.prefix_concat_iff.1 hk).resolve_left hne)

/-- What is loaded is settled by what stands at the file. -/
theorem load_congr (h : d.entry (location home owner) = e.entry (location home owner)) :
    load home owner d = load home owner e := by
  unfold load isStored Disk.contains Disk.read
  rw [h]

theorem load_of_error {cause : DiskError} (h : d.entry (location home owner) = .error cause) :
    load home owner d = .ok empty := by
  simp [load, isStored_eq_false h]

/-- Texts that differ in their time only are loaded alike. -/
theorem agree_ofText (home : Home) (owner : OwnerId) (ht : t.Valid) (hu : u.Valid)
    (declared : DesiredSet) (view : List Relation) :
    Agree Eq EqButTime (ofText home owner (ofOwner owner t declared view).text)
      (ofText home owner (ofOwner owner u declared view).text) := by
  have hread := agree_read ht hu owner declared view
  unfold ofText
  generalize read (ofOwner owner t declared view).text = r at hread ⊢
  generalize read (ofOwner owner u declared view).text = r' at hread ⊢
  cases hread with
  | error hfault => exact .error (congrArg StateError.unreadable hfault)
  | ok h =>
    -- the owner is the same in both
    rw [← h]
    rename_i s s'
    obtain ⟨found, time, declared, view⟩ := s
    cases found with
    | none => exact .ok rfl
    | some found =>
      dsimp only
      split
      · exact .ok rfl
      · exact .error rfl

/-- Where the file of the owner is the same but for the time, so is what is loaded. -/
theorem agree_load {overlong : Prop}
    (h : Disk.Close overlong (SameFile owner) (d.entry (location home owner))
      (e.entry (location home owner))) :
    Agree Eq EqButTime (load home owner d) (load home owner e) := by
  generalize hx : d.entry (location home owner) = x at h
  generalize hy : e.entry (location home owner) = y at h
  cases h with
  | found hfile =>
    cases hfile with
    | same =>
      rw [load_congr (hx.trans hy.symm)]
      cases load home owner e with
      | error error => exact .error rfl
      | ok s => exact .ok (.refl _)
    | texts ht hu declared view =>
      rw [load_of_remembers hx, load_of_remembers hy]
      exact agree_ofText home owner ht hu declared view
  | same | left | right =>
    rw [load_of_error hx, load_of_error hy]
    exact .ok (.refl _)

/-- The same is loaded from both disks, but for the time. -/
theorem Twin.loaded (h : Twin home owner d e) :
    Agree Eq EqButTime (load home owner d) (load home owner e) := agree_load h.close

/-- A state that is saved on both disks, but for the time, is saved alike. -/
theorem Twin.saved (h : Twin home owner d e) (ht : t.Valid) (hu : u.Valid) (declared : DesiredSet)
    (view : List Relation) :
    ((save home owner (ofOwner owner t declared view)).run d).result =
        ((save home owner (ofOwner owner u declared view)).run e).result ∧
      Twin home owner ((save home owner (ofOwner owner t declared view)).run d).state
        ((save home owner (ofOwner owner u declared view)).run e).state := by
  have hresult :=
    result_save h.directories owner (ofOwner owner t declared view) (ofOwner owner u declared view)
  refine ⟨hresult, h.of_keeps (keeps_save ..) (keeps_save ..) ?_⟩
  -- either both files are written, with texts that differ in their times, or neither is
  cases hr : ((save home owner (ofOwner owner t declared view)).run d).result with
  | ok =>
    have hd := Disk.find?_of_entry (remembers_of_save (Action.yields_of_result hr))
    have he := Disk.find?_of_entry (remembers_of_save (Action.yields_of_result (hresult ▸ hr)))
    rw [hd, he]
    exact .some (.texts ht hu declared view)
  | error error =>
    rw [(untouched_save_of_error hr).entry, (untouched_save_of_error (hresult ▸ hr)).entry]
    exact h.file

/-- How removing may end on disks that agree: alike, unless a name is too long, which is refused
only where the directory above is there. -/
inductive SameRemoval (home : Home) (owner : OwnerId) :
    Except StateError Bool → Except StateError Bool → Prop
  | same (r : Except StateError Bool) : SameRemoval home owner r r
  | left (h : Overlong home owner) :
    SameRemoval home owner (.ok false) (.error (.inaccessible (path home owner) .nameTooLong))
  | right (h : Overlong home owner) :
    SameRemoval home owner (.error (.inaccessible (path home owner) .nameTooLong)) (.ok false)

/-- A file that is removed on both disks is removed alike. -/
theorem Twin.removed (h : Twin home owner d e) :
    SameRemoval home owner ((remove home owner).run d).result ((remove home owner).run e).result ∧
      Twin home owner ((remove home owner).run d).state ((remove home owner).run e).state := by
  have hkeeps := keeps_remove home owner d
  have hkeeps' := keeps_remove home owner e
  have hclose := h.close
  have hself : ∀ c : Disk, (c.erase (location home owner)).find? (location home owner) = none :=
    fun c => Disk.find?_erase_self (by simp [location]) c
  rw [run_remove] at hkeeps hkeeps' ⊢
  rw [run_remove]
  generalize d.entry (location home owner) = x at hkeeps hclose ⊢
  generalize e.entry (location home owner) = y at hkeeps' hclose ⊢
  cases hclose with
  | found hfile =>
    cases hfile with
    | same =>
      rename_i z
      cases z with
      | directory => exact ⟨.same _, h⟩
      | text | binary =>
        exact ⟨.same _, h.of_keeps hkeeps hkeeps' (by rw [hself, hself]; exact .none)⟩
    | texts => exact ⟨.same _, h.of_keeps hkeeps hkeeps' (by rw [hself, hself]; exact .none)⟩
  | same cause => cases cause <;> exact ⟨.same _, h⟩
  | left hlong => exact ⟨.left hlong, h⟩
  | right hlong => exact ⟨.right hlong, h⟩

end Roster.StoredState
