/-
A file that is none of a home's.

A home looks at the files of its owners and at the directories above them.  Somebody else's file may
be written anywhere else, by way of its temporary file, and what is done for an owner goes on as if
it were not.  It may even take the place of the temporary file of an owner, which stands there for a
moment only, and on the way to the directory of the home it may stand if it is there on both disks:
nothing can be saved then on either.

* `SameAt`, `Aside`: disks that agree, aside from such a file and from the times of states;
* `Aside.close`: what they answer for the file of an owner;
* `alike_save_aside`, `alike_remove_aside`, `hides_aside`: what is done for an owner on both;
* `entry_remove`, `Aside.of_replace`: the file stays, and is written on one of them.
-/
import Roster.Proofs.SharedHome
import Roster.Proofs.Simulation

namespace Roster.StoredState

open Roster.Action (Agree Alike)

variable {home : Home} {owner : OwnerId} {l k above : Location} {d e : Disk} {x y : Option Entry}
  {content other : String} {names : List String} {t u : Timestamp}

/-- Where a file stands, or its temporary file; of the files of owners it may be that file, but none
else. -/
structure Foreign (home : Home) (l k : Location) : Prop where
  place : k = l ∨ k = Path.temporary l
  free : ∀ owner, k = location home owner → k = l

/-- What may stand somewhere on two disks: the same, or files of an owner that differ in their time,
or, where the foreign file and its temporary file go, anything but directories, which on the way to
the directory of the home either stands on both or on neither. -/
inductive SameAt (home : Home) (l k : Location) : Option Entry → Option Entry → Prop
  | same (x : Option Entry) : SameAt home l k x x
  | state {owner : OwnerId} (hk : k = location home owner) {x y : Entry} (h : SameFile owner x y) :
    SameAt home l k (some x) (some y)
  | foreign (hk : Foreign home l k) {x y : Option Entry} (hx : x ≠ some .directory)
      (hy : y ≠ some .directory)
    (way : k <+: directory home → x.isSome = y.isSome) : SameAt home l k x y

theorem SameAt.directory_iff (h : SameAt home l k x y) :
    x = some .directory ↔ y = some .directory := by
  cases h with
  | same => rfl
  | state _ h =>
    cases h with
    | same => rfl
    | texts => exact iff_of_false nofun nofun
  | foreign _ hx hy => exact iff_of_false hx hy

/-- On the way to the directory of the home both are directories, or files, or missing. -/
theorem SameAt.shape (h : SameAt home l k x y) (hk : k <+: directory home) :
    x.map Disk.isDirectoryEntry = y.map Disk.isDirectoryEntry := by
  have hfile : ∀ z : Entry, some z ≠ some .directory → Disk.isDirectoryEntry z = false := by
    intro z hz
    cases z with
    | directory => exact absurd rfl hz
    | text | binary => rfl
  cases h with
  | same => rfl
  | state _ h =>
    cases h with
    | same => rfl
    | texts => simp only [Option.map_some, Disk.isDirectoryEntry]
  | foreign _ hx hy way =>
    -- on the way to the directory the foreign file stands on both disks or on neither
    have hboth := way hk
    cases x with
    | none =>
      cases y with
      | none => rfl
      | some b => cases hboth
    | some a =>
      cases y with
      | none => cases hboth
      | some b => exact congrArg some ((hfile a hx).trans (hfile b hy).symm)

/-- At the file of an owner the disks agree, but for the time. -/
theorem SameAt.file (h : SameAt home l (location home owner) x y) (hl : location home owner ≠ l) :
    Option.Rel (SameFile owner) x y := by
  cases h with
  | same =>
    cases x with
    | none => exact .none
    | some z => exact .some (.same z)
  | @state found hk _ _ h =>
    obtain rfl : owner = found := by
      by_contra hne
      exact location_ne hne home hk
    exact .some h
  | foreign hk => exact absurd (hk.free owner rfl) hl

/-- The disks deny the same and agree, aside from a foreign file and from the times of states. -/
structure Aside (home : Home) (l : Location) (d e : Disk) : Prop where
  denies : d.denies = e.denies
  entries : ∀ k, SameAt home l k (d.find? k) (e.find? k)

theorem Aside.refl (home : Home) (l : Location) (d : Disk) : Aside home l d d :=
  ⟨rfl, fun _ => .same _⟩

theorem Aside.put (h : Aside home l d e) {a b : Entry} (hab : SameAt home l k (some a) (some b)) :
    Aside home l (d.put k a) (e.put k b) := by
  refine ⟨h.denies, fun j => ?_⟩
  by_cases hj : j = k
  · subst hj
    by_cases hnil : j = []
    · subst hnil
      exact .same _
    · rwa [Disk.find?_put_self hnil, Disk.find?_put_self hnil]
  · rw [Disk.find?_put_of_ne hj, Disk.find?_put_of_ne hj]
    exact h.entries j

theorem Aside.erase (h : Aside home l d e) (k : Location) :
    Aside home l (d.erase k) (e.erase k) := by
  refine ⟨h.denies, fun j => ?_⟩
  by_cases hj : j = k
  · subst hj
    by_cases hnil : j = []
    · subst hnil
      exact .same _
    · rw [Disk.find?_erase_self hnil, Disk.find?_erase_self hnil]
      exact .same _
  · rw [Disk.find?_erase_of_ne hj, Disk.find?_erase_of_ne hj]
    exact h.entries j

/-! ### The file of an owner -/

theorem Aside.entry_directory (h : Aside home l d e) :
    (d.entry (directory home)).map Disk.isDirectoryEntry =
      (e.entry (directory home)).map Disk.isDirectoryEntry :=
  Disk.entry_shape fun k hk => (h.entries k).shape hk

/-- Both disks hold the file of the owner, but for its time, or lack it for the same reason. -/
theorem Aside.close (h : Aside home l d e) (hl : location home owner ≠ l) :
    Disk.Close False (SameFile owner) (d.entry (location home owner))
      (e.entry (location home owner)) := by
  have hdirectory := h.entry_directory
  have hfile := (h.entries (location home owner)).file hl
  rw [location, Disk.entry_concat, Disk.entry_concat]
  -- the directory of the home is the same on both; below it the file decides
  cases hd : d.entry (directory home) with
  | error cause =>
    cases he : e.entry (directory home) with
    | error cause' =>
      rw [hd, he] at hdirectory
      obtain rfl : cause = cause' := Except.error.inj hdirectory
      exact .same cause
    | ok y =>
      rw [hd, he] at hdirectory
      cases hdirectory
  | ok x =>
    cases he : e.entry (directory home) with
    | error cause =>
      rw [hd, he] at hdirectory
      cases hdirectory
    | ok y =>
      rw [hd, he] at hdirectory
      have hxy : Disk.isDirectoryEntry x = Disk.isDirectoryEntry y := Except.ok.inj hdirectory
      cases x with
      | directory =>
        cases y with
        | directory =>
          by_cases hn : Disk.isName (fileName owner) = true
          · simp only [Disk.below, if_pos hn]
            unfold location at hfile
            generalize d.find? (directory home ++ [fileName owner]) = a at hfile ⊢
            generalize e.find? (directory home ++ [fileName owner]) = b at hfile ⊢
            cases hfile with
            | none => exact .same _
            | some h => exact .found h
          · simp only [Disk.below, if_neg hn]
            exact .same _
        | text | binary => cases hxy
      | text | binary =>
        cases y with
        | directory => cases hxy
        | text | binary => exact .same _

/-- An owner whose file it is not is forgotten alike. -/
theorem alike_remove_aside (hl : location home owner ≠ l) :
    Alike (Aside home l) (remove home owner) (remove home owner) := by
  intro d e h
  have hclose := h.close hl
  have herased := h.erase (location home owner)
  rw [run_remove, run_remove]
  generalize d.entry (location home owner) = x at hclose ⊢
  generalize e.entry (location home owner) = y at hclose ⊢
  cases hclose with
  | found hfile =>
    cases hfile with
    | same =>
      rename_i z
      cases z with
      | directory => exact ⟨rfl, h, rfl⟩
      | text | binary => exact ⟨rfl, herased, rfl⟩
    | texts => exact ⟨rfl, herased, rfl⟩
  | same cause => cases cause <;> exact ⟨rfl, h, rfl⟩
  | left hlong | right hlong => exact hlong.elim

/-! ### Saving -/

theorem Aside.makeBelow (h : Aside home l d e) (hway : above ++ names <+: directory home) :
    (Disk.makeBelow above names d).result = (Disk.makeBelow above names e).result ∧
      Aside home l (Disk.makeBelow above names d).state (Disk.makeBelow above names e).state := by
  -- what stands on the way has the same shape on both, so each name goes the same way
  induction names generalizing d e above with
  | nil => exact ⟨rfl, h⟩
  | cons name names ih =>
    rw [Disk.append_cons_eq] at hway
    have hhere := (h.entries (above ++ [name])).shape ((List.prefix_append _ _).trans hway)
    rw [Disk.makeBelow]
    by_cases hn : Disk.isName name = true
    · simp only [hn, Bool.not_true, Bool.false_eq_true, if_false]
      cases hx : d.find? (above ++ [name]) with
      | none =>
        rw [hx] at hhere
        rw [Option.map_eq_none_iff.1 hhere.symm, ← h.denies]
        cases d.denies (above ++ [name]) with
        | some error => exact ⟨rfl, h⟩
        | none => exact ih (h.put (.same _)) hway
      | some x =>
        rw [hx] at hhere
        obtain ⟨y, hy, hxy⟩ := Option.map_eq_some_iff.1 hhere.symm
        rw [hy]
        cases x with
        | directory =>
          cases y with
          | directory => exact ih h hway
          | text | binary => cases hxy
        | text | binary =>
          cases y with
          | directory => cases hxy
          | text | binary => exact ⟨rfl, h⟩
    · simp only [hn, Bool.not_false, if_true, true_and]
      exact h

/-- Where both directories are there, nothing on the way to them differs. -/
theorem Aside.sameDirectories (h : Aside home l d e)
    (hd : d.entry (directory home) = .ok .directory)
    (he : e.entry (directory home) = .ok .directory) : SameDirectories home d e where
  denies := h.denies
  above := by
    intro k hk
    refine .of_eq ?_
    by_cases hsame : k = directory home
    · rw [hsame, Disk.find?_of_entry hd, Disk.find?_of_entry he]
    · rw [Disk.find?_above_of_entry hd hk hsame, Disk.find?_above_of_entry he hk hsame]
  inside name := (h.entries (directory home ++ [name])).directory_iff

theorem Aside.spoiled (h : Aside home l d e) (k : Location) (error : DiskError) :
    Aside home l (d.spoiled k error) (e.spoiled k error) := by
  cases error with
  | noRoom => exact h.put (.same _)
  | notFound | notDirectory | isDirectory | nameTooLong | notText | notPermitted => exact h

/-- The file of an owner is replaced alike. -/
theorem Aside.replace (h : Aside home l d e) (hd : d.entry (directory home) = .ok .directory)
    (he : e.entry (directory home) = .ok .directory)
    (hc : SameFile owner (.text content) (.text other)) :
    ((Disk.replace (temporaryLocation home owner) (location home owner) content).run d).result =
        ((Disk.replace (temporaryLocation home owner) (location home owner) other).run e).result ∧
      Aside home l
        ((Disk.replace (temporaryLocation home owner) (location home owner) content).run d).state
        ((Disk.replace (temporaryLocation home owner) (location home owner) other).run
          e).state := by
  have hsame := h.sameDirectories hd he
  refine ⟨hsame.result_replace hd he owner content other, ?_⟩
  rw [Disk.run_replace, Disk.run_replace]
  rcases temporaryLocation_cases home owner with ht | ⟨name, ht, -⟩
  · have hne : directory home ≠ [] := by simp [directory, directoryNames]
    rw [ht, Disk.misplaced_dropLast hne hd, Disk.misplaced_dropLast hne he]
    exact h
  · rw [ht, ← hsame.misplaced hd he name, ← h.denies]
    cases hw : d.misplaced (directory home ++ [name]) with
    | some error => exact h
    | none =>
      cases d.denies (directory home ++ [name]) with
      | some error => exact h.spoiled _ error
      | none =>
        dsimp only
        rw [hsame.refusesWrite_put hd he hw owner content other]
        -- the temporary files differ, but neither of them stays
        have herased : Aside home l
            ((d.put (directory home ++ [name]) (.text content)).erase (directory home ++ [name]))
            ((e.put (directory home ++ [name]) (.text other)).erase
              (directory home ++ [name])) := by
          refine ⟨h.denies, fun k => ?_⟩
          by_cases hk : k = directory home ++ [name]
          · subst hk
            rw [Disk.find?_erase_self (by simp), Disk.find?_erase_self (by simp)]
            exact .same _
          · rw [Disk.find?_erase_of_ne hk, Disk.find?_erase_of_ne hk, Disk.find?_put_of_ne hk,
              Disk.find?_put_of_ne hk]
            exact h.entries k
        cases (e.put (directory home ++ [name]) (.text other)).refusesWrite
            (location home owner) with
        | some error => exact herased
        | none => exact herased.put (.state rfl hc)

/-- States that differ in their time are saved alike. -/
theorem alike_save_aside (home : Home) (l : Location) (owner : OwnerId) (ht : t.Valid)
    (hu : u.Valid) (declared : DesiredSet) (view : List Relation) :
    Alike (Aside home l) (save home owner (ofOwner owner t declared view))
      (save home owner (ofOwner owner u declared view)) := by
  intro d e h
  obtain ⟨hresult, hmade⟩ : (Disk.makeDirectories (directory home) d).result =
      (Disk.makeDirectories (directory home) e).result ∧
        Aside home l (Disk.makeDirectories (directory home) d).state
          (Disk.makeDirectories (directory home) e).state := h.makeBelow List.prefix_rfl
  unfold Action.run save
  dsimp only
  -- the texts differ in their times only, which replacing the file does not look at
  cases hm : (Disk.makeDirectories (directory home) d).result with
  | error cause =>
    rw [hm] at hresult
    rw [← hresult]
    exact ⟨rfl, hmade, rfl⟩
  | ok =>
    rw [hm] at hresult
    have hd := Disk.entry_of_makeDirectories (Action.yields_of_result hm)
    have he := Disk.entry_of_makeDirectories (Action.yields_of_result hresult.symm)
    obtain ⟨hreplaced, hstate⟩ := hmade.replace hd he (.texts ht hu declared view)
    unfold Action.run at hreplaced hstate
    rw [← hresult]
    dsimp only
    rw [hreplaced]
    exact ⟨rfl, hstate, rfl⟩

/-- All that is done for an owner goes on alike. -/
theorem hides_aside (hl : location home owner ≠ l) (ht : t.Valid) (hu : u.Valid) :
    Hides (Aside home l) home owner t u where
  load _ _ h := agree_load (h.close hl)
  save := alike_save_aside home l owner ht hu
  remove := alike_remove_aside hl

/-! ### The foreign file -/

/-- Forgetting an owner whose file it is not leaves the foreign file reached. -/
theorem entry_remove {z : Entry} (hl : location home owner ≠ l) (h : d.entry l = .ok z) :
    ((remove home owner).run d).state.entry l = .ok z := by
  rw [run_remove]
  cases hy : d.entry (location home owner) with
  | error cause => cases cause <;> exact h
  | ok y =>
    cases y with
    | directory => exact h
    | text | binary =>
      refine Disk.entry_of_find? h fun k hk => Disk.find?_erase_of_ne ?_ d
      -- above the foreign file there are directories
      rintro rfl
      have habove := Disk.find?_above_of_entry h hk hl
      rw [Disk.find?_of_entry hy] at habove
      cases habove

/-- A temporary file would be named as the file of an owner only where it stands for a directory. -/
theorem temporary_of_location (h : Path.temporary l = location home owner) :
    Path.temporary l = l.dropLast.dropLast := by
  unfold Path.temporary at h ⊢
  dsimp only at h ⊢
  split
  · rfl
  · rename_i hstem
    rw [if_neg hstem, location] at h
    have hname : Path.temporaryName (l.getLast?.getD "") = fileName owner := by
      simpa using (List.append_inj' h rfl).2
    unfold Path.temporaryName at hname
    dsimp only at hname
    rw [if_neg hstem] at hname
    exact absurd hname.symm (fileName_ne_temporaryName owner _)

/-- The disks stay in agreement when the foreign file is written on one of them, provided that on
the other nothing stands, or the file itself does, where it would be on the way to the directory of
the home. -/
theorem Aside.of_replace {d' : Disk} (h : Aside home l d e)
    (hd : (Disk.replace (Path.temporary l) l content).Yields d () d')
    (free : ∀ owner, Path.temporary l = location home owner → Path.temporary l = l)
    (file : l <+: directory home → (e.find? l).isSome = true)
    (temporary : Path.temporary l <+: directory home →
      e.find? (Path.temporary l) ≠ some .directory →
      e.find? (Path.temporary l) = none) : Aside home l d' e := by
  obtain ⟨hw, hl, rfl⟩ := Disk.yields_replace_iff.1 hd
  obtain ⟨hw, -⟩ := Disk.refusesWrite_eq_none_iff.1 hw
  obtain ⟨hl, -⟩ := Disk.refusesWrite_eq_none_iff.1 hl
  have htemporary : e.find? (Path.temporary l) ≠ some .directory := fun hdir =>
    Disk.ne_directory_of_misplaced hw ((h.entries _).directory_iff.2 hdir)
  refine ⟨h.denies, fun k => ?_⟩
  -- two locations are touched: the file and its temporary one
  by_cases hk : k = l
  · subst hk
    rw [Disk.find?_put_self (Disk.ne_nil_of_misplaced hl)]
    refine .foreign ⟨.inl rfl, fun _ _ => rfl⟩ nofun (fun hdir => ?_) fun hway => (file hway).symm
    by_cases ht : k = Path.temporary k
    · rw [← ht] at htemporary
      exact htemporary hdir
    · have hfile := Disk.ne_directory_of_misplaced hl
      rw [Disk.find?_put_of_ne ht] at hfile
      exact hfile ((h.entries k).directory_iff.2 hdir)
  · rw [Disk.find?_put_of_ne hk]
    by_cases ht : k = Path.temporary l
    · subst ht
      rw [Disk.find?_erase_self (Disk.ne_nil_of_misplaced hw)]
      refine .foreign ⟨.inr rfl, free⟩ nofun htemporary fun hway => ?_
      rw [temporary hway htemporary]
    · rw [Disk.find?_erase_of_ne ht, Disk.find?_put_of_ne ht]
      exact h.entries k

end Roster.StoredState
