/-
What a home remembers.

Of an owner a home remembers a text (`Remembers`) or nothing (`Forgotten`).  Saving a state makes it
remember the state's text, or, when it fails, leaves things as they were; removing makes it forget.

* `load_of_forgotten`, `load_of_remembers`: what is loaded;
* `remembers_of_save`, `forgotten_of_save_error`, `remembers_of_save_error`: what saving does, and
  `exists_yields_save`: where one state can be saved, every state can;
* `forgets_of_remove`, `not_isStored_of_remove`: what removing does;
* `Untouched`: what stands as it did, `untouched_save_of_ne`, `untouched_remove_of_ne` for the files
  of other owners and `untouched_save_of_error`, `state_remove_of_error` where saving or removing
  fails.
-/
import Mathlib.Tactic.Common
import Roster.Proofs.Disk
import Roster.StoredState

namespace Roster.StoredState

variable {home : Home} {owner other : OwnerId} {d e : Disk} {content : String} {state : StoredState}

/-- The home holds a text as the file of the owner. -/
def Remembers (home : Home) (owner : OwnerId) (content : String) (d : Disk) : Prop :=
  d.entry (location home owner) = .ok (.text content)

/-- Nothing stands where the file of the owner would. -/
def Forgotten (home : Home) (owner : OwnerId) (d : Disk) : Prop :=
  d.find? (location home owner) = none

/-- What a file of the owner with the given text holds. -/
def ofText (home : Home) (owner : OwnerId) (content : String) : Except StateError StoredState :=
  match read content with
  | .error fault => .error (.unreadable fault)
  | .ok state =>
    match state.owner with
    | some found =>
      if found = owner then .ok state else .error (.ownerMismatch (path home owner) owner found)
    | none => .ok state

theorem isStored_of_entry {x : Entry} (h : d.entry (location home owner) = .ok x) :
    isStored home owner d = true := by
  rw [isStored, Disk.contains, h]
  rfl

theorem isStored_eq_false {cause : DiskError} (h : d.entry (location home owner) = .error cause) :
    isStored home owner d = false := by
  rw [isStored, Disk.contains, h]
  rfl

theorem not_isStored_of_forgotten (h : Forgotten home owner d) : isStored home owner d = false := by
  cases he : d.entry (location home owner) with
  | error => exact isStored_eq_false he
  | ok x =>
    have hf := Disk.find?_of_entry he
    rw [show d.find? (location home owner) = none from h] at hf
    cases hf

theorem load_of_forgotten (h : Forgotten home owner d) : load home owner d = .ok empty := by
  simp [load, not_isStored_of_forgotten h]

theorem load_of_remembers (h : Remembers home owner content d) :
    load home owner d = ofText home owner content := by
  have he : d.entry (location home owner) = .ok (.text content) := h
  have hc := isStored_of_entry he
  have hr : d.read (location home owner) = .ok content := by simp [Disk.read, he]
  unfold load
  rw [if_pos hc, hr]
  rfl

theorem ofText_of_read {s : StoredState} (h : read content = .ok s) (ho : s.owner = some owner) :
    ofText home owner content = .ok s := by
  simp [ofText, h, ho]

/-! ### The temporary file -/

theorem fileName_ne_temporaryName (owner : OwnerId) (stem : String) :
    fileName owner ≠ stem ++ ".json.tmp" := by
  intro h
  have hn : (fileName owner).toList.getLast? = some 'n' := by
    simp [fileName, String.toList_append]
  rw [h] at hn
  simp [String.toList_append] at hn

/-- The temporary file stands beside the files of owners, unless the file's name leaves none for it;
it then stands for the directory above. -/
theorem temporaryLocation_cases (home : Home) (owner : OwnerId) :
    temporaryLocation home owner = (directory home).dropLast ∨
      ∃ name, temporaryLocation home owner = directory home ++ [name] ∧
      ∀ other, name ≠ fileName other := by
  unfold temporaryLocation Path.temporary location
  simp only [List.getLast?_append, List.getLast?_singleton, Option.some_or, Option.getD_some,
    List.dropLast_concat]
  split
  · exact .inl rfl
  · rename_i h
    refine .inr ⟨_, rfl, ?_⟩
    unfold Path.temporaryName
    dsimp only
    rw [if_neg h]
    exact fun other => (fileName_ne_temporaryName other _).symm

/-- Once its directory is made, what stands on the way to the file of an owner is no temporary
one. -/
theorem ne_temporary_of_above {k : Location} (hd : d.entry (directory home) = .ok .directory)
    (hw : d.misplaced (temporaryLocation home owner) = none)
    (hk : k <+: location home other) : k ≠ temporaryLocation home owner := by
  rintro rfl
  rcases temporaryLocation_cases home owner with ht | ⟨name, ht, hne⟩
  · -- no file can stand in the place of a directory
    rw [ht] at hw
    have hdir : d.entry (directory home).dropLast = .ok .directory := by
      have hne : directory home ≠ [] := by simp [directory, directoryNames]
      have hsplit := List.dropLast_append_getLast hne
      rw [← hsplit] at hd
      exact (Disk.of_entry_concat hd).1
    rw [Disk.misplaced, hdir] at hw
    cases hw
  · rw [ht, location] at hk
    have he := hk.eq_of_length (by simp)
    exact hne other (by simpa using he)

/-! ### Saving and removing -/

/-- What saving that ends well goes through: the directory is made, and the file is replaced. -/
theorem of_save (h : (save home owner state).Yields d () e) :
    ∃ made, (Disk.makeDirectories (directory home)).Yields d () made ∧
      (Disk.replace (temporaryLocation home owner) (location home owner) state.text).Yields
        made () e := by
  obtain ⟨hr, hs⟩ := h
  unfold Action.run save at hr hs
  dsimp only at hr hs
  cases hm : (Disk.makeDirectories (directory home) d).result with
  | error =>
    rw [hm] at hr
    cases hr
  | ok =>
    rw [hm] at hr hs
    dsimp only at hr hs
    -- saving maps the errors of the replacement and nothing else
    refine ⟨_, ⟨hm, rfl⟩, ?_, hs⟩
    unfold Action.run
    cases ho : (Disk.replace (temporaryLocation home owner) (location home owner) state.text
        (Disk.makeDirectories (directory home) d).state).result with
    | error =>
      rw [ho] at hr
      cases hr
    | ok => rfl

/-- Saving ends well if its directory can be made and the file can be replaced. -/
theorem yields_save {made : Disk} (hm : (Disk.makeDirectories (directory home)).Yields d () made)
    (hr : (Disk.replace (temporaryLocation home owner)
      (location home owner) state.text).Yields made () e) :
    (save home owner state).Yields d () e := by
  obtain ⟨hmade, rfl⟩ := hm
  obtain ⟨hreplaced, hstate⟩ := hr
  unfold Action.run at hmade hreplaced hstate
  simp only [Action.Yields, Action.run, save, hmade, hreplaced, hstate,
    Action.mapError_ok, and_self]

/-- Whether a state can be saved does not depend on the state. -/
theorem exists_yields_save (h : (save home owner state).Yields d () e) (other : StoredState) :
    ∃ e', (save home owner other).Yields d () e' := by
  obtain ⟨made, hm, hr⟩ := of_save h
  obtain ⟨e', hr'⟩ := Disk.exists_yields_replace hr other.text
  exact ⟨e', yields_save hm hr'⟩

/-- A state that was saved is what the home remembers. -/
theorem remembers_of_save (h : (save home owner state).Yields d () e) :
    Remembers home owner state.text e := by
  obtain ⟨made, -, hreplace⟩ := of_save h
  exact Disk.entry_of_replace hreplace

/-- Saving that fails changes nothing at the files of owners, and above them makes directories at
most. -/
theorem find?_save_of_error {error : StateError} {k : Location}
    (h : ((save home owner state).run d).result = .error error) (hk : k <+: location home other) :
    ((save home owner state).run d).state.find? k =
      (Disk.makeDirectories (directory home) d).state.find? k := by
  unfold Action.run save at h ⊢
  dsimp only at h ⊢
  -- saving may fail before the file is touched, or while it is replaced
  cases hm : (Disk.makeDirectories (directory home) d).result with
  | error => rfl
  | ok =>
    rw [hm] at h
    dsimp only at h ⊢
    cases ho : (Disk.replace (temporaryLocation home owner) (location home owner) state.text
        (Disk.makeDirectories (directory home) d).state).result with
    | ok =>
      rw [ho] at h
      cases h
    | error =>
      refine Disk.find?_replace_of_error ho fun hw => ne_temporary_of_above ?_ hw hk
      exact Disk.entry_of_makeDirectories (Action.yields_of_result hm)

/-- How removing ends: a file is removed, or nothing stands there, or the disk refuses and stays as
it is. -/
theorem remove_cases (home : Home) (owner : OwnerId) (d : Disk) :
    (∃ x, d.entry (location home owner) = .ok x ∧
      (remove home owner).run d = ⟨.ok true, d.erase (location home owner), []⟩) ∨
    (d.entry (location home owner) = .error .notFound ∧
      (remove home owner).run d = ⟨.ok false, d, []⟩) ∨
    ∃ cause, (remove home owner).run d = ⟨.error (.inaccessible (path home owner) cause), d, []⟩ ∧
      (d.entry (location home owner) = .error cause ∧ cause ≠ .notFound ∨
        d.entry (location home owner) = .ok .directory) := by
  unfold Action.run remove Disk.remove
  -- nothing to remove is no failure; a directory in place of the file is one
  cases he : d.entry (location home owner) with
  | ok x =>
    cases x with
    | directory => exact .inr (.inr ⟨.isDirectory, rfl, .inr rfl⟩)
    | text | binary => exact .inl ⟨_, rfl, rfl⟩
  | error cause =>
    cases cause with
    | notFound => exact .inr (.inl ⟨rfl, rfl⟩)
    | notDirectory | isDirectory | nameTooLong | notText | notPermitted | noRoom =>
      exact .inr (.inr ⟨_, rfl, .inl ⟨rfl, nofun⟩⟩)

/-- Removing what is remembered ends well and leaves nothing. -/
theorem forgets_of_remove (hr : Remembers home owner content d) :
    (remove home owner).Yields d true (d.erase (location home owner)) ∧
      Forgotten home owner (d.erase (location home owner)) := by
  have he : d.entry (location home owner) = .ok (.text content) := hr
  refine ⟨?_, Disk.find?_erase_self (by simp [location]) d⟩
  simp [Action.Yields, Action.run, remove, Disk.remove, he]

/-- After removing that ends well nothing is stored, whether or not anything was. -/
theorem not_isStored_of_remove {removed : Bool} (h : (remove home owner).Yields d removed e) :
    isStored home owner e = false := by
  obtain ⟨hr, hs⟩ := h
  rcases remove_cases home owner d with ⟨x, -, hc⟩ | ⟨he, hc⟩ | ⟨cause, hc, -⟩
  · rw [hc] at hs
    subst hs
    exact not_isStored_of_forgotten (Disk.find?_erase_self (by simp [location]) d)
  · rw [hc] at hs
    subst hs
    exact isStored_eq_false he
  · rw [hc] at hr
    cases hr

/-! ### What stands as it did -/

/-- The file of the owner stands as it did: its entry is the same, and if it could be reached it
still can. -/
structure Untouched (home : Home) (owner : OwnerId) (d e : Disk) : Prop where
  entry : e.find? (location home owner) = d.find? (location home owner)
  reached : ∀ x, d.entry (location home owner) = .ok x → e.entry (location home owner) = .ok x

theorem Untouched.refl (home : Home) (owner : OwnerId) (d : Disk) : Untouched home owner d d :=
  ⟨rfl, fun _ h => h⟩

theorem location_ne (h : other ≠ owner) (home : Home) :
    location home other ≠ location home owner := by
  intro he
  have hname : fileName other = fileName owner := by simpa [location] using he
  obtain ⟨o⟩ := other
  obtain ⟨p⟩ := owner
  exact h (congrArg OwnerId.mk (Text.Percent.utf8_injective (fileName_injective hname)))

/-- What stands on the way to the file of another owner is not the file of this one. -/
theorem ne_location_of_above {k : Location} (h : other ≠ owner) (hk : k <+: location home other) :
    k ≠ location home owner := by
  rintro rfl
  exact location_ne h home (hk.eq_of_length (by simp [location])).symm

/-- Making the directory and nothing else on the way to a file leaves it as it stood. -/
theorem untouched_of_made (h : ∀ k, k <+: location home owner →
    e.find? k = (Disk.makeDirectories (directory home) d).state.find? k) : Untouched home
      owner d e where
  entry := by
    rw [h _ List.prefix_rfl]
    rcases Disk.find?_makeDirectories d (directory home)
        (location home owner) with hs | ⟨-, -, hp, -⟩
    · exact hs
    · exact absurd rfl (Disk.ne_concat_of_above hp)
  reached _ hx := Disk.entry_of_find? (Disk.entry_makeDirectories (directory home) hx) h

/-- Saving leaves the files of other owners as they stood. -/
theorem untouched_save_of_ne (h : (save home owner state).Yields d () e) (hne : other ≠ owner) :
    Untouched home other d e := by
  obtain ⟨made, hmade, hreplace⟩ := of_save h
  obtain ⟨hw, -, rfl⟩ := Disk.yields_replace_iff.1 hreplace
  refine untouched_of_made fun k hk => ?_
  have htemporary : k ≠ temporaryLocation home owner :=
    ne_temporary_of_above (Disk.entry_of_makeDirectories hmade)
      (Disk.refusesWrite_eq_none_iff.1 hw).1 hk
  rw [Disk.find?_put_of_ne (ne_location_of_above hne hk), Disk.find?_erase_of_ne htemporary,
    Disk.find?_put_of_ne htemporary, ← hmade.state]
  rfl

/-- Saving that fails leaves the files of all owners as they stood. -/
theorem untouched_save_of_error {error : StateError}
    (h : ((save home owner state).run d).result = .error error) :
    Untouched home other d ((save home owner state).run d).state :=
  untouched_of_made fun _ hk => find?_save_of_error h hk

theorem forgotten_of_save_error {error : StateError} (hf : Forgotten home owner d)
    (h : ((save home owner state).run d).result = .error error) :
    Forgotten home owner ((save home owner state).run d).state :=
  (untouched_save_of_error h).entry.trans hf

theorem remembers_of_save_error {error : StateError} (hr : Remembers home owner content d)
    (h : ((save home owner state).run d).result = .error error) :
    Remembers home owner content ((save home owner state).run d).state :=
  (untouched_save_of_error h).reached _ hr

theorem untouched_remove_of_ne (hne : other ≠ owner) (d : Disk) :
    Untouched home other d ((remove home owner).run d).state := by
  have hfind : ∀ k, k <+: location home other →
      ((remove home owner).run d).state.find? k = d.find? k := by
    intro k hk
    rcases remove_cases home owner d with ⟨x, -, hc⟩ | ⟨-, hc⟩ | ⟨cause, hc, -⟩
    · rw [hc]
      exact Disk.find?_erase_of_ne (ne_location_of_above hne hk) d
    · rw [hc]
    · rw [hc]
  exact ⟨hfind _ List.prefix_rfl, fun x hx => Disk.entry_of_find? hx hfind⟩

/-- Removing that fails changes nothing. -/
theorem state_remove_of_error {error : StateError}
    (h : ((remove home owner).run d).result = .error error) :
    ((remove home owner).run d).state = d := by
  rcases remove_cases home owner d with ⟨x, -, hc⟩ | ⟨-, hc⟩ | ⟨cause, hc, -⟩
  · rw [hc] at h
    cases h
  · rw [hc]
  · rw [hc]

end Roster.StoredState
