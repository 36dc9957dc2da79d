/-
What stands at a location, and what replacing a file does to it.

Following names from the root meets directories only, until the last name.  What stands at a
location is therefore settled by the entries at that location and above it (`entry_congr`), and
below a directory by one lookup (`entry_concat`).

* `find?_of_entry`, `find?_above_of_entry`: the entries that a location is reached by;
* `find?_makeDirectories`: making directories only puts directories where nothing was;
* `run_replace`, `yields_replace_iff`: what replacing a file comes to, and when it ends well;
* `entry_of_replace`: a file that was replaced holds the new text;
* `find?_replace_of_error`: a replacement that fails leaves every other location alone;
* `exists_yields_replace`: whether a file can be replaced does not depend on the text.
-/
import Mathlib.Data.List.Infix
import Roster.Proofs.Action
import Roster.Disk

namespace Roster.Disk

variable {d e : Disk} {l k above : Location} {name : String} {x : Entry}

theorem ne_concat_of_above (h : k <+: l) : k ≠ l ++ [name] := by
  rintro rfl
  have := h.length_le
  rw [List.length_append, List.length_singleton] at this
  omega

theorem reach_congr {names : List String}
    (h : ∀ done rest, names = done ++ rest → d.find? (above ++ done) = e.find? (above ++ done)) :
    d.reach above names = e.reach above names := by
  induction names generalizing above with
  | nil =>
    have h0 : d.find? above = e.find? above := by simpa using h [] [] rfl
    rw [reach, reach, h0]
  | cons name names ih =>
    have h0 : d.find? above = e.find? above := by simpa using h [] _ rfl
    have ih' : d.reach (above ++ [name]) names = e.reach (above ++ [name]) names :=
      ih fun done rest hn => by
        have := h (name :: done) rest (by rw [hn]; rfl)
        simpa using this
    rw [reach, reach, h0, ih']

/-- What stands at a location depends on the entries there and above. -/
theorem entry_congr (h : ∀ k, k <+: l → d.find? k = e.find? k) : d.entry l = e.entry l :=
  reach_congr fun done rest hn => by
    rw [List.nil_append]
    exact h done ⟨rest, hn.symm⟩

/-- What stands under a name, given what stands above it. -/
def below (d : Disk) (l : Location) (name : String) :
    Except DiskError Entry → Except DiskError Entry
  | .ok .directory =>
    if isName name then
      match d.find? (l ++ [name]) with
      | some x => .ok x
      | none => .error .notFound
    else .error .nameTooLong
  | .ok _ => .error .notDirectory
  | .error error => .error error

theorem reach_concat {names : List String} :
    d.reach above (names ++ [name]) = d.below (above ++ names) name (d.reach above names) := by
  -- the last name is looked up where all names before it lead
  induction names generalizing above with
  | nil =>
    simp only [List.nil_append, List.append_nil, reach]
    cases d.find? above with
    | none => rfl
    | some x => cases x <;> rfl
  | cons first names ih =>
    have hcons : above ++ first :: names = above ++ [first] ++ names := by simp
    rw [List.cons_append, reach, reach, ih, hcons]
    cases d.find? above with
    | none => rfl
    | some x =>
      cases x with
      | directory =>
        by_cases hf : isName first = true
        · simp only [if_pos hf]
        · simp only [if_neg hf, below]
      | text | binary => rfl

/-- What stands below a location is settled by what stands there and one lookup. -/
theorem entry_concat (d : Disk) (l : Location) (name : String) :
    d.entry (l ++ [name]) = d.below l name (d.entry l) := by
  rw [entry, entry, reach_concat, List.nil_append]

theorem entry_concat_of_directory (h : d.entry l = .ok .directory) (hn : isName name = true)
    (hf : d.find? (l ++ [name]) = some x) : d.entry (l ++ [name]) = .ok x := by
  simp only [entry_concat, h, below, hn, if_true, hf]

/-- Something stands at a location only in a directory and under a name that may stand there. -/
theorem of_entry_concat (h : d.entry (l ++ [name]) = .ok x) :
    d.entry l = .ok .directory ∧ isName name = true ∧ d.find? (l ++ [name]) = some x := by
  rw [entry_concat] at h
  cases hl : d.entry l with
  | error => rw [hl] at h; cases h
  | ok y =>
    rw [hl] at h
    -- a name leads on from a directory only
    cases y with
    | directory =>
      by_cases hn : isName name = true
      · simp only [below, if_pos hn] at h
        cases hf : d.find? (l ++ [name]) with
        | none => rw [hf] at h; cases h
        | some z =>
          rw [hf] at h
          cases h
          exact ⟨rfl, hn, rfl⟩
      · simp only [below, if_neg hn] at h
        cases h
    | text | binary => cases h

theorem find?_of_entry (h : d.entry l = .ok x) : d.find? l = some x := by
  rcases List.eq_nil_or_concat l with rfl | ⟨above, name, rfl⟩
  · have h0 : d.find? [] = some .directory := rfl
    rw [entry, reach, h0] at h
    exact h0.trans (congrArg some (Except.ok.inj h))
  · rw [List.concat_eq_append] at h ⊢
    exact (of_entry_concat h).2.2

/-- Above what stands at a location there are directories. -/
theorem find?_above_of_entry (h : d.entry l = .ok x) (hk : k <+: l) (hne : k ≠ l) :
    d.find? k = some .directory := by
  obtain ⟨rest, rfl⟩ := hk
  -- from the location upwards, one name at a time
  induction rest using List.reverseRecOn generalizing x with
  | nil => exact absurd (List.append_nil k).symm hne
  | append_singleton rest name ih =>
    rw [← List.append_assoc] at h
    have ha := (of_entry_concat h).1
    by_cases hr : rest = []
    · subst hr
      rw [List.append_nil] at ha
      exact find?_of_entry ha
    · exact ih ha (by simpa using hr)

/-- What stands at a location stays there when nothing at it or above it is changed. -/
theorem entry_of_find? (h : d.entry l = .ok x) (hk : ∀ k, k <+: l → e.find? k = d.find? k) :
    e.entry l = .ok x := (entry_congr hk).trans h

/-! ### Making directories -/

theorem find?_makeBelow (d : Disk) (above : Location) (names : List String) (k : Location) :
    (makeBelow above names d).state.find? k = d.find? k ∨
      (d.find? k = none ∧ (makeBelow above names d).state.find? k = some .directory ∧
        k <+: above ++ names ∧ d.denies k = none) := by
  induction names generalizing d above with
  | nil => exact .inl rfl
  | cons name names ih =>
    have hcons : above ++ name :: names = above ++ [name] ++ names := by simp
    rw [makeBelow, hcons]
    split
    · exact .inl rfl
    · dsimp only
      split
      · exact ih d (above ++ [name])
      · exact .inl rfl
      · rename_i hnone
        split
        · exact .inl rfl
        · rename_i hdenies
          -- a directory is put here, and the rest is made below it
          have hne : above ++ [name] ≠ [] := by simp
          by_cases hk : k = above ++ [name]
          · subst hk
            refine .inr ⟨hnone, ?_, List.prefix_append _ _, hdenies⟩
            rcases ih (d.put (above ++ [name]) .directory) (above ++ [name]) with h | ⟨h, -⟩
            · rw [h, find?_put_self hne]
            · rw [find?_put_self hne] at h
              cases h
          · have := ih (d.put (above ++ [name]) .directory) (above ++ [name])
            rwa [find?_put_of_ne hk, denies_put] at this

@[simp] theorem denies_makeBelow (d : Disk) (above : Location) (names : List String) :
    (makeBelow above names d).state.denies = d.denies := by
  induction names generalizing d above with
  | nil => rfl
  | cons name names ih =>
    rw [makeBelow]
    split
    · rfl
    · dsimp only
      split
      · exact ih d _
      · rfl
      · split
        · rfl
        · exact ih _ _

@[simp] theorem denies_makeDirectories (d : Disk) (l : Location) :
    (makeDirectories l d).state.denies = d.denies := denies_makeBelow d [] l

/-- Making directories only puts directories where nothing was, on the way to the one that is
made. -/
theorem find?_makeDirectories (d : Disk) (l k : Location) :
    (makeDirectories l d).state.find? k = d.find? k ∨
      (d.find? k = none ∧ (makeDirectories l d).state.find? k = some .directory ∧ k <+: l ∧
        d.denies k = none) :=
  find?_makeBelow d [] l k

/-- What stands somewhere is not touched by making directories. -/
theorem entry_makeDirectories (l : Location) (h : d.entry k = .ok x) :
    (makeDirectories l d).state.entry k = .ok x := by
  refine entry_of_find? h fun j hj => ?_
  rcases find?_makeDirectories d l j with hs | ⟨hn, -⟩
  · exact hs
  · -- a directory was made where something stands already
    by_cases hjk : j = k
    · rw [hjk, find?_of_entry h] at hn
      cases hn
    · rw [find?_above_of_entry h hj hjk] at hn
      cases hn

theorem entry_of_makeBelow {names : List String} (ha : d.entry above = .ok .directory)
    (h : (makeBelow above names).Yields d () e) : e.entry (above ++ names) = .ok .directory := by
  induction names generalizing d above with
  | nil =>
    obtain ⟨-, rfl⟩ := h
    rw [List.append_nil]
    exact ha
  | cons name names ih =>
    have hcons : above ++ name :: names = above ++ [name] ++ names := by simp
    have hne : above ++ [name] ≠ [] := by simp
    rw [hcons]
    -- either way a directory stands at the first name, and the others are made from there
    by_cases hn : isName name = true
    · cases hf : d.find? (above ++ [name]) with
      | none =>
        cases hdenies : d.denies (above ++ [name]) with
        | some error => simp [Action.Yields, Action.run, makeBelow, hn, hf, hdenies] at h
        | none =>
          have hp : (d.put (above ++ [name]) .directory).entry above = .ok .directory := by
            refine entry_of_find? ha fun k hk => find?_put_of_ne ?_ d .directory
            exact ne_concat_of_above hk
          refine ih (entry_concat_of_directory hp hn (find?_put_self hne d .directory)) ?_
          simpa [Action.Yields, Action.run, makeBelow, hn, hf, hdenies] using h
      | some x =>
        cases x with
        | directory =>
          refine ih (entry_concat_of_directory ha hn hf) ?_
          simpa [Action.Yields, Action.run, makeBelow, hn, hf] using h
        | text | binary => simp [Action.Yields, Action.run, makeBelow, hn, hf] at h
    · simp [Action.Yields, Action.run, makeBelow, hn] at h

theorem entry_of_makeDirectories (h : (makeDirectories l).Yields d () e) :
    e.entry l = .ok .directory :=
  have hroot : d.entry [] = .ok .directory := rfl
  entry_of_makeBelow hroot h

/-! ### Writing, removing and replacing files -/

theorem isDirectory_iff : d.isDirectory l = true ↔ d.entry l = .ok .directory := by
  unfold isDirectory
  cases d.entry l with
  | error => simp
  | ok x => cases x <;> simp

/-- A file stands only in a directory, under a name that may stand there. -/
theorem directory_of_misplaced (h : d.misplaced (l ++ [name]) = none) :
    d.entry l = .ok .directory ∧ isName name = true := by
  unfold misplaced at h
  cases he : d.entry (l ++ [name]) with
  | ok x => exact ⟨(of_entry_concat he).1, (of_entry_concat he).2.1⟩
  | error error =>
    rw [he] at h
    cases error with
    | notFound =>
      rw [List.dropLast_concat] at h
      -- nothing stands there yet, so it can only be the directory above that is in the way
      have hd : d.isDirectory l = true := by
        by_contra hd
        simp only [hd, if_false] at h
        cases h
      rw [isDirectory_iff] at hd
      refine ⟨hd, ?_⟩
      by_contra hn
      rw [entry_concat, hd] at he
      simp only [below, if_neg hn] at he
      cases he
    | notDirectory | isDirectory | nameTooLong | notText | notPermitted | noRoom => cases h

theorem ne_nil_of_misplaced (h : d.misplaced l = none) : l ≠ [] := by
  rintro rfl
  have he : d.entry [] = .ok .directory := rfl
  rw [misplaced, he] at h
  cases h

/-- Where a file can stand there is no directory. -/
theorem ne_directory_of_misplaced (h : d.misplaced l = none) : d.find? l ≠ some .directory := by
  intro hf
  rcases List.eq_nil_or_concat l with rfl | ⟨above, name, rfl⟩
  · exact ne_nil_of_misplaced h rfl
  · rw [List.concat_eq_append] at h hf
    obtain ⟨hd, hn⟩ := directory_of_misplaced h
    rw [misplaced, entry_concat_of_directory hd hn hf] at h
    cases h

theorem refusesWrite_eq_none_iff :
    d.refusesWrite l = none ↔ d.misplaced l = none ∧ d.denies l = none := by
  rw [refusesWrite]
  cases d.misplaced l <;> simp

/-- What is put where a file can stand can be found. -/
theorem entry_put_of_misplaced (h : d.misplaced l = none) (x : Entry) :
    (d.put l x).entry l = .ok x := by
  have hne := ne_nil_of_misplaced h
  rcases List.eq_nil_or_concat l with rfl | ⟨above, name, rfl⟩
  · exact absurd rfl hne
  · rw [List.concat_eq_append] at h hne ⊢
    obtain ⟨hdir, hname⟩ := directory_of_misplaced h
    have hdir' : (d.put (above ++ [name]) x).entry above = .ok .directory :=
      entry_of_find? hdir fun k hk => find?_put_of_ne (ne_concat_of_above hk) d x
    exact entry_concat_of_directory hdir' hname (find?_put_self hne d x)

/-- What a replacement comes to, by what is in the way and what is denied. -/
theorem run_replace (d : Disk) (temporary l : Location) (content : String) :
    (replace temporary l content).run d =
      match d.misplaced temporary, d.denies temporary with
      | some error, _ => ⟨.error (temporary, error), d, []⟩
      | none, some error => ⟨.error (temporary, error), d.spoiled temporary error, []⟩
      | none, none =>
        match (d.put temporary (.text content)).refusesWrite l with
        | some error => ⟨.error (l, error), (d.put temporary (.text content)).erase temporary, []⟩
        | none =>
          ⟨.ok (), ((d.put temporary (.text content)).erase temporary).put l (.text content),
            []⟩ := by
  unfold Action.run replace
  cases hw : d.misplaced temporary with
  | some error => simp only [write, hw]
  | none =>
    cases hdenies : d.denies temporary with
    | some error => simp only [write, hw, hdenies]
    | none =>
      -- what is renamed is the file that was just written
      have ht := entry_put_of_misplaced hw (.text content)
      cases hl : (d.put temporary (.text content)).refusesWrite l with
      | some error => simp only [write, hw, hdenies, rename, remove, ht, hl]
      | none => simp only [write, hw, hdenies, rename, ht, hl]

/-- A replacement ends well if neither writing the temporary file nor moving it is refused. -/
theorem yields_replace_iff {temporary : Location} {content : String} :
    (replace temporary l content).Yields d () e ↔
      d.refusesWrite temporary = none ∧
        (d.put temporary (.text content)).refusesWrite l = none ∧
        e = ((d.put temporary (.text content)).erase temporary).put l (.text content) := by
  rw [Action.Yields, run_replace, refusesWrite_eq_none_iff]
  cases hw : d.misplaced temporary with
  | some error => simp
  | none =>
    cases hdenies : d.denies temporary with
    | some error => simp
    | none =>
      cases hl : (d.put temporary (.text content)).refusesWrite l with
      | some error => simp
      | none => simp [eq_comm]

/-- A file that was replaced holds the new text. -/
theorem entry_of_replace {temporary : Location} {content : String}
    (h : (replace temporary (l ++ [name]) content).Yields d () e) :
    e.entry (l ++ [name]) = .ok (.text content) := by
  obtain ⟨hw, hl, rfl⟩ := yields_replace_iff.1 h
  have hfile := (refusesWrite_eq_none_iff.1 hw).1
  obtain ⟨hd, hn⟩ := directory_of_misplaced (refusesWrite_eq_none_iff.1 hl).1
  have htext := find?_put_self (ne_nil_of_misplaced hfile) d (.text content)
  refine entry_concat_of_directory (entry_of_find? hd fun k hk => ?_) hn
    (find?_put_self (by simp) _ _)
  -- the temporary file is no directory, so it does not stand above the other one
  have hdir : (d.put temporary (.text content)).find? k = some .directory := by
    by_cases hkl : k = l
    · exact hkl ▸ find?_of_entry hd
    · exact find?_above_of_entry hd hk hkl
  have hkt : k ≠ temporary := by
    rintro rfl
    rw [htext] at hdir
    cases hdir
  rw [find?_put_of_ne (ne_concat_of_above hk), find?_erase_of_ne hkt]

/-- A replacement that fails leaves everything but the temporary file alone. -/
theorem find?_replace_of_error {temporary : Location} {content : String}
    {cause : Location × DiskError}
    (h : ((replace temporary l content).run d).result = .error cause)
    (hk : d.misplaced temporary = none → k ≠ temporary) :
    ((replace temporary l content).run d).state.find? k = d.find? k := by
  rw [run_replace] at h ⊢
  cases hw : d.misplaced temporary with
  | some error => rfl
  | none =>
    have hne := hk hw
    cases hdenies : d.denies temporary with
    | some error => exact find?_spoiled_of_ne hne d error
    | none =>
      cases hl : (d.put temporary (.text content)).refusesWrite l with
      | some error =>
        -- the renaming failed, and the temporary file is removed again
        dsimp only
        rw [find?_erase_of_ne hne, find?_put_of_ne hne]
      | none =>
        rw [hw, hdenies] at h
        dsimp only at h
        rw [hl] at h
        cases h

/-! ### Whether a file can be replaced -/

/-- Whether an entry is a directory, which is all that matters to writing. -/
def isDirectoryEntry : Entry → Bool
  | .directory => true
  | .text _ => false
  | .binary => false

/-- Directories stand at the same locations, and so do files, and the same is denied. -/
structure SameShape (d e : Disk) : Prop where
  entries : ∀ k, (d.find? k).map isDirectoryEntry = (e.find? k).map isDirectoryEntry
  denies : d.denies = e.denies

theorem sameShape_put (d : Disk) (l : Location) (content other : String) :
    SameShape (d.put l (.text content)) (d.put l (.text other)) := by
  refine ⟨fun k => ?_, rfl⟩
  by_cases hk : k = l
  · subst hk
    by_cases hnil : k = []
    · subst hnil
      rfl
    · rw [find?_put_self hnil, find?_put_self hnil]
      rfl
  · rw [find?_put_of_ne hk, find?_put_of_ne hk]

/-- What names lead to is a directory on both disks, or a file, or refused alike, if where they lead
agrees in that. -/
theorem reach_shape {names : List String}
    (h : ∀ done rest, names = done ++ rest →
      (d.find? (above ++ done)).map isDirectoryEntry =
        (e.find? (above ++ done)).map isDirectoryEntry) :
    (d.reach above names).map isDirectoryEntry = (e.reach above names).map isDirectoryEntry := by
  induction names generalizing above with
  | nil =>
    have hhere := h [] [] rfl
    rw [List.append_nil] at hhere
    rw [Disk.reach, Disk.reach]
    cases hd : d.find? above with
    | none =>
      rw [hd] at hhere
      rw [Option.map_eq_none_iff.1 hhere.symm]
    | some x =>
      rw [hd] at hhere
      obtain ⟨y, hy, hxy⟩ := Option.map_eq_some_iff.1 hhere.symm
      rw [hy]
      exact congrArg Except.ok hxy.symm
  | cons name names ih =>
    have hhere := h [] _ rfl
    rw [List.append_nil] at hhere
    have hbelow : ∀ done rest, names = done ++ rest →
        (d.find? (above ++ [name] ++ done)).map isDirectoryEntry =
          (e.find? (above ++ [name] ++ done)).map isDirectoryEntry := by
      intro done rest hrest
      simpa using h (name :: done) rest (by rw [hrest]; rfl)
    rw [Disk.reach, Disk.reach]
    cases hd : d.find? above with
    | none =>
      rw [hd] at hhere
      rw [Option.map_eq_none_iff.1 hhere.symm]
    | some x =>
      rw [hd] at hhere
      obtain ⟨y, hy, hxy⟩ := Option.map_eq_some_iff.1 hhere.symm
      rw [hy]
      -- both are directories, or neither is
      cases x with
      | directory =>
        cases y with
        | directory =>
          dsimp only
          split
          · exact ih hbelow
          · rfl
        | text | binary => cases hxy
      | text | binary =>
        cases y with
        | directory => cases hxy
        | text | binary => rfl

theorem SameShape.reach (h : SameShape d e) (above : Location) (names : List String) :
    (d.reach above names).map isDirectoryEntry = (e.reach above names).map isDirectoryEntry :=
  reach_shape fun done _ _ => h.entries (above ++ done)

/-- So it is with a location, if what stands there and above it agrees in being a directory. -/
theorem entry_shape (h : ∀ k, k <+: l →
      (d.find? k).map isDirectoryEntry = (e.find? k).map isDirectoryEntry) :
    (d.entry l).map isDirectoryEntry = (e.entry l).map isDirectoryEntry :=
  reach_shape fun done rest hn => by
    rw [List.nil_append]
    exact h done ⟨rest, hn.symm⟩

/-- Whether a file can stand somewhere is settled by where directories and files stand. -/
theorem misplaced_eq (d : Disk) (l : Location) :
    d.misplaced l =
      match (d.entry l).map isDirectoryEntry with
      | .ok true => some .isDirectory
      | .ok false => none
      | .error .notFound =>
        match (d.entry l.dropLast).map isDirectoryEntry with
        | .ok true => none
        | _ => some .notFound
      | .error e => some e := by
  unfold misplaced isDirectory
  cases d.entry l with
  | ok x => cases x <;> rfl
  | error error =>
    cases error with
    | notFound =>
      cases d.entry l.dropLast with
      | ok x => cases x <;> rfl
      | error => rfl
    | notDirectory | isDirectory | nameTooLong | notText | notPermitted | noRoom => rfl

theorem SameShape.refusesWrite (h : SameShape d e) (l : Location) :
    d.refusesWrite l = e.refusesWrite l := by
  rw [Disk.refusesWrite, Disk.refusesWrite, misplaced_eq, misplaced_eq, h.denies]
  rw [entry, entry, entry, entry, h.reach, h.reach]

/-- Whether a file can be replaced does not depend on the new text. -/
theorem exists_yields_replace {temporary : Location} {content : String}
    (h : (replace temporary l content).Yields d () e) (other : String) :
    ∃ e', (replace temporary l other).Yields d () e' := by
  obtain ⟨hw, hl, -⟩ := yields_replace_iff.1 h
  rw [(sameShape_put d temporary content other).refusesWrite] at hl
  exact ⟨_, yields_replace_iff.2 ⟨hw, hl, rfl⟩⟩

end Roster.Disk
