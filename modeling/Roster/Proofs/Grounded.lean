/-
Disks without orphans.

On a disk that is grounded everything stands in a directory.  It stays grounded when directories are
made and files are written or removed.  Two grounded disks that agree in what stands on the way to a
location, but for directories that one of them may lack, answer alike for it: what is missing is
missing on both, unless a name on the way is too long, which only shows in a directory that is
there.

* `Grounded`, `Grounded.put`, `Grounded.erase`, `Grounded.makeDirectories`: disks on which
  everything stands in a directory;
* `Level`: locations on the way to which the disks agree, but for missing directories;
* `Close`, `close_entry`: what the disks answer for such a location;
* `result_makeDirectories`: whether such a directory can be made.
-/
import Roster.Proofs.Disk

namespace Roster.Disk

variable {d e : Disk} {l k above : Location} {name : String} {names : List String} {x y : Entry}

/-- Everything but the root stands in a directory. -/
def Grounded (d : Disk) : Prop :=
  ∀ l name x, d.find? (l ++ [name]) = some x → d.find? l = some .directory

theorem grounded_empty : empty.Grounded := by
  intro l name x h
  have hnil : l ++ [name] ≠ [] := by simp
  simp [find?, empty, hnil] at h

/-- A directory may be put over anything, and a file over anything that is no directory. -/
theorem Grounded.put (h : d.Grounded) (hl : d.find? l = some .directory)
    (hx : x = .directory ∨ d.find? (l ++ [name]) ≠ some .directory) :
    (d.put (l ++ [name]) x).Grounded := by
  intro k n y hk
  by_cases he : k ++ [n] = l ++ [name]
  · obtain ⟨rfl, -⟩ := List.append_inj' he rfl
    rwa [find?_put_of_ne (ne_concat_of_above List.prefix_rfl)]
  · rw [find?_put_of_ne he] at hk
    have hdir := h k n y hk
    by_cases hkl : k = l ++ [name]
    · subst hkl
      rw [find?_put_self (by simp)]
      exact congrArg some (hx.resolve_right fun hne => hne hdir)
    · rwa [find?_put_of_ne hkl]

theorem Grounded.erase (h : d.Grounded) (hx : d.find? (l ++ [name]) ≠ some .directory) :
    (d.erase (l ++ [name])).Grounded := by
  intro k n y hk
  by_cases he : k ++ [n] = l ++ [name]
  · rw [he, find?_erase_self (by simp)] at hk
    cases hk
  · rw [find?_erase_of_ne he] at hk
    have hdir := h k n y hk
    have hkl : k ≠ l ++ [name] := fun hkl => hx (hkl ▸ hdir)
    rwa [find?_erase_of_ne hkl]

theorem Grounded.makeBelow (h : d.Grounded) (ha : d.find? above = some .directory)
    (names : List String) :
    (makeBelow above names d).state.Grounded := by
  induction names generalizing d above with
  | nil => exact h
  | cons name names ih =>
    rw [Disk.makeBelow]
    split
    · exact h
    · dsimp only
      split
      · rename_i hdir
        exact ih h hdir
      · exact h
      · split
        · exact h
        · -- what is made stands in the directory above
          exact ih (h.put ha (.inl rfl)) (find?_put_self (by simp) d .directory)

theorem Grounded.makeDirectories (h : d.Grounded) (l : Location) :
    (makeDirectories l d).state.Grounded :=
  h.makeBelow rfl l

/-- Nothing stands below what is not there. -/
theorem Grounded.find?_append (h : d.Grounded) (hn : d.find? l = none) (names : List String) :
    d.find? (l ++ names) = none := by
  induction names using List.reverseRecOn with
  | nil => rwa [List.append_nil]
  | append_singleton names name ih =>
    cases hx : d.find? (l ++ (names ++ [name])) with
    | none => rfl
    | some x =>
      rw [← List.append_assoc] at hx
      cases ih.symm.trans (h _ _ _ hx)

/-! ### Disks that agree on the way to a location -/

/-- The disks agree in what stands somewhere, but for a directory that one of them lacks and neither
denies. -/
structure Level (d e : Disk) (l : Location) : Prop where
  same : (d.find? l).getD .directory = (e.find? l).getD .directory
  allowed : d.find? l ≠ e.find? l → d.denies l = none ∧ e.denies l = none

theorem Level.of_eq (h : d.find? l = e.find? l) : Level d e l :=
  ⟨by rw [h], fun hne => absurd h hne⟩

theorem Level.symm (h : Level d e l) : Level e d l :=
  ⟨h.same.symm, fun hne => (h.allowed (Ne.symm hne)).symm⟩

theorem Level.trans {f : Disk} (hdenies : d.denies = e.denies) (hdenies' : e.denies = f.denies)
    (h : Level d e l) (h' : Level e f l) : Level d f l where
  same := h.same.trans h'.same
  allowed hne := by
    -- one of the two steps makes the difference, and what is denied is the same throughout
    by_cases heq : d.find? l = e.find? l
    · obtain ⟨he, hf⟩ := h'.allowed (heq ▸ hne)
      exact ⟨hdenies ▸ he, hf⟩
    · obtain ⟨hd, he⟩ := h.allowed heq
      exact ⟨hd, hdenies' ▸ he⟩

/-- What two disks answer for a location: entries that are related, or the same error, unless a name
on the way is too long and one of them lacks a directory above it. -/
inductive Close (overlong : Prop) (S : Entry → Entry → Prop) :
    Except DiskError Entry → Except DiskError Entry → Prop
  | found {x y : Entry} (h : S x y) : Close overlong S (.ok x) (.ok y)
  | same (error : DiskError) : Close overlong S (.error error) (.error error)
  | left (h : overlong) : Close overlong S (.error .notFound) (.error .nameTooLong)
  | right (h : overlong) : Close overlong S (.error .nameTooLong) (.error .notFound)

theorem Close.mono {p q : Prop} {S : Entry → Entry → Prop}
    {r r' : Except DiskError Entry} (hpq : p → q) (h : Close p S r r') : Close q S r r' := by
  cases h with
  | found h => exact .found h
  | same error => exact .same error
  | left h => exact .left (hpq h)
  | right h => exact .right (hpq h)

theorem Close.symm {p : Prop} {S : Entry → Entry → Prop} {r r' : Except DiskError Entry}
    (hS : ∀ x y, S x y → S y x) (h : Close p S r r') : Close p S r' r := by
  cases h with
  | found h => exact .found (hS _ _ h)
  | same error => exact .same error
  | left h => exact .right h
  | right h => exact .left h

theorem append_cons_eq (above : Location) (name : String) (names : List String) :
    above ++ name :: names = above ++ [name] ++ names := by simp

/-- Where only directories are on the way to what is missing, it is missing, unless a name is too
long. -/
theorem reach_of_bare
    (hway : ∀ done rest, names = done ++ rest →
      (d.find? (above ++ done)).getD .directory = .directory)
    (hend : d.find? (above ++ names) = none) :
    d.reach above names = .error .notFound ∨
      (∃ name ∈ names, isName name = false) ∧ d.reach above names = .error .nameTooLong := by
  -- the first name that is missing or too long ends the way
  induction names generalizing above with
  | nil =>
    rw [List.append_nil] at hend
    rw [reach, hend]
    exact .inl rfl
  | cons name names ih =>
    have hhere := hway [] _ rfl
    rw [List.append_nil] at hhere
    rw [reach]
    cases hf : d.find? above with
    | none => exact .inl rfl
    | some x =>
      rw [hf] at hhere
      obtain rfl : x = .directory := hhere
      dsimp only
      by_cases hn : isName name = true
      · rw [if_pos hn]
        rw [append_cons_eq] at hend
        have hrest : ∀ done rest, names = done ++ rest →
            (d.find? (above ++ [name] ++ done)).getD .directory = .directory := by
          intro done rest hrest
          rw [← append_cons_eq]
          exact hway (name :: done) rest (by rw [hrest]; rfl)
        refine (ih hrest hend).imp_right fun h => ?_
        obtain ⟨⟨n, hmem, hlong⟩, hreach⟩ := h
        exact ⟨⟨n, List.mem_cons_of_mem _ hmem, hlong⟩, hreach⟩
      · rw [if_neg hn]
        exact .inr ⟨⟨name, List.mem_cons_self, by simpa using hn⟩, rfl⟩

variable {S : Entry → Entry → Prop}

theorem rel_symm (hS : ∀ x y, S x y → S y x) {a b : Option Entry} (h : Option.Rel S a b) :
    Option.Rel S b a := by
  cases h with
  | some h => exact .some (hS _ _ h)
  | none => exact .none

/-- Below what one of the disks lacks there is nothing on either of them. -/
theorem close_of_missing (hd : d.Grounded) (hn : d.find? above = none)
    (hway : ∀ done rest, names = done ++ rest → rest ≠ [] → Level d e (above ++ done))
    (hend : Option.Rel S (d.find? (above ++ names)) (e.find? (above ++ names))) :
    Close (∃ name ∈ names, isName name = false) S (d.reach above names) (e.reach above names) := by
  have hmissing : d.reach above names = .error .notFound := by
    cases names <;> rw [reach, hn]
  have hlast : e.find? (above ++ names) = none := by
    rw [hd.find?_append hn] at hend
    cases he : e.find? (above ++ names) with
    | none => rfl
    | some y =>
      rw [he] at hend
      cases hend
  -- below what is missing on one disk the other one has directories at most
  have hbare : ∀ done rest, names = done ++ rest →
      (e.find? (above ++ done)).getD .directory = .directory := by
    intro done rest hrest
    by_cases hnil : rest = []
    · subst hnil
      rw [List.append_nil] at hrest
      rw [← hrest, hlast]
      rfl
    · have hlevel := (hway done rest hrest hnil).same
      rw [hd.find?_append hn] at hlevel
      exact hlevel.symm
  rw [hmissing]
  rcases reach_of_bare hbare hlast with hreach | ⟨hlong, hreach⟩
  · rw [hreach]
    exact .same _
  · rw [hreach]
    exact .left hlong

theorem close_reach (hd : d.Grounded) (he : e.Grounded) (hS : ∀ x y, S x y → S y x)
    (hway : ∀ done rest, names = done ++ rest → rest ≠ [] → Level d e (above ++ done))
    (hend : Option.Rel S (d.find? (above ++ names)) (e.find? (above ++ names))) :
    Close (∃ name ∈ names, isName name = false) S (d.reach above names) (e.reach above names) := by
  induction names generalizing above with
  | nil =>
    rw [List.append_nil] at hend
    rw [reach, reach]
    cases hx : d.find? above with
    | none =>
      cases hy : e.find? above with
      | none => exact .same _
      | some y =>
        rw [hx, hy] at hend
        cases hend
    | some x =>
      cases hy : e.find? above with
      | none =>
        rw [hx, hy] at hend
        cases hend
      | some y =>
        rw [hx, hy] at hend
        cases hend with
        | some h => exact .found h
  | cons name names ih =>
    have hhere := hway [] _ rfl (List.cons_ne_nil _ _)
    rw [List.append_nil] at hhere
    cases hx : d.find? above with
    | none => exact close_of_missing hd hx hway hend
    | some x =>
      cases hy : e.find? above with
      | none =>
        -- the same from the other side
        exact (close_of_missing he hy (fun done rest hr hne => (hway done rest hr hne).symm)
          (rel_symm hS hend)).symm hS
      | some y =>
        have hsame := hhere.same
        rw [hx, hy] at hsame
        obtain rfl : x = y := hsame
        rw [reach, reach, hx, hy]
        cases x with
        | text | binary => exact .same _
        | directory =>
          dsimp only
          by_cases hn : isName name = true
          · rw [if_pos hn, if_pos hn]
            rw [append_cons_eq] at hend
            refine (ih (fun done rest hrest hne => ?_) hend).mono fun hlong => ?_
            · rw [← append_cons_eq]
              exact hway (name :: done) rest (by rw [hrest]; rfl) hne
            · obtain ⟨n, hmem, hlong⟩ := hlong
              exact ⟨n, List.mem_cons_of_mem _ hmem, hlong⟩
          · rw [if_neg hn, if_neg hn]
            exact .same _

/-- Disks that agree on the way to a location, but for missing directories, and in what stands there
answer alike for it. -/
theorem close_entry (hd : d.Grounded) (he : e.Grounded) (hS : ∀ x y, S x y → S y x)
    (hway : ∀ k, k <+: l → k ≠ l → Level d e k) (hend : Option.Rel S (d.find? l) (e.find? l)) :
    Close (∃ name ∈ l, isName name = false) S (d.entry l) (e.entry l) := by
  refine close_reach hd he hS (fun done rest hl hne => ?_) hend
  refine hway done ⟨rest, hl.symm⟩ fun he => hne ?_
  rw [he] at hl
  exact List.self_eq_append_right.1 hl

/-- Making a directory that is missing and not denied does not show. -/
theorem Level.put (h : Level d e k) (hn : d.find? l = none) (hd : d.denies l = none)
    (he : e.denies l = none) : Level (d.put l .directory) e k := by
  by_cases hk : k = l
  · subst hk
    refine ⟨?_, fun _ => ⟨hd, he⟩⟩
    by_cases hnil : k = []
    · subst hnil
      cases hn
    · have hsame := h.same
      rw [hn] at hsame
      rw [find?_put_self hnil]
      exact hsame
  · have hkept := find?_put_of_ne hk d .directory
    exact ⟨hkept.symm ▸ h.same, fun hne => h.allowed (hkept ▸ hne)⟩

theorem result_makeBelow (hdenies : d.denies = e.denies)
    (h : ∀ done rest, names = done ++ rest → Level d e (above ++ done)) :
    (makeBelow above names d).result = (makeBelow above names e).result := by
  induction names generalizing d e above with
  | nil => rfl
  | cons name names ih =>
    have hhere := h [name] names rfl
    have hsame := hhere.same
    rw [makeBelow]
    by_cases hn : isName name = true
    · have hrest : ∀ done rest, names = done ++ rest → Level d e (above ++ [name] ++ done) := by
        intro done rest hrest
        rw [← append_cons_eq]
        exact h (name :: done) rest (by rw [hrest]; rfl)
      simp only [hn, Bool.not_true, Bool.false_eq_true, if_false]
      -- a directory that is missing on one of them is made there, as it is not denied
      cases hx : d.find? (above ++ [name]) with
      | none =>
        cases hy : e.find? (above ++ [name]) with
        | none =>
          cases hdeny : d.denies (above ++ [name]) with
          | some error => rw [← hdenies, hdeny]
          | none =>
            have hdeny' := hdenies ▸ hdeny
            rw [hdeny']
            exact ih hdenies fun done rest hr =>
              (((hrest done rest hr).put hx hdeny hdeny').symm.put hy hdeny' hdeny).symm
        | some y =>
          rw [hx, hy] at hsame
          obtain rfl : Entry.directory = y := hsame
          obtain ⟨hd, he⟩ := hhere.allowed (by simp [hx, hy])
          rw [hd]
          exact ih hdenies fun done rest hr => (hrest done rest hr).put hx hd he
      | some x =>
        cases hy : e.find? (above ++ [name]) with
        | none =>
          rw [hx, hy] at hsame
          obtain rfl : x = .directory := hsame
          obtain ⟨hd, he⟩ := hhere.allowed (by simp [hx, hy])
          rw [he]
          exact ih hdenies fun done rest hr => ((hrest done rest hr).symm.put hy he hd).symm
        | some y =>
          rw [hx, hy] at hsame
          obtain rfl : x = y := hsame
          cases x with
          | directory => exact ih hdenies hrest
          | text | binary => rfl
    · simp only [hn, Bool.not_false, if_true]

/-- Whether a directory can be made does not depend on which of those above it are missing. -/
theorem result_makeDirectories (hdenies : d.denies = e.denies) (h : ∀ k, k <+: l → Level d e k) :
    (makeDirectories l d).result = (makeDirectories l e).result :=
  result_makeBelow hdenies fun done rest hl => h done ⟨rest, hl.symm⟩

theorem level_makeDirectories (d : Disk) (l k : Location) :
    Level d (makeDirectories l d).state k := by
  rcases find?_makeDirectories d l k with hs | ⟨hn, hm, -, hdenies⟩
  · exact .of_eq hs.symm
  · refine ⟨by rw [hn, hm]; rfl, fun _ => ⟨hdenies, ?_⟩⟩
    rwa [denies_makeDirectories]

end Roster.Disk
