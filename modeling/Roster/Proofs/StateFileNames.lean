/-
Where the state of an owner is kept.

Paths are compared by their components: slashes may stand twice and at the end, and dots stand for
nothing but in front.  The name of a state file is one component whatever the owner is called, since
slashes are encoded in it and nothing in it is left to the reader of a path; the owner is read back
from it, so no two owners share a file.  The temporary file never has the name of a state file: its
extension is another one, and where the name leaves no room for an extension the path of the
temporary file goes up.

* `Component`, `components_join`: what a path is made of, and a path with a name behind it;
* `locate_join`: where such a path leads to;
* `slash_notMem_fileName`, `ownerOf?_fileName`: the name of a state file and its owner;
* `state_files_apart`: the whole account.
-/
import Roster.Proofs.StoredState

namespace Roster

namespace Path

/-! ### Components -/

/-- A part of a path that counts when paths are compared. -/
inductive Component where
  | root
  /-- The dot that a path starts with. -/
  | here
  | above
  | name (text : String)
  deriving DecidableEq, Repr

/-- What a name in a path stands for.  Empty names and dots stand for nothing. -/
def component? (name : String) : Option Component :=
  if name = "" ∨ name = "." then none
  else if name = ".." then some .above
  else some (.name name)

/-- The component that does not come from a name as such: the root, or a dot in front. -/
def start (path : String) : List Component :=
  if isAbsolute path then [.root]
  else if (names path).head? = some "." then [.here]
  else []

/-- The components of a path.  Paths with the same components are the same path. -/
def components (path : String) : List Component := start path ++ (names path).filterMap component?

variable {above name : String} {c : Component} {cs ds : List Char}

theorem isAbsolute_eq_false (h : '/' ∉ name.toList) : isAbsolute name = false := by
  cases hn : name.toList with
  | nil => simp [isAbsolute, hn]
  | cons d ds =>
    have hd : d ≠ '/' := by
      rintro rfl
      exact h (hn ▸ List.mem_cons_self)
    simpa [isAbsolute, hn] using hd

theorem names_of_notMem (h : '/' ∉ name.toList) : names name = [name] := by
  have hnone : ∀ d ∈ name.toList, (d == '/') = false := fun d hd =>
    beq_eq_false_iff_ne.2 fun he => h (he ▸ hd)
  rw [names, Text.split_of_none hnone, List.map_singleton, String.ofList_toList]

theorem join_slash (above name : String) :
    above ++ "/" ++ name = String.ofList (above.toList ++ '/' :: name.toList) := by
  rw [← String.toList_inj]
  simp

/-- A slash ends the names before it. -/
theorem names_append_slash (cs ds : List Char) :
    names (String.ofList (cs ++ '/' :: ds)) = names (String.ofList cs) ++
      names (String.ofList ds) := by
  unfold names
  rw [String.toList_ofList, String.toList_ofList, String.toList_ofList,
    Text.split_append_cons cs rfl, List.map_append]

theorem names_ne_nil (path : String) : names path ≠ [] := by
  simpa [names] using Text.split_ne_nil path.toList

theorem start_append_slash (hcs : cs ≠ []) (ds : List Char) :
    start (String.ofList (cs ++ '/' :: ds)) = start (String.ofList cs) := by
  have habsolute : isAbsolute (String.ofList (cs ++ '/' :: ds)) =
      isAbsolute (String.ofList cs) := by
    rw [isAbsolute, isAbsolute, String.toList_ofList, String.toList_ofList,
      List.head?_append_of_ne_nil _ hcs]
  have hhead : (names (String.ofList (cs ++ '/' :: ds))).head? =
      (names (String.ofList cs)).head? := by
    rw [names_append_slash, List.head?_append_of_ne_nil _ (names_ne_nil _)]
  rw [start, start, habsolute, hhead]

/-- What stands before the last name of a path. -/
def front (cs : List Char) : List Component :=
  if cs = [] then [.root] else components (String.ofList cs)

theorem components_append_slash (cs : List Char) (h : '/' ∉ ds) :
    components (String.ofList (cs ++ '/' :: ds)) = front cs ++
      (component? (String.ofList ds)).toList := by
  have hlast : names (String.ofList ds) = [String.ofList ds] := by
    refine names_of_notMem ?_
    rwa [String.toList_ofList]
  have hone : [String.ofList ds].filterMap component? = (component? (String.ofList ds)).toList := by
    cases hd : component? (String.ofList ds) <;> simp [hd]
  rw [components, names_append_slash, List.filterMap_append, hlast, hone, ← List.append_assoc]
  congr 1
  -- nothing before the slash means that the path starts at the root
  rw [front]
  split
  · subst cs
    have hroot : isAbsolute (String.ofList ([] ++ '/' :: ds)) = true := by simp [isAbsolute]
    have hnothing : (names (String.ofList [])).filterMap component? = [] := by decide
    rw [start, if_pos hroot, hnothing, List.append_nil]
  · rename_i hcs
    rw [start_append_slash hcs, components]

/-- A name behind a path adds its component. -/
theorem components_join (above : String) (hs : '/' ∉ name.toList) (hc : component? name = some c) :
    components (join above name) = components above ++ [c] := by
  have hrelative := isAbsolute_eq_false hs
  have hlast : (component? (String.ofList name.toList)).toList = [c] := by
    rw [String.ofList_toList, hc]
    rfl
  have hne : name ≠ "." := by
    rintro rfl
    cases hc
  unfold join
  rw [hrelative, Bool.false_or]
  split
  · -- nothing stands in front
    rename_i hempty
    obtain rfl : above = "" := String.isEmpty_iff.1 hempty
    have hstart : start name = [] := by
      rw [start, hrelative, names_of_notMem hs]
      simp [hne]
    rw [components, hstart, names_of_notMem hs]
    simp [hc, show components "" = [] by decide]
  · rename_i hempty
    have hcs : above.toList ≠ [] := by simpa using hempty
    split
    · -- a slash at the end is not put there again
      rename_i hslash
      obtain ⟨cs, hcs⟩ : ∃ cs, above.toList = cs ++ ['/'] := by
        refine ⟨above.toList.dropLast, (List.dropLast_append_getLast? _ ?_).symm⟩
        simpa using hslash
      have habove : above = String.ofList (cs ++ '/' :: []) := by
        rw [← String.ofList_toList (s := above), hcs]
      have hjoined : above ++ name = String.ofList (cs ++ '/' :: name.toList) := by
        rw [← String.toList_inj]
        simp [hcs]
      have hnothing : component? (String.ofList []) = none := by decide
      rw [hjoined, components_append_slash cs hs, hlast, habove,
        components_append_slash cs List.not_mem_nil, hnothing, Option.toList_none, List.append_nil]
    · rw [join_slash, components_append_slash _ hs, hlast, front, if_neg hcs, String.ofList_toList]

theorem getLast?_join {d : Char} (above : String) (h : name.toList.getLast? = some d) :
    (join above name).toList.getLast? = some d := by
  unfold join
  split
  · exact h
  · split <;> simp [List.getLast?_cons, h]

/-! ### Where a path leads to -/

theorem walk_append (d : Disk) (l : Location) (ns ms : List String) :
    walk d l (ns ++ ms) = walk d (walk d l ns) ms := by
  induction ns generalizing l with
  | nil => rfl
  | cons n ns ih =>
    rw [List.cons_append, walk, walk]
    split
    · exact ih _
    · split
      · exact ih _
      · exact ih _

theorem walk_name {name : String} (hc : component? name = some (.name name)) (d : Disk)
    (l : Location) :
    walk d l [name] = l ++ [name] := by
  unfold component? at hc
  split at hc
  · cases hc
  · rename_i hsolid
    split at hc
    · cases hc
    · rename_i hdots
      rw [walk, if_neg hsolid, if_neg hdots, walk]

/-- Behind a path that neither is empty nor ends with a slash, a name leads to what has that name
there. -/
theorem locate_join (hempty : above ≠ "") (hslash : above.toList.getLast? ≠ some '/')
    (hs : '/' ∉ name.toList) (hc : component? name = some (.name name)) (d : Disk)
    (working : Location) :
    locate d working (join above name) = locate d working above ++ [name] := by
  have hcs : above.toList ≠ [] := by simpa using hempty
  have hjoined : join above name = String.ofList (above.toList ++ '/' :: name.toList) := by
    rw [join, isAbsolute_eq_false hs, if_neg (by simpa using hempty),
      if_neg (by simpa using hslash), join_slash]
  have habsolute : isAbsolute (join above name) = isAbsolute above := by
    rw [hjoined, isAbsolute, isAbsolute, String.toList_ofList, List.head?_append_of_ne_nil _ hcs]
  rw [locate, habsolute, hjoined, names_append_slash, walk_append, String.ofList_toList,
    String.ofList_toList, names_of_notMem hs, walk_name hc, locate]

end Path

namespace StoredState

open Roster.Path (Component component? components components_join)

/-! ### The name of a state file -/

/-- The characters of the names of state files. -/
def isFileNameChar (c : Char) : Bool := c.isAlphanum || ['.', '_', '-', '%'].contains c

theorem isFileNameChar_of_mem {owner : OwnerId} {c : Char} (h : c ∈ (fileName owner).toList) :
    isFileNameChar c = true := by
  rw [fileName, String.toList_append, List.mem_append] at h
  rcases h with h | h
  · rw [fileStem, Text.Percent.encode, String.toList_ofList] at h
    obtain ⟨b, -, hc⟩ := List.mem_flatMap.1 h
    have key : ∀ n : Fin 256,
        (Text.Percent.encodeByte Text.Percent.isFileNameByte (UInt8.ofNat n.val)).all
          isFileNameChar = true := by
      decide +kernel
    have hall := key ⟨b.toNat, b.toNat_lt⟩
    simp only [UInt8.ofNat_toNat] at hall
    exact List.all_eq_true.1 hall c hc
  · have key : ".json".toList.all isFileNameChar = true := by decide
    exact List.all_eq_true.1 key c h

theorem slash_notMem_fileName (owner : OwnerId) : '/' ∉ (fileName owner).toList :=
  fun h => absurd (isFileNameChar_of_mem h) (by decide)

theorem getLast?_fileName (owner : OwnerId) : (fileName owner).toList.getLast? = some 'n' := by
  simp [fileName, String.toList_append]

/-- The name of a state file is no dots. -/
theorem component?_fileName (owner : OwnerId) :
    component? (fileName owner) = some (.name (fileName owner)) := by
  have hlast := getLast?_fileName owner
  have hempty : fileName owner ≠ "" := fun he => by simp [he] at hlast
  have hdot : fileName owner ≠ "." := fun he => by simp [he] at hlast
  have hdots : fileName owner ≠ ".." := fun he => by simp [he] at hlast
  rw [component?, if_neg (not_or.2 ⟨hempty, hdot⟩), if_neg hdots]

/-- The owner whose state is kept in a file of that name. -/
def ownerOf? (name : String) : Option OwnerId :=
  let cs := name.toList
  if ".json".toList.isSuffixOf cs then
    (Text.Percent.decode (cs.take (cs.length - ".json".toList.length))).bind fun bytes =>
      (String.fromUTF8? bytes.toByteArray).map OwnerId.mk
  else none

theorem fromUTF8?_utf8 (s : String) :
    String.fromUTF8? (Text.Percent.utf8 s).toByteArray = some s := by
  have hbytes : (Text.Percent.utf8 s).toByteArray = s.toByteArray := String.utf8Encode_toList
  rw [hbytes, String.fromUTF8?, dif_pos s.isValidUTF8]
  rfl

theorem ownerOf?_fileName (owner : OwnerId) : ownerOf? (fileName owner) = some owner := by
  have hsuffix : ".json".toList.isSuffixOf (fileName owner).toList = true := by
    rw [List.isSuffixOf_iff_suffix, fileName, String.toList_append]
    exact List.suffix_append _ _
  have hstem : (fileName owner).toList.take
      ((fileName owner).toList.length - ".json".toList.length) =
      (fileStem owner).toList := by
    rw [fileName, String.toList_append, List.length_append, Nat.add_sub_cancel, List.take_left']
    rfl
  unfold ownerOf?
  dsimp only
  rw [if_pos hsuffix, hstem, decode_fileStem, Option.bind_some, fromUTF8?_utf8]
  rfl

theorem fileName_inj {owner other : OwnerId} : fileName owner = fileName other ↔ owner = other := by
  refine ⟨fun h => ?_, congrArg fileName⟩
  have howner := ownerOf?_fileName owner
  rw [h, ownerOf?_fileName] at howner
  exact (Option.some.inj howner).symm

/-! ### Paths of state files -/

theorem components_directoryPath (home : Home) :
    components (directoryPath home) = components home.path ++ [.name ".tether", .name "state"] := by
  have htether : component? ".tether" = some (.name ".tether") := by decide
  have hstate : component? "state" = some (.name "state") := by decide
  show components (Path.join (Path.join home.path ".tether") "state") = _
  rw [components_join _ (by decide) hstate, components_join _ (by decide) htether,
    List.append_assoc]
  rfl

theorem components_path (home : Home) (owner : OwnerId) :
    components (path home owner) =
      components home.path ++ [.name ".tether", .name "state", .name (fileName owner)] := by
  rw [path, components_join _ (slash_notMem_fileName owner) (component?_fileName owner),
    components_directoryPath, List.append_assoc]
  rfl

/-- What the temporary name of a state file stands for is the name of no state file. -/
theorem exists_component_temporaryName (owner : OwnerId) :
    ∃ c, component? (Path.temporaryName (fileName owner)) = some c ∧
    ∀ other, c ≠ .name (fileName other) := by
  unfold Path.temporaryName
  dsimp only
  split
  · exact ⟨.above, by decide, fun other => by simp⟩
  · generalize hstem : String.ofList (Path.stem (fileName owner).toList) = stem
    have hlast : (stem ++ ".json.tmp").toList.getLast? = some 'p' := by simp [String.toList_append]
    have hempty : stem ++ ".json.tmp" ≠ "" := fun he => by simp [he] at hlast
    have hdot : stem ++ ".json.tmp" ≠ "." := fun he => by simp [he] at hlast
    have hdots : stem ++ ".json.tmp" ≠ ".." := fun he => by simp [he] at hlast
    refine ⟨.name (stem ++ ".json.tmp"), ?_, fun other he => ?_⟩
    · rw [component?, if_neg (not_or.2 ⟨hempty, hdot⟩), if_neg hdots]
    · exact fileName_ne_temporaryName other stem (Component.name.inj he).symm

/-- A name of dots leaves no room for another extension. -/
example : Path.temporaryName (fileName ⟨"."⟩) = ".." := by decide

theorem mem_of_mem_stem {cs : List Char} {c : Char} (h : c ∈ Path.stem cs) : c ∈ cs := by
  unfold Path.stem at h
  dsimp only at h
  split at h
  · exact h
  · exact List.mem_of_mem_take h

theorem slash_notMem_temporaryName (owner : OwnerId) :
    '/' ∉ (Path.temporaryName (fileName owner)).toList := by
  unfold Path.temporaryName
  dsimp only
  split
  · decide
  · rw [String.toList_append, String.toList_ofList, List.mem_append, not_or]
    exact ⟨fun h => slash_notMem_fileName owner (mem_of_mem_stem h), by decide⟩

theorem components_temporaryPath_ne (home : Home) (owner other : OwnerId) :
    components (temporaryPath home owner) ≠ components (path home other) := by
  obtain ⟨c, hc, hne⟩ := exists_component_temporaryName owner
  rw [temporaryPath, components_join _ (slash_notMem_temporaryName owner) hc, path,
    components_join _ (slash_notMem_fileName other) (component?_fileName other)]
  simpa using hne other

theorem temporaryLocation_ne_location (home : Home) (owner other : OwnerId) :
    temporaryLocation home owner ≠ location home other := by
  rcases temporaryLocation_cases home owner with h | ⟨name, h, hne⟩
  · -- a place above the directory is shorter
    intro he
    have hlength := congrArg List.length (h.symm.trans he)
    simp [location] at hlength
  · rw [h, location]
    simpa using hne other

theorem locate_path (home : Home) (owner : OwnerId) (d : Disk) (working : Location) :
    Path.locate d working (path home owner) = Path.locate d working (directoryPath home) ++
      [fileName owner] := by
  have hlast : (directoryPath home).toList.getLast? = some 'e' := Path.getLast?_join _ (by decide)
  have hempty : directoryPath home ≠ "" := fun he => by simp [he] at hlast
  exact Path.locate_join hempty (by simp [hlast]) (slash_notMem_fileName owner)
    (component?_fileName owner) d working

/-- **Every owner has a state file of its own, in the directory for them.**  The paths of two state
files, or their locations, are the same only if the owners are.  The last name of a path holds no
slash and is decoded to the owner, and on every disk the path leads to an entry of the directory.
The temporary file of an owner is the state file of nobody. -/
theorem state_files_apart (home : Home) (owner other : OwnerId) :
    (components (path home owner) = components (path home other) ↔ owner = other) ∧
    (location home owner = location home other ↔ owner = other) ∧
    (components (path home owner) =
      components home.path ++ [.name ".tether", .name "state", .name (fileName owner)]) ∧
    (∀ d working, Path.locate d working (path home owner) =
      Path.locate d working (directoryPath home) ++ [fileName owner]) ∧
    '/' ∉ (fileName owner).toList ∧
    ownerOf? (fileName owner) = some owner ∧
    components (temporaryPath home owner) ≠ components (path home other) ∧
    temporaryLocation home owner ≠ location home other := by
  refine ⟨?_, ?_, components_path home owner, locate_path home owner, slash_notMem_fileName owner,
    ownerOf?_fileName owner, components_temporaryPath_ne home owner other,
    temporaryLocation_ne_location home owner other⟩
  · rw [components_path, components_path]
    simp [fileName_inj]
  · rw [location, location]
    simp [fileName_inj]

end StoredState

end Roster
