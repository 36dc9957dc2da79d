/-
Fields in the order of their names.

A list of named values is sorted when the names strictly increase in the order of their UTF-8 bytes,
which is the order of their code points.  `insert` keeps a list sorted and replaces a value of the
same name.

* `get?_insert_self`, `get?_insert_of_ne`: what `insert` does to a lookup;
* `eq_of_get?`: fields are settled by their names and the values under them;
* `insert_insert`: of two values under one name the later one stays;
* `sorted_insert`, `sorted_ofList`: lists built by `insert` are sorted;
* `insert_of_forall_lt`: a name below all others goes to the front;
* `ofList_eq_self`: a sorted list is rebuilt as it is.
-/

namespace Roster.Fields

variable {α β : Type}

/-- Puts a value under a name, in name order, replacing the value that stood there. -/
def insert (name : String) (value : α) : List (String × α) → List (String × α)
  | [] => [(name, value)]
  | (k, v) :: rest =>
    if name < k then (name, value) :: (k, v) :: rest
    else if name = k then (name, value) :: rest
    else (k, v) :: insert name value rest

def get? (name : String) : List (String × α) → Option α
  | [] => none
  | (k, v) :: rest => if k = name then some v else get? name rest

/-- The names, in order. -/
def names (fields : List (String × α)) : List String := fields.map (·.1)

def Sorted (fields : List (String × α)) : Prop := fields.Pairwise fun a b => a.1 < b.1

instance (fields : List (String × α)) : Decidable (Sorted fields) := by
  unfold Sorted; infer_instance

/-- The sorted list of some named values, in which the last value of a name counts. -/
def ofList (entries : List (String × α)) : List (String × α) :=
  entries.foldl (fun fields e => insert e.1 e.2 fields) []

theorem get?_insert_self (name : String) (value : α) (fields : List (String × α)) :
    get? name (insert name value fields) = some value := by
  induction fields with
  | nil => simp [insert, get?]
  | cons e rest ih =>
    obtain ⟨k, v⟩ := e
    rw [insert]
    split
    · simp [get?]
    · split
      · simp [get?]
      · rename_i h
        have : k ≠ name := fun he => h he.symm
        simp [get?, this, ih]

theorem get?_insert_of_ne {name other : String} (h : name ≠ other) (value : α)
    (fields : List (String × α)) : get? other (insert name value fields) = get? other fields := by
  induction fields with
  | nil => simp [insert, get?, h]
  | cons e rest ih =>
    obtain ⟨k, v⟩ := e
    rw [insert]
    split
    · simp [get?, h]
    · split
      · rename_i he; subst he; simp [get?, h]
      · simp [get?, ih]

/-- What was put under a name is replaced. -/
theorem insert_insert (name : String) (value other : α) (fields : List (String × α)) :
    insert name value (insert name other fields) = insert name value fields := by
  induction fields with
  | nil => simp [insert]
  | cons e rest ih =>
    obtain ⟨k, v⟩ := e
    by_cases hlt : name < k
    · simp [insert, hlt]
    · by_cases he : name = k
      · simp [insert, he]
      · simp [insert, hlt, he, ih]

theorem mem_insert {name : String} {value : α} {fields : List (String × α)} {e : String × α}
    (h : e ∈ insert name value fields) : e = (name, value) ∨ e ∈ fields := by
  induction fields with
  | nil => simpa [insert] using h
  | cons f rest ih =>
    obtain ⟨k, v⟩ := f
    rw [insert] at h
    split at h
    · simpa using h
    · split at h
      · rcases List.mem_cons.1 h with h | h
        · exact .inl h
        · exact .inr (List.mem_cons_of_mem _ h)
      · rcases List.mem_cons.1 h with h | h
        · exact .inr (h ▸ List.mem_cons_self)
        · exact (ih h).imp_right (List.mem_cons_of_mem _)

theorem mem_of_get? {name : String} {value : α} {fields : List (String × α)}
    (h : get? name fields = some value) : (name, value) ∈ fields := by
  induction fields with
  | nil => cases h
  | cons e rest ih =>
    obtain ⟨k, v⟩ := e
    rw [get?] at h
    split at h
    · rename_i hk
      obtain rfl := Option.some.inj h
      subst hk
      exact List.mem_cons_self
    · exact List.mem_cons_of_mem _ (ih h)

theorem exists_get? {name : String} {fs : List (String × α)} (h : name ∈ names fs) :
    ∃ value, get? name fs = some value := by
  induction fs with
  | nil => cases h
  | cons f fs ih =>
    obtain ⟨k, v⟩ := f
    rw [get?]
    split
    · exact ⟨v, rfl⟩
    · rename_i hk
      exact ih ((List.mem_cons.1 h).resolve_left fun he => hk he.symm)

/-- Fields are settled by their names and the values under them, if no name comes twice. -/
theorem eq_of_get? {fs gs : List (String × α)} (once : (names fs).Nodup)
    (hnames : names fs = names gs) (values : ∀ name ∈ names fs, get? name fs = get? name gs) :
    fs = gs := by
  induction fs generalizing gs with
  | nil =>
    cases gs with
    | nil => rfl
    | cons _ _ => cases hnames
  | cons f fs ih =>
    cases gs with
    | nil => cases hnames
    | cons g gs =>
      obtain ⟨k, v⟩ := f
      obtain ⟨l, w⟩ := g
      obtain ⟨rfl, hrest⟩ : k = l ∧ names fs = names gs := List.cons.inj hnames
      obtain ⟨hk, honce⟩ : k ∉ names fs ∧ (names fs).Nodup := List.nodup_cons.1 once
      -- the first name decides its value, and being the only one of its kind leaves the rest alone
      have hv : v = w := by
        have := values k List.mem_cons_self
        simpa [get?] using this
      rw [hv, ih honce hrest fun name hname => ?_]
      have hne : k ≠ name := fun he => hk (he ▸ hname)
      have := values name (List.mem_cons_of_mem _ hname)
      simpa [get?, hne] using this

/-- What is collected is among the entries. -/
theorem mem_of_mem_ofList {entries : List (String × α)} {e : String × α} (h : e ∈ ofList entries) :
    e ∈ entries := by
  -- fields that were collected before stay as the entries are put in
  have key : ∀ (es fields : List (String × α)),
      e ∈ es.foldl (fun fields e => insert e.1 e.2 fields) fields → e ∈ fields ∨ e ∈ es := by
    intro es
    induction es with
    | nil => exact fun _ h => .inl h
    | cons f es ih =>
      intro fields h
      rcases ih _ h with h | h
      · rcases mem_insert h with rfl | h
        · exact .inr List.mem_cons_self
        · exact .inl h
      · exact .inr (List.mem_cons_of_mem _ h)
  exact (key entries [] h).resolve_left List.not_mem_nil

theorem lt_of_not_lt_of_ne {a b : String} (h : ¬ a < b) (hne : a ≠ b) : b < a := by
  have hle : b ≤ a := String.not_lt.1 h
  rcases Decidable.em (b < a) with hlt | hlt
  · exact hlt
  · exact absurd (String.le_antisymm (String.not_lt.1 hlt) hle) hne

theorem sorted_insert {fields : List (String × α)} (name : String) (value : α)
    (h : Sorted fields) : Sorted (insert name value fields) := by
  induction fields with
  | nil => simp [insert, Sorted]
  | cons e rest ih =>
    obtain ⟨k, v⟩ := e
    have hk : ∀ f ∈ rest, k < f.1 := (List.pairwise_cons.1 h).1
    have hr : Sorted rest := (List.pairwise_cons.1 h).2
    rw [insert]
    split
    · rename_i hlt
      refine List.pairwise_cons.2 ⟨fun f hf => ?_, h⟩
      rcases List.mem_cons.1 hf with rfl | hf
      · exact hlt
      · exact String.lt_trans hlt (hk f hf)
    · split
      · rename_i he
        subst he
        exact List.pairwise_cons.2 ⟨hk, hr⟩
      · rename_i hlt hne
        refine List.pairwise_cons.2 ⟨fun f hf => ?_, ih hr⟩
        rcases mem_insert hf with rfl | hf
        · exact lt_of_not_lt_of_ne hlt hne
        · exact hk f hf

theorem sorted_ofList (entries : List (String × α)) : Sorted (ofList entries) := by
  have key : ∀ (es fields : List (String × α)), Sorted fields →
      Sorted (es.foldl (fun fields e => insert e.1 e.2 fields) fields) := by
    intro es
    induction es with
    | nil => exact fun _ h => h
    | cons e es ih => exact fun fields h => ih _ (sorted_insert e.1 e.2 h)
  exact key entries [] List.Pairwise.nil

theorem insert_of_forall_lt {name : String} {value : α} {fields : List (String × α)}
    (h : ∀ e ∈ fields, e.1 < name) : insert name value fields = fields ++ [(name, value)] := by
  induction fields with
  | nil => rfl
  | cons e rest ih =>
    obtain ⟨k, v⟩ := e
    have hk : k < name := h (k, v) List.mem_cons_self
    have h1 : ¬ name < k := fun hlt => String.lt_irrefl _ (String.lt_trans hk hlt)
    have h2 : name ≠ k := fun he => String.lt_irrefl _ (he ▸ hk)
    rw [insert, if_neg h1, if_neg h2, ih fun e he => h e (List.mem_cons_of_mem _ he)]
    rfl

theorem ofList_eq_self {fields : List (String × α)} (h : Sorted fields) :
    ofList fields = fields := by
  have key : ∀ (es done : List (String × α)), Sorted (done ++ es) →
      es.foldl (fun fields e => insert e.1 e.2 fields) done = done ++ es := by
    intro es
    induction es with
    | nil => intro done _; simp
    | cons e es ih =>
      intro done hs
      have hl : ∀ f ∈ done, f.1 < e.1 := fun f hf =>
        (List.pairwise_append.1 hs).2.2 f hf e List.mem_cons_self
      rw [List.foldl_cons, insert_of_forall_lt hl, ih _ (by simpa using hs)]
      simp
  simpa [ofList] using key fields [] (by simpa using h)

end Roster.Fields
