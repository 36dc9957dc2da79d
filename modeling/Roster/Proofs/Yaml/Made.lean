/-
What readers of YAML nodes make.

Values that are read from YAML are formed, as those that are read from JSON are: an integer that
does not fit 64 bits is refused or read as a double, and the fields of a mapping are put in name
order.

* `Gives`: whatever a part of reading answers has a property;
* `formed_of_scalarValue`, `gives_value`: the values that are read are formed;
* `gives_list`, `gives_members`, `gives_defaulted`: typed readers.
-/
import Roster.Proofs.Json.Made
import Roster.Yaml.Typed

namespace Roster.Yaml

open Json (All Formed)

variable {α β : Type} {p : α → Prop} {q : β → Prop}

/-- Whether what is read, if anything is, has a property. -/
def Gives (x : Reading α) (p : α → Prop) : Prop := ∀ k a k', x.run k = some (a, k') → p a

theorem gives_pure {a : α} (h : p a) : Gives (pure a) p := by
  intro k b k' hb
  obtain ⟨rfl, -⟩ := Prod.mk.inj (Option.some.inj hb)
  exact h

theorem gives_failure : Gives (failure : Reading α) p := nofun

theorem gives_true (x : Reading α) : Gives x fun _ => True := fun _ _ _ _ => trivial

theorem gives_bind {x : Reading α} {f : α → Reading β} (h : Gives x p)
    (hf : ∀ a, p a → Gives (f a) q) :
    Gives (x >>= f) q := by
  intro k b k' hb
  rw [StateT.run_bind] at hb
  obtain ⟨⟨a, m⟩, ha, hb⟩ := Option.bind_eq_some_iff.1 hb
  exact hf a (h k a m ha) m b k' hb

theorem gives_then {x : Reading α} {f : α → Reading β} (hf : ∀ a, Gives (f a) q) :
    Gives (x >>= f) q :=
  gives_bind (gives_true x) fun a _ => hf a

theorem gives_mapM {f : α → Reading β} {items : List α} (h : ∀ a ∈ items, Gives (f a) q) :
    Gives (items.mapM f) fun bs => ∀ b ∈ bs, q b := by
  induction items with
  | nil => exact gives_pure (by simp)
  | cons a items ih =>
    rw [List.mapM_cons]
    refine gives_bind (h a List.mem_cons_self) fun b hb => ?_
    refine gives_bind (ih fun c hc => h c (List.mem_cons_of_mem _ hc)) fun bs hbs => ?_
    exact gives_pure (List.forall_mem_cons.2 ⟨hb, hbs⟩)

theorem gives_lift {o : Option α} (h : ∀ a, o = some a → p a) : Gives (o : Reading α) p := by
  intro k a k' ha
  cases o with
  | none => cases ha
  | some b =>
    obtain ⟨rfl, -⟩ := Prod.mk.inj (Option.some.inj ha)
    exact h b rfl

/-! ### Values -/

theorem isWord_of_fitsWord {n : Int} (h : fitsWord n = true) : Json.IsWord n := by
  simpa [fitsWord, Json.IsWord] using h

theorem formed_of_float {cs : List Char} {j : Json} (h : float? cs = some j) : All Formed j := by
  unfold float? at h
  split at h
  · obtain rfl := Option.some.inj h
    exact trivial
  · obtain ⟨x, -, rfl⟩ := Option.map_eq_some_iff.1 h
    exact trivial

theorem formed_of_denotes {cs : List Char} {j : Json} (h : denotes? cs = some j) :
    All Formed j := by
  unfold denotes? at h
  split at h
  · obtain rfl := Option.some.inj h
    exact trivial
  · split at h
    · obtain rfl := Option.some.inj h
      exact trivial
    · split at h
      · split at h
        · rename_i hw
          obtain rfl := Option.some.inj h
          exact isWord_of_fitsWord hw
        · cases h
      · obtain rfl := Option.some.inj h
        split
        · exact trivial
        · cases hf : float? cs with
          | none => exact trivial
          | some j => exact formed_of_float hf

theorem formed_of_denotesTagged {tag cs : List Char} {j : Json}
    (h : denotesTagged? tag cs = some j) :
    All Formed j := by
  unfold denotesTagged? at h
  split at h
  · cases h
  · split at h
    · obtain ⟨b, -, rfl⟩ := Option.map_eq_some_iff.1 h
      exact trivial
    · split at h
      · obtain ⟨n, hn, rfl⟩ := Option.map_eq_some_iff.1 h
        exact isWord_of_fitsWord (Option.filter_eq_some_iff.1 hn).2
      · split at h
        · exact formed_of_float h
        · split at h
          · split at h
            · obtain rfl := Option.some.inj h
              exact trivial
            · cases h
          · obtain rfl := Option.some.inj h
            exact trivial

theorem formed_of_scalarValue {tag : Option (List Char)} {cs : List Char} {plain : Bool} {j : Json}
    (h : scalarValue? tag cs plain = some j) : All Formed j := by
  unfold scalarValue? at h
  split at h
  · exact formed_of_denotesTagged h
  · split at h
    · exact formed_of_denotes h
    · obtain rfl := Option.some.inj h
      exact trivial

theorem gives_valueWith {d : Document} {part : Option (Node → Reading Json)}
    (h : ∀ read ∈ part, ∀ n, Gives (read n) (All Formed)) (n : Node) :
    Gives (valueWith d part n) (All Formed) := by
  unfold valueWith
  refine gives_then fun m => ?_
  split
  · exact gives_lift fun j hj => formed_of_scalarValue hj
  · rename_i read
    split
    · exact gives_failure
    · refine gives_bind (gives_mapM fun n _ => h read rfl n) fun items hi => ?_
      exact gives_pure ⟨trivial, Json.allItems_iff.2 hi⟩
  · rename_i read
    split
    · exact gives_failure
    · refine gives_then fun es => ?_
      have he : Gives (es.mapM fun (e : String × Node) => do return (e.1, ← read e.2))
          fun fs => ∀ f ∈ fs, All Formed f.2 :=
        gives_mapM fun e _ => gives_bind (h read rfl e.2) fun j hj => gives_pure hj
      exact gives_bind he fun fs hf => gives_pure (Json.formed_ofFields hf)
  · exact gives_failure

theorem gives_value (d : Document) (levels : Nat) (n : Node) :
    Gives (value d levels n) (All Formed) := by
  induction levels generalizing n with
  | zero => exact gives_valueWith (by simp) n
  | succ levels ih =>
    refine gives_valueWith ?_ n
    rintro _ ⟨⟩
    exact ih

/-! ### Typed readers -/

variable {decoder : Decoder α} {d : Document}

theorem gives_optional (h : ∀ levels n, Gives (decoder d levels n) p) (levels : Nat) (n : Node) :
    Gives (optional decoder d levels n) fun o => ∀ a ∈ o, p a := by
  have hsome : ∀ n, Gives (do return some (← decoder d levels n)) fun o => ∀ a ∈ o, p a := fun n =>
    gives_bind (h levels n) fun a ha => gives_pure (by simpa using ha)
  have hnone : Gives (pure none) fun o : Option α => ∀ a ∈ o, p a := gives_pure (by simp)
  unfold optional
  refine gives_then fun n => ?_
  split
  · split
    · split
      · exact hnone
      · exact gives_failure
    · exact hsome _
  · split
    · exact hnone
    · exact hsome _
  · exact hsome _

theorem gives_inside {parts : Nat → Reading α} (h : ∀ levels, Gives (parts levels) p)
    (levels : Nat) :
    Gives (inside levels parts) p := by
  cases levels with
  | zero => exact gives_failure
  | succ levels => exact h levels

theorem gives_list (h : ∀ levels n, Gives (decoder d levels n) p) (levels : Nat) (n : Node) :
    Gives (list decoder d levels n) fun as => ∀ a ∈ as, p a := by
  unfold list
  refine gives_then fun m => ?_
  split
  · exact gives_inside (fun levels => gives_mapM fun n _ => h levels n) levels
  · exact gives_pure (by simp)
  · exact gives_failure

theorem gives_members {read : List (String × Node) → Document → Nat → Reading α}
    (h : ∀ ms levels, Gives (read ms d levels) p) (levels : Nat) (n : Node) :
    Gives (members read d levels n) p := by
  unfold members
  refine gives_then fun m => ?_
  split
  · exact gives_inside (fun levels => gives_then fun ms => h ms levels) levels
  · exact gives_failure

theorem gives_defaulted {default : α} (h : ∀ levels n, Gives (decoder d levels n) p)
    (hd : p default) (name : String) (ms : List (String × Node)) (levels : Nat) :
    Gives (defaulted name decoder default ms d levels) p := by
  unfold defaulted
  refine gives_then fun m => ?_
  split
  · exact h levels _
  · exact gives_pure hd

theorem of_read? (h : ∀ d levels n, Gives (decoder d levels n) p) {text : String} {a : α}
    (hr : read? decoder text = some a) : p a := by
  obtain ⟨d, -, hr⟩ := Option.bind_eq_some_iff.1 hr
  obtain ⟨⟨b, k⟩, hb, hr⟩ := Option.bind_eq_some_iff.1 hr
  obtain rfl := Option.some.inj hr
  exact h d _ _ _ b k hb

end Roster.Yaml
