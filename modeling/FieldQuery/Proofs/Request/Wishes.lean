import Mathlib.Data.List.Nodup
import FieldQuery.Proofs.Data.KeyMap
import FieldQuery.Request.Selection

/-!
# What is asked for

A requested name asks for one thing at most, and what a selection has depends on what has been asked for
only: not on the order, and not on how often.

* `Wish` — what a name asks for, `Catalog.wish?` — how the catalog understands a name;
* `Selection.grant` — a selection with one thing more;
* `AskedOf` — the columns of a relation that are asked for: none, all, or those that are named;
* `Selection.Grants` — a selection has what is asked for, and nothing else.

Principal results: `ofNames_eq` — a selection grants one wish after the other, `grants_foldl` — it has what
the wishes ask for, and `Grants.unique` — the same wishes lead to the same columns, relations and virtual
fields.
-/

namespace FieldQuery

open Text

/-- What a name asks for. -/
inductive Wish where
  | identity
  | column (name : String)
  | virtual (name : String)
  /-- A column of a relation, or `*` for all of them. -/
  | related (relation column : String)
  deriving DecidableEq

/-- What a name asks for, if it makes sense. -/
def Catalog.wish? (c : Catalog) (name : String) : Option Wish :=
  if name = "id" then some .identity
  else match cutAt '.' name.toList with
    | some (relation, column) =>
      if relation = [] ∨ column = [] then none
      else some (.related (String.ofList relation) (String.ofList column))
    | none =>
      if c.isVirtual (c.resolve name) then some (.virtual (c.resolve name))
      else if (c.field? (c.resolve name)).isSome then some (.column (c.resolve name))
      else none

/-- What names ask for. -/
def Catalog.wishes (c : Catalog) (names : List String) : List Wish := names.filterMap c.wish?

/-- The columns of a relation that are asked for: none, all, or those that are named. -/
inductive AskedOf (ws : List Wish) (relation : String) : Option Columns → Prop
  | nothing (h : ∀ column, .related relation column ∉ ws) : AskedOf ws relation none
  | all (h : .related relation "*" ∈ ws) : AskedOf ws relation (some none)
  | columns {columns : Names} (hsorted : Names.Sorted columns) (hall : .related relation "*" ∉ ws)
      (hsome : ∃ column, .related relation column ∈ ws)
      (h : ∀ column, column ∈ columns ↔ .related relation column ∈ ws) :
      AskedOf ws relation (some (some columns))

namespace AskedOf

variable {ws ws' : List Wish} {relation : String} {asked asked' : Option Columns}

/-- What is asked for does not depend on the order of the wishes. -/
theorem unique (h : AskedOf ws relation asked) (h' : AskedOf ws' relation asked')
    (hsame : ∀ w, w ∈ ws' ↔ w ∈ ws) : asked' = asked := by
  cases h with
  | nothing h =>
    cases h' with
    | nothing => rfl
    | all h' => exact absurd ((hsame _).1 h') (h _)
    | columns _ _ hsome _ => exact absurd ((hsame _).1 hsome.choose_spec) (h _)
  | all h =>
    cases h' with
    | nothing h' => exact absurd ((hsame _).2 h) (h' _)
    | all => rfl
    | columns _ hall _ _ => exact absurd ((hsame _).2 h) hall
  | columns hsorted hall hsome h =>
    cases h' with
    | nothing h' => exact absurd ((hsame _).2 hsome.choose_spec) (h' _)
    | all h' => exact absurd ((hsame _).1 h') hall
    | columns hsorted' _ _ h' =>
      rw [hsorted'.ext hsorted fun column => (h' column).trans ((hsame _).trans (h column).symm)]

/-- A wish for something else changes nothing. -/
theorem other (h : AskedOf ws relation asked) {w : Wish} (hw : ∀ column, w ≠ .related relation column) :
    AskedOf (ws ++ [w]) relation asked := by
  have hmem : ∀ column, .related relation column ∈ ws ++ [w] ↔ .related relation column ∈ ws := by
    intro column
    rw [List.mem_append, List.mem_singleton]
    exact or_iff_left fun heq => hw column heq.symm
  cases h with
  | nothing h => exact .nothing fun column => (hmem column).not.2 (h column)
  | all h => exact .all ((hmem _).2 h)
  | columns hsorted hall hsome h =>
    exact .columns hsorted ((hmem _).not.2 hall) (hsome.imp fun column => (hmem column).2)
      fun column => (h column).trans (hmem column).symm

/-- A wish for one more column of the relation. -/
theorem nested (h : AskedOf ws relation asked) (column : String) :
    AskedOf (ws ++ [.related relation column]) relation
      (some (Selection.addNested column (asked.getD (some [])))) := by
  have hnew : .related relation column ∈ ws ++ [.related relation column] := by simp
  have hmem : ∀ other, .related relation other ∈ ws ++ [.related relation column] ↔
      other = column ∨ .related relation other ∈ ws := by
    intro other
    rw [List.mem_append, List.mem_singleton, Wish.related.injEq, or_comm]
    simp
  unfold Selection.addNested
  by_cases hstar : column = "*"
  · rw [if_pos hstar]
    exact .all (hstar ▸ hnew)
  · rw [if_neg hstar]
    have hall : .related relation "*" ∉ ws → .related relation "*" ∉ ws ++ [.related relation column] :=
      fun hnot hin => ((hmem _).1 hin).elim (fun heq => hstar heq.symm) hnot
    cases h with
    | nothing h =>
      refine .columns (Names.sorted_nil.insert (n := column)) (hall (h _)) ⟨column, hnew⟩ fun other => ?_
      rw [hmem, Names.mem_insert]
      simp [h other]
    | all h => exact .all ((hmem _).2 (.inr h))
    | columns hsorted hnone hsome h =>
      refine .columns (hsorted.insert (n := column)) (hall hnone) ⟨column, hnew⟩ fun other => ?_
      rw [hmem, Names.mem_insert, h other]

end AskedOf

namespace Selection

/-- The selection with one thing more. -/
def grant (s : Selection) : Wish → Selection
  | .identity => s
  | .column name => { s with columns := Names.insert name s.columns }
  | .virtual name =>
    if s.virtualFields.contains name then s
    else { s with virtualFields := s.virtualFields ++ [name] }
  | .related relation column => s.addRelation relation column

/-- A name that makes sense is granted. -/
theorem add?_eq (c : Catalog) (s : Selection) (name : String) :
    s.add? c name = (c.wish? name).map s.grant := by
  unfold add? Catalog.wish?
  by_cases hid : name = "id"
  · rw [if_pos hid, if_pos hid]
    rfl
  rw [if_neg hid, if_neg hid]
  cases cutAt '.' name.toList with
  | some parts =>
    dsimp only
    split <;> rfl
  | none =>
    unfold addField?
    dsimp only
    split
    · show _ = some (s.grant _)
      unfold grant
      dsimp only
      split <;> rfl
    · split <;> rfl

/-- Selecting name by name, by what each of them asks for. -/
theorem foldl_names {c : Catalog}
    {step : Selection × List FilterError → String → Selection × List FilterError}
    (hgrant : ∀ s unknown name w, c.wish? name = some w → step (s, unknown) name = (s.grant w, unknown))
    (hrefuse : ∀ s unknown name, c.wish? name = none →
      step (s, unknown) name = (s, unknown ++ [.unknownSelection name])) (names : List String) :
    ∀ s unknown, names.foldl step (s, unknown) = ((c.wishes names).foldl grant s,
      unknown ++ (names.filter fun name => (c.wish? name).isNone).map .unknownSelection) := by
  induction names with
  | nil => exact fun s unknown => by simp [Catalog.wishes]
  | cons name names ih =>
    intro s unknown
    rw [List.foldl_cons]
    unfold Catalog.wishes at ih ⊢
    cases hwish : c.wish? name with
    | none => simp [hrefuse _ _ _ hwish, hwish, ih]
    | some w => simp [hgrant _ _ _ _ hwish, hwish, ih]

/-- **A selection grants one wish after the other**, and leaves out what makes no sense. -/
theorem ofNames_eq (c : Catalog) (names : List String) :
    ofNames c names = ((c.wishes names).foldl grant {},
      (names.filter fun name => (c.wish? name).isNone).map .unknownSelection) := by
  refine foldl_names (fun s unknown name w hwish => ?_) (fun s unknown name hwish => ?_) names {} []
  · dsimp only
    rw [add?_eq, hwish]
    rfl
  · dsimp only
    rw [add?_eq, hwish]
    rfl

/-- A selection has what is asked for, and nothing else. -/
structure Grants (s : Selection) (ws : List Wish) : Prop where
  columns : ∀ name, name ∈ s.columns ↔ .column name ∈ ws
  virtualFields : ∀ name, name ∈ s.virtualFields ↔ .virtual name ∈ ws
  relations : ∀ relation, AskedOf ws relation (KeyMap.get? relation s.relations)
  columns_sorted : Names.Sorted s.columns
  virtualFields_nodup : s.virtualFields.Nodup
  relations_sorted : KeyMap.Sorted s.relations

namespace Grants

variable {s s' : Selection} {ws ws' : List Wish}

theorem empty : Grants {} [] where
  columns _ := by simp
  virtualFields _ := by simp
  relations _ := .nothing fun _ => List.not_mem_nil
  columns_sorted := Names.sorted_nil
  virtualFields_nodup := List.nodup_nil
  relations_sorted := KeyMap.sorted_nil

/-- **One more wish is granted.** -/
theorem grant (h : s.Grants ws) (w : Wish) : (s.grant w).Grants (ws ++ [w]) := by
  cases w with
  | identity =>
    exact { h with
      columns := fun name => by simp [Selection.grant, h.columns name]
      virtualFields := fun name => by simp [Selection.grant, h.virtualFields name]
      relations := fun relation => (h.relations relation).other fun _ heq => nomatch heq }
  | column name =>
    exact { h with
      columns := fun other => by simp [Selection.grant, h.columns other, or_comm]
      virtualFields := fun other => by simp [Selection.grant, h.virtualFields other]
      relations := fun relation => (h.relations relation).other fun _ heq => nomatch heq
      columns_sorted := h.columns_sorted.insert }
  | virtual name =>
    show (if s.virtualFields.contains name then s else _).Grants _
    split
    · rename_i hin
      have hold : .virtual name ∈ ws := (h.virtualFields name).1 (List.contains_iff_mem.1 hin)
      exact { h with
        columns := fun other => by simp [h.columns other]
        virtualFields := fun other => by
          rw [List.mem_append, List.mem_singleton, h.virtualFields other]
          exact ⟨.inl, fun hor => hor.elim id fun heq => heq ▸ hold⟩
        relations := fun relation => (h.relations relation).other fun _ heq => nomatch heq }
    · rename_i hnew
      exact { h with
        columns := fun other => by simp [h.columns other]
        virtualFields := fun other => by simp [h.virtualFields other]
        relations := fun relation => (h.relations relation).other fun _ heq => nomatch heq
        virtualFields_nodup := by
          rw [← List.concat_eq_append]
          exact h.virtualFields_nodup.concat fun hin => hnew (List.contains_iff_mem.2 hin) }
  | related relation column =>
    exact { h with
      columns := fun other => by simp [Selection.grant, addRelation, h.columns other]
      virtualFields := fun other => by simp [Selection.grant, addRelation, h.virtualFields other]
      relations := fun other => by
        show AskedOf _ other (KeyMap.get? other (KeyMap.insert relation _ s.relations))
        by_cases heq : other = relation
        · subst heq
          rw [KeyMap.get?_insert]
          exact (h.relations other).nested column
        · rw [KeyMap.get?_insert_ne heq]
          refine (h.relations other).other fun _ hw => ?_
          cases hw
          exact heq rfl
      relations_sorted := h.relations_sorted.insert }

/-- Wishes that have been granted one after the other. -/
theorem foldl (h : s.Grants ws) (more : List Wish) : (more.foldl Selection.grant s).Grants (ws ++ more) := by
  induction more generalizing s ws with
  | nil => rwa [List.append_nil]
  | cons w more ih =>
    have hrest := ih (h.grant w)
    rwa [List.append_assoc] at hrest

/-- **The same wishes lead to the same selection**, up to the order of its virtual fields. -/
theorem unique (h : s.Grants ws) (h' : s'.Grants ws') (hsame : ∀ w, w ∈ ws' ↔ w ∈ ws) :
    s'.columns = s.columns ∧ s'.relations = s.relations ∧ s'.virtualFields.Perm s.virtualFields := by
  refine ⟨?_, ?_, ?_⟩
  · exact h'.columns_sorted.ext h.columns_sorted fun name =>
      (h'.columns name).trans ((hsame _).trans (h.columns name).symm)
  · refine h'.relations_sorted.ext h.relations_sorted fun relation columns => ?_
    rw [(h.relations relation).unique (h'.relations relation) hsame]
  · exact (List.perm_ext_iff_of_nodup h'.virtualFields_nodup h.virtualFields_nodup).2 fun name =>
      (h'.virtualFields name).trans ((hsame _).trans (h.virtualFields name).symm)

end Grants

/-- **A selection has what its names ask for.** -/
theorem grants_ofNames (c : Catalog) (names : List String) :
    (ofNames c names).1.Grants (c.wishes names) := by
  rw [ofNames_eq]
  exact Grants.empty.foldl (c.wishes names)

end Selection

/-- Names ask for the same if they are the same, in any order and any number. -/
theorem Catalog.mem_wishes_congr (c : Catalog) {names names' : List String}
    (h : ∀ name, name ∈ names' ↔ name ∈ names) (w : Wish) : w ∈ c.wishes names' ↔ w ∈ c.wishes names := by
  unfold wishes
  rw [List.mem_filterMap, List.mem_filterMap]
  simp only [h]

end FieldQuery
