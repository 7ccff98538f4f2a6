import FieldQuery.Catalog.Spec
import FieldQuery.Proofs.Data.Except
import FieldQuery.Proofs.Data.KeyMap
import FieldQuery.Proofs.Engine.Asks
import Mathlib.Data.List.Perm.Basic

/-!
# Definitions in any order

A virtual field is searched for cycles when it enters, and at that time some of its dependencies
may not be registered yet.  The searches of a whole run still add up to one question about the whole
list, in which no order occurs:

* `adding`, `addingAll` — the catalog with one definition more, and with a list of them;
* `register_ok_iff` — one definition is accepted exactly if its name is free and the graph stays
  without cycles;
* `Declares` — the graph of a list of definitions;
* `foldlM_register_ok_iff` — a list is accepted exactly if its names are free and distinct and the
  graph of the catalog that it leads to has no cycle: every graph on the way is a part of that one;
* `addingAll_perm` — this catalog is the same for every order of the list;
* `CatalogSpec.build_ok_iff` — a text is built as the list of what its drafts define.

Principal result: `register_anyOrder`.
-/

namespace FieldQuery

namespace Catalog

open Relation

/-! ## One definition -/

/-- The catalog with a definition more. -/
def adding (c : Catalog) : Definition → Catalog
  | .persisted f => { c with fields := KeyMap.insert f.name f c.fields }
  | .computed v => c.withVirtual v

theorem isTaken_adding {c : Catalog} {d : Definition} {name : String} :
    (c.adding d).isTaken name = false ↔ name ≠ d.name ∧ c.isTaken name = false := by
  rw [isTaken_eq_false_iff, isTaken_eq_false_iff]
  cases d <;>
  · simp only [adding, withVirtual, Definition.name, KeyMap.mem_keys_insert, not_or]
    tauto

/-- A definition under a free name takes no edge away. -/
theorem needs_adding {c : Catalog} {d : Definition} (hfree : c.isTaken d.name = false)
    {a b : String} (h : c.Needs a b) : (c.adding d).Needs a b := by
  cases d with
  | persisted f => exact h
  | computed v =>
    obtain ⟨w, hw, hb, hkey⟩ := h
    have hne : a ≠ v.name := by
      rintro rfl
      have hmem : v.name ∈ KeyMap.keys c.virtualFields :=
        List.mem_map_of_mem (KeyMap.mem_of_get? hw)
      exact (isTaken_eq_false_iff.1 hfree).2.1 hmem
    exact ⟨w, (KeyMap.get?_insert_ne hne v c.virtualFields).trans hw, hb,
      KeyMap.mem_keys_insert.2 (.inr hkey)⟩

/-- **A definition is accepted exactly if its name is free and the graph stays without cycles.** -/
theorem register_ok_iff {c : Catalog} (hc : Lawful c) (d : Definition) (c' : Catalog) :
    c.register d = .ok c' ↔
      c.isTaken d.name = false ∧ Walk.Acyclic (c.adding d).Needs ∧ c' = c.adding d := by
  rw [← ensureFree_eq_ok_iff]
  cases d with
  | persisted f =>
    simp only [register, registerField, registered, enter, enterField, Definition.name]
    cases c.ensureFree f.name with
    | error e => simp
    | ok u =>
      have hacyclic : Walk.Acyclic (c.adding (.persisted f)).Needs := hc.acyclic
      simp only [Except.ok.injEq, true_and]
      exact ⟨fun h => ⟨hacyclic, h.symm⟩, fun h => h.2.symm⟩
  | computed v =>
    have hcheck := checkAcyclic_ok_iff hc.acyclic v
    simp only [register, registerVirtual, registered, enter, enterVirtual, Definition.name, adding]
    cases c.ensureFree v.name with
    | error e => simp
    | ok u =>
      rw [← hcheck]
      cases (c.withVirtual v).checkAcyclic v.name with
      | error e => simp
      | ok u =>
        simp only [Except.ok.injEq, true_and]
        exact eq_comm

theorem Lawful.adding {c : Catalog} (hc : Lawful c) {d : Definition}
    (hfree : c.isTaken d.name = false) (hacyclic : Walk.Acyclic (c.adding d).Needs) :
    Lawful (c.adding d) := by
  cases d with
  | persisted f => exact hc.accepts (.field hfree)
  | computed v => exact hc.accepts (.virtual hfree ((checkAcyclic_ok_iff hc.acyclic v).2 hacyclic))

/-! ## A list of definitions -/

/-- The catalog with all definitions of a list more. -/
def addingAll (c : Catalog) (ds : List Definition) : Catalog := ds.foldl adding c

/-- The names of a list that can be added to a catalog: they are free, and none stands twice. -/
def Fresh (c : Catalog) (ds : List Definition) : Prop :=
  (∀ d ∈ ds, c.isTaken d.name = false) ∧ (ds.map Definition.name).Nodup

theorem fresh_cons {c : Catalog} {d : Definition} {ds : List Definition} :
    c.Fresh (d :: ds) ↔ c.isTaken d.name = false ∧ (c.adding d).Fresh ds := by
  unfold Fresh
  simp only [List.forall_mem_cons, List.map_cons, List.nodup_cons, isTaken_adding, List.mem_map,
    not_exists, not_and]
  constructor
  · rintro ⟨⟨hfree, hrest⟩, hne, hnodup⟩
    exact ⟨hfree, fun d' hd' => ⟨hne d' hd', hrest d' hd'⟩, hnodup⟩
  · rintro ⟨hfree, hrest, hnodup⟩
    exact ⟨⟨hfree, fun d' hd' => (hrest d' hd').2⟩, fun d' hd' => (hrest d' hd').1, hnodup⟩

theorem fresh_empty {ds : List Definition} :
    Fresh {} ds ↔ (ds.map Definition.name).Nodup :=
  and_iff_right fun _ _ => rfl

theorem needs_addingAll {c : Catalog} {ds : List Definition} (hfresh : c.Fresh ds) {a b : String}
    (h : c.Needs a b) : (c.addingAll ds).Needs a b := by
  induction ds generalizing c with
  | nil => exact h
  | cons d ds ih =>
    obtain ⟨hfree, hrest⟩ := fresh_cons.1 hfresh
    exact ih hrest (needs_adding hfree h)

/-- **A list of definitions is accepted exactly if its names are free and distinct and the graph
that it leads to has no cycle.** -/
theorem foldlM_register_ok_iff {c : Catalog} (hc : Lawful c) (ds : List Definition) (c' : Catalog) :
    ds.foldlM register c = .ok c' ↔
      c.Fresh ds ∧ Walk.Acyclic (c.addingAll ds).Needs ∧ c' = c.addingAll ds := by
  induction ds generalizing c with
  | nil =>
    have hfresh : c.Fresh [] := ⟨nofun, List.nodup_nil⟩
    show Except.ok c = .ok c' ↔ _
    rw [Except.ok.injEq]
    exact ⟨fun h => ⟨hfresh, hc.acyclic, h.symm⟩, fun h => h.2.2.symm⟩
  | cons d ds ih =>
    rw [List.foldlM_cons, Except.bind_eq_ok_iff, fresh_cons]
    constructor
    · rintro ⟨c₁, hd, hds⟩
      obtain ⟨hfree, hacyclic, rfl⟩ := (register_ok_iff hc d c₁).1 hd
      obtain ⟨hfresh, hall, rfl⟩ := (ih (hc.adding hfree hacyclic)).1 hds
      exact ⟨⟨hfree, hfresh⟩, hall, rfl⟩
    · rintro ⟨⟨hfree, hfresh⟩, hall, rfl⟩
      -- a cycle of the catalog on the way would still be there at the end
      have hacyclic : Walk.Acyclic (c.adding d).Needs := fun a hcycle =>
        hall a (TransGen.mono (fun _ _ => needs_addingAll hfresh) a a hcycle)
      exact ⟨c.adding d, (register_ok_iff hc d _).2 ⟨hfree, hacyclic, rfl⟩,
        (ih (hc.adding hfree hacyclic)).2 ⟨hfresh, hall, rfl⟩⟩

/-! ## The catalog of a list -/

/-- The columns of a list by name, in its order. -/
def columns (ds : List Definition) : List (String × Field) :=
  ds.filterMap fun
    | .persisted f => some (f.name, f)
    | .computed _ => none

/-- The virtual fields of a list by name, in its order. -/
def virtuals (ds : List Definition) : List (String × VirtualField) :=
  ds.filterMap fun
    | .persisted _ => none
    | .computed v => some (v.name, v)

theorem addingAll_eq (c : Catalog) (ds : List Definition) :
    c.addingAll ds = { c with
      fields := (columns ds).foldl (fun m p => m.insert p.1 p.2) c.fields
      virtualFields := (virtuals ds).foldl (fun m p => m.insert p.1 p.2) c.virtualFields } := by
  induction ds generalizing c with
  | nil => rfl
  | cons d ds ih =>
    show (c.adding d).addingAll ds = _
    rw [ih]
    cases d <;> rfl

theorem mem_virtuals {ds : List Definition} {a : String} {v : VirtualField} :
    (a, v) ∈ virtuals ds ↔ .computed v ∈ ds ∧ v.name = a := by
  unfold virtuals
  rw [List.mem_filterMap]
  constructor
  · rintro ⟨d, hd, h⟩
    cases d with
    | persisted f => cases h
    | computed w =>
      cases h
      exact ⟨hd, rfl⟩
  · rintro ⟨hv, rfl⟩
    exact ⟨_, hv, rfl⟩

theorem keys_columns_sublist (ds : List Definition) :
    (KeyMap.keys (columns ds)).Sublist (ds.map Definition.name) := by
  induction ds with
  | nil => exact List.Sublist.refl _
  | cons d ds ih =>
    cases d with
    | persisted f => exact ih.cons_cons _
    | computed v => exact ih.cons _

theorem keys_virtuals_sublist (ds : List Definition) :
    (KeyMap.keys (virtuals ds)).Sublist (ds.map Definition.name) := by
  induction ds with
  | nil => exact List.Sublist.refl _
  | cons d ds ih =>
    cases d with
    | persisted f => exact ih.cons _
    | computed v => exact ih.cons_cons _

/-- **The catalog of a list is the same in every order.** -/
theorem addingAll_perm {ds ds' : List Definition} (h : ds.Perm ds')
    (hnodup : (ds.map Definition.name).Nodup) : addingAll {} ds = addingAll {} ds' := by
  have hcolumns := @KeyMap.ofPairs_perm _ (columns ds) (columns ds') (h.filterMap _)
    (hnodup.sublist (keys_columns_sublist ds))
  have hvirtuals := @KeyMap.ofPairs_perm _ (virtuals ds) (virtuals ds') (h.filterMap _)
    (hnodup.sublist (keys_virtuals_sublist ds))
  rw [addingAll_eq, addingAll_eq]
  exact congrArg₂ (fun fs vs => ({ fields := fs, virtualFields := vs } : Catalog)) hcolumns hvirtuals

/-- A virtual field of the list declares another one of the list as a dependency. -/
def Declares (ds : List Definition) (a b : String) : Prop :=
  ∃ v, .computed v ∈ ds ∧ v.name = a ∧ b ∈ v.dependencies ∧ ∃ w, .computed w ∈ ds ∧ w.name = b

/-- The graph of the catalog is the one that the list declares. -/
theorem needs_addingAll_empty {ds : List Definition} (hnodup : (ds.map Definition.name).Nodup) :
    (addingAll {} ds).Needs = Declares ds := by
  have hkeys : (KeyMap.keys (virtuals ds)).Nodup := hnodup.sublist (keys_virtuals_sublist ds)
  have hget : ∀ a v, KeyMap.get? a (addingAll {} ds).virtualFields = some v ↔
      .computed v ∈ ds ∧ v.name = a := by
    intro a v
    rw [addingAll_eq]
    exact (KeyMap.get?_ofPairs hkeys).trans mem_virtuals
  have hmem : ∀ b, b ∈ KeyMap.keys (addingAll {} ds).virtualFields ↔
      ∃ w, .computed w ∈ ds ∧ w.name = b := by
    intro b
    rw [← KeyMap.contains_eq_true_iff, KeyMap.contains, Option.isSome_iff_exists]
    exact exists_congr fun w => hget b w
  funext a b
  refine propext (exists_congr fun v => ?_)
  rw [hget, hmem, and_assoc]

/-- A list of definitions is accepted by an empty catalog exactly if all its names are distinct and
its graph has no cycle; the catalog is then the one of the list. -/
theorem foldlM_register_empty (ds : List Definition) (c : Catalog) :
    ds.foldlM register {} = .ok c ↔
      (ds.map Definition.name).Nodup ∧ Walk.Acyclic (Declares ds) ∧ c = addingAll {} ds := by
  rw [foldlM_register_ok_iff Lawful.empty, fresh_empty]
  exact and_congr_right fun hnodup => by rw [needs_addingAll_empty hnodup]

/-- What is accepted in one order is accepted in every other one, and makes the same catalog. -/
theorem foldlM_register_perm {ds ds' : List Definition} (h : ds.Perm ds') (c : Catalog) :
    ds.foldlM register {} = .ok c ↔ ds'.foldlM register {} = .ok c := by
  have hdeclares : Declares ds = Declares ds' := by
    funext a b
    unfold Declares
    simp only [h.mem_iff]
  rw [foldlM_register_empty, foldlM_register_empty, hdeclares, (h.map Definition.name).nodup_iff]
  refine and_congr_right fun hnodup => ?_
  rw [addingAll_perm h ((h.map _).nodup_iff.2 hnodup)]

end Catalog

/-! ## Texts -/

/-- A fold that makes something of each member before it uses it succeeds as the fold over what is
made. -/
theorem foldlM_ok_iff_forall₂ {ε α β σ : Type} {step : σ → α → Except ε σ} {next : σ → β → Except ε σ}
    {Makes : α → β → Prop}
    (hstep : ∀ s a s', step s a = .ok s' ↔ ∃ b, Makes a b ∧ next s b = .ok s')
    (as : List α) (s s' : σ) :
    as.foldlM step s = .ok s' ↔ ∃ bs, List.Forall₂ Makes as bs ∧ bs.foldlM next s = .ok s' := by
  induction as generalizing s with
  | nil =>
    constructor
    · intro h
      exact ⟨[], .nil, h⟩
    · rintro ⟨bs, hbs, h⟩
      cases hbs
      exact h
  | cons a as ih =>
    rw [List.foldlM_cons, Except.bind_eq_ok_iff]
    constructor
    · rintro ⟨s₁, ha, has⟩
      obtain ⟨b, hb, hnext⟩ := (hstep s a s₁).1 ha
      obtain ⟨bs, hbs, hrest⟩ := (ih s₁).1 has
      refine ⟨b :: bs, .cons hb hbs, ?_⟩
      rw [List.foldlM_cons, hnext]
      exact hrest
    · rintro ⟨bs, hbs, h⟩
      cases hbs with
      | @cons _ b _ bs hb hbs =>
        rw [List.foldlM_cons, Except.bind_eq_ok_iff] at h
        obtain ⟨s₁, hnext, hrest⟩ := h
        exact ⟨s₁, (hstep s a s₁).2 ⟨b, hb, hnext⟩, (ih s₁).2 ⟨bs, hbs, hrest⟩⟩

/-- A text about a virtual field describes it. -/
def VirtualSpec.Describes (table : ComputationTable) (s : VirtualSpec) (v : VirtualField) : Prop :=
  ∃ d, s.draft table = .ok d ∧ d.define = .ok v

namespace CatalogSpec

theorem addField_ok_iff (c : Catalog) (d : FieldDraft) (c' : Catalog) :
    addField c d = .ok c' ↔
      ∃ def', (∃ f, d.define = .ok f ∧ def' = Definition.persisted f) ∧ c.register def' = .ok c' := by
  unfold addField
  cases d.define with
  | error e => simp
  | ok f => simp [Catalog.register]

theorem addVirtual_ok_iff (table : ComputationTable) (c : Catalog) (s : VirtualSpec) (c' : Catalog) :
    addVirtual table c s = .ok c' ↔
      ∃ def', (∃ v, s.Describes table v ∧ def' = Definition.computed v) ∧
        c.register def' = .ok c' := by
  unfold addVirtual VirtualSpec.Describes
  cases s.draft table with
  | error e => simp
  | ok d =>
    cases hdefine : d.define with
    | error e => simp [hdefine]
    | ok v => simp [hdefine, Catalog.register]

/-- What the drafts of a text define, in the order of the text. -/
def Defines (s : CatalogSpec) (table : ComputationTable) (ds : List Definition) : Prop :=
  ∃ fs vs, List.Forall₂ (fun d def' => ∃ f, FieldDraft.define d = .ok f ∧ def' = .persisted f)
      s.fields fs ∧
    List.Forall₂ (fun w def' => ∃ v, VirtualSpec.Describes table w v ∧ def' = .computed v)
      s.virtualFields vs ∧
    ds = fs ++ vs

/-- A text is built as the list of what it defines. -/
theorem build_ok_iff (s : CatalogSpec) (table : ComputationTable) (c : Catalog) :
    s.build table = .ok c ↔
      ∃ ds c₀, s.Defines table ds ∧ ds.foldlM Catalog.register {} = .ok c₀ ∧
        s.aliases.foldlM (fun c p => c.registerAlias p.1 p.2) c₀ = .ok c := by
  unfold build Defines
  simp only [Except.bind_eq_ok_iff, foldlM_ok_iff_forall₂ addField_ok_iff,
    foldlM_ok_iff_forall₂ (addVirtual_ok_iff table)]
  constructor
  · rintro ⟨c₁, ⟨fs, hfs, hfields⟩, c₀, ⟨vs, hvs, hvirtuals⟩, haliases⟩
    refine ⟨fs ++ vs, c₀, ⟨fs, vs, hfs, hvs, rfl⟩, ?_, haliases⟩
    rw [List.foldlM_append, hfields]
    exact hvirtuals
  · rintro ⟨ds, c₀, ⟨fs, vs, hfs, hvs, rfl⟩, hall, haliases⟩
    rw [List.foldlM_append, Except.bind_eq_ok_iff] at hall
    obtain ⟨c₁, hfields, hvirtuals⟩ := hall
    exact ⟨c₁, ⟨fs, hfs, hfields⟩, c₀, ⟨vs, hvs, hvirtuals⟩, haliases⟩

/-- Drafts in another order define the same in another order. -/
theorem Defines.perm {s s' : CatalogSpec} {table : ComputationTable} {ds : List Definition}
    (hfields : s.fields.Perm s'.fields) (hvirtuals : s.virtualFields.Perm s'.virtualFields)
    (h : s.Defines table ds) : ∃ ds', s'.Defines table ds' ∧ ds.Perm ds' := by
  obtain ⟨fs, vs, hfs, hvs, rfl⟩ := h
  obtain ⟨fs', hfs', hpermFields⟩ := List.perm_comp_forall₂ hfields.symm hfs
  obtain ⟨vs', hvs', hpermVirtuals⟩ := List.perm_comp_forall₂ hvirtuals.symm hvs
  exact ⟨fs' ++ vs', ⟨fs', vs', hfs', hvs', rfl⟩, (hpermFields.append hpermVirtuals).symm⟩

theorem build_of_perm {s s' : CatalogSpec} {table : ComputationTable} {c : Catalog}
    (hfields : s.fields.Perm s'.fields) (hvirtuals : s.virtualFields.Perm s'.virtualFields)
    (haliases : s.aliases = s'.aliases) (h : s.build table = .ok c) : s'.build table = .ok c := by
  obtain ⟨ds, c₀, hds, hall, hrest⟩ := (build_ok_iff s table c).1 h
  obtain ⟨ds', hds', hperm⟩ := hds.perm hfields hvirtuals
  exact (build_ok_iff s' table c).2
    ⟨ds', c₀, hds', (Catalog.foldlM_register_perm hperm c₀).1 hall, haliases ▸ hrest⟩

end CatalogSpec

namespace Catalog

/-- **The order of registration does not matter.**  The definitions of a list are all accepted by an
empty catalog exactly if their names are distinct and no virtual field of the list needs itself; in
any other order they are accepted as well, and make the same catalog.  So do the texts that list
the same columns and virtual fields in different orders. -/
theorem register_anyOrder {ds ds' : List Definition} (h : ds.Perm ds') :
    ((∃ c, ds.foldlM register {} = .ok c) ↔
      (ds.map Definition.name).Nodup ∧ Walk.Acyclic (Declares ds)) ∧
    (∀ c, ds.foldlM register {} = .ok c ↔ ds'.foldlM register {} = .ok c) ∧
    ∀ (s s' : CatalogSpec) (table : ComputationTable), s.fields.Perm s'.fields →
      s.virtualFields.Perm s'.virtualFields → s.aliases = s'.aliases →
      ∀ c, s.build table = .ok c ↔ s'.build table = .ok c := by
  refine ⟨?_, foldlM_register_perm h, ?_⟩
  · simp only [foldlM_register_empty]
    constructor
    · rintro ⟨c, hnodup, hacyclic, -⟩
      exact ⟨hnodup, hacyclic⟩
    · rintro ⟨hnodup, hacyclic⟩
      exact ⟨_, hnodup, hacyclic, rfl⟩
  · intro s s' table hfields hvirtuals haliases c
    exact ⟨CatalogSpec.build_of_perm hfields hvirtuals haliases,
      CatalogSpec.build_of_perm hfields.symm hvirtuals.symm haliases.symm⟩

theorem exists_of_isOk {ε α : Type} {x : Except ε α} (h : x.isOk = true) : ∃ a, x = .ok a := by
  cases x with
  | error e => cases h
  | ok a => exact ⟨a, rfl⟩

/-- The first of some fields that has a value. -/
def firstOf (name : String) (dependencies : List String) : VirtualSpec where
  name := name
  fieldType := .decimal
  compute := "coalesce"
  dependencies := dependencies

/-- A text about a price and two virtual fields, of which the first needs the second. -/
def pricesText : CatalogSpec where
  fields := [{ name := "price", fieldType := .decimal }, { name := "stock", fieldType := .integer }]
  virtualFields := [firstOf "shown" ["reduced", "price"], firstOf "reduced" ["price"]]
  aliases := [("cost", "shown")]

/-- The same text read backwards. -/
def pricesTextBackwards : CatalogSpec where
  fields := pricesText.fields.reverse
  virtualFields := pricesText.virtualFields.reverse
  aliases := pricesText.aliases

/-- The definitions of the text. -/
def prices : List Definition :=
  (pricesText.fields.filterMap fun d => d.define.toOption.map .persisted) ++
    pricesText.virtualFields.filterMap fun w =>
      ((w.draft .builtin).bind VirtualDraft.define).toOption.map .computed

/-- A field may be registered before the ones that need it, or after them. -/
theorem prices_anyOrder :
    prices.Perm prices.reverse ∧
    (∃ c, prices.foldlM register {} = .ok c ∧ prices.reverse.foldlM register {} = .ok c) ∧
    Walk.Acyclic (Declares prices) ∧
    ∃ c, pricesText.build .builtin = .ok c ∧ pricesTextBackwards.build .builtin = .ok c := by
  have hperm : prices.Perm prices.reverse := (List.reverse_perm prices).symm
  obtain ⟨hiff, hsame, htexts⟩ := register_anyOrder hperm
  have hok : ∃ c, prices.foldlM register {} = .ok c := exists_of_isOk (by decide +kernel)
  have hbuilt : ∃ c, pricesText.build .builtin = .ok c := exists_of_isOk (by decide +kernel)
  have hacyclic := (hiff.1 hok).2
  obtain ⟨c, hc⟩ := hok
  obtain ⟨c', hc'⟩ := hbuilt
  exact ⟨hperm, ⟨c, hc, (hsame c).1 hc⟩, hacyclic, c', hc',
    (htexts pricesText pricesTextBackwards .builtin (List.reverse_perm _).symm
      (List.reverse_perm _).symm rfl c').1 hc'⟩

end Catalog

end FieldQuery
