import FieldQuery.Catalog.Basic
import FieldQuery.Proofs.Data.Walk

/-!
# What registrations keep

* `Needs` — a virtual field declares another one as a dependency;
* `Accepts` — the registrations that a catalog accepts, and what it is afterwards; `enter_spec`
  says that every registration is accepted in this way or leaves the catalog as it is;
* `Lawful` — names are used once, every definition stands under its own name, aliases name
  registered fields, and no virtual field needs itself;
* `enterAll` — registrations one after the other, those that are refused included.

A dependency may name a field that is registered later, so that a new virtual field turns old
dependencies into edges of the graph.  All these edges lead to the new name: `needs_withVirtual`.

Principal results: `checkAcyclic_ok_iff` — a new virtual field is accepted exactly if it closes no
cycle, `checkAcyclic_error` — the cycle that is told is one through the new name, `Lawful.enterAll`
and `enterAll_spec` — what holds after every run of registrations.
-/

namespace FieldQuery.Catalog

open Relation

/-- A virtual field declares another one as a dependency. -/
def Needs (c : Catalog) (a b : String) : Prop :=
  ∃ v, KeyMap.get? a c.virtualFields = some v ∧ b ∈ v.dependencies ∧
    b ∈ KeyMap.keys c.virtualFields

/-- Registrations one after the other. -/
def enterAll (c : Catalog) (rs : List Registration) : Catalog :=
  rs.foldl (fun c r => (c.enter r).2) c

/-- Names are used once, every definition stands under its own name, aliases name registered
fields, and no virtual field needs itself. -/
structure Lawful (c : Catalog) : Prop where
  field_name : ∀ p ∈ c.fields, p.1 = p.2.name
  virtual_name : ∀ p ∈ c.virtualFields, p.1 = p.2.name
  field_not_virtual : ∀ k ∈ KeyMap.keys c.fields, k ∉ KeyMap.keys c.virtualFields
  alias_not_field : ∀ k ∈ KeyMap.keys c.aliases, k ∉ KeyMap.keys c.fields
  alias_not_virtual : ∀ k ∈ KeyMap.keys c.aliases, k ∉ KeyMap.keys c.virtualFields
  alias_target : ∀ p ∈ c.aliases,
    p.2 ∈ KeyMap.keys c.fields ∨ p.2 ∈ KeyMap.keys c.virtualFields
  acyclic : Walk.Acyclic c.Needs

/-- The registrations that a catalog accepts, and the catalog after them. -/
inductive Accepts (c : Catalog) : Registration → Catalog → Prop
  | field {f : Field} (hfree : c.isTaken f.name = false) :
      Accepts c (.field f) { c with fields := KeyMap.insert f.name f c.fields }
  | virtual {v : VirtualField} (hfree : c.isTaken v.name = false)
      (hacyclic : (c.withVirtual v).checkAcyclic v.name = .ok ()) :
      Accepts c (.virtual v) (c.withVirtual v)
  | aliased {name target : String} (hfree : c.isTaken name = false)
      (htarget : target ∈ KeyMap.keys c.fields ∨ target ∈ KeyMap.keys c.virtualFields) :
      Accepts c (.aliased name target) { c with aliases := KeyMap.insert name target c.aliases }

/-! ## The graph of virtual fields -/

theorem mem_references {c : Catalog} {a b : String} : b ∈ c.references a ↔ c.Needs a b := by
  unfold references Needs
  cases KeyMap.get? a c.virtualFields with
  | none => simp
  | some v => simp [KeyMap.contains_eq_true_iff]

theorem edge_references (c : Catalog) : Walk.Edge c.references = c.Needs := by
  funext a b
  exact propext mem_references

/-- The edges of a new virtual field all touch its name. -/
theorem needs_withVirtual {c : Catalog} {v : VirtualField} {a b : String}
    (h : (c.withVirtual v).Needs a b) : c.Needs a b ∨ a = v.name ∨ b = v.name := by
  obtain ⟨w, hw, hb, hkey⟩ := h
  by_cases ha : a = v.name
  · exact .inr (.inl ha)
  rcases KeyMap.mem_keys_insert.1 hkey with hv | hkey
  · exact .inr (.inr hv)
  · refine .inl ⟨w, ?_, hb, hkey⟩
    rw [← hw]
    exact (KeyMap.get?_insert_ne ha v c.virtualFields).symm

/-- Both ends of an edge are virtual fields. -/
theorem references_closed (c : Catalog) :
    ∀ a ∈ KeyMap.keys c.virtualFields, ∀ b ∈ c.references a, b ∈ KeyMap.keys c.virtualFields := by
  intro a _ b hb
  obtain ⟨_, _, _, hkey⟩ := mem_references.1 hb
  exact hkey

theorem length_keys_lt_depth (c : Catalog) : (KeyMap.keys c.virtualFields).length < c.depth := by
  simp [KeyMap.keys, depth]

theorem name_mem_withVirtual (c : Catalog) (v : VirtualField) :
    v.name ∈ KeyMap.keys (c.withVirtual v).virtualFields :=
  KeyMap.mem_keys_insert.2 (.inl rfl)

/-! ## The search for cycles -/

/-- What the search for cycles finds on the way from a virtual field. -/
theorem findCycle_references (c : Catalog) {name : String}
    (hname : name ∈ KeyMap.keys c.virtualFields) :
    Walk.Returns c.references [] [] name
      (Walk.findCycle c.references c.depth [] [] name) :=
  Walk.findCycle_spec c.references_closed c.depth [] [] name
    (.start hname c.length_keys_lt_depth) trivial

/-- **A virtual field is accepted exactly if it closes no cycle.** -/
theorem checkAcyclic_ok_iff {c : Catalog} (hacyclic : Walk.Acyclic c.Needs) (v : VirtualField) :
    (c.withVirtual v).checkAcyclic v.name = .ok () ↔ Walk.Acyclic (c.withVirtual v).Needs := by
  have hspec := (c.withVirtual v).findCycle_references (c.name_mem_withVirtual v)
  unfold checkAcyclic
  split
  · rename_i chain e
    rw [e] at hspec
    obtain ⟨a, hcycle⟩ := Walk.Closed.cycle hspec
    rw [edge_references] at hcycle
    refine ⟨fun h => ?_, fun h => absurd hcycle (h a)⟩
    cases h
  · rename_i done e
    rw [e] at hspec
    refine ⟨fun _ => ?_, fun _ => rfl⟩
    refine Walk.Acyclic.of_new (n := v.name) (fun a b => needs_withVirtual) hacyclic ?_
    rw [← edge_references]
    exact hspec.finished.acyclic hspec.mem

/-- **The cycle that is told leads from the new name back to it.** -/
theorem checkAcyclic_error {c : Catalog} (hacyclic : Walk.Acyclic c.Needs) {v : VirtualField}
    {e : DefinitionError} (h : (c.withVirtual v).checkAcyclic v.name = .error e) :
    ∃ between, e = .circularDependency (v.name :: between ++ [v.name]) ∧
      (v.name :: between).Nodup ∧
      (v.name :: between ++ [v.name]).IsChain (c.withVirtual v).Needs := by
  have hspec := (c.withVirtual v).findCycle_references (c.name_mem_withVirtual v)
  unfold checkAcyclic at h
  split at h
  · rename_i chain e
    cases h
    rw [e] at hspec
    obtain ⟨before, a, between, rfl, hnodup, hchain, hstart⟩ := hspec
    rw [edge_references] at hchain
    cases before with
    | nil =>
      obtain rfl : v.name = a := by simpa using hstart
      exact ⟨between, rfl, hnodup, hchain⟩
    | cons b before =>
      -- otherwise the walk has left its first name for good, and the cycle is an old one
      obtain rfl : v.name = b := by simpa using hstart
      rw [List.append_assoc] at hchain
      have hold : (a :: between ++ [a]).IsChain c.Needs := by
        refine (List.isChain_append.1 hchain).2.1.imp_of_mem_imp ?_
        intro x y hx hy hxy
        have hne : ∀ z ∈ a :: between ++ [a], z ≠ v.name := by
          intro z hz hzv
          refine (List.nodup_cons.1 hnodup).1 (List.mem_append_right _ ?_)
          rw [← hzv]
          rcases List.mem_append.1 hz with hz | hz
          · exact hz
          · exact List.mem_singleton.1 hz ▸ List.mem_cons_self
        rcases needs_withVirtual hxy with h | h | h
        · exact h
        · exact absurd h (hne x hx)
        · exact absurd h (hne y hy)
      exact absurd (Walk.transGen_of_isChain hold) (hacyclic a)
  · cases h

/-! ## One registration -/

theorem isTaken_eq_false_iff {c : Catalog} {name : String} :
    c.isTaken name = false ↔ name ∉ KeyMap.keys c.fields ∧
      name ∉ KeyMap.keys c.virtualFields ∧ name ∉ KeyMap.keys c.aliases := by
  unfold isTaken
  rw [Bool.or_eq_false_iff, Bool.or_eq_false_iff, KeyMap.contains_eq_false_iff,
    KeyMap.contains_eq_false_iff, KeyMap.contains_eq_false_iff, and_assoc]

theorem ensureFree_eq_ok_iff {c : Catalog} {name : String} :
    c.ensureFree name = .ok () ↔ c.isTaken name = false := by
  unfold ensureFree
  cases c.isTaken name <;> simp

/-- A virtual field that closes a cycle is taken out again without a trace. -/
theorem withoutVirtual_withVirtual {c : Catalog} {v : VirtualField}
    (hfree : c.isTaken v.name = false) : (c.withVirtual v).withoutVirtual v.name = c := by
  unfold withoutVirtual withVirtual
  simp only [KeyMap.erase_insert (isTaken_eq_false_iff.1 hfree).2.1]

/-- **A registration is accepted, or it leaves the catalog as it is.** -/
theorem enter_spec (c : Catalog) (r : Registration) :
    (∃ e, c.enter r = (.error e, c)) ∨ ∃ c', c.enter r = (.ok (), c') ∧ c.Accepts r c' := by
  cases r with
  | field f =>
    show (∃ e, c.enterField f = (.error e, c)) ∨ ∃ c', c.enterField f = (.ok (), c') ∧ _
    unfold enterField
    split
    · rename_i e he
      exact .inl ⟨e, rfl⟩
    · rename_i hfree
      exact .inr ⟨_, rfl, .field (ensureFree_eq_ok_iff.1 hfree)⟩
  | virtual v =>
    show (∃ e, c.enterVirtual v = (.error e, c)) ∨ ∃ c', c.enterVirtual v = (.ok (), c') ∧ _
    unfold enterVirtual
    split
    · rename_i e he
      exact .inl ⟨e, rfl⟩
    · rename_i hfree
      rw [ensureFree_eq_ok_iff] at hfree
      dsimp only
      split
      · rename_i e he
        exact .inl ⟨e, by rw [withoutVirtual_withVirtual hfree]⟩
      · rename_i hacyclic
        exact .inr ⟨_, rfl, .virtual hfree hacyclic⟩
  | aliased name target =>
    show (∃ e, c.enterAlias name target = (.error e, c)) ∨
      ∃ c', c.enterAlias name target = (.ok (), c') ∧ _
    unfold enterAlias
    split
    · rename_i e he
      exact .inl ⟨e, rfl⟩
    · split
      · rename_i e he
        exact .inl ⟨e, rfl⟩
      · rename_i hfree
        split
        · rename_i htarget
          refine .inr ⟨_, rfl, .aliased (ensureFree_eq_ok_iff.1 hfree) ?_⟩
          rw [Bool.or_eq_true] at htarget
          exact htarget.imp KeyMap.contains_eq_true_iff.1 KeyMap.contains_eq_true_iff.1
        · exact .inl ⟨_, rfl⟩

/-- A virtual field under a free name is answered by the search for cycles. -/
theorem enter_virtual_of_free {c : Catalog} {v : VirtualField} (hfree : c.isTaken v.name = false) :
    (c.enter (.virtual v)).1 = (c.withVirtual v).checkAcyclic v.name := by
  show (c.enterVirtual v).1 = _
  unfold enterVirtual
  rw [ensureFree_eq_ok_iff.2 hfree]
  dsimp only
  split
  · rename_i e he
    exact he.symm
  · rename_i hok
    exact hok.symm

/-! ## Every run of registrations -/

theorem Lawful.empty : Lawful {} where
  field_name := by intro p hp; cases hp
  virtual_name := by intro p hp; cases hp
  field_not_virtual := by intro k hk; cases hk
  alias_not_field := by intro k hk; cases hk
  alias_not_virtual := by intro k hk; cases hk
  alias_target := by intro p hp; cases hp
  acyclic := by
    intro a h
    obtain ⟨b, h, -⟩ := (TransGen.head'_iff.1 h)
    obtain ⟨v, hv, -⟩ := h
    cases hv

/-- An alias names a definition, so it names no alias. -/
theorem Lawful.target_not_alias {c : Catalog} (h : Lawful c) {p : String × String}
    (hp : p ∈ c.aliases) : p.2 ∉ KeyMap.keys c.aliases := by
  intro halias
  rcases h.alias_target p hp with htarget | htarget
  · exact h.alias_not_field p.2 halias htarget
  · exact h.alias_not_virtual p.2 halias htarget

/-- What a catalog accepts keeps it lawful. -/
theorem Lawful.accepts {c c' : Catalog} {r : Registration} (h : Lawful c) (hr : c.Accepts r c') :
    Lawful c' := by
  cases hr with
  | @field f hfree =>
    obtain ⟨-, hvirtual, halias⟩ := isTaken_eq_false_iff.1 hfree
    refine { h with
      field_name := ?_
      field_not_virtual := ?_
      alias_not_field := ?_
      alias_target := ?_ }
    · intro p hp
      rcases KeyMap.mem_insert hp with rfl | hp
      · rfl
      · exact h.field_name p hp
    · intro k hk
      rcases KeyMap.mem_keys_insert.1 hk with rfl | hk
      · exact hvirtual
      · exact h.field_not_virtual k hk
    · intro k hk hmem
      rcases KeyMap.mem_keys_insert.1 hmem with rfl | hmem
      · exact halias hk
      · exact h.alias_not_field k hk hmem
    · intro p hp
      exact (h.alias_target p hp).imp_left fun ht => KeyMap.mem_keys_insert.2 (.inr ht)
  | @virtual v hfree hacyclic =>
    obtain ⟨hfield, -, halias⟩ := isTaken_eq_false_iff.1 hfree
    refine { h with
      virtual_name := ?_
      field_not_virtual := ?_
      alias_not_virtual := ?_
      alias_target := ?_
      acyclic := (checkAcyclic_ok_iff h.acyclic v).1 hacyclic }
    · intro p hp
      rcases KeyMap.mem_insert hp with rfl | hp
      · rfl
      · exact h.virtual_name p hp
    · intro k hk hmem
      rcases KeyMap.mem_keys_insert.1 hmem with rfl | hmem
      · exact hfield hk
      · exact h.field_not_virtual k hk hmem
    · intro k hk hmem
      rcases KeyMap.mem_keys_insert.1 hmem with rfl | hmem
      · exact halias hk
      · exact h.alias_not_virtual k hk hmem
    · intro p hp
      exact (h.alias_target p hp).imp_right fun ht => KeyMap.mem_keys_insert.2 (.inr ht)
  | @aliased name target hfree htarget =>
    obtain ⟨hfield, hvirtual, -⟩ := isTaken_eq_false_iff.1 hfree
    refine { h with
      alias_not_field := ?_
      alias_not_virtual := ?_
      alias_target := ?_ }
    · intro k hk
      rcases KeyMap.mem_keys_insert.1 hk with rfl | hk
      · exact hfield
      · exact h.alias_not_field k hk
    · intro k hk
      rcases KeyMap.mem_keys_insert.1 hk with rfl | hk
      · exact hvirtual
      · exact h.alias_not_virtual k hk
    · intro p hp
      rcases KeyMap.mem_insert hp with rfl | hp
      · exact htarget
      · exact h.alias_target p hp

theorem Lawful.enter {c : Catalog} (h : Lawful c) (r : Registration) : Lawful (c.enter r).2 := by
  rcases c.enter_spec r with ⟨e, he⟩ | ⟨c', hc', hr⟩
  · rw [he]
    exact h
  · rw [hc']
    exact h.accepts hr

theorem Lawful.enterAll {c : Catalog} (h : Lawful c) (rs : List Registration) :
    Lawful (c.enterAll rs) := by
  induction rs generalizing c with
  | nil => exact h
  | cons r rs ih => exact ih (h.enter r)

/-- **Every run of registrations leaves a lawful catalog, whatever was refused on the way.**  What
is refused changes nothing, and a virtual field under a free name is refused as circular exactly
if it would close a cycle; the chain that is told is such a cycle, from the new name back to it
with no other name twice. -/
theorem enterAll_spec (rs : List Registration) :
    Lawful (enterAll {} rs) ∧
    (∀ p ∈ (enterAll {} rs).aliases, p.2 ∉ KeyMap.keys (enterAll {} rs).aliases) ∧
    (∀ r e, ((enterAll {} rs).enter r).1 = .error e →
      ((enterAll {} rs).enter r).2 = enterAll {} rs) ∧
    ∀ v : VirtualField, (enterAll {} rs).isTaken v.name = false →
      ((∃ chain, ((enterAll {} rs).enter (.virtual v)).1 = .error (.circularDependency chain)) ↔
        ¬ Walk.Acyclic ((enterAll {} rs).withVirtual v).Needs) ∧
      ∀ chain, ((enterAll {} rs).enter (.virtual v)).1 = .error (.circularDependency chain) →
        ∃ between, chain = v.name :: between ++ [v.name] ∧ (v.name :: between).Nodup ∧
          chain.IsChain ((enterAll {} rs).withVirtual v).Needs := by
  have hlawful : Lawful (Catalog.enterAll {} rs) := Lawful.empty.enterAll rs
  generalize Catalog.enterAll {} rs = c at hlawful
  refine ⟨hlawful, fun p hp => hlawful.target_not_alias hp, ?_, ?_⟩
  · intro r e he
    rcases c.enter_spec r with ⟨e', he'⟩ | ⟨c', hc', -⟩
    · rw [he']
    · rw [hc'] at he
      cases he
  · intro v hfree
    rw [enter_virtual_of_free hfree, ← checkAcyclic_ok_iff hlawful.acyclic v]
    refine ⟨⟨?_, ?_⟩, ?_⟩
    · rintro ⟨chain, hchain⟩ hok
      rw [hok] at hchain
      cases hchain
    · intro hnot
      cases hcheck : (c.withVirtual v).checkAcyclic v.name with
      | ok u => exact absurd hcheck hnot
      | error e =>
        obtain ⟨between, rfl, -, -⟩ := checkAcyclic_error hlawful.acyclic hcheck
        exact ⟨_, rfl⟩
    · intro chain hchain
      obtain ⟨between, he, hnodup, hneeds⟩ := checkAcyclic_error hlawful.acyclic hchain
      cases he
      exact ⟨between, rfl, hnodup, hneeds⟩

end FieldQuery.Catalog
