import FieldQuery.Proofs.Catalog.Registration

/-!
# The order of computation

* `resolve_virtual` — in a lawful catalog no alias hides a virtual field;
* `computationOrder_eq` — the order of a virtual field is a walk over the graph of `references`.

Principal results: `computationOrder_spec` — the order lists exactly the virtual fields that can be
reached, each after the ones that it needs and the first one last.
-/

namespace FieldQuery.Catalog

open Relation

variable {c : Catalog}

theorem Lawful.name_of_get? (hc : Lawful c) {n : String} {v : VirtualField}
    (h : KeyMap.get? n c.virtualFields = some v) : v.name = n :=
  (hc.virtual_name _ (KeyMap.mem_of_get? h)).symm

theorem mem_keys_of_get? {n : String} {v : VirtualField}
    (h : KeyMap.get? n c.virtualFields = some v) : n ∈ KeyMap.keys c.virtualFields :=
  List.mem_map_of_mem (KeyMap.mem_of_get? h)

theorem get?_of_mem_keys {n : String} (h : n ∈ KeyMap.keys c.virtualFields) :
    ∃ v, KeyMap.get? n c.virtualFields = some v :=
  Option.isSome_iff_exists.1 (KeyMap.contains_eq_true_iff.2 h)

/-- The name of a virtual field is no alias. -/
theorem Lawful.resolve_virtual (hc : Lawful c) {n : String}
    (hn : n ∈ KeyMap.keys c.virtualFields) : c.resolve n = n := by
  unfold resolve
  cases halias : KeyMap.get? n c.aliases with
  | none => rfl
  | some target =>
    have : n ∈ KeyMap.keys c.aliases := List.mem_map_of_mem (KeyMap.mem_of_get? halias)
    exact absurd hn (hc.alias_not_virtual n this)

theorem Lawful.virtual?_eq (hc : Lawful c) {n : String} (hn : n ∈ KeyMap.keys c.virtualFields) :
    c.virtual? n = KeyMap.get? n c.virtualFields := by
  unfold virtual?
  rw [hc.resolve_virtual hn]

/-- What is found under a name or an alias stands under its own name. -/
theorem Lawful.get?_name (hc : Lawful c) {n : String} {v : VirtualField}
    (h : c.virtual? n = some v) : KeyMap.get? v.name c.virtualFields = some v := by
  unfold virtual? at h
  rw [hc.name_of_get? h]
  exact h

theorem Lawful.computationOrder_eq (hc : Lawful c) {n : String}
    (hn : n ∈ KeyMap.keys c.virtualFields) :
    c.computationOrder n = Walk.postorder c.references c.depth [] n := by
  unfold computationOrder
  rw [hc.resolve_virtual hn]
  exact if_pos (KeyMap.contains_eq_true_iff.2 hn)

theorem Lawful.acyclic_references (hc : Lawful c) : Walk.Acyclic (Walk.Edge c.references) := by
  rw [edge_references]
  exact hc.acyclic

/-- **The order of computation lists the virtual fields that one of them needs, each after the ones
it needs itself.** -/
theorem Lawful.computationOrder_spec (hc : Lawful c) {n : String}
    (hn : n ∈ KeyMap.keys c.virtualFields) :
    Walk.Finished c.references (c.computationOrder n).reverse ∧
      (∃ before, c.computationOrder n = before ++ [n]) ∧
      ∀ x, x ∈ c.computationOrder n ↔ ReflTransGen c.Needs n x := by
  rw [hc.computationOrder_eq hn, ← edge_references]
  exact Walk.postorder_spec c.references_closed hc.acyclic_references hn c.length_keys_lt_depth

/-- What a virtual field needs is a virtual field. -/
theorem mem_keys_of_reach {n x : String} (hn : n ∈ KeyMap.keys c.virtualFields)
    (h : ReflTransGen c.Needs n x) : x ∈ KeyMap.keys c.virtualFields := by
  cases h with
  | refl => exact hn
  | tail _ hlast =>
    obtain ⟨_, _, _, hkey⟩ := hlast
    exact hkey

theorem Lawful.mem_keys_of_order (hc : Lawful c) {n x : String}
    (hn : n ∈ KeyMap.keys c.virtualFields) (hx : x ∈ c.computationOrder n) :
    x ∈ KeyMap.keys c.virtualFields :=
  mem_keys_of_reach hn (((hc.computationOrder_spec hn).2.2 x).1 hx)

/-- The order is no longer than the table of virtual fields. -/
theorem Lawful.length_computationOrder_lt (hc : Lawful c) {n : String}
    (hn : n ∈ KeyMap.keys c.virtualFields) : (c.computationOrder n).length < c.depth := by
  have hnodup := (hc.computationOrder_spec hn).1.nodup
  have hsub : (c.computationOrder n).reverse ⊆ KeyMap.keys c.virtualFields :=
    fun x hx => hc.mem_keys_of_order hn (List.mem_reverse.1 hx)
  have hle := (List.subperm_of_subset hnodup hsub).length_le
  have := c.length_keys_lt_depth
  rw [List.length_reverse] at hle
  omega

end FieldQuery.Catalog
