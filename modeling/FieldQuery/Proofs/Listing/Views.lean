import FieldQuery.Listing.Rows
import FieldQuery.Proofs.Listing.Plan
import FieldQuery.Proofs.Request.Wishes

/-!
# What a row shows

A row is shown as an object with what has been asked for, as far as its entity has it.  Names may clash: a
virtual field hides a relation, a relation a column, and each of them the identity.

* `Entity.Ordered` — attributes stand under different names, in order, and so do those of related records;
* `RelatedView` — a related record with the columns that are asked for;
* `Entry` — what a row shows under a name, `RowView` — a row with nothing but its entries.

Principal results: `ordered_ofJson` — records that are read are ordered, `get?_toFields` — what the object
of a record has under a name, `render_view` — a row shows what is asked for, and `RowView.unique` — what is
asked for determines it.
-/

namespace FieldQuery

/-- Attributes stand in the order of their names, and so do those of related records. -/
structure Entity.Ordered (e : Entity) : Prop where
  attributes : KeyMap.Sorted e.attributes
  related : ∀ r ∈ e.relations, ∀ e' ∈ r.2, KeyMap.Sorted e'.attributes

/-! ## Records that are read -/

namespace Entity

theorem ordered_nil (entityType : String) (id : EntityId) : (Entity.mk entityType id [] []).Ordered :=
  ⟨KeyMap.sorted_nil, fun _ hr => absurd hr List.not_mem_nil⟩

theorem Ordered.setAttribute {e : Entity} (h : e.Ordered) (name : String) (v : Value) :
    (e.setAttribute name v).Ordered := ⟨h.attributes.insert, h.related⟩

theorem Ordered.setRelation {e : Entity} (h : e.Ordered) (name : String) {related : List Entity}
    (hrelated : ∀ e' ∈ related, e'.Ordered) : (e.setRelation name related).Ordered := by
  refine ⟨h.attributes, fun r hr => ?_⟩
  rcases KeyMap.mem_insert hr with rfl | hr
  · exact fun e' he' => (hrelated e' he').attributes
  · exact h.related r hr

mutual

/-- **A record that is read has its attributes in order.** -/
theorem ordered_ofJson {entityType : String} {j : Json} {e : Entity} (h : ofJson entityType j = .ok e) :
    e.Ordered := by
  match j with
  | .object fields =>
    rw [ofJson] at h
    split at h
    · cases h
    · exact ordered_ofFields (ordered_nil _ _) h
  | .null | .bool _ | .int _ | .float _ | .text _ | .array _ =>
    rw [ofJson] at h
    cases h

theorem ordered_ofFields {entityType : String} {fields : List (String × Json)} {e e' : Entity}
    (he : e.Ordered) (h : ofFields entityType fields e = .ok e') : e'.Ordered := by
  match fields with
  | [] =>
    rw [ofFields] at h
    cases h
    exact he
  | (k, .object nested) :: rest =>
    rw [ofFields] at h
    split at h
    · cases h
    · split at h
      · cases h
      · rename_i r hr
        exact ordered_ofFields (he.setRelation k (List.forall_mem_singleton.2
          (ordered_ofFields (ordered_nil _ _) hr))) h
  | (k, .array items) :: rest =>
    rw [ofFields] at h
    split at h
    · split at h
      · cases h
      · rename_i related hrelated
        exact ordered_ofFields (he.setRelation k (ordered_ofItems hrelated)) h
    · split at h
      · exact ordered_ofFields (he.setAttribute k _) h
      · cases h
  | (k, .null) :: rest | (k, .bool _) :: rest | (k, .int _) :: rest | (k, .float _) :: rest
  | (k, .text _) :: rest =>
    rw [ofFields] at h
    split at h
    · exact ordered_ofFields (he.setAttribute k _) h
    · cases h
    all_goals simp

theorem ordered_ofItems {entityType : String} {items : List Json} {es : List Entity}
    (h : ofItems entityType items = .ok es) : ∀ e ∈ es, e.Ordered := by
  match items with
  | [] =>
    rw [ofItems] at h
    cases h
    exact fun e he => absurd he List.not_mem_nil
  | j :: items =>
    rw [ofItems] at h
    split at h
    · cases h
    · rename_i e he
      split at h
      · cases h
      · rename_i es hes
        cases h
        exact List.forall_mem_cons.2 ⟨ordered_ofJson he, ordered_ofItems hes⟩

end

end Entity

/-! ## Views -/

/-- What a related record shows under a name: a column that is asked for, else the identity. -/
def Entity.nested? (ws : List Wish) (relation : String) (e : Entity) (key : String) : Option Json :=
  (if .related relation "*" ∈ ws ∨ .related relation key ∈ ws then
    (e.attribute? key).map Value.toJson else none).or
      (if key = "id" then some e.id.toJson else none)

/-- An object of a related record with the columns that are asked for, and nothing else. -/
def RelatedView (ws : List Wish) (relation : String) (e : Entity) (j : Json) : Prop :=
  ∃ m : KeyMap Json, j = .object m ∧ KeyMap.Sorted m ∧
    ∀ key, KeyMap.get? key m = e.nested? ws relation key

/-- What a row shows under a name. -/
inductive Entry (ws : List Wish) (e : Entity) (computed : KeyMap Value) (key : String) :
    Option Json → Prop
  | virtual {a : Value} (hasked : .virtual key ∈ ws) (ha : KeyMap.get? key computed = some a) :
      Entry ws e computed key (some a.toJson)
  | relation {column : String} {related : List Entity} {items : List Json}
      (hvirtual : .virtual key ∉ ws) (hasked : .related key column ∈ ws)
      (hrelated : e.relation? key = some related)
      (hitems : List.Forall₂ (RelatedView ws key) related items) :
      Entry ws e computed key (some (.array items))
  | column {a : Value} (hvirtual : .virtual key ∉ ws)
      (hrelation : ∀ column, .related key column ∈ ws → e.relation? key = none)
      (hasked : .column key ∈ ws) (ha : e.attribute? key = some a) :
      Entry ws e computed key (some a.toJson)
  | identity (hvirtual : .virtual key ∉ ws)
      (hrelation : ∀ column, .related key column ∈ ws → e.relation? key = none)
      (hcolumn : .column key ∈ ws → e.attribute? key = none) (hkey : key = "id") :
      Entry ws e computed key (some e.id.toJson)
  | nothing (hvirtual : .virtual key ∉ ws)
      (hrelation : ∀ column, .related key column ∈ ws → e.relation? key = none)
      (hcolumn : .column key ∈ ws → e.attribute? key = none) (hkey : key ≠ "id") :
      Entry ws e computed key none

/-- An object of a row with its entries, and nothing else. -/
def RowView (ws : List Wish) (e : Entity) (computed : KeyMap Value) (j : Json) : Prop :=
  ∃ m : KeyMap Json, j = .object m ∧ KeyMap.Sorted m ∧
    ∀ key, Entry ws e computed key (KeyMap.get? key m)

section Unique

variable {ws ws' : List Wish} (hsame : ∀ w, w ∈ ws' ↔ w ∈ ws) {e : Entity}

include hsame

theorem RelatedView.unique {relation : String} {j j' : Json} (h : RelatedView ws relation e j)
    (h' : RelatedView ws' relation e j') : j' = j := by
  obtain ⟨m, rfl, hsorted, hget⟩ := h
  obtain ⟨m', rfl, hsorted', hget'⟩ := h'
  rw [hsorted'.ext hsorted fun key a => ?_]
  rw [hget, hget']
  unfold Entity.nested?
  simp only [hsame]

theorem RelatedView.uniques {relation : String} {es : List Entity} {items items' : List Json}
    (h : List.Forall₂ (RelatedView ws relation) es items)
    (h' : List.Forall₂ (RelatedView ws' relation) es items') : items' = items := by
  induction h generalizing items' with
  | nil =>
    cases h'
    rfl
  | cons hfirst _ ih =>
    cases h' with
    | cons hfirst' hrest' => rw [hfirst.unique hsame hfirst', ih hrest']

theorem Entry.unique {computed computed' : KeyMap Value} {key : String}
    (hcomputed : .virtual key ∈ ws → KeyMap.get? key computed' = KeyMap.get? key computed)
    {x x' : Option Json} (h : Entry ws e computed key x) (h' : Entry ws' e computed' key x') : x' = x := by
  cases h with
  | virtual hasked ha =>
    cases h' with
    | virtual _ ha' =>
      rw [hcomputed hasked, ha] at ha'
      cases ha'
      rfl
    | relation hvirtual | column hvirtual | identity hvirtual | nothing hvirtual =>
      exact absurd ((hsame _).2 hasked) hvirtual
  | relation hvirtual hasked hrelated hitems =>
    cases h' with
    | virtual hasked' => exact absurd ((hsame _).1 hasked') hvirtual
    | relation _ _ hrelated' hitems' =>
      cases hrelated.symm.trans hrelated'
      rw [RelatedView.uniques hsame hitems hitems']
    | column _ hrelation | identity _ hrelation | nothing _ hrelation =>
      rw [hrelation _ ((hsame _).2 hasked)] at hrelated
      cases hrelated
  | column hvirtual hrelation hasked ha =>
    cases h' with
    | virtual hasked' => exact absurd ((hsame _).1 hasked') hvirtual
    | relation _ hasked' hrelated' =>
      rw [hrelation _ ((hsame _).1 hasked')] at hrelated'
      cases hrelated'
    | column _ _ _ ha' =>
      cases ha.symm.trans ha'
      rfl
    | identity _ _ hcolumn | nothing _ _ hcolumn =>
      rw [hcolumn ((hsame _).2 hasked)] at ha
      cases ha
  | identity hvirtual hrelation hcolumn hkey =>
    cases h' with
    | virtual hasked' => exact absurd ((hsame _).1 hasked') hvirtual
    | relation _ hasked' hrelated' =>
      rw [hrelation _ ((hsame _).1 hasked')] at hrelated'
      cases hrelated'
    | column _ _ hasked' ha' =>
      rw [hcolumn ((hsame _).1 hasked')] at ha'
      cases ha'
    | identity => rfl
    | nothing _ _ _ hkey' => exact absurd hkey hkey'
  | nothing hvirtual hrelation hcolumn hkey =>
    cases h' with
    | virtual hasked' => exact absurd ((hsame _).1 hasked') hvirtual
    | relation _ hasked' hrelated' =>
      rw [hrelation _ ((hsame _).1 hasked')] at hrelated'
      cases hrelated'
    | column _ _ hasked' ha' =>
      rw [hcolumn ((hsame _).1 hasked')] at ha'
      cases ha'
    | identity _ _ _ hkey' => exact absurd hkey' hkey
    | nothing => rfl

/-- **What is asked for determines what is shown**, in whatever order and however often it is asked for. -/
theorem RowView.unique {computed computed' : KeyMap Value}
    (hcomputed : ∀ field, .virtual field ∈ ws → KeyMap.get? field computed' = KeyMap.get? field computed)
    {j j' : Json} (h : RowView ws e computed j) (h' : RowView ws' e computed' j') : j' = j := by
  obtain ⟨m, rfl, hsorted, hentries⟩ := h
  obtain ⟨m', rfl, hsorted', hentries'⟩ := h'
  rw [hsorted'.ext hsorted fun key a => ?_]
  rw [(hentries key).unique hsame (hcomputed key) (hentries' key)]

end Unique

/-! ## Objects of records -/

namespace Entity

theorem toJsons_eq (es : List Entity) : toJsons es = es.map toJson := by
  induction es with
  | nil => rfl
  | cons e es ih =>
    rw [toJsons, ih]
    rfl

/-- A table in which attributes have been set. -/
theorem lookup_attributeFields {attributes : KeyMap Value} (h : (KeyMap.keys attributes).Nodup)
    (fields : KeyMap Json) (key : String) :
    KeyMap.get? key (attributeFields attributes fields) =
      ((KeyMap.get? key attributes).map Value.toJson).or (KeyMap.get? key fields) := by
  unfold attributeFields
  induction attributes generalizing fields with
  | nil => rfl
  | cons a attributes ih =>
    obtain ⟨name, v⟩ := a
    obtain ⟨hnew, hrest⟩ := List.nodup_cons.1 h
    rw [List.foldl_cons, ih hrest, KeyMap.get?_cons]
    by_cases hkey : key = name
    · subst hkey
      have hnone : KeyMap.get? key attributes = none := by
        rw [← Option.not_isSome_iff_eq_none]
        exact fun hsome => hnew (KeyMap.contains_eq_true_iff.1 hsome)
      rw [if_pos rfl, hnone, KeyMap.get?_insert]
      rfl
    · rw [if_neg hkey, KeyMap.get?_insert_ne hkey]

/-- A table in which relations have been set. -/
theorem lookup_relationFields {rels : KeyMap (List Entity)} (h : (KeyMap.keys rels).Nodup)
    (fields : KeyMap Json) (key : String) :
    KeyMap.get? key (relationFields rels fields) =
      ((KeyMap.get? key rels).map fun related => .array (related.map toJson)).or
        (KeyMap.get? key fields) := by
  induction rels generalizing fields with
  | nil =>
    unfold relationFields
    rfl
  | cons r rels ih =>
    obtain ⟨name, related⟩ := r
    obtain ⟨hnew, hrest⟩ := List.nodup_cons.1 h
    unfold relationFields
    rw [ih hrest, KeyMap.get?_cons, toJsons_eq]
    by_cases hkey : key = name
    · subst hkey
      have hnone : KeyMap.get? key rels = none := by
        rw [← Option.not_isSome_iff_eq_none]
        exact fun hsome => hnew (KeyMap.contains_eq_true_iff.1 hsome)
      rw [if_pos rfl, hnone, KeyMap.get?_insert]
      rfl
    · rw [if_neg hkey, KeyMap.get?_insert_ne hkey]

/-- **What the object of a record has under a name**: a relation, else an attribute, else the identity. -/
theorem get?_toFields {e : Entity} (hattributes : (KeyMap.keys e.attributes).Nodup)
    (hrelations : (KeyMap.keys e.relations).Nodup) (key : String) :
    KeyMap.get? key e.toFields =
      ((e.relation? key).map fun related => .array (related.map toJson)).or
        (((e.attribute? key).map Value.toJson).or (if key = "id" then some e.id.toJson else none)) := by
  cases e with
  | mk entityType id attributes rels =>
    have hnodup : (KeyMap.keys attributes).Nodup := hattributes
    have hnodup' : (KeyMap.keys rels).Nodup := hrelations
    unfold toFields
    rw [lookup_relationFields hnodup', lookup_attributeFields hnodup]
    rfl

theorem sorted_relationFields (rels : List (String × List Entity)) {fields : KeyMap Json}
    (h : KeyMap.Sorted fields) : KeyMap.Sorted (relationFields rels fields) := by
  induction rels generalizing fields with
  | nil =>
    unfold relationFields
    exact h
  | cons r rels ih =>
    obtain ⟨name, related⟩ := r
    unfold relationFields
    exact ih h.insert

theorem sorted_toFields (e : Entity) : KeyMap.Sorted e.toFields := by
  cases e with
  | mk entityType id attributes rels =>
    unfold toFields
    refine sorted_relationFields rels ?_
    unfold attributeFields
    refine List.foldlRecOn attributes _ (List.pairwise_singleton _ _) fun m hm a _ => ?_
    exact KeyMap.Sorted.insert hm

/-! ### What is kept of a record -/

variable {e : Entity}

theorem keepColumns_sublist (columns : Columns) (attributes : KeyMap Value) :
    (keepColumns columns attributes).Sublist attributes := by
  unfold keepColumns
  split
  · exact List.filter_sublist
  · exact List.Sublist.refl _

theorem nodup_keepColumns {attributes : KeyMap Value} (h : KeyMap.Sorted attributes) (columns : Columns) :
    (KeyMap.keys (keepColumns columns attributes)).Nodup :=
  List.Nodup.sublist (List.Sublist.map Prod.fst (keepColumns_sublist columns attributes)) h.nodup_keys

theorem Ordered.project (h : e.Ordered) (columns : Columns) (rels : KeyMap Columns) :
    (e.project columns rels).Ordered where
  attributes := List.Pairwise.sublist (keepColumns_sublist columns e.attributes) h.attributes
  related r hr e' he' := by
    obtain ⟨⟨name, nested⟩, -, hsome⟩ := List.mem_filterMap.1 hr
    obtain ⟨related, hrelated, rfl⟩ := Option.map_eq_some_iff.1 hsome
    obtain ⟨e₀, he₀, rfl⟩ := List.mem_map.1 he'
    exact List.Pairwise.sublist (keepColumns_sublist nested e₀.attributes)
      (h.related (name, related) (KeyMap.mem_of_get? hrelated) e₀ he₀)

/-- An attribute that is kept if its column is. -/
theorem get?_keepColumns (names : Names) (attributes : KeyMap Value) (key : String) :
    KeyMap.get? key (keepColumns (some names) attributes) =
      if key ∈ names then KeyMap.get? key attributes else none := by
  show KeyMap.get? key (attributes.filter fun a => names.contains a.1) = _
  split
  · rename_i hkey
    exact KeyMap.get?_filter hkey attributes
  · rename_i hkey
    rw [← Option.not_isSome_iff_eq_none]
    intro hsome
    obtain ⟨v, hv⟩ := Option.isSome_iff_exists.1 hsome
    exact hkey (List.contains_iff_mem.1 (List.mem_filter.1 (KeyMap.mem_of_get? hv)).2)

/-- A record with some columns and relations has at most those relations. -/
theorem keys_relations_project (columns : Columns) (rels : KeyMap Columns) :
    (KeyMap.keys (e.project columns rels).relations).Sublist (KeyMap.keys rels) := by
  show ((rels.filterMap fun p => (e.relation? p.1).map fun related =>
    (p.1, related.map (restrict p.2))).map (·.1)).Sublist (rels.map (·.1))
  induction rels with
  | nil => exact List.Sublist.slnil
  | cons p rels ih =>
    cases hrelation : e.relation? p.1 with
    | none =>
      rw [List.filterMap_cons_none (by rw [hrelation]; rfl), List.map_cons]
      exact ih.cons _
    | some related =>
      rw [List.filterMap_cons_some (by rw [hrelation]; rfl), List.map_cons, List.map_cons]
      exact ih.cons_cons _

end Entity

/-! ## Rows -/

section Views

variable {ws : List Wish} {e : Entity}

/-- A related record is shown with the columns that are asked for. -/
theorem relatedView_restrict (hsorted : KeyMap.Sorted e.attributes) {relation : String}
    {columns : Columns} (hasked : AskedOf ws relation (some columns)) :
    RelatedView ws relation e (Entity.restrict columns e).toJson := by
  refine ⟨_, rfl, Entity.sorted_toFields _, fun key => ?_⟩
  rw [Entity.get?_toFields (e := Entity.restrict columns e) (Entity.nodup_keepColumns hsorted columns)
    List.nodup_nil]
  show (((KeyMap.get? key (Entity.keepColumns columns e.attributes)).map Value.toJson).or _) = _
  unfold Entity.nested?
  congr 1
  cases hasked with
  | all hall =>
    rw [if_pos (.inl hall)]
    rfl
  | @columns names _ hall _ hnames =>
    rw [Entity.get?_keepColumns]
    by_cases hkey : key ∈ names
    · rw [if_pos hkey, if_pos (.inr ((hnames key).1 hkey))]
      rfl
    · rw [if_neg hkey, if_neg fun hor => hor.elim hall fun hin => hkey ((hnames key).2 hin)]
      rfl

/-- The fields of a row that have been selected. -/
theorem Row.get?_fields (s : Selection) (r : Row) (key : String) :
    KeyMap.get? key (r.fields (some s)) =
      (if key ∈ s.virtualFields then (r.value? key).map Value.toJson else none).or
        (KeyMap.get? key (r.entity.project (some s.columns) s.relations).toFields) := by
  unfold fields
  dsimp only
  generalize (r.entity.project (some s.columns) s.relations).toFields = m
  induction s.virtualFields generalizing m with
  | nil => simp
  | cons field fields ih =>
    rw [List.foldl_cons, ih]
    by_cases hkey : key = field
    · subst hkey
      rw [if_pos List.mem_cons_self]
      cases r.value? key with
      | none => simp
      | some a =>
        rw [Option.map_some, KeyMap.get?_insert]
        split <;> rfl
    · cases r.value? field with
      | none => simp [hkey]
      | some a => simp [hkey, KeyMap.get?_insert_ne hkey]

theorem Row.sorted_fields (s : Selection) (r : Row) : KeyMap.Sorted (r.fields (some s)) := by
  unfold fields
  refine List.foldlRecOn s.virtualFields _ (Entity.sorted_toFields _) fun m hm field _ => ?_
  split
  · exact KeyMap.Sorted.insert hm
  · exact hm

section Entries

variable {computed : KeyMap Value} {key : String} (hvirtual : .virtual key ∉ ws)

include hvirtual

/-- Columns that are asked for come before the identity. -/
theorem Entry.of_columns {names : Names} (hnames : key ∈ names ↔ .column key ∈ ws)
    (hrelation : ∀ column, .related key column ∈ ws → e.relation? key = none) :
    Entry ws e computed key (((if key ∈ names then e.attribute? key else none).map Value.toJson).or
      (if key = "id" then some e.id.toJson else none)) := by
  have hnone : ∀ {x : Option Value}, (.column key ∈ ws → e.attribute? key = none) →
      x = none → Entry ws e computed key ((x.map Value.toJson).or
        (if key = "id" then some e.id.toJson else none)) := by
    rintro x hcolumn rfl
    rw [Option.map_none, Option.none_or]
    split
    · rename_i hkey
      exact .identity hvirtual hrelation hcolumn hkey
    · rename_i hkey
      exact .nothing hvirtual hrelation hcolumn hkey
  split
  · rename_i hcolumn
    cases ha : e.attribute? key with
    | some a => exact .column hvirtual hrelation (hnames.1 hcolumn) ha
    | none => exact hnone (fun _ => ha) rfl
  · rename_i hcolumn
    exact hnone (fun hin => absurd (hnames.2 hin) hcolumn) rfl

/-- A relation that is asked for is shown if the entity has it, before anything else. -/
theorem Entry.of_relation (hordered : e.Ordered) {asked : Option Columns} (hasked : AskedOf ws key asked)
    {rest : Option Json}
    (hrest : (∀ column, .related key column ∈ ws → e.relation? key = none) → Entry ws e computed key rest) :
    Entry ws e computed key ((((asked.bind fun nested =>
      (e.relation? key).map (List.map (Entity.restrict nested))).map fun related =>
        Json.array (related.map Entity.toJson))).or rest) := by
  cases hrelated : e.relation? key with
  | none =>
    have hhidden : (asked.bind fun nested =>
        (none : Option (List Entity)).map (List.map (Entity.restrict nested))) = none := by
      cases asked <;> rfl
    rw [hhidden, Option.map_none, Option.none_or]
    exact hrest fun _ _ => hrelated
  | some related =>
    have hshown : ∀ {columns : Columns}, AskedOf ws key (some columns) → (∃ column, .related key column ∈ ws) →
        Entry ws e computed key (some (.array ((related.map (Entity.restrict columns)).map Entity.toJson))) := by
      rintro columns hcolumns ⟨column, hcolumn⟩
      refine .relation hvirtual hcolumn hrelated ?_
      rw [List.map_map, List.forall₂_map_right_iff, List.forall₂_same]
      exact fun e' he' => relatedView_restrict
        (hordered.related (key, related) (KeyMap.mem_of_get? hrelated) e' he') hcolumns
    cases hasked with
    | nothing h => exact hrest fun column hcolumn => absurd hcolumn (h column)
    | all hall => exact hshown (.all hall) ⟨_, hall⟩
    | columns hsorted hall hsome h => exact hshown (.columns hsorted hall hsome h) hsome

end Entries

/-- **A row shows what is asked for of its entity, and nothing else**, once its virtual fields have been
computed. -/
theorem Row.render_view {s : Selection} (hs : s.Grants ws) {r : Row} (hordered : r.entity.Ordered)
    (hcomputed : ∀ field ∈ s.virtualFields, (r.value? field).isSome = true) :
    RowView ws r.entity r.computed (r.render (some s)) := by
  refine ⟨_, rfl, r.sorted_fields s, fun key => ?_⟩
  have hattributes : (KeyMap.keys (r.entity.project (some s.columns) s.relations).attributes).Nodup :=
    Entity.nodup_keepColumns hordered.attributes (some s.columns)
  have hrelations : (KeyMap.keys (r.entity.project (some s.columns) s.relations).relations).Nodup :=
    (Entity.keys_relations_project _ _).nodup hs.relations_sorted.nodup_keys
  rw [Row.get?_fields, Entity.get?_toFields hattributes hrelations, Entity.relation?_project]
  by_cases hvirtual : key ∈ s.virtualFields
  · obtain ⟨a, ha⟩ := Option.isSome_iff_exists.1 (hcomputed key hvirtual)
    rw [if_pos hvirtual, ha]
    exact .virtual ((hs.virtualFields key).1 hvirtual) ha
  · have hnotVirtual : .virtual key ∉ ws := fun hin => hvirtual ((hs.virtualFields key).2 hin)
    rw [if_neg hvirtual, Option.none_or]
    refine .of_relation hnotVirtual hordered (hs.relations key) fun hrelation => ?_
    show Entry ws r.entity r.computed key
      (((KeyMap.get? key (Entity.keepColumns (some s.columns) r.entity.attributes)).map Value.toJson).or _)
    rw [Entity.get?_keepColumns]
    exact .of_columns hnotVirtual (hs.columns key) hrelation

/-- **Rows of the same entities, with the same values, are shown alike** if they are asked for the same. -/
theorem Row.renders_unique {ws ws' : List Wish} (hsame : ∀ w, w ∈ ws' ↔ w ∈ ws)
    {selection selection' : Option Selection} :
    ∀ {rows rows' : List Row}, rows'.map (·.entity) = rows.map (·.entity) →
      (∀ field, rows'.map (Row.value? field) = rows.map (Row.value? field)) →
      (∀ r ∈ rows, RowView ws r.entity r.computed (r.render selection)) →
      (∀ r ∈ rows', RowView ws' r.entity r.computed (r.render selection')) →
      rows'.map (Row.render selection') = rows.map (Row.render selection)
  | [], [], _, _, _, _ => rfl
  | [], _ :: _, hentities, _, _, _ => nomatch hentities
  | _ :: _, [], hentities, _, _, _ => nomatch hentities
  | r :: rows, r' :: rows', hentities, hvalues, hviews, hviews' => by
    obtain ⟨hentity, hentities⟩ := List.cons.inj hentities
    obtain ⟨hview, hviews⟩ := List.forall_mem_cons.1 hviews
    obtain ⟨hview', hviews'⟩ := List.forall_mem_cons.1 hviews'
    rw [show r'.entity = r.entity from hentity] at hview'
    rw [List.map_cons, List.map_cons,
      hview.unique hsame (fun field _ => (List.cons.inj (hvalues field)).1) hview',
      renders_unique hsame hentities (fun field => (List.cons.inj (hvalues field)).2) hviews hviews']

end Views

end FieldQuery
