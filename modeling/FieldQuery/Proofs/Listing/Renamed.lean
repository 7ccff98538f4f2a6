import FieldQuery.Proofs.Data.Except
import FieldQuery.Proofs.Listing.Mirrored

/-!
# Requests about mirrors

A request names a column among its filters or as its sort key, and another one names the mirror of the
column in some of these places.

* `Params.Renames`, `Params.Renamed` — a parameter, and a request, that may name the mirror in place of the
  column;
* `Clause.over` — the clause about another, virtual field.

Principal results: `clause_mirror` — a filter on the mirror is the same clause as one on the column, and
`planRequest_renamed` — if there is a plan for the one request, its mirror image is the plan for the other.
-/

namespace FieldQuery

/-! ## Parameters -/

/-- A parameter, or one that names the mirror in place of a column. -/
inductive Params.Renames (column field : String) : String × String → String × String → Prop
  | same (pair : String × String) : Renames column field pair pair
  | key (raw : String) : Renames column field (column, raw) (field, raw)
  | sort {x y : String} (hcolumn : Options.visible? x = some column)
      (hfield : Options.visible? y = some field) : Renames column field ("sort_by", x) ("sort_by", y)

/-- A request, or one that names the mirror in place of a column among its filters or as its sort key. -/
def Params.Renamed (column field : String) (p p' : Params) : Prop :=
  List.Forall₂ (Params.Renames column field) p.pairs p'.pairs

namespace Params.Renamed

variable {column field : String} {p p' : Params} (h : p.Renamed column field p')

include h

/-- A parameter that is none of the two remains, unless it is the sort key. -/
theorem get?_cases {name : String} (hcolumn : name ≠ column) (hfield : name ≠ field) :
    p'.get? name = p.get? name ∨ name = "sort_by" ∧ (p.get? name).bind Options.visible? = some column ∧
      (p'.get? name).bind Options.visible? = some field := by
  unfold Renamed at h
  unfold get?
  generalize p.pairs = pairs, p'.pairs = pairs' at h
  induction h with
  | nil => exact .inl rfl
  | @cons pair _ _ _ hfirst _ ih =>
    cases hfirst with
    | same =>
      obtain ⟨k, x⟩ := pair
      rw [List.lookup_cons, List.lookup_cons]
      cases name == k with
      | true => exact .inl rfl
      | false => exact ih
    | key raw =>
      rw [List.lookup_cons, List.lookup_cons, beq_false_of_ne hcolumn, beq_false_of_ne hfield]
      exact ih
    | sort hx hy =>
      rw [List.lookup_cons, List.lookup_cons]
      cases hname : name == "sort_by" with
      | true =>
        dsimp only
        rw [Option.bind_some, Option.bind_some]
        exact .inr ⟨eq_of_beq hname, hx, hy⟩
      | false => exact ih

variable (hcolumn : column ∉ reservedNames) (hfield : field ∉ reservedNames)

include hcolumn hfield

/-- A reserved parameter remains, unless it is the sort key. -/
theorem get?_eq (name : String) (hname : name ∈ reservedNames) (hsort : name ≠ "sort_by") :
    p'.get? name = p.get? name := by
  have hne : ∀ other, other ∉ reservedNames → name ≠ other := by
    rintro _ hother rfl
    exact hother hname
  rcases get?_cases h (hne column hcolumn) (hne field hfield) with heq | ⟨heq, -⟩
  · exact heq
  · exact absurd heq hsort

/-- The options remain, but for the sort key, which may be the mirror in place of the column. -/
theorem options (pages : PageSettings) :
    ∃ key, Options.ofParams p' pages = { Options.ofParams p pages with sortBy := key } ∧
      (key = (Options.ofParams p pages).sortBy ∨
        (Options.ofParams p pages).sortBy = some column ∧ key = some field) := by
  refine ⟨(p'.get? "sort_by").bind Options.visible?, ?_, ?_⟩
  · unfold Options.ofParams
    rw [get?_eq h hcolumn hfield "page" (by decide) (by decide),
      get?_eq h hcolumn hfield "per_page" (by decide) (by decide),
      get?_eq h hcolumn hfield "sort_direction" (by decide) (by decide),
      get?_eq h hcolumn hfield "fields" (by decide) (by decide),
      get?_eq h hcolumn hfield "search" (by decide) (by decide)]
  · have hne : ∀ other, other ∉ reservedNames → "sort_by" ≠ other := by
      rintro _ hother rfl
      exact hother (by decide)
    rcases get?_cases h (hne column hcolumn) (hne field hfield) with heq | ⟨-, hx, hy⟩
    · exact .inl (by rw [heq]; rfl)
    · exact .inr ⟨hx, hy⟩

/-- The filters remain one by one, but for the names of some. -/
theorem filters : List.Forall₂ (fun pair pair' : String × String =>
    pair' = pair ∨ pair.1 = column ∧ pair' = (field, pair.2)) p.filters p'.filters := by
  unfold Renamed at h
  unfold Params.filters
  generalize p.pairs = pairs, p'.pairs = pairs' at h
  have hkept : ∀ pair : String × String, pair.1 ∉ reservedNames →
      (!reservedNames.contains pair.1) = true := by
    intro pair hname
    rw [Bool.not_eq_true', ← Bool.not_eq_true, List.contains_iff_mem]
    exact hname
  have hsort : ∀ x : String, ¬ (!reservedNames.contains ("sort_by", x).1) = true :=
    fun x => show ¬ (!reservedNames.contains "sort_by") = true by decide
  induction h with
  | nil => exact .nil
  | cons hfirst _ ih =>
    cases hfirst with
    | same =>
      rw [List.filter_cons, List.filter_cons]
      split
      · exact .cons (.inl rfl) ih
      · exact ih
    | key raw =>
      rw [List.filter_cons, List.filter_cons, if_pos (hkept (column, raw) hcolumn),
        if_pos (hkept (field, raw) hfield)]
      exact .cons (.inr ⟨rfl, rfl⟩) ih
    | sort hx hy =>
      rw [List.filter_cons, List.filter_cons, if_neg (hsort _), if_neg (hsort _)]
      exact ih

end Params.Renamed

/-! ## Clauses -/

/-- The clause about another, virtual field. -/
def Clause.over (field : String) (cl : Clause) : Clause := { cl with field := field, isVirtual := true }

namespace FilterSettings

variable {s : FilterSettings}

/-- Definitions of one type read the same values. -/
theorem operand_congr {d d' : Definition} (htype : d'.fieldType = d.fieldType)
    (henum : d'.enumValues = d.enumValues) (e : Expression) :
    (s.operand d' e).toOption = (s.operand d e).toOption := by
  have hvalue : ∀ raw, (s.coerce d'.name d'.fieldType raw d'.enumValues).toOption =
      (s.coerce d.name d.fieldType raw d.enumValues).toOption := by
    intro raw
    unfold coerce
    rw [htype, henum]
    split <;> rfl
  unfold operand
  dsimp only
  cases e.operand with
  | none => rfl
  | single raw =>
    dsimp only
    split
    · rfl
    · rcases Except.cases_of_toOption (hvalue raw) with ⟨a, ha', ha⟩ | ⟨err, err', ha', ha⟩
      · rw [ha', ha]
      · rw [ha', ha]
        rfl
  | list raws =>
    dsimp only
    rcases Except.cases_of_toOption (Except.toOption_mapM hvalue raws) with
      ⟨a, ha', ha⟩ | ⟨err, err', ha', ha⟩
    · rw [ha', ha]
    · rw [ha', ha]
      rfl
  | range low high =>
    dsimp only
    rcases Except.cases_of_toOption (hvalue low) with ⟨a, ha', ha⟩ | ⟨err, err', ha', ha⟩
    · rw [ha', ha]
      rcases Except.cases_of_toOption (hvalue high) with ⟨b, hb', hb⟩ | ⟨err, err', hb', hb⟩
      · rw [hb', hb]
      · rw [hb', hb]
        rfl
    · rw [ha', ha]
      rfl

/-- Definitions of one type with the same operators have the same clauses. -/
theorem clauseOf_congr {d d' : Definition} (htype : d'.fieldType = d.fieldType)
    (henum : d'.enumValues = d.enumValues) (hoperators : d'.operators = d.operators)
    (name name' raw : String) (e : Expression) : (s.clauseOf name' raw d' e).toOption =
      (s.clauseOf name raw d e).toOption.map fun cl =>
        { cl with field := name', isVirtual := d'.isVirtual } := by
  have hallows : d'.allows e.operator = d.allows e.operator := by
    unfold Definition.allows
    rw [hoperators]
  unfold clauseOf
  rw [htype, hallows]
  split
  · rfl
  · split
    · rfl
    · split
      · rfl
      · rcases Except.cases_of_toOption (@operand_congr s d d' htype henum e) with
          ⟨a, ha', ha⟩ | ⟨err, err', ha', ha⟩ <;> (rw [ha', ha]; rfl)

end FilterSettings

section Mirror

variable {c : Catalog} (hc : c.Lawful) {f : Field} (hf : KeyMap.get? f.name c.fields = some f)
  {v : VirtualField} (hv : KeyMap.get? v.name c.virtualFields = some v) (hmirrors : v.Mirrors f)
  {s : FilterSettings}

include hc

/-- The name of a column is no alias. -/
theorem Catalog.Lawful.resolve_field {n : String} (hn : n ∈ KeyMap.keys c.fields) :
    c.resolve n = n := by
  unfold Catalog.resolve
  cases halias : KeyMap.get? n c.aliases with
  | none => rfl
  | some target =>
    have hkey : n ∈ KeyMap.keys c.aliases := List.mem_map_of_mem (KeyMap.mem_of_get? halias)
    exact absurd hn (hc.alias_not_field n hkey)

include hf in
theorem Catalog.Lawful.definition_field :
    c.resolve f.name = f.name ∧ c.get? f.name = some (.persisted f) := by
  have hresolve := hc.resolve_field (List.mem_map_of_mem (KeyMap.mem_of_get? hf))
  refine ⟨hresolve, ?_⟩
  unfold Catalog.get?
  dsimp only
  rw [hresolve, hf]

include hv in
theorem Catalog.Lawful.definition_virtual :
    c.resolve v.name = v.name ∧ c.get? v.name = some (.computed v) := by
  have hkey := Catalog.mem_keys_of_get? hv
  have hresolve := hc.resolve_virtual hkey
  have hcolumn : KeyMap.get? v.name c.fields = none := by
    cases hget : KeyMap.get? v.name c.fields with
    | none => rfl
    | some g => exact absurd hkey (hc.field_not_virtual _ (List.mem_map_of_mem (KeyMap.mem_of_get? hget)))
  refine ⟨hresolve, ?_⟩
  unfold Catalog.get?
  dsimp only
  rw [hresolve, hcolumn, hv]
  rfl

include hf hv hmirrors

/-- **A filter on the mirror is the same clause** as one on the column, or is refused as that is. -/
theorem FilterSettings.clause_mirror (hfree : s.isBlocked f.name = false)
    (hfree' : s.isBlocked v.name = false) (raw : String) :
    (s.clause c v.name raw).toOption = (s.clause c f.name raw).toOption.map (Clause.over v.name) := by
  obtain ⟨hresolve, hget⟩ := hc.definition_field hf
  obtain ⟨hresolve', hget'⟩ := hc.definition_virtual hv
  unfold clause
  dsimp only
  rw [hresolve, hresolve', hfree, hfree', hget, hget']
  simp only [Bool.or_self, Bool.false_eq_true, if_false]
  cases Expression.read raw with
  | error fault => rfl
  | ok e =>
    exact @clauseOf_congr s (.persisted f) (.computed v) hmirrors.fieldType hmirrors.enumValues
      hmirrors.operators f.name v.name raw e

/-- Filters come to the same clauses one by one, if some of them name the mirror. -/
theorem FilterSettings.clause_renamed (hfree : s.isBlocked f.name = false)
    (hfree' : s.isBlocked v.name = false) {pair pair' : String × String}
    (h : pair' = pair ∨ pair.1 = f.name ∧ pair' = (v.name, pair.2)) :
    Option.Rel (Clause.Mirrors f.name v.name) (s.clause c pair.1 pair.2).toOption
      (s.clause c pair'.1 pair'.2).toOption := by
  rcases h with rfl | ⟨hname, rfl⟩
  · cases (s.clause c pair'.1 pair'.2).toOption with
    | none => exact .none
    | some cl => exact .some (.same cl)
  · rw [hname, clause_mirror hc hf hv hmirrors hfree hfree']
    cases hclause : s.clause c f.name pair.2 with
    | error err => exact .none
    | ok cl =>
      obtain ⟨hfield, d, hd, hvirtual⟩ := clause_ok hclause
      obtain ⟨hresolve, hget⟩ := hc.definition_field hf
      rw [hresolve] at hfield hd
      rw [hget] at hd
      cases hd
      exact .some (.mirrored cl hfield hvirtual)

/-! ## Plans -/

variable {p p' : Params} (hrenamed : p.Renamed f.name v.name p') (hcolumn : f.name ∉ reservedNames)
  (hfield : v.name ∉ reservedNames)

include hrenamed hcolumn hfield

/-- The translation of a request that names the mirror. -/
theorem FilterSettings.collect_renamed (hfree : s.isBlocked f.name = false)
    (hfree' : s.isBlocked v.name = false) :
    List.Forall₂ (Clause.Mirrors f.name v.name) (s.collect c p).active (s.collect c p').active ∧
      ((s.collect c p).rejected = [] → (s.collect c p').rejected = []) ∧
      (s.collect c p').search = (s.collect c p).search := by
  have hfilters := hrenamed.filters hcolumn hfield
  have hsearch := hrenamed.get?_eq hcolumn hfield "search" (by decide) (by decide)
  refine ⟨?_, ?_, by unfold collect; rw [hsearch]⟩
  · unfold collect
    dsimp only
    generalize p.filters = pairs, p'.filters = pairs' at hfilters
    induction hfilters with
    | nil => exact .nil
    | @cons pair pair' _ _ hfirst _ ih =>
      have hclause := clause_renamed hc hf hv hmirrors hfree hfree' hfirst
      rw [List.map_cons, List.map_cons, List.filterMap_cons, List.filterMap_cons]
      generalize s.clause c pair.1 pair.2 = outcome, s.clause c pair'.1 pair'.2 = outcome' at hclause
      cases outcome <;> cases outcome' <;> cases hclause
      · exact ih
      · rename_i hmirror
        exact .cons hmirror ih
  · unfold collect
    dsimp only
    generalize p.filters = pairs, p'.filters = pairs' at hfilters
    induction hfilters with
    | nil => exact fun _ => rfl
    | @cons pair pair' _ _ hfirst _ ih =>
      have hclause := clause_renamed hc hf hv hmirrors hfree hfree' hfirst
      rw [List.map_cons, List.map_cons, List.filterMap_cons, List.filterMap_cons]
      generalize s.clause c pair.1 pair.2 = outcome, s.clause c pair'.1 pair'.2 = outcome' at hclause
      cases outcome <;> cases outcome' <;> cases hclause
      · exact fun h => nomatch h
      · exact ih

/-- **If the filters of a request can be translated, so can those of one that names the mirror** of a
column that is not required. -/
theorem FilterSettings.translate_renamed (hfree : s.isBlocked f.name = false)
    (hfree' : s.isBlocked v.name = false) (hrequired : f.name ∉ c.required) {t : Translation}
    (h : s.translate c p = .ok t) : s.translate c p' = .ok (s.collect c p') := by
  obtain ⟨hactive, hrejected, -⟩ := collect_renamed hc hf hv hmirrors hrenamed hcolumn hfield hfree hfree'
  have hkept : ∀ name ∈ c.required, name ∈ (s.collect c p).active.map (·.field) →
      name ∈ (s.collect c p').active.map (·.field) := by
    intro name hname
    have hne : name ≠ f.name := by
      rintro rfl
      exact hrequired hname
    clear hrejected h
    generalize (s.collect c p).active = as, (s.collect c p').active = as' at hactive
    induction hactive with
    | nil => exact id
    | cons hfirst _ ih =>
      rw [List.map_cons, List.map_cons, List.mem_cons, List.mem_cons]
      rintro (hhead | htail)
      · cases hfirst with
        | same => exact .inl hhead
        | mirrored hname => exact absurd (hhead.trans hname) hne
      · exact .inr (ih htail)
  obtain rfl := translate_ok h
  obtain ⟨hstrict, hmissing⟩ := translate_eq_ok_iff.1 h
  refine translate_eq_ok_iff.2 ⟨fun h => hrejected (hstrict h), ?_⟩
  unfold missing at hmissing ⊢
  rw [List.map_eq_nil_iff, List.filter_eq_nil_iff] at hmissing ⊢
  intro name hname
  have hthere := hmissing name hname
  rw [Bool.not_eq_true', Bool.not_eq_false, List.contains_iff_mem] at hthere ⊢
  exact hkept name hname hthere

omit hrenamed hcolumn hfield in
/-- The sort key is the mirror in place of the column, or both are refused. -/
theorem Catalog.sortKeyOf_renamed (o : Options) {key : Option String}
    (h : key = o.sortBy ∨ o.sortBy = some f.name ∧ key = some v.name) :
    SortKey.Mirrors f.name v.name (c.sortKeyOf o).1 (c.sortKeyOf { o with sortBy := key }).1 ∧
      ((c.sortKeyOf o).2 = [] → (c.sortKeyOf { o with sortBy := key }).2 = []) := by
  rcases h with rfl | ⟨hcolumn, rfl⟩
  · exact ⟨.same _, id⟩
  · obtain ⟨hresolve, hget⟩ := hc.definition_field hf
    obtain ⟨hresolve', hget'⟩ := hc.definition_virtual hv
    unfold Catalog.sortKeyOf
    rw [hcolumn]
    dsimp only
    rw [hresolve, hresolve', hget, hget']
    have hsortable : (Definition.computed v).isSortable = (Definition.persisted f).isSortable :=
      hmirrors.sortable
    dsimp only
    rw [hsortable]
    cases (Definition.persisted f).isSortable with
    | true => exact ⟨.mirrored, id⟩
    | false => exact ⟨.same none, fun h => nomatch h⟩

omit hc hf hv hmirrors hrenamed hcolumn hfield in
/-- In strict settings there is nothing wrong with the options of a request that has a plan. -/
theorem Catalog.not_misasked {settings : Settings} {entityType : String} {plan : ListingPlan}
    (hstrict : settings.filter.strict = true) (h : c.planRequest settings entityType p = .ok plan) :
    ¬ c.Misasked settings p := by
  have hnone : ∀ errors warnings, settings.filter.tolerate errors = .ok warnings → errors = [] := by
    intro errors warnings htolerate
    unfold FilterSettings.tolerate at htolerate
    rw [if_pos hstrict] at htolerate
    split at htolerate
    · rfl
    · cases htolerate
    · cases htolerate
  unfold planRequest at h
  unfold Misasked
  split at h
  · cases h
  · dsimp only at h
    split at h
    · cases h
    · rename_i hselection
      split at h
      · cases h
      · rename_i hsort
        exact fun hwrong => hwrong.elim (fun hne => hne (hnone _ _ hselection))
          fun hne => hne (hnone _ _ hsort)

/-- **The mirror image of the plan of a request is the plan of the request that names the mirror.** -/
theorem Catalog.planRequest_renamed {settings : Settings} {entityType : String} {plan : ListingPlan}
    (hfree : settings.filter.isBlocked f.name = false)
    (hfree' : settings.filter.isBlocked v.name = false) (hrequired : f.name ∉ c.required)
    (h : c.planRequest settings entityType p = .ok plan) :
    c.planRequest settings entityType p' =
        .ok (c.planOf settings entityType p' (settings.filter.collect c p')) ∧
      plan.Mirrors f.name v.name
        (c.planOf settings entityType p' (settings.filter.collect c p')) := by
  obtain ⟨htranslate, hplan⟩ := planRequest_ok h
  obtain ⟨hactive, -, hsearch⟩ := FilterSettings.collect_renamed hc hf hv hmirrors hrenamed hcolumn hfield
    hfree hfree'
  obtain ⟨key, hoptions, hkey⟩ := hrenamed.options hcolumn hfield settings.pagination
  obtain ⟨hsort, hrefused⟩ := sortKeyOf_renamed hc hf hv hmirrors
    (Options.ofParams p settings.pagination) hkey
  rw [← hoptions] at hsort hrefused
  have hsame : ∀ {α : Type} (part : Options → α), (∀ o key, part { o with sortBy := key } = part o) →
      part (Options.ofParams p' settings.pagination) =
        part (Options.ofParams p settings.pagination) := by
    intro α part hpart
    rw [hoptions]
    exact hpart _ _
  have hselection := hsame c.selectionOf fun _ _ => rfl
  constructor
  · have htranslate' := FilterSettings.translate_renamed hc hf hv hmirrors hrenamed hcolumn hfield hfree
      hfree' hrequired htranslate
    rcases planRequest_cases htranslate' entityType with hok | ⟨err, -, hstrict, hwrong⟩
    · exact hok
    · refine absurd ?_ (not_misasked hstrict h)
      rcases hwrong with hwrong | hwrong
      · exact .inl (hselection ▸ hwrong)
      · exact .inr (mt hrefused hwrong)
  · rw [hplan]
    exact {
      active := hactive
      search := hsearch
      sort := hsort
      direction := hsame Options.direction fun _ _ => rfl
      offset := hsame Options.offset fun _ _ => rfl
      perPage := hsame Options.perPage fun _ _ => rfl
      selection := congrArg Prod.fst hselection }

end Mirror

end FieldQuery
