import FieldQuery.Cache.Memory
import FieldQuery.Computation.Builtin
import FieldQuery.Proofs.Engine.Asks
import FieldQuery.Proofs.Request.Collected
import FieldQuery.Proofs.Text.Pieces
import FieldQuery.Proofs.Time.ReadBack

/-!
# Requests that use an alias

A request may use an alias in place of the field that it stands for: as the key of a filter, as the
sort key, and among the fields that it selects.

* `Catalog.StandsFor` — what is known of an alias and its field;
* `Params.Aliased` — a request, and one that uses the alias in some of the places where the first one
  uses the field; `Params.aliased` uses it in all of them;
* `FilterError.Echoes`, `Violation.Echoes` — two errors, and two warnings, that differ at most in the
  name that they repeat from the request;
* `Response.Echoes`, `Answer.Echoes` — two responses, and two answers, of which this is all that
  differs, besides the links to other pages.

Principal results: `planRequest_aliased` — the two requests have one plan but for the names that are
repeated, `execute_aliased` — they are answered alike, and `execute_selectsId` — except for an alias
with the name of the identity, which is not selected.
-/

namespace FieldQuery

open Text

/-! ## Names -/

theorem isNameChar_of_checkName {name : String} (h : checkName name = .ok ()) :
    name ≠ "" ∧ ∀ ch ∈ name.toList, isNameChar ch = true := by
  unfold checkName nameFault? at h
  split at h
  · cases h
  · rename_i hfault
    split at hfault
    · cases hfault
    · rename_i hname
      split at hfault
      · cases hfault
      · rename_i hall
        exact ⟨hname, List.all_eq_true.1 (by simpa using hall)⟩

/-- Only checked names become aliases. -/
theorem Catalog.checkName_alias (rs : List Registration) :
    ∀ p ∈ (enterAll {} rs).aliases, checkName p.1 = .ok () := by
  have hstep : ∀ (c : Catalog) (r : Registration), (∀ p ∈ c.aliases, checkName p.1 = .ok ()) →
      ∀ p ∈ (c.enter r).2.aliases, checkName p.1 = .ok () := by
    intro c r hc
    rcases c.enter_spec r with ⟨e, he⟩ | ⟨c', hc', haccepts⟩
    · rw [he]
      exact hc
    · rw [hc']
      cases haccepts with
      | field => exact hc
      | virtual => exact hc
      | @aliased name target _ _ =>
        have hname : checkName name = .ok () := by
          cases hcheck : checkName name with
          | ok u => rfl
          | error e =>
            have hrefused : c.enter (.aliased name target) = (.error e, c) := by
              show c.enterAlias name target = _
              unfold enterAlias
              rw [hcheck]
            rw [hrefused] at hc'
            cases hc'
        intro p hp
        rcases KeyMap.mem_insert hp with rfl | hp
        · exact hname
        · exact hc p hp
  exact List.foldlRecOn (motive := fun c : Catalog => ∀ p ∈ c.aliases, checkName p.1 = .ok ()) rs _
    (fun p hp => nomatch hp) fun c hc r _ => hstep c r hc

/-- An alias and the field that it stands for, both with usable names. -/
structure Catalog.StandsFor (c : Catalog) (f a : String) : Prop where
  resolve_alias : c.resolve a = f
  resolve_field : c.resolve f = f
  known : (c.get? f).isSome = true
  alias_name : checkName a = .ok ()
  field_name : checkName f = .ok ()

/-- Every alias of checked definitions stands for one of them. -/
theorem Catalog.standsFor {rs : List Registration} (hrs : ∀ r ∈ rs, r.IsBuilt) {a f : String}
    (h : KeyMap.get? a (enterAll {} rs).aliases = some f) : (enterAll {} rs).StandsFor f a := by
  have hlawful : (enterAll {} rs).Lawful := Lawful.empty.enterAll rs
  have hchecked := isChecked_enterAll hrs
  have halias := checkName_alias rs _ (KeyMap.mem_of_get? h)
  generalize enterAll {} rs = c at h hlawful hchecked halias
  have hself : c.resolve f = f := by
    have hnot := hlawful.target_not_alias (KeyMap.mem_of_get? h)
    unfold resolve
    cases hget : KeyMap.get? f c.aliases with
    | none => rfl
    | some _ => exact absurd (List.mem_map_of_mem (KeyMap.mem_of_get? hget)) hnot
  have hresolve : c.resolve a = f := by
    unfold resolve
    rw [h]
    rfl
  refine ⟨hresolve, hself, ?_, halias, ?_⟩
  · unfold get?
    rw [hself]
    dsimp only
    cases hfield : KeyMap.get? f c.fields with
    | some g => rfl
    | none =>
      have hnone : f ∉ KeyMap.keys c.fields := by
        rw [← KeyMap.contains_eq_false_iff, KeyMap.contains, hfield]
        rfl
      have hvirtual := (hlawful.alias_target _ (KeyMap.mem_of_get? h)).resolve_left hnone
      obtain ⟨v, hv⟩ := get?_of_mem_keys hvirtual
      dsimp only at hv ⊢
      rw [hv]
      rfl
  · rcases hlawful.alias_target _ (KeyMap.mem_of_get? h) with hfield | hvirtual
    · obtain ⟨p, hp, hkey⟩ := List.mem_map.1 hfield
      rw [← hchecked.fields p hp, ← hlawful.field_name p hp, hkey]
    · obtain ⟨p, hp, hkey⟩ := List.mem_map.1 hvirtual
      rw [← hchecked.virtualFields p hp, ← hlawful.virtual_name p hp, hkey]

/-! ## Requests -/

/-- The alias may stand where the name of its field does. -/
def NamedAs (f a : String) (name name' : String) : Prop := name' = name ∨ name = f ∧ name' = a

/-- A request, and one that uses an alias in some of the places where the first one uses the field. -/
structure Params.Aliased (f a : String) (p p' : Params) : Prop where
  filters : List.Forall₂ (fun pair pair' : String × String =>
    NamedAs f a pair.1 pair'.1 ∧ pair'.2 = pair.2) p.filters p'.filters
  sortBy : Option.Rel (NamedAs f a) ((p.get? "sort_by").bind Options.visible?)
    ((p'.get? "sort_by").bind Options.visible?)
  fields : Option.Rel (List.Forall₂ (NamedAs f a))
    ((p.get? "fields").map fun s => (splitAt ',' s).filterMap Options.visible?)
    ((p'.get? "fields").map fun s => (splitAt ',' s).filterMap Options.visible?)
  others : ∀ name ∈ reservedNames, name ≠ "sort_by" → name ≠ "fields" → p'.get? name = p.get? name

/-- A text that names the alias instead of the field. -/
def aliasText (f a text : String) : String := if Options.visible? text = some f then a else text

/-- The text of a parameter other than a filter, with the alias for the field. -/
def retext (f a name text : String) : String :=
  if name = "sort_by" then aliasText f a text
  else if name = "fields" then
    String.ofList (joinPieces [','] ((splitAt ',' text).map fun piece => (aliasText f a piece).toList))
  else text

/-- The request that uses the alias wherever the given one uses the field: as a key, as the sort key, and
among the selected fields. -/
def Params.aliased (f a : String) (p : Params) : Params :=
  ⟨p.pairs.map fun pair =>
    if pair.1 = f then (a, pair.2) else (pair.1, retext f a pair.1 pair.2)⟩

/-! ## Errors -/

/-- Errors that differ at most in the name that they repeat from the request. -/
inductive FilterError.Echoes (f a : String) : FilterError → FilterError → Prop
  | same (e : FilterError) : Echoes f a e e
  | blocked : Echoes f a (.fieldBlocked f) (.fieldBlocked a)
  | unsortable : Echoes f a (.sortNotAllowed f) (.sortNotAllowed a)

/-- Warnings that differ at most in the name that they repeat from the request. -/
def Violation.Echoes (f a : String) (w w' : Violation) : Prop :=
  ∃ e e', FilterError.Echoes f a e e' ∧ w = e.violation ∧ w' = e'.violation

theorem FilterError.Echoes.code {f a : String} {e e' : FilterError} (h : e.Echoes f a e') :
    e'.code = e.code := by
  cases h <;> rfl

theorem FilterError.Echoes.violations {f a : String} {es es' : List FilterError}
    (h : List.Forall₂ (FilterError.Echoes f a) es es') :
    List.Forall₂ (Violation.Echoes f a) (es.map FilterError.violation)
      (es'.map FilterError.violation) := by
  induction h with
  | nil => exact .nil
  | cons hfirst _ ih => exact .cons ⟨_, _, hfirst, rfl, rfl⟩ ih

/-! ## Filters -/

section Planning

variable {c : Catalog} {f a : String} (h : c.StandsFor f a)

include h

/-- A filter under an alias is the filter on its field; if that is blocked, it is blocked under either
name. -/
theorem FilterSettings.clause_alias {s : FilterSettings} (hblocked : s.isBlocked a = false)
    (raw : String) :
    s.clause c a raw = s.clause c f raw ∨
      s.clause c f raw = .error (.fieldBlocked f) ∧ s.clause c a raw = .error (.fieldBlocked a) := by
  unfold clause
  rw [h.resolve_alias, h.resolve_field, hblocked]
  dsimp only
  cases s.isBlocked f with
  | true => exact .inr ⟨rfl, rfl⟩
  | false =>
    refine .inl ?_
    cases hget : c.get? f with
    | none =>
      have hknown := h.known
      rw [hget] at hknown
      cases hknown
    | some d => rfl

variable {p p' : Params} (hp : p.Aliased f a p')

include hp

/-- The filters of the two requests come to the same clauses, and are refused alike. -/
theorem FilterSettings.collect_aliased {s : FilterSettings} (hblocked : s.isBlocked a = false) :
    s.collect c p' = { s.collect c p with rejected := (s.collect c p').rejected } ∧
      List.Forall₂ (FilterError.Echoes f a) (s.collect c p).rejected (s.collect c p').rejected := by
  have hclauses : List.Forall₂ (fun pair pair' : String × String =>
      s.clause c pair'.1 pair'.2 = s.clause c pair.1 pair.2 ∨
        s.clause c pair.1 pair.2 = .error (.fieldBlocked f) ∧
          s.clause c pair'.1 pair'.2 = .error (.fieldBlocked a)) p.filters p'.filters := by
    refine hp.filters.imp ?_
    rintro ⟨key, raw⟩ ⟨key', raw'⟩ ⟨hkey, hraw⟩
    dsimp only at hkey hraw ⊢
    rw [hraw]
    rcases hkey with rfl | ⟨rfl, rfl⟩
    · exact .inl rfl
    · exact clause_alias h hblocked raw
  constructor
  · refine collect_of_active ?_ (hp.others "search" (by decide) (by decide) (by decide))
    rw [active_collect, active_collect]
    generalize p.filters = pairs, p'.filters = pairs' at hclauses
    induction hclauses with
    | nil => rfl
    | cons hfirst _ ih =>
      rw [List.filterMap_cons, List.filterMap_cons, ih]
      rcases hfirst with hsame | ⟨hfield, halias⟩
      · rw [hsame]
      · rw [hfield, halias]
        rfl
  · rw [rejected_collect, rejected_collect]
    generalize p.filters = pairs, p'.filters = pairs' at hclauses
    induction hclauses with
    | nil => exact .nil
    | @cons pair pair' _ _ hfirst _ ih =>
      rw [List.filterMap_cons, List.filterMap_cons]
      rcases hfirst with hsame | ⟨hfield, halias⟩
      · rw [hsame]
        cases s.clause c pair.1 pair.2 with
        | ok cl => exact ih
        | error e => exact .cons (.same e) ih
      · rw [hfield, halias]
        exact .cons .blocked ih

/-- The two requests are translated alike, or fail with errors of one kind. -/
theorem FilterSettings.translate_aliased {s : FilterSettings} (hblocked : s.isBlocked a = false) :
    (∃ t rejected, s.translate c p = .ok t ∧ s.translate c p' = .ok { t with rejected := rejected } ∧
        List.Forall₂ (FilterError.Echoes f a) t.rejected rejected) ∨
      ∃ e e', s.translate c p = .error e ∧ s.translate c p' = .error e' ∧ e'.code = e.code := by
  obtain ⟨hcollect, hrejected⟩ := collect_aliased h hp hblocked
  generalize (s.collect c p').rejected = rejected at hcollect hrejected
  unfold translate
  rw [hcollect]
  generalize s.collect c p = t at hrejected
  dsimp only
  have hnil : t.rejected = [] ↔ rejected = [] := by
    rw [← List.length_eq_zero_iff, ← List.length_eq_zero_iff, hrejected.length_eq]
  by_cases hwrong : s.strict = true ∧ t.rejected ≠ []
  · rw [if_pos hwrong, if_pos ⟨hwrong.1, fun hnone => hwrong.2 (hnil.2 hnone)⟩]
    exact .inr ⟨_, _, rfl, rfl, rfl⟩
  · rw [if_neg hwrong, if_neg fun hwrong' => hwrong ⟨hwrong'.1, fun hnone => hwrong'.2 (hnil.1 hnone)⟩]
    split
    · exact .inl ⟨_, _, rfl, rfl, hrejected⟩
    · exact .inr ⟨_, _, rfl, rfl, rfl⟩
    · exact .inr ⟨_, _, rfl, rfl, rfl⟩

omit hp

/-! ## Selections and sort keys -/

omit h in
theorem cutAt_dot_of_checkName {name : String} (hname : checkName name = .ok ()) :
    cutAt '.' name.toList = none := by
  refine cutAt_eq_none fun hmem => ?_
  have hdot := (isNameChar_of_checkName hname).2 '.' hmem
  have hno : isNameChar '.' = false := by decide
  rw [hno] at hdot
  cases hdot

/-- An alias selects its field, unless one of the two is called as the identity is. -/
theorem Selection.add?_alias (hf : f ≠ "id") (ha : a ≠ "id") (sel : Selection) :
    sel.add? c a = sel.add? c f ∧ (sel.add? c f).isSome = true := by
  have hadd : ∀ name, name ≠ "id" → checkName name = .ok () → c.resolve name = f →
      sel.add? c name = sel.addField? c f := by
    intro name hid hname hresolve
    unfold add?
    rw [if_neg hid, cutAt_dot_of_checkName hname, hresolve]
  rw [hadd a ha h.alias_name h.resolve_alias, hadd f hf h.field_name h.resolve_field]
  refine ⟨rfl, ?_⟩
  have hknown := h.known
  unfold Catalog.get? at hknown
  unfold addField? Catalog.isVirtual Catalog.virtual? Catalog.field?
  rw [h.resolve_field] at hknown ⊢
  dsimp only at hknown
  split
  · split <;> rfl
  · rename_i hvirtual
    split
    · rfl
    · rename_i hfield
      rw [Option.not_isSome_iff_eq_none] at hvirtual hfield
      rw [hfield, hvirtual] at hknown
      cases hknown

/-- Requested names select the same under the alias, and the same of them are unknown. -/
theorem Selection.ofNames_aliased (hf : f ≠ "id") (ha : a ≠ "id") {names names' : List String}
    (hnames : List.Forall₂ (NamedAs f a) names names') : ofNames c names' = ofNames c names := by
  unfold ofNames
  generalize (({}, []) : Selection × List FilterError) = acc
  induction hnames generalizing acc with
  | nil => rfl
  | @cons name name' _ _ hfirst _ ih =>
    rw [List.foldl_cons, List.foldl_cons]
    refine (congrArg (fun acc => List.foldl _ acc _) ?_).trans (ih _)
    obtain ⟨sel, unknown⟩ := acc
    rcases hfirst with rfl | ⟨rfl, rfl⟩
    · rfl
    · obtain ⟨hsame, hsome⟩ := add?_alias h hf ha sel
      obtain ⟨s, hs⟩ := Option.isSome_iff_exists.1 hsome
      dsimp only
      rw [hsame, hs]

/-- The selection of options whose names use the alias. -/
theorem Catalog.selectionOf_aliased (hf : f ≠ "id") (ha : a ≠ "id") {o o' : Options}
    (hfields : Option.Rel (List.Forall₂ (NamedAs f a)) o.fields o'.fields) :
    c.selectionOf o' = c.selectionOf o := by
  unfold Catalog.selectionOf
  generalize o.fields = names, o'.fields = names' at hfields
  cases hfields with
  | none => rfl
  | some hnames =>
    dsimp only
    rw [Selection.ofNames_aliased h hf ha hnames]

/-- The sort key of options that name it by the alias. -/
theorem Catalog.sortKeyOf_aliased {o o' : Options}
    (hsortBy : Option.Rel (NamedAs f a) o.sortBy o'.sortBy) :
    (c.sortKeyOf o').1 = (c.sortKeyOf o).1 ∧
      List.Forall₂ (FilterError.Echoes f a) (c.sortKeyOf o).2 (c.sortKeyOf o').2 := by
  have hrefl : ∀ es : List FilterError, List.Forall₂ (FilterError.Echoes f a) es es := fun es =>
    List.forall₂_same.2 fun e _ => .same e
  unfold Catalog.sortKeyOf
  generalize o.sortBy = key, o'.sortBy = key' at hsortBy
  cases hsortBy with
  | none => exact ⟨rfl, .nil⟩
  | some hname =>
    rcases hname with rfl | ⟨rfl, rfl⟩
    · exact ⟨rfl, hrefl _⟩
    · dsimp only
      rw [h.resolve_alias, h.resolve_field]
      cases hget : c.get? _ with
      | none => exact ⟨rfl, .cons .unsortable .nil⟩
      | some d =>
        dsimp only
        split
        · exact ⟨rfl, .nil⟩
        · exact ⟨rfl, .cons .unsortable .nil⟩

end Planning

/-! ## Plans -/

/-- Faults are tolerated alike, or fail the requests with errors of one kind. -/
theorem FilterSettings.tolerate_echoes (s : FilterSettings) {f a : String} {es es' : List FilterError}
    (h : List.Forall₂ (FilterError.Echoes f a) es es') :
    (∃ ws ws', s.tolerate es = .ok ws ∧ s.tolerate es' = .ok ws' ∧
        List.Forall₂ (Violation.Echoes f a) ws ws') ∨
      ∃ e e', s.tolerate es = .error e ∧ s.tolerate es' = .error e' ∧ e'.code = e.code := by
  unfold tolerate
  split
  · cases h with
    | nil => exact .inl ⟨_, _, rfl, rfl, .nil⟩
    | cons hfirst hrest =>
      cases hrest with
      | nil => exact .inr ⟨_, _, rfl, rfl, hfirst.code⟩
      | cons => exact .inr ⟨_, _, rfl, rfl, rfl⟩
  · exact .inl ⟨_, _, rfl, rfl, FilterError.Echoes.violations h⟩

/-- The same plan, told in other words: with other names in its faults, and other texts for its options. -/
def ListingPlan.retold (plan : ListingPlan) (rejected : List FilterError) (sortBy : Option String)
    (fields : Option (List String)) (warnings : List Violation) : ListingPlan :=
  { plan with
    translation := { plan.translation with rejected := rejected }
    options := { plan.options with sortBy := sortBy, fields := fields }
    warnings := warnings }

/-- Options are the same but for the texts that may use the alias. -/
theorem Params.Aliased.options {f a : String} {p p' : Params} (h : p.Aliased f a p')
    (pages : PageSettings) :
    Options.ofParams p' pages = { Options.ofParams p pages with
      sortBy := (Options.ofParams p' pages).sortBy
      fields := (Options.ofParams p' pages).fields } := by
  unfold Options.ofParams
  rw [h.others "page" (by decide) (by decide) (by decide),
    h.others "per_page" (by decide) (by decide) (by decide),
    h.others "sort_direction" (by decide) (by decide) (by decide),
    h.others "search" (by decide) (by decide) (by decide)]

/-- **A request that uses an alias has the plan of the one that uses the field**, but for the names that
warnings repeat; or both fail with errors of one kind. -/
theorem Catalog.planRequest_aliased {c : Catalog} {f a : String} (h : c.StandsFor f a) (hf : f ≠ "id")
    (ha : a ≠ "id") {s : Settings} (hblocked : s.filter.isBlocked a = false) {p p' : Params}
    (hp : p.Aliased f a p') (entityType : String) :
    (∃ plan rejected sortBy fields warnings, c.planRequest s entityType p = .ok plan ∧
        c.planRequest s entityType p' = .ok (plan.retold rejected sortBy fields warnings) ∧
        List.Forall₂ (Violation.Echoes f a) plan.warnings warnings) ∨
      ∃ e e', c.planRequest s entityType p = .error e ∧ c.planRequest s entityType p' = .error e' ∧
        e'.code = e.code := by
  have hoptions := hp.options s.pagination
  have hsortBy : Option.Rel (NamedAs f a) (Options.ofParams p s.pagination).sortBy
      (Options.ofParams p' s.pagination).sortBy := hp.sortBy
  have hfields : Option.Rel (List.Forall₂ (NamedAs f a)) (Options.ofParams p s.pagination).fields
      (Options.ofParams p' s.pagination).fields := hp.fields
  have hselection := Catalog.selectionOf_aliased h hf ha hfields
  obtain ⟨hsort, hrefused⟩ := Catalog.sortKeyOf_aliased h hsortBy
  unfold planRequest
  rcases FilterSettings.translate_aliased h hp hblocked with
    ⟨t, rejected, ht, ht', hrejected⟩ | ⟨e, e', ht, ht', hcode⟩
  · rw [ht, ht']
    dsimp only
    rw [hselection, hsort]
    generalize Options.ofParams p s.pagination = o, Options.ofParams p' s.pagination = o' at *
    have hunknown : List.Forall₂ (FilterError.Echoes f a) (c.selectionOf o).2 (c.selectionOf o).2 :=
      List.forall₂_same.2 fun e _ => .same e
    rcases s.filter.tolerate_echoes hunknown with ⟨ws, ws', hws, hws', hsame⟩ | ⟨e, e', he, he', hcode⟩
    · rw [hws'] at hws ⊢
      cases hws
      dsimp only
      rcases s.filter.tolerate_echoes hrefused with
        ⟨vs, vs', hvs, hvs', hsameSort⟩ | ⟨e, e', he, he', hcode⟩
      · rw [hvs, hvs']
        refine .inl ⟨_, rejected, o'.sortBy, o'.fields, _, rfl, by rw [hoptions]; rfl, ?_⟩
        exact List.rel_append (List.rel_append (FilterError.Echoes.violations hrejected) hsame) hsameSort
      · rw [he, he']
        exact .inr ⟨_, _, rfl, rfl, hcode⟩
    · rw [he']
      exact .inr ⟨_, _, rfl, rfl, rfl⟩
  · rw [ht, ht']
    exact .inr ⟨_, _, rfl, rfl, hcode⟩

/-! ## The request that uses the alias everywhere -/

theorem isBlank_of_isNameChar {ch : Char} (h : isNameChar ch = true) : isBlank ch = false := by
  unfold isNameChar at h
  simp only [Bool.or_eq_true, Bool.and_eq_true, decide_eq_true_eq, beq_iff_eq, Char.le_def,
    UInt32.le_iff_toNat_le] at h
  rcases h with ((hdigit | ⟨hlow, hhigh⟩) | ⟨hlow, hhigh⟩) | rfl
  · exact Time.isBlank_of_isDigit hdigit
  · have hlow : 97 ≤ ch.toNat := hlow
    have hhigh : ch.toNat ≤ 122 := hhigh
    unfold isBlank
    simp
    omega
  · have hlow : 65 ≤ ch.toNat := hlow
    have hhigh : ch.toNat ≤ 90 := hhigh
    unfold isBlank
    simp
    omega
  · decide

/-- A usable name is read as it is. -/
theorem visible?_of_checkName {name : String} (h : checkName name = .ok ()) :
    Options.visible? name = some name := by
  obtain ⟨hne, hchars⟩ := isNameChar_of_checkName h
  have htrim : trim name.toList = name.toList :=
    trim_of_forall fun ch hch => isBlank_of_isNameChar (hchars ch hch)
  unfold Options.visible? trimmed
  rw [htrim, String.ofList_toList]
  exact if_neg hne

section Everywhere

variable {f a : String} (hf : checkName f = .ok ()) (ha : checkName a = .ok ())

include ha in
theorem visible?_aliasText (text : String) :
    Option.Rel (NamedAs f a) (Options.visible? text) (Options.visible? (aliasText f a text)) := by
  unfold aliasText
  split
  · rename_i hfield
    rw [hfield, visible?_of_checkName ha]
    exact .some (.inr ⟨rfl, rfl⟩)
  · cases Options.visible? text with
    | none => exact .none
    | some name => exact .some (.inl rfl)

include ha in
theorem filterMap_visible?_aliasText (texts : List String) :
    List.Forall₂ (NamedAs f a) (texts.filterMap Options.visible?)
      ((texts.map (aliasText f a)).filterMap Options.visible?) := by
  induction texts with
  | nil => exact .nil
  | cons text texts ih =>
    have hfirst := visible?_aliasText (f := f) ha text
    rw [List.map_cons, List.filterMap_cons, List.filterMap_cons]
    generalize Options.visible? text = read, Options.visible? (aliasText f a text) = read' at hfirst
    cases hfirst with
    | none => exact ih
    | some hname => exact .cons hname ih

include ha in
/-- A list of names is read as the same list, with the alias for the field. -/
theorem splitAt_aliased (text : String) :
    splitAt ',' (String.ofList (joinPieces [','] ((splitAt ',' text).map fun piece =>
      (aliasText f a piece).toList))) = (splitAt ',' text).map (aliasText f a) := by
  have hcomma : ∀ p ∈ (splitAt ',' text).map fun piece => (aliasText f a piece).toList, ',' ∉ p := by
    intro p hp
    obtain ⟨piece, hpiece, rfl⟩ := List.mem_map.1 hp
    unfold aliasText
    split
    · intro hmem
      have hchar := (isNameChar_of_checkName ha).2 ',' hmem
      have hno : isNameChar ',' = false := by decide
      rw [hno] at hchar
      cases hchar
    · obtain ⟨q, hq, rfl⟩ := List.mem_map.1 hpiece
      rw [String.toList_ofList]
      exact notMem_of_mem_pieces hq
  have hne : (splitAt ',' text).map (fun piece => (aliasText f a piece).toList) ≠ [] := by
    rw [Ne, List.map_eq_nil_iff]
    unfold splitAt
    rw [List.map_eq_nil_iff]
    exact pieces_ne_nil ',' text.toList
  show (pieces ',' (String.ofList _).toList).map String.ofList = _
  rw [String.toList_ofList, pieces_joinPieces hne hcomma, List.map_map]
  refine List.map_congr_left fun piece _ => ?_
  rw [Function.comp_apply, String.ofList_toList]

theorem retext_sortBy : retext f a "sort_by" = aliasText f a := by
  funext text
  unfold retext
  exact if_pos rfl

theorem retext_fields : retext f a "fields" = fun text =>
    String.ofList (joinPieces [','] ((splitAt ',' text).map fun piece => (aliasText f a piece).toList)) := by
  funext text
  unfold retext
  rw [if_neg (show ¬ "fields" = "sort_by" by decide), if_pos rfl]

theorem retext_other {name : String} (hsort : name ≠ "sort_by") (hfields : name ≠ "fields") :
    retext f a name = id := by
  funext text
  unfold retext
  rw [if_neg hsort, if_neg hfields]
  rfl

include hf ha in
theorem get?_aliased (p : Params) {name : String} (hname : name ∈ reservedNames) :
    (p.aliased f a).get? name = (p.get? name).map (retext f a name) := by
  have hfield : (name == f) = false := by
    rw [beq_eq_false_iff_ne]
    rintro rfl
    exact notMem_reservedNames hf hname
  have halias : (name == a) = false := by
    rw [beq_eq_false_iff_ne]
    rintro rfl
    exact notMem_reservedNames ha hname
  unfold Params.aliased Params.get?
  induction p.pairs with
  | nil => rfl
  | cons pair pairs ih =>
    obtain ⟨key, text⟩ := pair
    rw [List.map_cons]
    dsimp only
    by_cases hkey : key = f
    · subst hkey
      rw [if_pos rfl, List.lookup_cons, List.lookup_cons, hfield, halias]
      exact ih
    · rw [if_neg hkey, List.lookup_cons, List.lookup_cons]
      by_cases hsame : name = key
      · subst hsame
        rw [BEq.rfl]
        rfl
      · rw [beq_eq_false_iff_ne.2 hsame]
        exact ih

include hf ha in
theorem filters_aliased (p : Params) :
    List.Forall₂ (fun pair pair' : String × String => NamedAs f a pair.1 pair'.1 ∧ pair'.2 = pair.2)
      p.filters (p.aliased f a).filters := by
  have hkept : ∀ name, checkName name = .ok () → (!reservedNames.contains name) = true := by
    intro name hname
    rw [Bool.not_eq_true', ← Bool.not_eq_true, List.contains_iff_mem]
    exact notMem_reservedNames hname
  unfold Params.aliased Params.filters
  induction p.pairs with
  | nil => exact .nil
  | cons pair pairs ih =>
    obtain ⟨key, text⟩ := pair
    rw [List.map_cons, List.filter_cons, List.filter_cons]
    dsimp only
    by_cases hkey : key = f
    · subst hkey
      rw [if_pos rfl, if_pos (hkept key hf), if_pos (hkept a ha)]
      exact .cons ⟨.inr ⟨rfl, rfl⟩, rfl⟩ ih
    · rw [if_neg hkey]
      cases hreserved : reservedNames.contains key with
      | true => exact ih
      | false =>
        have hsort : key ≠ "sort_by" := by
          rintro rfl
          exact absurd hreserved (by decide)
        have hfields : key ≠ "fields" := by
          rintro rfl
          exact absurd hreserved (by decide)
        rw [retext_other hsort hfields]
        exact .cons ⟨.inl rfl, rfl⟩ ih

include hf ha in
/-- **Every request can use the alias wherever it uses the field.** -/
theorem Params.aliased_aliased (p : Params) : p.Aliased f a (p.aliased f a) where
  filters := filters_aliased hf ha p
  sortBy := by
    have hname : "sort_by" ∈ reservedNames := by decide
    rw [get?_aliased hf ha p hname, retext_sortBy]
    cases p.get? "sort_by" with
    | none => exact .none
    | some text =>
      rw [Option.map_some, Option.bind_some, Option.bind_some]
      exact visible?_aliasText ha text
  fields := by
    have hname : "fields" ∈ reservedNames := by decide
    rw [get?_aliased hf ha p hname, retext_fields]
    cases p.get? "fields" with
    | none => exact .none
    | some text =>
      refine .some ?_
      dsimp only
      rw [splitAt_aliased ha text]
      exact filterMap_visible?_aliasText ha _
  others name hname hsort hfields := by
    rw [get?_aliased hf ha p hname, retext_other hsort hfields, Option.map_id]
    rfl

end Everywhere

/-! ## Answers -/

/-- Responses that differ at most in the names that their warnings repeat, and in their links. -/
structure Response.Echoes (f a : String) (r r' : Response) : Prop where
  data : r'.data = r.data
  filters : r'.filters = r.filters
  sort : r'.sort = r.sort
  pagination : r'.pagination = { r.pagination with links := r'.pagination.links }
  warnings : List.Forall₂ (Violation.Echoes f a) r.warnings r'.warnings

/-- Responses of this kind, or errors with the same short name. -/
inductive Answer.Echoes (f a : String) : Except Error Response → Except Error Response → Prop
  | ok {r r' : Response} (h : r.Echoes f a r') : Answer.Echoes f a (.ok r) (.ok r')
  | error {e e' : Error} (h : e'.code = e.code) : Answer.Echoes f a (.error e) (.error e')

namespace Listing

variable {σ τ : Type}

/-- The page of a plan does not depend on how the plan is told. -/
theorem page_retold (l : Listing σ τ) (heeds : Bool) (plan : ListingPlan) (rejected : List FilterError)
    (sortBy : Option String) (fields : Option (List String)) (warnings : List Violation) :
    l.page heeds (plan.retold rejected sortBy fields warnings) = l.page heeds plan := rfl

/-- **Aliases are transparent.**  In a catalog of checked definitions, a request that uses an alias of a
field in some places where another one uses the field is answered as the other one is: with the same rows,
filters, sorting and page numbers, and with warnings that repeat the alias instead of the field; or with an
error of the same kind.  Neither may be called as the identity is, and settings block no alias. -/
theorem execute_aliased (rs : List Registration) (hrs : ∀ r ∈ rs, r.IsBuilt) {l : Listing σ τ}
    (hcatalog : l.engine.catalog = Catalog.enterAll {} rs) {f a : String}
    (halias : KeyMap.get? a l.engine.catalog.aliases = some f) (hf : f ≠ "id") (ha : a ≠ "id")
    (hblocked : ∀ b ∈ KeyMap.keys l.engine.catalog.aliases, b ∉ l.settings.filter.blockedFields)
    {p p' : Params} (hp : p.Aliased f a p') (heeds : Bool) (entityType : String)
    (s : ListingState σ τ) :
    Answer.Echoes f a (l.execute heeds entityType p s).1 (l.execute heeds entityType p' s).1 ∧
      (l.execute heeds entityType p' s).2 = (l.execute heeds entityType p s).2 := by
  have hstands : l.engine.catalog.StandsFor f a := by
    rw [hcatalog] at halias ⊢
    exact Catalog.standsFor hrs halias
  have hfree : l.settings.filter.isBlocked a = false := by
    unfold FilterSettings.isBlocked
    rw [← Bool.not_eq_true, List.contains_iff_mem]
    exact hblocked a (List.mem_map_of_mem (KeyMap.mem_of_get? halias))
  unfold execute
  rcases Catalog.planRequest_aliased hstands hf ha hfree hp entityType with
    ⟨plan, rejected, sortBy, fields, warnings, hplan, hplan', hwarnings⟩ | ⟨e, e', he, he', hcode⟩
  · rw [hplan, hplan']
    dsimp only
    rw [page_retold]
    generalize l.page heeds plan s = found
    obtain ⟨found, s⟩ := found
    cases found with
    | error e => exact ⟨.error rfl, rfl⟩
    | ok page =>
      dsimp only
      rw [show selectedFields (plan.retold rejected sortBy fields warnings) = selectedFields plan from rfl]
      generalize onEngine (l.engine.fillAll heeds .useDefault (selectedFields plan) page.rows) s = filled
      obtain ⟨filled, s⟩ := filled
      cases filled with
      | error e => exact ⟨.error rfl, rfl⟩
      | ok rows =>
        refine ⟨.ok ?_, rfl⟩
        exact { data := rfl, filters := rfl, sort := rfl, pagination := rfl, warnings := hwarnings }
  · rw [he, he']
    exact ⟨.error hcode, rfl⟩

section Priced

/-- The prices of items. -/
def priceColumn : Field where
  name := "price"
  fieldType := .integer
  operators := FieldType.integer.operators

/-- The price that is shown. -/
def shownPrice : VirtualField where
  name := "shown"
  fieldType := .integer
  computation := .coalesce
  computationName := "coalesce"
  dependencies := ["price"]
  operators := FieldType.integer.operators
  sortable := true

/-- Prices, and other names for them; one is the name that the identity has. -/
def priceDefinitions : List Registration :=
  [.field priceColumn, .virtual shownPrice, .aliased "cost" "shown", .aliased "id" "price"]

/-- A listing of items with prices. -/
def pricing : Listing MemoryCache Store where
  engine := { catalog := Catalog.enterAll {} priceDefinitions, digest := id }
  backend := Store.backend

/-- Three items with prices. -/
def priced : ListingState MemoryCache Store where
  engine := { cache := .empty 10 }
  store := { tables := [("item",
    [.mk "item" (.int 1) [("price", .int 5)] [], .mk "item" (.int 2) [("price", .int 0)] [],
      .mk "item" (.int 3) [("price", .int 3)] []])] }

/-- Items with a shown price above one in the order of this price, and a filter on something unknown. -/
def byShown : Params :=
  ⟨[("shown", ">1"), ("tag", "new"), ("sort_by", " shown"), ("fields", "price, shown ,id")]⟩

theorem priceDefinitions_areBuilt : ∀ r ∈ priceDefinitions, r.IsBuilt := by
  intro r hr
  simp only [priceDefinitions, List.mem_cons, List.not_mem_nil, or_false] at hr
  obtain rfl | rfl | rfl | rfl := hr
  · exact ⟨{ name := "price", fieldType := .integer }, rfl⟩
  · exact ⟨{ name := "shown", fieldType := .integer, computation := some .coalesce,
             computationName := some "coalesce", dependencies := ["price"], sortable := true }, rfl⟩
  · exact trivial
  · exact trivial

theorem pricing_blocksNothing :
    ∀ b ∈ KeyMap.keys pricing.engine.catalog.aliases, b ∉ pricing.settings.filter.blockedFields :=
  fun _ _ hb => nomatch hb

/-- What a response shows in a column. -/
def columnShown (name : String) (found : Except Error Response) : Option (List String) :=
  found.toOption.map fun r => (r.column name).map Json.compact

theorem columnShown_of_echoes {f a : String} {found found' : Except Error Response}
    (h : Answer.Echoes f a found found') (name : String) :
    columnShown name found' = columnShown name found := by
  cases h with
  | ok h =>
    unfold columnShown Response.column Except.toOption
    rw [Option.map_some, Option.map_some, h.data]
  | error h => rfl

/-- The costs of items are the prices that are shown. -/
theorem execute_costs :
    (∀ r ∈ priceDefinitions, r.IsBuilt) ∧
    KeyMap.get? "cost" pricing.engine.catalog.aliases = some "shown" ∧
    byShown.aliased "shown" "cost" =
      ⟨[("cost", ">1"), ("tag", "new"), ("sort_by", "cost"), ("fields", "price,cost,id")]⟩ ∧
    columnShown "shown" (pricing.execute false "item" (byShown.aliased "shown" "cost") priced).1 =
      some ["3", "5"] ∧
    Answer.Echoes "shown" "cost" (pricing.execute false "item" byShown priced).1
      (pricing.execute false "item" (byShown.aliased "shown" "cost") priced).1 := by
  have halias : KeyMap.get? "cost" pricing.engine.catalog.aliases = some "shown" := by decide +kernel
  have haliased := Params.aliased_aliased (f := "shown") (a := "cost") rfl rfl byShown
  obtain ⟨hsame, -⟩ := execute_aliased priceDefinitions priceDefinitions_areBuilt rfl halias (by decide)
    (by decide) pricing_blocksNothing haliased false "item" priced
  exact ⟨priceDefinitions_areBuilt, halias, by decide +kernel, by decide +kernel, hsame⟩

/-- **An alias with the name of the identity is not selected**: it is taken for the identity before it is
resolved, while filters and sort keys are resolved first. -/
theorem execute_selectsId :
    (∀ r ∈ priceDefinitions, r.IsBuilt) ∧
    KeyMap.get? "id" pricing.engine.catalog.aliases = some "price" ∧
    (⟨[("fields", "price")]⟩ : Params).Aliased "price" "id" ⟨[("fields", "id")]⟩ ∧
    ¬ Answer.Echoes "price" "id" (pricing.execute false "item" ⟨[("fields", "price")]⟩ priced).1
      (pricing.execute false "item" ⟨[("fields", "id")]⟩ priced).1 := by
  have haliased : (⟨[("fields", "price")]⟩ : Params).aliased "price" "id" = ⟨[("fields", "id")]⟩ := by
    decide +kernel
  refine ⟨priceDefinitions_areBuilt, by decide +kernel, ?_, fun hsame => ?_⟩
  · rw [← haliased]
    exact Params.aliased_aliased rfl rfl _
  · have hfield : columnShown "price" (pricing.execute false "item" ⟨[("fields", "price")]⟩ priced).1 =
        some ["5", "0", "3"] := by
      decide +kernel
    have hid : columnShown "price" (pricing.execute false "item" ⟨[("fields", "id")]⟩ priced).1 =
        some ["null", "null", "null"] := by
      decide +kernel
    have hcolumns := columnShown_of_echoes hsame "price"
    rw [hfield, hid] at hcolumns
    exact absurd hcolumns (by decide)

end Priced

end Listing

end FieldQuery
