import FieldQuery.Proofs.Data.KeyMap
import FieldQuery.Proofs.Request.Collected

/-!
# Strict and lenient requests

A request is read filter by filter.  A filter that is accepted is a condition for the store or a
clause about a virtual field, which brings the plan of its field; one that is refused leaves its
fault.  Only when all have been read does it matter whether the settings are strict.

* `Reads` — what a list of filters comes to, filter by filter;
* `Reading`, `Reading.take` — the same in one pass, as a state that takes one result after the other;
* `reads_collect`, `foldl_take_collect` — the parts of a translation are what the filters come to, and
  what one pass leaves;
* `IsUnion`, `IsSearch`, `IsAbsent` — the plan of several clauses, the group of conditions of a search,
  and the required columns that no clause is about;
* `Agreement` — what a request comes to in settings of both kinds.

Principal result: `translate_agrees` — strict settings accept what lenient ones accept without a fault,
and what either refuses it refuses with all that is wrong.
-/

namespace FieldQuery

/-! ## Filter by filter -/

/-- What filters come to: the conditions for the store, the clauses of virtual fields, all clauses and
the faults. Each filter has one entry among the clauses and the faults, in the order of the filters. -/
inductive Reads (s : FilterSettings) (c : Catalog) : List (String × String) → List Predicate →
    List Clause → List Clause → List FilterError → Prop
  | nil : Reads s c [] [] [] [] []
  | column {key raw : String} {cl : Clause} {rest conditions deferred active rejected}
      (hclause : s.clause c key raw = .ok cl) (hkind : cl.isVirtual = false)
      (hrest : Reads s c rest conditions deferred active rejected) :
      Reads s c ((key, raw) :: rest) (cl.predicate :: conditions) deferred (cl :: active) rejected
  | virtual {key raw : String} {cl : Clause} {rest conditions deferred active rejected}
      (hclause : s.clause c key raw = .ok cl) (hkind : cl.isVirtual = true)
      (hrest : Reads s c rest conditions deferred active rejected) :
      Reads s c ((key, raw) :: rest) conditions (cl :: deferred) (cl :: active) rejected
  | refused {key raw : String} {fault : FilterError} {rest conditions deferred active rejected}
      (hclause : s.clause c key raw = .error fault)
      (hrest : Reads s c rest conditions deferred active rejected) :
      Reads s c ((key, raw) :: rest) conditions deferred active (fault :: rejected)

/-- What the filters that have been read so far come to. -/
structure Reading where
  conditions : List Predicate := []
  deferred : List Clause := []
  active : List Clause := []
  rejected : List FilterError := []
  eager : LoadPlan := {}

/-- One more filter has been read. -/
def Reading.take (c : Catalog) (r : Reading) : Except FilterError Clause → Reading
  | .error fault => { r with rejected := r.rejected ++ [fault] }
  | .ok cl =>
    if cl.isVirtual then
      { r with
        eager := r.eager.merge (c.plan cl.field)
        deferred := r.deferred ++ [cl]
        active := r.active ++ [cl] }
    else { r with conditions := r.conditions ++ [cl.predicate], active := r.active ++ [cl] }

section Filters

variable {s : FilterSettings} {c : Catalog} {filters : List (String × String)}
  {conditions : List Predicate} {deferred active : List Clause} {rejected : List FilterError}

/-- One pass over the filters adds what they come to, and the plans of their virtual clauses one after
the other. -/
theorem Reads.foldl_take (h : Reads s c filters conditions deferred active rejected) (r : Reading) :
    filters.foldl (fun r pair => r.take c (s.clause c pair.1 pair.2)) r =
      { conditions := r.conditions ++ conditions
        deferred := r.deferred ++ deferred
        active := r.active ++ active
        rejected := r.rejected ++ rejected
        eager := deferred.foldl (fun plan cl => plan.merge (c.plan cl.field)) r.eager } := by
  induction h generalizing r with
  | nil => simp
  | column hclause hkind _ ih | virtual hclause hkind _ ih =>
    rw [List.foldl_cons, ih]
    simp [Reading.take, hclause, hkind]
  | refused hclause _ ih =>
    rw [List.foldl_cons, ih]
    simp [Reading.take, hclause]

/-- Filters come to the conditions and clauses among their results, and to the faults. -/
theorem reads_filterMap (s : FilterSettings) (c : Catalog) (filters : List (String × String)) :
    Reads s c filters
      (((filters.filterMap fun pair => (s.clause c pair.1 pair.2).toOption).filter
        (!·.isVirtual)).map Clause.predicate)
      ((filters.filterMap fun pair => (s.clause c pair.1 pair.2).toOption).filter (·.isVirtual))
      (filters.filterMap fun pair => (s.clause c pair.1 pair.2).toOption)
      (filters.filterMap fun pair => Except.fault? (s.clause c pair.1 pair.2)) := by
  induction filters with
  | nil => exact .nil
  | cons pair rest ih =>
    obtain ⟨key, raw⟩ := pair
    cases hclause : s.clause c key raw with
    | error fault =>
      simp only [List.filterMap_cons, hclause, Except.toOption, Except.fault?]
      exact .refused hclause ih
    | ok cl =>
      cases hkind : cl.isVirtual with
      | false =>
        simp only [List.filterMap_cons, hclause, Except.toOption, Except.fault?, List.filter_cons,
          hkind]
        exact .column hclause hkind ih
      | true =>
        simp only [List.filterMap_cons, hclause, Except.toOption, Except.fault?, List.filter_cons,
          hkind]
        exact .virtual hclause hkind ih

end Filters

/-! ## The parts of a translation -/

namespace FilterSettings

variable {s : FilterSettings} {c : Catalog} {p : Params}

/-- **The parts of a translation are what the filters come to.** -/
theorem reads_collect (s : FilterSettings) (c : Catalog) (p : Params) :
    ∃ conditions, Reads s c p.filters conditions (s.collect c p).virtualClauses
        (s.collect c p).active (s.collect c p).rejected ∧
      (s.collect c p).predicates = conditions ++ (s.collect c p).search.toList := by
  refine ⟨((s.collect c p).active.filter (!·.isVirtual)).map Clause.predicate, ?_, rfl⟩
  unfold Translation.virtualClauses
  rw [active_collect, rejected_collect]
  exact reads_filterMap s c p.filters

/-- One pass over the filters of a request leaves the parts of its translation. -/
theorem foldl_take_collect (s : FilterSettings) (c : Catalog) (p : Params) :
    ∃ conditions, p.filters.foldl (fun r pair => r.take c (s.clause c pair.1 pair.2)) {} =
        ({ conditions := conditions
           deferred := (s.collect c p).virtualClauses
           active := (s.collect c p).active
           rejected := (s.collect c p).rejected
           eager := (s.collect c p).eager } : Reading) ∧
      (s.collect c p).predicates = conditions ++ (s.collect c p).search.toList := by
  obtain ⟨conditions, hreads, hpredicates⟩ := reads_collect s c p
  refine ⟨conditions, ?_, hpredicates⟩
  rw [hreads.foldl_take, eager_collect]
  rfl

/-- A plan is made of the plans of clauses. -/
structure IsUnion (c : Catalog) (clauses : List Clause) (plan : LoadPlan) : Prop where
  columns : ∀ d, d ∈ plan.columns ↔ ∃ cl ∈ clauses, d ∈ (c.plan cl.field).columns
  relations : ∀ r, r ∈ plan.relations ↔ ∃ cl ∈ clauses, r ∈ (c.plan cl.field).relations
  sortedColumns : Names.Sorted plan.columns
  sortedRelations : Names.Sorted plan.relations

theorem isUnion_eager (s : FilterSettings) (c : Catalog) (p : Params) :
    IsUnion c (s.collect c p).virtualClauses (s.collect c p).eager := by
  rw [eager_collect, LoadPlan.foldl_merge]
  constructor
  · intro d
    simp [Names.mem_foldl_union]
  · intro r
    simp [Names.mem_foldl_union]
  · exact Names.sorted_nil.foldl_union _ _
  · exact Names.sorted_nil.foldl_union _ _

/-- The condition of a search for a term: one of the searchable columns that are not blocked, each of
them once and in the order of their names, fits the pattern of the term. -/
def IsSearch (s : FilterSettings) (c : Catalog) (term : String) (group : Predicate) : Prop :=
  ∃ names : List String, names ≠ [] ∧ Names.Sorted names ∧
    (∀ n, n ∈ names ↔ (∃ f ∈ c.fields.vals, f.searchable = true ∧ f.name = n) ∧ n ∉ s.blockedFields) ∧
    group = .anyOf (names.map fun n => .compare n .like (.single (.text (searchPattern term))))

theorem mem_names_filter {fields : KeyMap Field} {property : Field → Bool} {n : String} :
    n ∈ Names.ofList ((fields.vals.filter property).map (·.name)) ↔
      ∃ f ∈ fields.vals, property f = true ∧ f.name = n := by
  simp [Names.mem_ofList, and_assoc]

theorem sorted_ofList (names : List String) : Names.Sorted (Names.ofList names) :=
  Names.sorted_nil.union names

theorem searchPredicate_eq_some_iff {term : String} {group : Predicate} :
    s.searchPredicate c term = some group ↔ s.IsSearch c term group := by
  have hmem : ∀ n, n ∈ c.searchable.filter (fun name => !s.isBlocked name) ↔
      (∃ f ∈ c.fields.vals, f.searchable = true ∧ f.name = n) ∧ n ∉ s.blockedFields := by
    intro n
    unfold Catalog.searchable isBlocked
    rw [List.mem_filter, mem_names_filter]
    simp
  have hsorted : Names.Sorted (c.searchable.filter fun name => !s.isBlocked name) :=
    List.Pairwise.filter _ (sorted_ofList _)
  constructor
  · intro h
    unfold searchPredicate at h
    split at h
    · cases h
    · rename_i hne
      cases h
      exact ⟨_, hne, hsorted, hmem, rfl⟩
  · rintro ⟨names, hne, hnames, hspec, rfl⟩
    obtain rfl : c.searchable.filter (fun name => !s.isBlocked name) = names :=
      hsorted.ext hnames fun n => (hmem n).trans (hspec n).symm
    unfold searchPredicate
    split
    · rename_i hnil
      exact absurd hnil hne
    · rfl

/-- The search of a translation. -/
theorem search_collect_eq_some_iff {group : Predicate} :
    (s.collect c p).search = some group ↔
      ∃ raw term, p.get? "search" = some raw ∧ Options.visible? raw = some term ∧
        s.IsSearch c term group := by
  rw [search_collect, Option.bind_eq_some_iff]
  constructor
  · rintro ⟨term, hterm, hgroup⟩
    obtain ⟨raw, hraw, hvisible⟩ := Option.bind_eq_some_iff.1 hterm
    exact ⟨raw, term, hraw, hvisible, searchPredicate_eq_some_iff.1 hgroup⟩
  · rintro ⟨raw, term, hraw, hvisible, hgroup⟩
    exact ⟨term, Option.bind_eq_some_iff.2 ⟨raw, hraw, hvisible⟩,
      searchPredicate_eq_some_iff.2 hgroup⟩

/-! ## Required columns -/

/-- The required columns that no clause is about, in the order of their names. -/
structure IsAbsent (c : Catalog) (active : List Clause) (absent : List String) : Prop where
  sorted : Names.Sorted absent
  mem_iff : ∀ n, n ∈ absent ↔
    (∃ f ∈ c.fields.vals, f.required = true ∧ f.name = n) ∧ ∀ cl ∈ active, cl.field ≠ n

theorem missing_eq (c : Catalog) (active : List Clause) :
    ∃ absent, IsAbsent c active absent ∧
      missing c active = absent.map FilterError.missingRequired := by
  refine ⟨c.required.filter fun name => !(active.map (·.field)).contains name,
    ⟨List.Pairwise.filter _ (sorted_ofList _), fun n => ?_⟩, rfl⟩
  unfold Catalog.required
  rw [List.mem_filter, mem_names_filter]
  simp

/-! ## Strict and lenient settings -/

/-- The settings with another strictness. -/
def withStrict (s : FilterSettings) (strict : Bool) : FilterSettings := { s with strict := strict }

/-- Filters are read alike in strict settings and in lenient ones. -/
theorem collect_withStrict (s : FilterSettings) (strict : Bool) (c : Catalog) (p : Params) :
    (s.withStrict strict).collect c p = s.collect c p :=
  rfl

/-- A translation in settings of either kind. -/
theorem translate_withStrict_eq_ok_iff {strict : Bool} {t : Translation} :
    (s.withStrict strict).translate c p = .ok t ↔
      t = s.collect c p ∧ (strict = true → t.rejected = []) ∧ missing c t.active = [] := by
  constructor
  · intro h
    obtain rfl := translate_ok h
    exact ⟨collect_withStrict s strict c p, translate_eq_ok_iff.1 h⟩
  · rintro ⟨rfl, hright⟩
    exact translate_eq_ok_iff.2 hright

/-- Strict settings refuse a request with a fault, and tell all that is wrong with it. -/
theorem translate_strict_error (h : (s.collect c p).rejected ≠ []) :
    (s.withStrict true).translate c p = .error (.rejected
      (((s.collect c p).rejected ++ missing c (s.collect c p).active).map FilterError.violation)) := by
  unfold translate
  rw [collect_withStrict]
  exact if_pos ⟨rfl, h⟩

/-- What a request without faults lacks is told alike in settings of both kinds. -/
theorem translate_missing {absent : List String} (h : (s.collect c p).rejected = [])
    (habsent : missing c (s.collect c p).active = absent.map FilterError.missingRequired)
    (hne : absent ≠ []) :
    ∃ err, (∀ strict, (s.withStrict strict).translate c p = .error err) ∧
      err.violations = absent.map fun n => (FilterError.missingRequired n).violation := by
  have hnone : ∀ strict, ¬ ((s.withStrict strict).strict ∧ (s.collect c p).rejected ≠ []) :=
    fun _ hwrong => hwrong.2 h
  -- a single column is told as such, several are told as a list
  match absent, hne with
  | [n], _ =>
    refine ⟨.missingRequired n, fun strict => ?_, rfl⟩
    unfold translate
    rw [collect_withStrict]
    dsimp only
    rw [if_neg (hnone strict), habsent]
    rfl
  | n :: m :: rest, _ =>
    refine ⟨.rejected (((n :: m :: rest).map FilterError.missingRequired).map FilterError.violation),
      fun strict => ?_, List.map_map⟩
    unfold translate
    rw [collect_withStrict]
    dsimp only
    rw [if_neg (hnone strict), habsent]
    rfl

/-- What a request comes to in lenient and in strict settings: one translation, in which each filter has
its place, and the required columns that are absent. -/
structure Agreement (s : FilterSettings) (c : Catalog) (p : Params) (t : Translation)
    (absent : List String) : Prop where
  reads : ∃ conditions, Reads s c p.filters conditions t.virtualClauses t.active t.rejected ∧
    t.predicates = conditions ++ t.search.toList
  eager : IsUnion c t.virtualClauses t.eager
  search : ∀ group, t.search = some group ↔ ∃ raw term, p.get? "search" = some raw ∧
    Options.visible? raw = some term ∧ s.IsSearch c term group
  required : IsAbsent c t.active absent
  /-- Faults fail no request in lenient settings, absent columns do. -/
  lenient : ∀ t', (s.withStrict false).translate c p = .ok t' ↔ t' = t ∧ absent = []
  strict : ∀ t', (s.withStrict true).translate c p = .ok t' ↔
    (s.withStrict false).translate c p = .ok t' ∧ t'.rejected = []
  /-- All faults are told, and then all that is absent. -/
  refused : t.rejected ≠ [] → (s.withStrict true).translate c p = .error (.rejected
    (t.rejected.map FilterError.violation ++
      absent.map fun n => (FilterError.missingRequired n).violation))
  missing : t.rejected = [] → absent ≠ [] → ∃ err,
    (s.withStrict false).translate c p = .error err ∧
    (s.withStrict true).translate c p = .error err ∧
    err.violations = absent.map fun n => (FilterError.missingRequired n).violation

/-- **Strict and lenient settings agree, and nothing is lost.** The filters of a request come one by one
to the clauses and the faults of one translation. Lenient settings give it if no required column is
absent, strict ones if there is no fault either; a request with faults is refused by strict settings with
all of them and all that is absent, and one without by both with what is absent. -/
theorem translate_agrees (s : FilterSettings) (c : Catalog) (p : Params) :
    ∃ t absent, Agreement s c p t absent := by
  obtain ⟨absent, hspec, habsent⟩ := missing_eq c (s.collect c p).active
  have hnil : missing c (s.collect c p).active = [] ↔ absent = [] := by
    rw [habsent, List.map_eq_nil_iff]
  refine ⟨s.collect c p, absent, reads_collect s c p, isUnion_eager s c p,
    fun _ => search_collect_eq_some_iff, hspec, fun t' => ?lenient, fun t' => ?strict,
    fun hfaults => ?refused, fun hnone hne => ?missing⟩
  case lenient =>
    rw [translate_withStrict_eq_ok_iff]
    constructor
    · rintro ⟨rfl, -, hmissing⟩
      exact ⟨rfl, hnil.1 hmissing⟩
    · rintro ⟨rfl, hmissing⟩
      exact ⟨rfl, (nomatch ·), hnil.2 hmissing⟩
  case strict =>
    rw [translate_withStrict_eq_ok_iff, translate_withStrict_eq_ok_iff]
    constructor
    · rintro ⟨ht, hfaults, hmissing⟩
      exact ⟨⟨ht, (nomatch ·), hmissing⟩, hfaults rfl⟩
    · rintro ⟨⟨ht, -, hmissing⟩, hfaults⟩
      exact ⟨ht, fun _ => hfaults, hmissing⟩
  case refused =>
    rw [translate_strict_error hfaults, habsent, List.map_append, List.map_map]
    rfl
  case missing =>
    obtain ⟨err, hsame, hviolations⟩ := translate_missing hnone habsent hne
    exact ⟨err, hsame false, hsame true, hviolations⟩

end FilterSettings

end FieldQuery
