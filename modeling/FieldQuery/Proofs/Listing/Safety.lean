import FieldQuery.Cache.Memory
import FieldQuery.Proofs.Listing.Execute

/-!
# No row escapes the filters

* `Store.Keyed` — a store whose tables have rows of their own type, with different identities;
* `Listing.Reaches` — the states of a listing after requests and insertions, while anything may happen
  to the caches;
* `Engine.Computes` — a value that an engine yields for an entity in some batch;
* `Row.Extends` — a row of the same entity, with at least the same values;
* `Listing.Admits` — a row stands for a row of a table that satisfies the clauses on columns and the
  search, and has computed values that satisfy the clauses on virtual fields;
* `Keeps` — a step changes no table, and yields what it should if it yields anything.

Principal results: `narrow_admits` — the rows that remain have satisfying values, `page_keeps` — every
way to a page leads to such rows, whatever the caches hold, and `execute_admits`.
-/

namespace FieldQuery

variable {σ : Type}

/-! ## Stores -/

namespace Store

/-- Every table has rows of its own type, with different identities. -/
structure Keyed (s : Store) : Prop where
  types : ∀ t table, s.table? t = some table → ∀ e ∈ table, e.entityType = t
  ids : ∀ t table, s.table? t = some table → (table.map (·.id)).Nodup

theorem Keyed.of_tables {s s' : Store} (h : s.Keyed) (htables : s'.tables = s.tables) : s'.Keyed := by
  have hsame : ∀ t, s'.table? t = s.table? t := fun t => by unfold table?; rw [htables]
  exact ⟨fun t table ht => h.types t table (by rw [← hsame]; exact ht),
    fun t table ht => h.ids t table (by rw [← hsame]; exact ht)⟩

/-- A store with one table. -/
theorem keyed_singleton {t : String} {table : List Entity} (htypes : ∀ e ∈ table, e.entityType = t)
    (hids : (table.map (·.id)).Nodup) : ({ tables := [(t, table)] } : Store).Keyed := by
  have hget : ∀ t' table', ({ tables := [(t, table)] } : Store).table? t' = some table' →
      t' = t ∧ table' = table := by
    intro t' table' h
    unfold table? KeyMap.get? at h
    split at h
    · rename_i heq
      cases h
      exact ⟨heq, rfl⟩
    · cases h
  constructor
  · intro t' table' h
    obtain ⟨rfl, rfl⟩ := hget t' table' h
    exact htypes
  · intro t' table' h
    obtain ⟨rfl, rfl⟩ := hget t' table' h
    exact hids

/-- A row with a new identity joins its table. -/
theorem Keyed.insert {s : Store} (h : s.Keyed) {e : Entity}
    (hnew : e.id ∉ ((s.table? e.entityType).getD []).map (·.id)) : (s.insert e).Keyed := by
  have hown : (s.insert e).table? e.entityType =
      some ((s.table? e.entityType).getD [] ++ [e]) := KeyMap.get?_insert _ _ _
  have hother : ∀ t, t ≠ e.entityType → (s.insert e).table? t = s.table? t :=
    fun t ht => KeyMap.get?_insert_ne ht _ _
  have htypes : ∀ row ∈ (s.table? e.entityType).getD [], row.entityType = e.entityType := by
    cases htable : s.table? e.entityType with
    | none => intro row hrow; cases hrow
    | some table => exact h.types _ table htable
  have hids : (((s.table? e.entityType).getD []).map (·.id)).Nodup := by
    cases htable : s.table? e.entityType with
    | none => exact List.nodup_nil
    | some table => exact h.ids _ table htable
  constructor
  · intro t table ht row hrow
    by_cases htype : t = e.entityType
    · subst htype
      rw [hown] at ht
      cases ht
      rcases List.mem_append.1 hrow with hrow | hrow
      · exact htypes row hrow
      · rw [List.mem_singleton.1 hrow]
    · rw [hother t htype] at ht
      exact h.types t table ht row hrow
  · intro t table ht
    by_cases htype : t = e.entityType
    · subst htype
      rw [hown] at ht
      cases ht
      rw [List.map_append, List.nodup_append]
      refine ⟨hids, List.nodup_singleton _, ?_⟩
      intro id hid id' hid' heq
      rw [List.map_singleton, List.mem_singleton] at hid'
      rw [heq, hid'] at hid
      exact hnew hid
    · rw [hother t htype] at ht
      exact h.ids t table ht

end Store

/-! ## Rows -/

/-- A value that an engine yields for an entity, in a batch of entities with different identities. -/
def Engine.Computes (en : Engine σ) (field : String) (e : Entity) (a : Value) : Prop :=
  ∃ heeds es s o, (en.computeBatch heeds field es s).1 = .ok o ∧ e ∈ es ∧ (es.map (·.id)).Nodup ∧
    o.value? e.id = some a

/-- An engine without a cache yields the own values of entities. -/
theorem Engine.Computes.own? {en : Engine σ} (hc : en.catalog.Lawful) (hpure : en.catalog.IsPure)
    (hcache : en.cache = none) {field : String}
    (hfield : field ∈ KeyMap.keys en.catalog.virtualFields) {e : Entity} {a : Value}
    (h : en.Computes field e a) :
    Meaning.own? en.catalog en.settings.failurePolicy field e = some a := by
  obtain ⟨heeds, es, s, o, hrun, he, hids, hvalue⟩ := h
  obtain ⟨v, hv⟩ := Catalog.get?_of_mem_keys hfield
  rw [← (computeBatch_own hc hpure hcache hv hrun hids).1 e he]
  exact hvalue

namespace Row

/-- A row of the same entity, with at least the same values. -/
structure Extends (r r' : Row) : Prop where
  entity : r'.entity = r.entity
  values : ∀ field a, r.value? field = some a → r'.value? field = some a

theorem Extends.refl (r : Row) : r.Extends r := ⟨rfl, fun _ _ h => h⟩

theorem Extends.trans {r r' r'' : Row} (h : r.Extends r') (h' : r'.Extends r'') : r.Extends r'' :=
  ⟨h'.entity.trans h.entity, fun field a ha => h'.values field a (h.values field a ha)⟩

/-- A value for a field that a row lacks. -/
theorem extends_give {r : Row} {field : String} (hlacks : r.has field = false) (a : Value) :
    r.Extends (r.give field a) := by
  refine ⟨rfl, fun name b hb => ?_⟩
  have hne : name ≠ field := by
    rintro rfl
    have hhas : r.has name = true := by
      show (r.value? name).isSome = true
      rw [hb]
      rfl
    rw [hhas] at hlacks
    cases hlacks
  exact (KeyMap.get?_insert_ne hne _ _).trans hb

/-- What becomes of a row that is settled. -/
theorem settle_extends {field : String} {excluded : Excluded} {default : Value} {o : BatchOutcome}
    {r r' : Row} (h : r.settle field excluded default o = some r') : r.Extends r' := by
  unfold settle at h
  split at h
  · cases h
    exact .refl r
  · rename_i hlacks
    have hlacks : r.has field = false := by simpa using hlacks
    split at h
    · cases h
      exact extends_give hlacks _
    · cases h
      exact extends_give hlacks _
    · cases h

/-- A row that is not dropped has the value of the outcome, or has had one. -/
theorem value?_settle {field : String} {default : Value} {o : BatchOutcome} {r r' : Row}
    (h : r.settle field .drop default o = some r') :
    r.has field = true ∧ r' = r ∨
      ∃ a, r.has field = false ∧ o.value? r.entity.id = some a ∧ r' = r.give field a := by
  unfold settle at h
  split at h
  · rename_i hhas
    cases h
    exact .inl ⟨hhas, rfl⟩
  · rename_i hlacks
    have hlacks : r.has field = false := by simpa using hlacks
    split at h
    · rename_i hvalue
      cases h
      exact .inr ⟨_, hlacks, hvalue, rfl⟩
    · rename_i hdrop
      cases hdrop
    · cases h

end Row

/-- All values of rows have been computed. -/
def Engine.Earned (en : Engine σ) (rows : List Row) : Prop :=
  ∀ r ∈ rows, ∀ field a, r.value? field = some a → en.Computes field r.entity a

namespace Engine

variable {en : Engine σ} {heeds : Bool}

/-- The rows that lack a field are computed in one batch. -/
theorem fill_cases {excluded : Excluded} {field : String} {rows rows' : List Row} {s : EngineState σ}
    (h : (en.fill heeds excluded field rows s).1 = .ok rows') :
    rows' = rows ∧ (∀ r ∈ rows, r.has field = true) ∨
      ∃ o, (en.computeBatch heeds field ((rows.filter fun r => !r.has field).map (·.entity)) s).1 =
          .ok o ∧
        rows' = rows.filterMap (Row.settle field excluded (en.defaultOf field) o) := by
  unfold fill at h
  split at h
  · rename_i hnone
    cases h
    refine .inl ⟨rfl, fun r hr => ?_⟩
    have hfilter := List.filter_eq_nil_iff.1 (List.map_eq_nil_iff.1 hnone) r hr
    simpa using hfilter
  · right
    split at h
    · cases h
    · rename_i o _ hrun
      cases h
      exact ⟨o, by rw [hrun], rfl⟩

/-- Rows that are filled extend the rows that were there. -/
theorem fill_extends {excluded : Excluded} {field : String} {rows rows' : List Row}
    {s : EngineState σ} (h : (en.fill heeds excluded field rows s).1 = .ok rows') :
    ∀ r' ∈ rows', ∃ r ∈ rows, r.Extends r' := by
  rcases fill_cases h with ⟨rfl, -⟩ | ⟨o, -, rfl⟩
  · exact fun r hr => ⟨r, hr, .refl r⟩
  · intro r' hr'
    obtain ⟨r, hr, hsettle⟩ := List.mem_filterMap.1 hr'
    exact ⟨r, hr, Row.settle_extends hsettle⟩

theorem fillAll_extends {excluded : Excluded} (fields : List String) :
    ∀ {rows rows' : List Row} {s : EngineState σ},
      (en.fillAll heeds excluded fields rows s).1 = .ok rows' →
      ∀ r' ∈ rows', ∃ r ∈ rows, r.Extends r' := by
  induction fields with
  | nil =>
    intro rows rows' s h
    cases h
    exact fun r hr => ⟨r, hr, .refl r⟩
  | cons field fields ih =>
    intro rows rows' s h r' hr'
    unfold fillAll at h
    cases hrun : en.fill heeds excluded field rows s with
    | mk result s' =>
      rw [hrun] at h
      cases result with
      | error err => cases h
      | ok filled =>
        obtain ⟨r₁, hr₁, hext₁⟩ := ih h r' hr'
        obtain ⟨r, hr, hext⟩ := fill_extends (by rw [hrun]) r₁ hr₁
        exact ⟨r, hr, hext.trans hext₁⟩

/-- The entities of rows that are settled are some of the entities that were there. -/
theorem entities_settle_sublist {field : String} {excluded : Excluded} {default : Value}
    {o : BatchOutcome} (rows : List Row) :
    ((rows.filterMap (Row.settle field excluded default o)).map (·.entity)).Sublist
      (rows.map (·.entity)) := by
  induction rows with
  | nil => exact List.Sublist.slnil
  | cons r rows ih =>
    cases hsettle : r.settle field excluded default o with
    | none =>
      rw [List.filterMap_cons_none hsettle, List.map_cons]
      exact ih.cons _
    | some r' =>
      rw [List.filterMap_cons_some hsettle, List.map_cons, List.map_cons,
        (Row.settle_extends hsettle).entity]
      exact ih.cons_cons _

theorem fill_sublist {excluded : Excluded} {field : String} {rows rows' : List Row}
    {s : EngineState σ} (h : (en.fill heeds excluded field rows s).1 = .ok rows') :
    (rows'.map (·.entity)).Sublist (rows.map (·.entity)) := by
  rcases fill_cases h with ⟨rfl, -⟩ | ⟨o, -, rfl⟩
  · exact List.Sublist.refl _
  · exact entities_settle_sublist rows

/-- No clause moves a row. -/
theorem narrow_sublist {clauses : List Clause} {rows rows' : List Row} {s : EngineState σ}
    (h : (en.narrow heeds clauses rows s).1 = .ok rows') :
    (rows'.map (·.entity)).Sublist (rows.map (·.entity)) := by
  induction clauses generalizing rows s with
  | nil =>
    cases h
    exact List.Sublist.refl _
  | cons cl clauses ih =>
    unfold narrow at h
    cases hrun : en.fill heeds .drop cl.field rows s with
    | mk result s' =>
      rw [hrun] at h
      cases result with
      | error err => cases h
      | ok filled =>
        have hfilled := fill_sublist (congrArg Prod.fst hrun)
        exact (ih h).trans ((List.filter_sublist.map _).trans hfilled)

/-- **Rows for which a field is not left out have a computed value of it.** -/
theorem fill_earned {field : String} {rows rows' : List Row} {s : EngineState σ}
    (h : (en.fill heeds .drop field rows s).1 = .ok rows')
    (hids : ((rows.map (·.entity)).map (·.id)).Nodup) (hearned : en.Earned rows) :
    en.Earned rows' ∧ (rows'.map (·.entity)).Sublist (rows.map (·.entity)) ∧
      ∀ r' ∈ rows', ∃ a, r'.value? field = some a := by
  rcases fill_cases h with ⟨rfl, hhas⟩ | ⟨o, hrun, rfl⟩
  · exact ⟨hearned, List.Sublist.refl _, fun r hr => Option.isSome_iff_exists.1 (hhas r hr)⟩
  · have hsublist := List.filter_sublist (p := fun r => !Row.has field r) (l := rows)
    have hnodup := ((hsublist.map (·.entity)).map (·.id)).nodup hids
    refine ⟨?_, entities_settle_sublist rows, ?_⟩
    · intro r' hr' name a ha
      obtain ⟨r, hr, hsettle⟩ := List.mem_filterMap.1 hr'
      rcases Row.value?_settle hsettle with ⟨-, rfl⟩ | ⟨b, hlacks, hvalue, rfl⟩
      · exact hearned _ hr name a ha
      · by_cases hname : name = field
        · subst hname
          rw [show (r.give name b).value? name = some b from KeyMap.get?_insert _ _ _] at ha
          cases ha
          have hpending : r ∈ rows.filter fun r => !r.has name :=
            List.mem_filter.2 ⟨hr, by rw [hlacks]; rfl⟩
          show en.Computes name r.entity a
          exact ⟨heeds, _, s, o, hrun, List.mem_map_of_mem hpending, hnodup, hvalue⟩
        · rw [show (r.give field b).value? name = r.value? name from
            KeyMap.get?_insert_ne hname _ _] at ha
          exact hearned r hr name a ha
    · intro r' hr'
      obtain ⟨r, -, hsettle⟩ := List.mem_filterMap.1 hr'
      rcases Row.value?_settle hsettle with ⟨hhas, rfl⟩ | ⟨b, -, -, rfl⟩
      · exact Option.isSome_iff_exists.1 hhas
      · exact ⟨b, KeyMap.get?_insert _ _ _⟩

/-- **The rows that remain have computed values that satisfy every clause.** -/
theorem narrow_admits (clauses : List Clause) :
    ∀ {rows rows' : List Row} {s : EngineState σ},
      (en.narrow heeds clauses rows s).1 = .ok rows' →
      ((rows.map (·.entity)).map (·.id)).Nodup → en.Earned rows →
      en.Earned rows' ∧ (rows'.map (·.entity)).Sublist (rows.map (·.entity)) ∧
        ∀ r' ∈ rows', (∃ r ∈ rows, r.Extends r') ∧ ∀ cl ∈ clauses, ∃ a,
          r'.value? cl.field = some a ∧ cl.operator.holds (some a) cl.operand = true := by
  induction clauses with
  | nil =>
    intro rows rows' s h _ hearned
    cases h
    exact ⟨hearned, List.Sublist.refl _, fun r hr => ⟨⟨r, hr, .refl r⟩, fun cl hcl => nomatch hcl⟩⟩
  | cons cl clauses ih =>
    intro rows rows' s h hids hearned
    unfold narrow at h
    cases hrun : en.fill heeds .drop cl.field rows s with
    | mk result s' =>
      rw [hrun] at h
      cases result with
      | error err => cases h
      | ok filled =>
        have hfill : (en.fill heeds .drop cl.field rows s).1 = .ok filled := by rw [hrun]
        obtain ⟨hearned₁, hsublist₁, hhas⟩ := fill_earned hfill hids hearned
        have hkept := List.filter_sublist (p := Row.satisfies cl) (l := filled)
        have hsublist := (hkept.map (·.entity)).trans hsublist₁
        obtain ⟨hearned', hsublist', hrows⟩ := ih h ((hsublist.map _).nodup hids)
          fun r hr => hearned₁ r (List.mem_filter.1 hr).1
        refine ⟨hearned', hsublist'.trans hsublist, fun r' hr' => ?_⟩
        obtain ⟨⟨r₁, hr₁, hext₁⟩, hclauses⟩ := hrows r' hr'
        obtain ⟨hr₁, hsatisfies⟩ := List.mem_filter.1 hr₁
        obtain ⟨r, hr, hext⟩ := fill_extends hfill r₁ hr₁
        refine ⟨⟨r, hr, hext.trans hext₁⟩, ?_⟩
        rw [List.forall_mem_cons]
        refine ⟨?_, hclauses⟩
        obtain ⟨a, ha⟩ := hhas r₁ hr₁
        refine ⟨a, hext₁.values _ a ha, ?_⟩
        unfold Row.satisfies at hsatisfies
        rw [ha] at hsatisfies
        exact hsatisfies

end Engine

/-! ## Pages -/

/-- A step leaves the tables as they are, and yields what it should if it yields anything. -/
structure Keeps {α : Type} (tables : KeyMap (List Entity)) (good : α → Prop)
    (run : Except Error α × ListingState σ Store) : Prop where
  tables : run.2.store.tables = tables
  good : ∀ a, run.1 = .ok a → good a

/-- A step that yields nothing. -/
theorem Keeps.error {α : Type} {tables : KeyMap (List Entity)} {good : α → Prop} {e : Error}
    {s : ListingState σ Store} (h : s.store.tables = tables) : Keeps tables good (.error e, s) :=
  ⟨h, fun _ ha => nomatch ha⟩

namespace Listing

/-- A row stands for a row of the table that satisfies the clauses on columns and the search, and has
computed values that satisfy the clauses on virtual fields. -/
structure Admits (en : Engine σ) (plan : ListingPlan) (table : List Entity) (r : Row) : Prop where
  stored : ∃ e ∈ table, plan.translation.admits e = true ∧ r.entity = Store.project plan.query e
  clauses : ∀ cl ∈ plan.translation.virtualClauses, ∃ a, r.value? cl.field = some a ∧
    cl.operator.holds (some a) cl.operand = true ∧ en.Computes cl.field r.entity a

section Ways

variable {l : Listing σ Store} {plan : ListingPlan} (heeds : Bool) {s : ListingState σ Store}
  {table : List Entity}

theorem Admits.of_extends {r r' : Row} (h : Admits l.engine plan table r) (hext : r.Extends r') :
    Admits l.engine plan table r' where
  stored := by
    obtain ⟨e, he, hadmits, hentity⟩ := h.stored
    exact ⟨e, he, hadmits, hext.entity.trans hentity⟩
  clauses cl hcl := by
    obtain ⟨a, ha, hholds, hcomputes⟩ := h.clauses cl hcl
    exact ⟨a, hext.values _ a ha, hholds, by rw [hext.entity]; exact hcomputes⟩

/-- A row as it is loaded, where there are no clauses on virtual fields. -/
theorem admits_loaded (hnone : plan.translation.virtualClauses = []) {e : Entity}
    (he : e ∈ plan.admitted table) :
    Admits l.engine plan table { entity := Store.project plan.query e } where
  stored := ⟨e, (List.mem_filter.1 he).1, (List.mem_filter.1 he).2, rfl⟩
  clauses cl hcl := by
    rw [hnone] at hcl
    cases hcl

/-- Rows of a page are rows that could be on it. -/
theorem mem_pageOf {o : Options} {rows : List Row} {r : Row} (h : r ∈ pageOf o rows) : r ∈ rows :=
  (pageOf_sublist o rows).subset h

/-- Rows that satisfy the clauses, sorted or not. -/
theorem arrangeFiltered_keeps {rows : List Row} (hrows : ∀ r ∈ rows, Admits l.engine plan table r)
    (sort : Option SortKey) (direction : Direction) :
    Keeps s.store.tables (fun arranged : List Row × SortStrategy =>
        ∀ r ∈ arranged.1, Admits l.engine plan table r)
      (l.arrangeFiltered heeds sort direction rows s) := by
  unfold arrangeFiltered
  split
  · exact ⟨rfl, fun _ h => by cases h; exact hrows⟩
  · exact ⟨rfl, fun _ h => by cases h; exact hrows⟩
  · rename_i field
    rw [sortFiltered_eq]
    have hextends := fun filled => @Engine.fill_extends σ l.engine heeds .drop field rows filled s.engine
    generalize l.engine.fill heeds .drop field rows s.engine = run at hextends ⊢
    obtain ⟨result, engine⟩ := run
    cases result with
    | ok filled =>
      refine ⟨rfl, fun arranged h r hr => ?_⟩
      cases h
      have hmem : r ∈ filled := (sortBy_perm _ _).mem_iff.1 hr
      obtain ⟨r₀, hr₀, hext⟩ := hextends filled rfl r hmem
      exact (hrows r₀ hr₀).of_extends hext
    | error err =>
      dsimp only
      split
      · exact ⟨rfl, fun _ h => by cases h; exact hrows⟩
      · exact .error rfl

variable (hbackend : l.backend = Store.backend)
  (hfound : s.store.matching plan.query = .ok (plan.admitted table))

include hbackend hfound

/-- A page that the store cuts out. -/
theorem databasePage_keeps (hnone : plan.translation.virtualClauses = []) (order : Option Order)
    (strategy : SortStrategy) :
    Keeps s.store.tables (fun page : Page => ∀ r ∈ page.rows, Admits l.engine plan table r)
      (l.databasePage plan.query order plan.options strategy s) := by
  rw [databasePage_eq hbackend hfound]
  refine ⟨rfl, fun page hpage r hr => ?_⟩
  cases hpage
  obtain ⟨e, he, rfl⟩ := List.mem_map.1 (mem_pageOf hr)
  exact admits_loaded hnone ((Store.arrange_perm _ _).mem_iff.1 he)

/-- The rows of an order, whatever it is. -/
theorem cachedPage_keeps (hnone : plan.translation.virtualClauses = []) (ids : List EntityId) :
    Keeps s.store.tables (fun page : Page => ∀ r ∈ page.rows, Admits l.engine plan table r)
      (l.cachedPage plan.query plan.options ids s) := by
  rw [cachedPage_eq hbackend hfound]
  refine ⟨rfl, fun page hpage r hr => ?_⟩
  cases hpage
  obtain ⟨e, he, rfl⟩ := List.mem_map.1 hr
  obtain ⟨id, -, hrow⟩ := List.mem_filterMap.1 he
  -- whatever identity the order names, the row is one that the store finds now
  exact admits_loaded hnone (List.mem_reverse.1 (List.mem_of_find?_eq_some hrow))

/-- All rows, sorted by a virtual field. -/
theorem sortedPage_keeps (hnone : plan.translation.virtualClauses = []) (field key : String) :
    Keeps s.store.tables (fun page : Page => ∀ r ∈ page.rows, Admits l.engine plan table r)
      (l.sortedPage heeds plan.query field plan.options key s) := by
  have htables := fetchAll_tables hbackend hfound none
  rw [sortedPage_eq hbackend hfound]
  cases hrun : l.engine.fill heeds .drop field
      ((plan.admitted table).map fun e => { entity := Store.project plan.query e }) s.engine with
  | mk result engine =>
    cases result with
    | error err => exact .error htables
    | ok filled =>
      refine ⟨?_, fun page hpage r hr => ?_⟩
      · dsimp only
        rw [cacheOrder_store]
        exact htables
      · cases hpage
        have hmem : r ∈ filled := (sortBy_perm _ _).mem_iff.1 (mem_pageOf hr)
        obtain ⟨r₀, hr₀, hext⟩ := Engine.fill_extends (by rw [hrun]) r hmem
        obtain ⟨e, he, rfl⟩ := List.mem_map.1 hr₀
        exact (admits_loaded hnone he).of_extends hext

/-- A page sorted by a virtual field, from a cached order or not. -/
theorem memorySortedPage_keeps (hnone : plan.translation.virtualClauses = []) (field : String) :
    Keeps s.store.tables (fun page : Page => ∀ r ∈ page.rows, Admits l.engine plan table r)
      (l.memorySortedPage heeds plan.query field plan.options s) := by
  unfold memorySortedPage
  dsimp only
  have hstore := l.cachedOrder_store (l.orderKey plan.query field plan.options.direction) s
  generalize l.cachedOrder _ s = looked at hstore ⊢
  obtain ⟨ids, s₁⟩ := looked
  dsimp only at hstore
  rw [← hstore] at hfound ⊢
  cases ids with
  | none => exact sortedPage_keeps heeds hbackend hfound hnone field _
  | some ids => exact cachedPage_keeps hbackend hfound hnone ids

/-- A page sorted by a virtual field, or in the order of the store. -/
theorem virtualSortedPage_keeps (hnone : plan.translation.virtualClauses = []) (field : String) :
    Keeps s.store.tables (fun page : Page => ∀ r ∈ page.rows, Admits l.engine plan table r)
      (l.virtualSortedPage heeds plan.query field plan.options s) := by
  rw [virtualSortedPage_eq hbackend hfound]
  split
  · split
    · exact databasePage_keeps hbackend hfound hnone none .fallback
    · exact .error rfl
  · have hmemory := memorySortedPage_keeps heeds hbackend hfound hnone field
    generalize l.memorySortedPage heeds plan.query field plan.options s = run at hmemory ⊢
    obtain ⟨result, s₁⟩ := run
    cases result with
    | ok page => exact hmemory
    | error e =>
      have htables : s₁.store.tables = s.store.tables := hmemory.tables
      dsimp only
      split
      · rw [← htables]
        exact databasePage_keeps hbackend ((Store.matching_of_tables htables).trans hfound) hnone none
          .fallback
      · exact .error htables

/-- A page of rows that satisfy clauses on virtual fields. -/
theorem filteredPage_keeps (hids : ((plan.admitted table).map (·.id)).Nodup) :
    Keeps s.store.tables (fun page : Page => ∀ r ∈ page.rows, Admits l.engine plan table r)
      (l.filteredPage heeds plan s) := by
  have htables := fetchAll_tables hbackend hfound (storeOrder plan.sort plan.options.direction)
  rw [filteredPage_eq hbackend hfound]
  split
  · exact .error rfl
  · generalize (l.fetchAll plan.query (storeOrder plan.sort plan.options.direction) s).2.store = store
      at htables ⊢
    have hperm := Store.arrange_perm (storeOrder plan.sort plan.options.direction)
      (plan.admitted table)
    generalize Store.arrange (storeOrder plan.sort plan.options.direction) (plan.admitted table) = es
      at hperm ⊢
    have hnodup : (((es.map fun e => ({ entity := Store.project plan.query e } : Row)).map
        (·.entity)).map (·.id)).Nodup := by
      rw [entities_loaded, ids_project]
      exact ((hperm.map _).nodup_iff).2 hids
    have hearned : l.engine.Earned (es.map fun e => { entity := Store.project plan.query e }) := by
      intro r hr field a ha
      obtain ⟨e, -, rfl⟩ := List.mem_map.1 hr
      cases ha
    cases hrun : l.engine.narrow heeds plan.translation.virtualClauses
        (es.map fun e => { entity := Store.project plan.query e }) s.engine with
    | mk result engine =>
      cases result with
      | error err => exact .error htables
      | ok rows =>
        obtain ⟨hearned', -, hrows⟩ := Engine.narrow_admits plan.translation.virtualClauses
          (by rw [hrun]) hnodup hearned
        have hadmits : ∀ r ∈ rows, Admits l.engine plan table r := by
          intro r hr
          obtain ⟨⟨r₀, hr₀, hext⟩, hclauses⟩ := hrows r hr
          obtain ⟨e, he, rfl⟩ := List.mem_map.1 hr₀
          have hmem := List.mem_filter.1 (hperm.mem_iff.1 he)
          refine ⟨⟨e, hmem.1, hmem.2, hext.entity⟩, fun cl hcl => ?_⟩
          obtain ⟨a, ha, hholds⟩ := hclauses cl hcl
          exact ⟨a, ha, hholds, hearned' r hr _ a ha⟩
        dsimp only
        have harranged := arrangeFiltered_keeps (l := l) heeds
          (s := { engine := engine, store := store }) hadmits plan.sort plan.options.direction
        generalize l.arrangeFiltered heeds plan.sort plan.options.direction rows
          { engine := engine, store := store } = run at harranged ⊢
        obtain ⟨arranged, s₁⟩ := run
        cases arranged with
        | error e => exact .error (harranged.tables.trans htables)
        | ok arranged =>
          refine ⟨harranged.tables.trans htables, fun page hpage r hr => ?_⟩
          cases hpage
          exact harranged.good arranged rfl r (mem_pageOf hr)

/-- **Every way to a page leads to rows that satisfy the filters**, whatever the caches hold. -/
theorem page_keeps (hids : ((plan.admitted table).map (·.id)).Nodup) :
    Keeps s.store.tables (fun page : Page => ∀ r ∈ page.rows, Admits l.engine plan table r)
      (l.page heeds plan s) := by
  unfold page
  split
  · exact filteredPage_keeps heeds hbackend hfound hids
  · rename_i hfilters
    have hnone : plan.translation.virtualClauses = [] := by
      unfold Translation.hasVirtualFilters at hfilters
      simpa using hfilters
    cases plan.sort with
    | none => exact databasePage_keeps hbackend hfound hnone _ _
    | some key =>
      cases key with
      | column name => exact databasePage_keeps hbackend hfound hnone _ _
      | virtual field => exact virtualSortedPage_keeps heeds hbackend hfound hnone _

end Ways

end Listing

/-! ## Responses -/

/-- Filters that can be translated have a clause on every required column. -/
theorem FilterSettings.required_of_translate {s : FilterSettings} {c : Catalog} {p : Params}
    {t : Translation} (h : s.translate c p = .ok t) :
    ∀ f ∈ c.fields, f.2.required = true → ∃ cl ∈ t.active, cl.field = f.2.name := by
  obtain rfl := translate_ok h
  obtain ⟨-, hmissing⟩ := translate_eq_ok_iff.1 h
  intro f hf hrequired
  have hname : f.2.name ∈ c.required := by
    unfold Catalog.required
    refine Names.mem_ofList.2 (List.mem_map.2 ⟨f.2, List.mem_filter.2 ⟨?_, hrequired⟩, rfl⟩)
    exact List.mem_map_of_mem hf
  have hcontains : (((s.collect c p).active.map (·.field)).contains f.2.name) = true := by
    unfold missing at hmissing
    have hnone := List.filter_eq_nil_iff.1 (List.map_eq_nil_iff.1 hmissing) f.2.name hname
    simpa using hnone
  obtain ⟨cl, hcl, hfield⟩ := List.mem_map.1 (List.contains_iff_mem.1 hcontains)
  exact ⟨cl, hcl, hfield⟩

namespace Listing

/-- The states of a listing after requests and insertions of rows with new identities.  Anything may
happen to the state of the engine and to the caches at any time. -/
inductive Reaches (l : Listing σ Store) (start : ListingState σ Store) :
    ListingState σ Store → Prop
  | start : Reaches l start start
  | execute {s : ListingState σ Store} (h : Reaches l start s) (heeds : Bool) (entityType : String)
      (p : Params) : Reaches l start (l.execute heeds entityType p s).2
  | insert {s : ListingState σ Store} (h : Reaches l start s) (e : Entity)
      (hnew : e.id ∉ ((s.store.table? e.entityType).getD []).map (·.id)) :
      Reaches l start { s with store := s.store.insert e }
  | engine {s : ListingState σ Store} (h : Reaches l start s) (engine : EngineState σ) :
      Reaches l start { s with engine := engine }

section Responses

variable {l : Listing σ Store} (hbackend : l.backend = Store.backend)

include hbackend

/-- **One request changes no table, and every row of its response satisfies the filters.** -/
theorem execute_keeps {s : ListingState σ Store}
    (hids : ∀ t table, s.store.table? t = some table → (table.map (·.id)).Nodup) (heeds : Bool)
    (entityType : String) (p : Params) :
    Keeps s.store.tables (fun r => ∃ (plan : ListingPlan) (table : List Entity) (rows : List Row),
        l.engine.catalog.planRequest l.settings entityType p = .ok plan ∧
        s.store.table? entityType = some table ∧ r.data = rows.map (Row.render plan.selection) ∧
        r.filters = plan.translation.active.map Clause.summary ∧
        ∀ row ∈ rows, Admits l.engine plan table row)
      (l.execute heeds entityType p s) := by
  cases hrequest : l.engine.catalog.planRequest l.settings entityType p with
  | error err =>
    rw [execute_refused hrequest]
    exact .error rfl
  | ok plan =>
    obtain ⟨-, hplan⟩ := Catalog.planRequest_ok hrequest
    have htype : plan.query.entityType = entityType := by rw [hplan]; rfl
    have hpredicates : plan.query.predicates = plan.translation.predicates := by rw [hplan]; rfl
    rw [execute_eq hrequest]
    cases htable : s.store.table? plan.query.entityType with
    | none =>
      rw [page_unknown hbackend htable heeds]
      exact .error rfl
    | some table =>
      have hfound : s.store.matching plan.query = .ok (plan.admitted table) :=
        Store.matching_eq hpredicates htable
      have hadmitted : ((plan.admitted table).map (·.id)).Nodup :=
        (List.filter_sublist.map _).nodup (hids _ table htable)
      have hpage := page_keeps heeds hbackend hfound hadmitted
      generalize l.page heeds plan s = run at hpage ⊢
      obtain ⟨result, s₁⟩ := run
      cases result with
      | error e => exact .error hpage.tables
      | ok page =>
        dsimp only
        cases hrun : l.engine.fillAll heeds .useDefault (selectedFields plan) page.rows s₁.engine with
        | mk result engine =>
          cases result with
          | error err => exact .error hpage.tables
          | ok rows =>
            refine ⟨hpage.tables, fun r hr => ?_⟩
            cases hr
            refine ⟨plan, table, rows, rfl, by rw [← htype]; exact htable, rfl, rfl, ?_⟩
            intro row hrow
            obtain ⟨r₀, hr₀, hext⟩ := Engine.fillAll_extends _ (by rw [hrun]) row hrow
            exact (hpage.good page rfl r₀ hr₀).of_extends hext

/-- Identities stay unique. -/
theorem Reaches.keyed {start s : ListingState σ Store} (h : l.Reaches start s)
    (hstart : start.store.Keyed) : s.store.Keyed := by
  induction h with
  | start => exact hstart
  | execute _ heeds entityType p ih =>
    exact ih.of_tables (execute_keeps hbackend ih.ids heeds entityType p).tables
  | insert _ e hnew ih => exact ih.insert hnew
  | engine _ engine ih => exact ih

/-- **No row escapes the filters.**  In any state that a listing reaches by requests and insertions of
rows with new identities, and whatever its caches hold by then, a response shows nothing but rows of
the requested type that are stored at that time, satisfy every clause on columns and the search, and
have computed values that satisfy every clause on virtual fields.  An engine without a cache has
computed the own values of these rows.  Each required column has a clause among those of the
response. -/
theorem execute_admits (rs : List Registration) (hcatalog : l.engine.catalog = Catalog.enterAll {} rs)
    {start s : ListingState σ Store} (hstart : start.store.Keyed) (hreaches : l.Reaches start s)
    {heeds : Bool} {entityType : String} {p : Params} {r : Response}
    (h : (l.execute heeds entityType p s).1 = .ok r) :
    ∃ (plan : ListingPlan) (rows : List Row),
      l.engine.catalog.planRequest l.settings entityType p = .ok plan ∧
      plan.translation = l.settings.filter.collect l.engine.catalog p ∧
      r.data = rows.map (Row.render plan.selection) ∧
      r.filters = plan.translation.active.map Clause.summary ∧
      (∀ row ∈ rows, ∃ e ∈ (s.store.table? entityType).getD [],
        e.entityType = entityType ∧ row.entity = Store.project plan.query e ∧
        (∀ cl ∈ plan.translation.active, cl.isVirtual = false →
          cl.operator.holds (e.attribute? cl.field) cl.operand = true) ∧
        (∀ search, plan.translation.search = some search → search.accepts e = true) ∧
        ∀ cl ∈ plan.translation.active, cl.isVirtual = true → ∃ a,
          row.value? cl.field = some a ∧ cl.operator.holds (some a) cl.operand = true ∧
          l.engine.Computes cl.field row.entity a ∧
          (l.engine.cache = none → l.engine.catalog.IsOfInputs → Meaning.own? l.engine.catalog
            l.engine.settings.failurePolicy cl.field e.whole = some a)) ∧
      ∀ f ∈ l.engine.catalog.fields, f.2.required = true →
        ∃ cl ∈ plan.translation.active, cl.field = f.2.name := by
  have hkeyed := hreaches.keyed hbackend hstart
  obtain ⟨plan, table, rows, hrequest, htable, hdata, hfilters, hrows⟩ :=
    (execute_keeps hbackend hkeyed.ids heeds entityType p).good r h
  obtain ⟨htranslate, hplan⟩ := Catalog.planRequest_ok hrequest
  have hc : l.engine.catalog.Lawful := by
    rw [hcatalog]
    exact Catalog.Lawful.empty.enterAll rs
  have hsufficient : plan.Sufficient l.engine.catalog := by
    rw [hplan]
    exact Catalog.sufficient_planOf hc htranslate entityType
  have htranslation : plan.translation = l.settings.filter.collect l.engine.catalog p := by
    rw [hplan]
    rfl
  refine ⟨plan, rows, hrequest, htranslation, hdata, hfilters, ?_, ?_⟩
  · intro row hrow
    obtain ⟨⟨e, he, hadmits, hentity⟩, hclauses⟩ := hrows row hrow
    unfold Translation.admits at hadmits
    obtain ⟨hcolumns, hsearch⟩ := Bool.and_eq_true_iff.1 hadmits
    refine ⟨e, by rw [htable]; exact he, hkeyed.types _ table htable e he, hentity, ?_, ?_, ?_⟩
    · intro cl hcl hcolumn
      have hholds := List.all_eq_true.1 hcolumns cl hcl
      rw [hcolumn] at hholds
      exact hholds
    · intro search hsome
      rw [hsome] at hsearch
      exact hsearch
    · intro cl hcl hvirtual
      have hmem : cl ∈ plan.translation.virtualClauses := List.mem_filter.2 ⟨hcl, hvirtual⟩
      obtain ⟨a, ha, hholds, hcomputes⟩ := hclauses cl hmem
      refine ⟨a, ha, hholds, hcomputes, fun hcache hofInputs => ?_⟩
      have hwants : plan.Wants cl.field := .inl ⟨cl, hmem, rfl⟩
      rw [← own?_loaded hc hofInputs hsufficient hwants e, ← hentity]
      exact hcomputes.own? hc hofInputs.isPure hcache (hsufficient.wanted cl.field hwants)
  · rw [htranslation]
    exact FilterSettings.required_of_translate htranslate

end Responses

section Stale

/-- A count that every request has to filter on. -/
def countColumn : Field where
  name := "count"
  fieldType := .integer
  operators := FieldType.integer.operators
  required := true

/-- A listing of items that leaves out odd counts and remembers orders. -/
def remembering : Listing MemoryCache Store where
  engine := { catalog := Catalog.enterAll {} [.field countColumn, .virtual listedHalf]
              settings := { failurePolicy := .exclude }
              digest := id }
  backend := Store.backend
  sortCache := some MemoryCache.cache

/-- Items with a count above one, sorted by their halves. -/
def byHalf : Params := ⟨[("count", ">1"), ("sort_by", "half"), ("per_page", "2")]⟩

/-- The store with the items, and nothing remembered. -/
def rememberingStart : ListingState MemoryCache Store where
  engine := { cache := .empty 10 }
  store := { tables := [("item", items)] }

/-- The listing after a request, before a sixth item has been inserted. -/
def rememberingOnce : ListingState MemoryCache Store :=
  (remembering.execute false "item" byHalf rememberingStart).2

/-- The listing with the sixth item, and an order that does not know it. -/
def rememberingStale : ListingState MemoryCache Store :=
  { rememberingOnce with store := rememberingOnce.store.insert (Engine.counted 6 4) }

theorem rememberingStart_keyed : rememberingStart.store.Keyed := by
  refine Store.keyed_singleton ?_ (by decide)
  intro e he
  obtain ⟨p, -, rfl⟩ := List.mem_map.1 he
  rfl

/-- The order is that of the four items with halves before the insertion; the rows of the page are
stored and satisfy the filter nevertheless. -/
theorem execute_stale :
    rememberingStart.store.Keyed ∧ remembering.Reaches rememberingStart rememberingStale ∧
    ∃ r, (remembering.execute false "item" byHalf rememberingStale).1 = .ok r ∧
      r.pagination.total = 4 ∧ ∃ (plan : ListingPlan) (rows : List Row),
        r.data = rows.map (Row.render plan.selection) ∧
        (∀ row ∈ rows, ∃ e ∈ (rememberingStale.store.table? "item").getD [],
          row.entity = Store.project plan.query e) ∧
        ∃ cl ∈ plan.translation.active, cl.field = "count" := by
  have hreaches : remembering.Reaches rememberingStart rememberingStale :=
    (Reaches.start.execute false "item" byHalf).insert _ (by decide +kernel)
  have htotal : (remembering.execute false "item" byHalf rememberingStale).1.toOption.map
      (·.pagination.total) = some 4 := by
    decide +kernel
  cases hrun : (remembering.execute false "item" byHalf rememberingStale).1 with
  | error e =>
    rw [hrun] at htotal
    cases htotal
  | ok r =>
    rw [hrun] at htotal
    obtain ⟨plan, rows, -, -, hdata, -, hrows, hrequired⟩ := execute_admits rfl
      [.field countColumn, .virtual listedHalf] rfl rememberingStart_keyed hreaches hrun
    refine ⟨rememberingStart_keyed, hreaches, r, rfl, Option.some.inj htotal, plan, rows, hdata, ?_,
      hrequired ("count", countColumn) (by decide) rfl⟩
    intro row hrow
    obtain ⟨e, he, -, hentity, -⟩ := hrows row hrow
    exact ⟨e, he, hentity⟩

end Stale

end Listing

end FieldQuery
