import FieldQuery.Proofs.Listing.Shared
import FieldQuery.Proofs.Listing.Uniform
import Mathlib.Data.List.Perm.Basic

/-!
# Virtual filters and repeated identities

A dataset may have several records with one identity. Clauses on columns look at each of them, but clauses
on virtual fields see one value for an identity: that of the last of its rows, in the order in which the
store has loaded them. So rows with one identity satisfy these clauses all together or not at all, whatever
their own values are.

* `Store.lastLike` — the last of the rows with the identity of a row;
* `ListingPlan.passes` — the own values of a row, as it is loaded, satisfy the clauses on virtual fields;
* `ListingPlan.attributed` — the rows that are counted, since the last rows of their identities do.

Principal results: `attributed_perm_iff` — when these are the rows that pass by themselves, and
`execute_attributes`; `execute_misattributes` — two records with one identity.
-/

namespace FieldQuery

open Engine Meaning

variable {σ : Type}

/-- Images in another order are the images of elements in another order. -/
theorem exists_perm_of_map {α β : Type} {f : α → β} {as : List α} {bs : List β}
    (h : bs.Perm (as.map f)) : ∃ as' : List α, bs = as'.map f ∧ as'.Perm as := by
  have himages : List.Forall₂ (fun b a => b = f a) (as.map f) as :=
    List.forall₂_map_left_iff.2 (List.forall₂_same.2 fun _ _ => rfl)
  obtain ⟨as', has', hperm⟩ := List.perm_comp_forall₂ h himages
  have heq := List.forall₂_map_right_iff.2 has'
  rw [List.forall₂_eq_eq_eq] at heq
  exact ⟨as', heq, hperm⟩

/-- The last of the rows with the identity of a row. -/
def Store.lastLike (rows : List Entity) (e : Entity) : Entity := (rowOf? e.id rows).getD e

namespace ListingPlan

variable (c : Catalog) (plan : ListingPlan)

/-- The rows that the store finds, in the order in which it loads them. -/
def arranged (table : List Entity) : List Entity :=
  Store.arrange (Listing.storeOrder plan.sort plan.options.direction) (plan.admitted table)

/-- Whether the own values of a row, as it is loaded, satisfy the clauses on virtual fields. -/
def passes (e : Entity) : Bool :=
  plan.translation.virtualClauses.all (satisfies c .default (Store.project plan.query e))

/-- The rows that stay because the last rows of their identities satisfy the clauses on virtual
fields. -/
def attributed (table : List Entity) : List Entity :=
  (plan.arranged table).filter fun e => plan.passes c (Store.lastLike (plan.arranged table) e)

variable {c plan}

/-- Where computations look at their inputs only, the own values are those of the whole row. -/
theorem passes_eq_chooses (hc : c.Lawful) (hofInputs : c.IsOfInputs) (hplan : plan.Sufficient c)
    (e : Entity) : plan.passes c e = plan.translation.chooses c .default e := by
  unfold passes
  rw [Translation.chooses_eq, Bool.eq_iff_iff, List.all_eq_true, List.all_eq_true]
  refine forall₂_congr fun cl hcl => ?_
  unfold satisfies
  rw [own?_loaded hc hofInputs hplan (.inl ⟨cl, hcl, rfl⟩)]

theorem arranged_perm (table : List Entity) : (plan.arranged table).Perm (plan.admitted table) :=
  Store.arrange_perm _ _

/-- What the last row of an identity decides, for the rows as they are loaded. -/
theorem filter_decides (rows : List Entity) :
    (rows.map (Store.project plan.query)).filter (fun e => plan.translation.virtualClauses.all
        fun cl => decides c .default (rows.map (Store.project plan.query)) cl e.id) =
      (rows.filter fun e => plan.passes c (Store.lastLike rows e)).map (Store.project plan.query) := by
  rw [List.filter_map]
  congr 1
  refine List.filter_congr fun e he => ?_
  obtain ⟨e', he'⟩ := Store.exists_rowOf? he
  have hlast : Store.lastLike rows e = e' := by
    unfold Store.lastLike
    rw [he']
    rfl
  have hloaded : Store.rowOf? (Store.project plan.query e).id
      (rows.map (Store.project plan.query)) = some (Store.project plan.query e') := by
    rw [Store.rowOf?_map (f := Store.project plan.query) fun _ => rfl]
    exact congrArg _ he'
  rw [Function.comp_apply, hlast]
  unfold decides passes
  rw [hloaded]
  rfl

/-- **The rows that stay are those whose own values satisfy the clauses exactly if rows with one
identity satisfy them alike.** -/
theorem attributed_perm_iff (table : List Entity) :
    (plan.attributed c table).Perm ((plan.admitted table).filter (plan.passes c)) ↔
      ∀ e ∈ plan.admitted table, ∀ e' ∈ plan.admitted table, e.id = e'.id →
        plan.passes c e = plan.passes c e' := by
  have hmem : ∀ e, e ∈ plan.arranged table ↔ e ∈ plan.admitted table :=
    fun e => (arranged_perm table).mem_iff
  have hlast : ∀ e ∈ plan.admitted table, ∃ e' ∈ plan.admitted table, e'.id = e.id ∧
      Store.rowOf? e.id (plan.arranged table) = some e' := by
    intro e he
    obtain ⟨e', he'⟩ := Store.exists_rowOf? ((hmem e).2 he)
    exact ⟨e', (hmem e').1 (Store.mem_of_rowOf? he'), Store.id_of_rowOf? he', he'⟩
  constructor
  · intro hperm
    -- a row that stays satisfies the clauses itself, and so does the last row of its identity
    have hown : ∀ e ∈ plan.admitted table,
        plan.passes c (Store.lastLike (plan.arranged table) e) = plan.passes c e := by
      intro e he
      have hiff : e ∈ plan.attributed c table ↔ e ∈ (plan.admitted table).filter (plan.passes c) :=
        hperm.mem_iff
      unfold attributed at hiff
      rw [List.mem_filter, List.mem_filter, and_iff_right ((hmem e).2 he), and_iff_right he] at hiff
      exact Bool.eq_iff_iff.2 hiff
    intro e he e' he' hid
    rw [← hown e he, ← hown e' he']
    unfold Store.lastLike
    obtain ⟨last, -, -, hfound⟩ := hlast e he
    rw [← hid, hfound]
    rfl
  · intro halike
    have hsame : plan.attributed c table = (plan.arranged table).filter (plan.passes c) := by
      refine List.filter_congr fun e he => ?_
      obtain ⟨last, hadmitted, hid, hfound⟩ := hlast e ((hmem e).1 he)
      unfold Store.lastLike
      rw [hfound]
      exact halike last hadmitted e ((hmem e).1 he) hid
    rw [hsame]
    exact (arranged_perm table).filter _

end ListingPlan

namespace Listing

variable {l : Listing σ Store} (hc : l.engine.catalog.Lawful) (hpure : l.engine.catalog.IsPure)
  (hbackend : l.backend = Store.backend) (hcache : l.engine.cache = none) {heeds : Bool}
  {plan : ListingPlan} {table : List Entity} (hplan : plan.Sufficient l.engine.catalog)

include hc hpure hcache hplan

/-- Sorting drops no row where failures count for the default. -/
theorem arrangeFiltered_perm (hpolicy : l.engine.settings.failurePolicy = .default)
    {es : List Entity} {keep : EntityId → Bool} {fields : List String} {rows : List Row}
    (h : Shares l.engine.catalog .default es keep fields rows) {s : ListingState σ Store}
    {out : List Row × SortStrategy}
    (hout : (l.arrangeFiltered heeds plan.sort plan.options.direction rows s).1 = .ok out) :
    (out.1.map (·.entity)).Perm (rows.map (·.entity)) := by
  unfold arrangeFiltered at hout
  cases hsort : plan.sort with
  | none =>
    rw [hsort] at hout
    cases hout
    exact List.Perm.refl _
  | some key =>
    rw [hsort] at hout
    cases key with
    | column name =>
      cases hout
      exact List.Perm.refl _
    | virtual field =>
      dsimp only at hout
      rw [sortFiltered_eq] at hout
      cases hfill : l.engine.fill heeds .drop field rows s.engine with
      | mk result engine =>
        rw [hfill] at hout
        cases result with
        | ok filled =>
          cases hout
          rw [← fill_shares_default hc hpure hcache hpolicy (hplan.wanted field (.inr hsort)) h
            (congrArg Prod.fst hfill)]
          exact (sortBy_perm _ _).map _
        | error err =>
          dsimp only at hout
          split at hout
          · cases hout
            exact List.Perm.refl _
          · cases hout

/-- Rows that satisfy clauses on virtual fields are brought into their order if nothing stops it. -/
theorem arrangeFiltered_finishes (hends : ¬ l.engine.settings.EndsBatch) {all : List Entity}
    (hample : ∀ field, plan.Wants field → Ample l.engine all field) {rows : List Row}
    (hrows : (rows.map (·.entity)).Subperm all) {s : ListingState σ Store}
    (hcancelled : (heeds && s.engine.cancelled) = false) :
    ∃ out s', l.arrangeFiltered heeds plan.sort plan.options.direction rows s = (.ok out, s') ∧
      s'.engine.cancelled = s.engine.cancelled ∧ (out.1.map (·.entity)).Subperm all := by
  unfold arrangeFiltered
  cases hsort : plan.sort with
  | none => exact ⟨_, s, rfl, rfl, hrows⟩
  | some key =>
    cases key with
    | column name => exact ⟨_, s, rfl, rfl, hrows⟩
    | virtual field =>
      have hwants : plan.Wants field := .inr hsort
      obtain ⟨filled, engine, hfill, htoken, hsublist⟩ := Engine.fill_finishes hc hpure hcache hends
        .drop (hplan.wanted field hwants) hrows (hample field hwants) hcancelled
      have hsorted : (sortRows field plan.options.direction filled).Perm filled := sortBy_perm _ _
      dsimp only
      rw [sortFiltered_eq, hfill]
      exact ⟨_, _, rfl, htoken, (hsorted.map _).subperm.trans (hsublist.subperm.trans hrows)⟩

include hbackend

/-- **A page of rows that satisfy clauses on virtual fields counts those whose identities do**, by their
last rows. -/
theorem filteredPage_attributes (hpolicy : l.engine.settings.failurePolicy = .default)
    {s s' : ListingState σ Store}
    (hadmitted : s.store.matching plan.query = .ok (plan.admitted table)) {found : Page}
    (h : l.filteredPage heeds plan s = (.ok found, s')) :
    ∃ rows : List Entity, rows.Perm (plan.attributed l.engine.catalog table) ∧
      found.total = rows.length ∧ found.rows.map (·.entity) =
        ((rows.drop plan.options.offset).take plan.options.perPage).map (Store.project plan.query) := by
  rw [filteredPage_eq hbackend hadmitted] at h
  split at h
  · cases h
  generalize (l.fetchAll plan.query (storeOrder plan.sort plan.options.direction) s).2.store = store at h
  cases hnarrow : l.engine.narrow heeds plan.translation.virtualClauses
      ((plan.arranged table).map fun e => { entity := Store.project plan.query e }) s.engine with
  | mk result engine =>
    unfold ListingPlan.arranged at hnarrow
    rw [hnarrow] at h
    cases result with
    | error err => cases h
    | ok kept =>
      dsimp only at h
      cases harranged : l.arrangeFiltered heeds plan.sort plan.options.direction kept
          ⟨engine, store⟩ with
      | mk result s₁ =>
        rw [harranged] at h
        cases result with
        | error e => cases h
        | ok out =>
          cases h
          have hloaded := shares_loaded l.engine.catalog l.engine.settings.failurePolicy plan.query
            (plan.arranged table)
          obtain ⟨fields, hkept⟩ := Engine.narrow_shares hc hpure hcache
            (fun cl hcl => hplan.wanted cl.field (.inl ⟨cl, hcl, rfl⟩)) hloaded
            (congrArg Prod.fst hnarrow)
          rw [hpolicy] at hkept
          have hperm := arrangeFiltered_perm hc hpure hcache hplan hpolicy hkept
            (congrArg Prod.fst harranged)
          have hentities : kept.map (·.entity) =
              (plan.attributed l.engine.catalog table).map (Store.project plan.query) := by
            rw [hkept.entities]
            simp only [Bool.true_and]
            exact ListingPlan.filter_decides (plan.arranged table)
          rw [hentities] at hperm
          obtain ⟨rows, hrows, hattributed⟩ := exists_perm_of_map hperm
          refine ⟨rows, hattributed, ?_, ?_⟩
          · have hlength := congrArg List.length hrows
            rwa [List.length_map, List.length_map] at hlength
          · unfold pageOf
            rw [List.map_take, List.map_drop, hrows, List.map_take, List.map_drop]

/-- A page of rows that satisfy clauses on virtual fields is found if nothing stops it. -/
theorem filteredPage_finishes (hends : ¬ l.engine.settings.EndsBatch)
    (hcount : (plan.admitted table).length ≤ l.settings.sort.maxSortRecords)
    (hample : ∀ field, plan.Wants field →
      Ample l.engine ((plan.admitted table).map (Store.project plan.query)) field)
    {s : ListingState σ Store}
    (hadmitted : s.store.matching plan.query = .ok (plan.admitted table))
    (hcancelled : (heeds && s.engine.cancelled) = false) :
    ∃ found s', l.filteredPage heeds plan s = (.ok found, s') ∧
      s'.engine.cancelled = s.engine.cancelled ∧ (found.rows.map (·.entity)).Subperm
        ((plan.admitted table).map (Store.project plan.query)) := by
  have hloaded : (((plan.arranged table).map fun e =>
      ({ entity := Store.project plan.query e } : Row)).map (·.entity)).Subperm
        ((plan.admitted table).map (Store.project plan.query)) := by
    rw [entities_loaded]
    exact ((ListingPlan.arranged_perm table).map _).subperm
  have hclauses : ∀ cl ∈ plan.translation.virtualClauses, plan.Wants cl.field :=
    fun cl hcl => .inl ⟨cl, hcl, rfl⟩
  obtain ⟨kept, engine, hnarrow, htoken, hsublist⟩ := Engine.narrow_finishes hc hpure hcache hends
    (fun cl hcl => hplan.wanted cl.field (hclauses cl hcl)) hloaded
    (fun cl hcl => hample cl.field (hclauses cl hcl)) hcancelled
  obtain ⟨out, s', harranged, htoken', hsubperm⟩ := arrangeFiltered_finishes hc hpure hcache hplan
    hends hample (hsublist.subperm.trans hloaded)
    (s := ⟨engine, (l.fetchAll plan.query (storeOrder plan.sort plan.options.direction) s).2.store⟩)
    (by rw [htoken]; exact hcancelled)
  unfold ListingPlan.arranged at hnarrow
  rw [filteredPage_eq hbackend hadmitted, if_neg (Nat.not_lt.2 hcount), hnarrow]
  dsimp only
  rw [harranged]
  exact ⟨_, s', rfl, htoken'.trans htoken, ((pageOf_sublist _ _).map _).subperm.trans hsubperm⟩

omit hc hpure hcache hplan

/-- **Virtual filters judge rows by the last rows of their identities.** Where failures count for the
default, the response to a request with clauses on virtual fields counts, of the rows that the store finds,
those for which the last row of their identity, in the order in which they are loaded, satisfies these
clauses by its own values. So it counts the rows whose own values satisfy them exactly if rows with one
identity satisfy them alike, which is so where identities are unique. A request has a response if neither a
ceiling nor a failure nor the token stops it, and if there are not too many rows. -/
theorem execute_attributes (rs : List Registration)
    (hcatalog : l.engine.catalog = Catalog.enterAll {} rs) (hpure : l.engine.catalog.IsPure)
    (hcache : l.engine.cache = none) (hpolicy : l.engine.settings.failurePolicy = .default)
    {entityType : String} {p : Params}
    (hrequest : l.engine.catalog.planRequest l.settings entityType p = .ok plan)
    (hfilters : plan.translation.hasVirtualFilters = true) {s : ListingState σ Store}
    (htable : s.store.table? entityType = some table) (heeds : Bool) :
    (∀ r, (l.execute heeds entityType p s).1 = .ok r →
      ∃ (rows : List Entity) (shown : List Row),
        rows.Perm (plan.attributed l.engine.catalog table) ∧ r.pagination.total = rows.length ∧
        r.data = shown.map (Row.render plan.selection) ∧ shown.map (·.entity) =
          ((rows.drop plan.options.offset).take plan.options.perPage).map
            (Store.project plan.query) ∧
        (rows.Perm ((plan.admitted table).filter (plan.passes l.engine.catalog)) ↔
          ∀ e ∈ plan.admitted table, ∀ e' ∈ plan.admitted table, e.id = e'.id →
            plan.passes l.engine.catalog e = plan.passes l.engine.catalog e')) ∧
      (l.engine.catalog.IsOfInputs → ∀ e, plan.passes l.engine.catalog e =
        plan.translation.chooses l.engine.catalog .default e) ∧
      ((plan.admitted table).length ≤ l.settings.sort.maxSortRecords →
        (∀ field, plan.Wants field ∨ field ∈ selectedFields plan →
          Ample l.engine ((plan.admitted table).map (Store.project plan.query)) field) →
        l.engine.settings.abortBatchOnFailure = false → (heeds && s.engine.cancelled) = false →
        ∃ r, (l.execute heeds entityType p s).1 = .ok r) := by
  have hc : l.engine.catalog.Lawful := by
    rw [hcatalog]
    exact Catalog.Lawful.empty.enterAll rs
  have hplan := sufficient_of_planRequest hrequest hc
  obtain ⟨-, hplanned⟩ := Catalog.planRequest_ok hrequest
  have hpredicates : plan.query.predicates = plan.translation.predicates := by rw [hplanned]; rfl
  rw [← Catalog.entityType_of_planRequest hrequest] at htable
  have hadmitted : s.store.matching plan.query = .ok (plan.admitted table) :=
    Store.matching_eq hpredicates htable
  have hpage : l.page heeds plan s = l.filteredPage heeds plan s := by
    unfold page
    rw [if_pos hfilters]
  refine ⟨?_, fun hofInputs => ListingPlan.passes_eq_chooses hc hofInputs hplan, ?_⟩
  · intro r hr
    obtain ⟨found, s', shown, hfound, hfill, rfl⟩ := (execute_ok_iff hrequest).1 hr
    rw [hpage] at hfound
    obtain ⟨rows, hperm, htotal, hrows⟩ := filteredPage_attributes hc hpure hbackend hcache hplan
      hpolicy hadmitted hfound
    refine ⟨rows, shown, hperm, htotal, rfl, (fillAll_useDefault_ok heeds hfill).trans hrows, ?_⟩
    rw [← ListingPlan.attributed_perm_iff]
    exact ⟨fun h => hperm.symm.trans h, fun h => hperm.trans h⟩
  · intro hcount hample habort hcancelled
    have hends : ¬ l.engine.settings.EndsBatch := by
      rintro (hthrow | hends)
      · rw [hpolicy] at hthrow
        cases hthrow
      · rw [habort] at hends
        cases hends
    obtain ⟨found, s', hfound, htoken, hsubperm⟩ := filteredPage_finishes hc hpure hbackend hcache
      hplan hends hcount (fun field hwants => hample field (.inl hwants)) hadmitted hcancelled
    obtain ⟨shown, hfill⟩ := Engine.fillAll_finishes hc hpure hcache hends .useDefault
      hplan.selected hsubperm (fun field hfield => hample field (.inr hfield)) (s := s'.engine)
      (by rw [htoken]; exact hcancelled)
    exact ⟨_, (execute_ok_iff hrequest).2 ⟨found, s', shown, hpage.trans hfound, hfill, rfl⟩⟩

section Copies

omit hbackend

/-- A listing of items with their counts and the mirror of these, without caches. -/
def recounting : Listing Unit Store where
  engine := { catalog := Catalog.enterAll {} [.field countable, .virtual tally]
              digest := id }
  backend := Store.backend

/-- The records of items with identities and counts. -/
def itemRecords (pairs : List (Int × Int)) : Json :=
  .object [("item", .array (pairs.map fun p => .object [("id", .int p.1), ("count", .int p.2)]))]

/-- The rows of these items. -/
def itemRows (pairs : List (Int × Int)) : List Entity :=
  pairs.map fun p => ⟨"item", .int (Int64.ofInt p.1),
    [("count", .int (Int64.ofInt p.2)), ("id", .int (Int64.ofInt p.1))], []⟩

/-- The store with these rows. -/
def itemState (pairs : List (Int × Int)) : ListingState Unit Store where
  engine := { cache := () }
  store := { tables := [("item", itemRows pairs)] }

/-- Items with a tally of two. -/
def tallyTwo : Params := ⟨[("tally", "2")]⟩

/-- What this request comes to. -/
def tallyTwoPlan : ListingPlan :=
  recounting.engine.catalog.planOf recounting.settings "item" tallyTwo
    (recounting.settings.filter.collect recounting.engine.catalog tallyTwo)

theorem recounting_pure : recounting.engine.catalog.IsPure := by
  intro p hp
  have hfields : recounting.engine.catalog.virtualFields = [("tally", tally)] := rfl
  rw [hfields] at hp
  obtain rfl := List.mem_singleton.1 hp
  exact { looks := fun _ _ => rfl, keeps := fun _ _ => rfl }

/-- Two records with one identity and one count, and another record. -/
def alikePairs : List (Int × Int) := [(1, 2), (1, 2), (2, 1)]

/-- Records with one identity that are alike are both counted. -/
theorem execute_attributesAlike :
    Store.ofJson (itemRecords alikePairs) = .ok (itemState alikePairs).store ∧
    ∃ (r : Response) (rows : List Entity),
      (recounting.execute false "item" tallyTwo (itemState alikePairs)).1 = .ok r ∧
      r.pagination.total = 2 ∧ r.pagination.total = rows.length ∧
      rows.Perm ((tallyTwoPlan.admitted (itemRows alikePairs)).filter
        (tallyTwoPlan.passes recounting.engine.catalog)) := by
  have hloaded : Store.ofJson (itemRecords alikePairs) = .ok (itemState alikePairs).store := by
    with_unfolding_all rfl
  have hrequest : recounting.engine.catalog.planRequest recounting.settings "item" tallyTwo =
      .ok tallyTwoPlan := by with_unfolding_all rfl
  have htable : (itemState alikePairs).store.table? "item" = some (itemRows alikePairs) := rfl
  obtain ⟨hanswers, -, hfinishes⟩ := execute_attributes rfl
    [.field countable, .virtual tally] rfl recounting_pure rfl rfl hrequest
    (by with_unfolding_all rfl) htable false
  have hample : ∀ field, tallyTwoPlan.Wants field ∨ field ∈ selectedFields tallyTwoPlan →
      Ample recounting.engine ((tallyTwoPlan.admitted (itemRows alikePairs)).map
        (Store.project tallyTwoPlan.query)) field := by
    intro field _ v hv
    have hmem : (field, v) ∈ [("tally", tally)] := KeyMap.mem_of_get? hv
    obtain ⟨-, rfl⟩ := Prod.mk.inj (List.mem_singleton.1 hmem)
    constructor <;> decide +kernel
  obtain ⟨r, hr⟩ := hfinishes (by decide +kernel) hample rfl rfl
  obtain ⟨rows, shown, -, htotal, -, -, hiff⟩ := hanswers r hr
  have hperm := hiff.2 (by decide +kernel)
  have hcount : ((tallyTwoPlan.admitted (itemRows alikePairs)).filter
      (tallyTwoPlan.passes recounting.engine.catalog)).length = 2 := by decide +kernel
  exact ⟨hloaded, r, rows, hr, htotal.trans (hperm.length_eq.trans hcount), htotal, hperm⟩

/-- Two records with one identity and different counts. -/
def apartPairs : List (Int × Int) := [(1, 1), (1, 2)]

/-- Of two records with one identity the first one is counted for the tally of the second. -/
theorem execute_misattributes :
    Store.ofJson (itemRecords apartPairs) = .ok (itemState apartPairs).store ∧
    recounting.engine.catalog.planRequest recounting.settings "item" tallyTwo = .ok tallyTwoPlan ∧
    (recounting.execute false "item" tallyTwo (itemState apartPairs)).1.toOption.map
      (·.pagination.total) = some 2 ∧
    (tallyTwoPlan.admitted (itemRows apartPairs)).filter
      (tallyTwoPlan.passes recounting.engine.catalog) =
        [⟨"item", .int 1, [("count", .int 2), ("id", .int 1)], []⟩] := by
  refine ⟨by with_unfolding_all rfl, by with_unfolding_all rfl, by decide +kernel, ?_⟩
  with_unfolding_all rfl

end Copies

end Listing

end FieldQuery
