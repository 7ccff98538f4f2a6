import FieldQuery.Proofs.Catalog.Closure
import FieldQuery.Proofs.Engine.Lockstep
import FieldQuery.Proofs.Listing.Selected

/-!
# What a projection leaves of the inputs

A query loads the columns and relations that its plan names, and no others.  The fields that a request
computes on the loaded rows find there what they find in the table; only the relations of related records
are gone.

* `Asked` — the virtual fields of clauses, of the sort key and of the selection;
* `Inputs.flat` — inputs with related records that have no relations of their own;
* `Catalog.Covers` — a table with a value for every virtual dependency of a field;
* `Engine.Turn` — a field has its turn in a run over an order, with what has been computed before;
* `LoadPlan.LoadedIn` — an entity has all that a plan names.

Principal results: `resolveInputs_sameFor` — on a row that is loaded by the plan of a field its inputs
are those on the whole row, `Turn.covers` — in every turn of a run the fields that are needed have
values, and `supplies_enterAll` — no field that a request computes lacks what the table has.
-/

namespace FieldQuery

/-! ## Rows and inputs -/

/-- The virtual fields that are computed for a request: those of clauses, the sort key, and those of the
selection. -/
inductive Asked (t : Translation) (selection : Option Selection) (sort : Option SortKey) :
    String → Prop
  | clause {cl : Clause} (hcl : cl ∈ t.virtualClauses) : Asked t selection sort cl.field
  | sort {field : String} (hsort : sort = some (.virtual field)) : Asked t selection sort field
  | selected {s : Selection} {field : String} (hselection : selection = some s)
      (hfield : field ∈ s.virtualFields) : Asked t selection sort field

/-- The inputs with related records that have no relations of their own. -/
def Inputs.flat (i : Inputs) : Inputs :=
  { i with relations := i.relations.map fun r => (r.1, r.2.map (Entity.restrict none)) }

/-- An entity has all columns and relations that a plan names. -/
structure LoadPlan.LoadedIn (p : LoadPlan) (e : Entity) : Prop where
  columns : ∀ d ∈ p.columns, (e.attribute? d).isSome = true
  relations : ∀ r ∈ p.relations, (e.relation? r).isSome = true

theorem LoadPlan.LoadedIn.mono {p q : LoadPlan} {e : Entity} (h : q.LoadedIn e) (hbelow : p.Below q) :
    p.LoadedIn e :=
  ⟨fun d hd => h.columns d (hbelow.1 hd), fun r hr => h.relations r (hbelow.2 hr)⟩

namespace Catalog

/-- A table has a value for every virtual dependency of a field. -/
def Covers (c : Catalog) (v : VirtualField) (computed : List (String × Value)) : Prop :=
  ∀ d, c.Needs v.name d → (List.lookup d computed).isSome = true

/-- **The query of a request loads what the fields need that it computes.** -/
theorem sameFor_asked {c : Catalog} {s : FilterSettings} {p : Params} {t : Translation}
    {selection : Option Selection} {sort : Option SortKey} (ht : s.translate c p = .ok t)
    (hs : ∀ sel, selection = some sel → sel.Tidy) {field : String}
    (h : Asked t selection sort field) (entityType : String) (e : Entity) :
    SameFor (c.plan field) (Store.project (c.queryOf entityType t selection sort) e) e.whole := by
  cases h with
  | clause hcl => exact sameFor_queryOf ((below_eager ht hcl).trans (eager_below_loadPlan sort)) e
  | sort hsort =>
    subst hsort
    exact sameFor_queryOf (LoadPlan.below_merge_right _ _) e
  | selected hselection hfield =>
    subst hselection
    exact sameFor_selected (hs _ rfl) hfield e

end Catalog

namespace Engine

/-! ## The inputs of a field -/

section Gather

variable {α β : Type} {look : String → Option α} {missing : String → ComputationError}

/-- What is gathered may be changed one by one. -/
theorem gather_map (f : α → β) (names : List String) :
    gather (fun n => (look n).map f) missing names =
      (gather look missing names).map (List.map fun a => (a.1, f a.2)) := by
  induction names with
  | nil => rfl
  | cons n names ih =>
    unfold gather
    cases look n with
    | none => rfl
    | some a =>
      dsimp only [Option.map_some]
      rw [ih]
      cases gather look missing names <;> rfl

/-- What is there under every name is gathered. -/
theorem gather_of_found {names : List String} (h : ∀ n ∈ names, (look n).isSome = true) :
    ∃ found, gather look missing names = .ok found := by
  induction names with
  | nil => exact ⟨[], rfl⟩
  | cons n names ih =>
    obtain ⟨hfirst, hrest⟩ := List.forall_mem_cons.1 h
    obtain ⟨a, ha⟩ := Option.isSome_iff_exists.1 hfirst
    obtain ⟨found, hfound⟩ := ih hrest
    unfold gather
    rw [ha, hfound]
    exact ⟨(n, a) :: found, rfl⟩

end Gather

variable {c : Catalog} {v : VirtualField} {e row : Entity} {computed : List (String × Value)}

/-- **A field has the inputs on a loaded row that it has on the whole row**, if it finds there what it
declares itself; related records are without relations there. -/
theorem resolveInputs_sameFor (hv : KeyMap.get? v.name c.virtualFields = some v)
    (hcovers : c.Covers v computed) (h : SameFor (c.ownPlan v.name) row e.whole) (b : Batch)
    (cancelled : Bool) :
    resolveInputs b v row computed cancelled =
      (resolveInputs b v e computed cancelled).map Inputs.flat := by
  have href : row.ref = e.ref := h.ref
  have hcolumns : resolveColumns v row computed = resolveColumns v e computed := by
    unfold resolveColumns
    rw [href]
    exact Meaning.gather_congr (columns_inStep hv h hcovers)
  have hrelations : resolveRelations v row =
      (resolveRelations v e).map
        (List.map fun r => (r.1, r.2.map (Entity.restrict none))) := by
    unfold resolveRelations
    rw [href, ← gather_map]
    refine Meaning.gather_congr fun r hr => ?_
    rw [h.relations r ((Catalog.mem_ownPlan_of_get? hv).2 r hr), Entity.relation?_whole]
  unfold resolveInputs
  rw [hcolumns, hrelations]
  cases resolveColumns v e computed with
  | error err => rfl
  | ok columns => cases resolveRelations v e <;> rfl

/-- A field finds its inputs on an entity that has all that it declares. -/
theorem resolveInputs_of_loaded (hv : KeyMap.get? v.name c.virtualFields = some v)
    (hcovers : c.Covers v computed) (h : (c.ownPlan v.name).LoadedIn e) (b : Batch)
    (cancelled : Bool) : ∃ i, resolveInputs b v e computed cancelled = .ok i := by
  obtain ⟨hcolumn, hrelation⟩ := Catalog.mem_ownPlan_of_get? hv
  have hfound : ∀ d ∈ v.dependencies,
      ((List.lookup d computed).or (e.attribute? d)).isSome = true := by
    intro d hd
    rw [Option.isSome_or, Bool.or_eq_true]
    cases hvirtual : KeyMap.contains d c.virtualFields with
    | false => exact .inr (h.columns d (hcolumn d hd hvirtual))
    | true => exact .inl (hcovers d ⟨v, hv, hd, KeyMap.contains_eq_true_iff.1 hvirtual⟩)
  obtain ⟨columns, hcolumns⟩ : ∃ columns, resolveColumns v e computed = .ok columns :=
    gather_of_found hfound
  obtain ⟨relations, hrelations⟩ : ∃ relations, resolveRelations v e = .ok relations :=
    gather_of_found fun r hr => h.relations r (hrelation r hr)
  unfold resolveInputs
  rw [hcolumns, hrelations]
  exact ⟨_, rfl⟩

/-! ## Runs -/

variable {σ : Type} {en : Engine σ} {b : Batch}

/-- A field has its turn in a run over an order of names, when a table of values has been computed. A
field that fails hands on its default value, if the settings say so and the failure is its own. -/
inductive Turn (en : Engine σ) (b : Batch) (e : Entity) (v : VirtualField)
    (table : List (String × Value)) : List String → List (String × Value) → Progress σ → Prop
  | now {name : String} {rest : List String} {p : Progress σ} (hv : en.catalog.virtual? name = some v) :
      Turn en b e v table (name :: rest) table p
  | passed {name : String} {rest : List String} {computed : List (String × Value)} {p : Progress σ}
      (hnone : en.catalog.virtual? name = none) (hrest : Turn en b e v table rest computed p) :
      Turn en b e v table (name :: rest) computed p
  | computed {name : String} {rest : List String} {computed : List (String × Value)}
      {p p' : Progress σ} {w : VirtualField} {a : Value} (hw : en.catalog.virtual? name = some w)
      (hvalue : en.computeOne b w e computed p = (.ok a, p'))
      (hrest : Turn en b e v table rest ((name, a) :: computed) p') :
      Turn en b e v table (name :: rest) computed p
  | defaulted {name : String} {rest : List String} {computed : List (String × Value)}
      {p p' : Progress σ} {w : VirtualField} {err : ComputationError}
      (hw : en.catalog.virtual? name = some w)
      (hvalue : en.computeOne b w e computed p = (.error err, p'))
      (hown : ¬ (w.name = b.target.name ∨ err.isBatchLevel = true))
      (hpolicy : en.settings.failurePolicy = .default)
      (hrest : Turn en b e v table rest ((name, w.default) :: computed) p') :
      Turn en b e v table (name :: rest) computed p

/-- **In every turn the virtual fields that are needed have values**: they stand before the field in the
order, and each of them has left one in the table. -/
theorem Turn.covers (hc : en.catalog.Lawful) {names done : List String}
    (hfinished : Walk.Finished en.catalog.references (names.reverse ++ done))
    (hkeys : ∀ n ∈ names, n ∈ KeyMap.keys en.catalog.virtualFields)
    (hdone : ∀ n ∈ done, (List.lookup n computed).isSome = true)
    {table : List (String × Value)} {p : Progress σ} (h : Turn en b e v table names computed p) :
    v.name ∈ names ∧ KeyMap.get? v.name en.catalog.virtualFields = some v ∧
      en.catalog.Covers v table := by
  induction h generalizing done with
  | @now name rest p hv =>
    have hget := hc.get?_name hv
    rw [hc.virtual?_eq (hkeys name List.mem_cons_self)] at hv
    obtain rfl := hc.name_of_get? hv
    have hfinished' : Walk.Finished en.catalog.references (rest.reverse ++ v.name :: done) := by
      simpa using hfinished
    exact ⟨List.mem_cons_self, hget, fun d hneeds =>
      hdone d (hfinished'.of_append.2.1 d (Catalog.mem_references.2 hneeds))⟩
  | @passed name rest computed p hnone hrest ih =>
    -- every name of the order is that of a virtual field
    obtain ⟨w, hw⟩ := Catalog.get?_of_mem_keys (hkeys name List.mem_cons_self)
    rw [hc.virtual?_eq (hkeys name List.mem_cons_self), hw] at hnone
    cases hnone
  | computed _ _ _ ih | defaulted _ _ _ _ _ ih =>
    obtain ⟨hmem, hcovers⟩ := ih (by simpa using hfinished)
      (fun n hn => hkeys n (List.mem_cons_of_mem _ hn)) (isSome_lookup_cons hdone _ _)
    exact ⟨List.mem_cons_of_mem _ hmem, hcovers⟩

end Engine

/-! ## Requests -/

namespace Catalog

open Engine

/-- What a query loads of a row supplies the fields in the order of a virtual field: each of them finds
there what it finds in the table, and all that it declares if the table has it. -/
structure Supplies (c : Catalog) (q : BaseQuery) (field : String) (e : Entity) : Prop where
  registered : ∀ g ∈ c.computationOrder field, ∃ v, KeyMap.get? g c.virtualFields = some v
  same : ∀ g ∈ c.computationOrder field, ∀ v, KeyMap.get? g c.virtualFields = some v →
    ∀ computed, c.Covers v computed → ∀ b cancelled,
      resolveInputs b v (Store.project q e) computed cancelled =
        (resolveInputs b v e computed cancelled).map Inputs.flat
  found : (c.plan field).LoadedIn e →
    ∀ g ∈ c.computationOrder field, ∀ v, KeyMap.get? g c.virtualFields = some v →
      ∀ computed, c.Covers v computed → ∀ b cancelled,
        ∃ i, resolveInputs b v (Store.project q e) computed cancelled = .ok i
  turns : (c.plan field).LoadedIn e → ∀ (σ : Type) (en : Engine σ) (b : Batch) (p : Progress σ)
    (v : VirtualField) (table : List (String × Value)), en.catalog = c →
      Turn en b (Store.project q e) v table (c.computationOrder field) [] p →
        ∀ cancelled, ∃ i, resolveInputs b v (Store.project q e) table cancelled = .ok i

variable {c : Catalog} {q : BaseQuery} {field : String} {e : Entity}

section Loaded

variable (h : SameFor (c.plan field) (Store.project q e) e.whole) {v : VirtualField}
  (hmem : v.name ∈ c.computationOrder field) (hv : KeyMap.get? v.name c.virtualFields = some v)
  {computed : List (String × Value)} (hcovers : c.Covers v computed) (b : Batch) (cancelled : Bool)

include h hmem hv hcovers

/-- A field in the order of another finds on a row what it finds in the table, if the row is loaded by the
plan of that other field. -/
theorem resolveInputs_project : resolveInputs b v (Store.project q e) computed cancelled =
    (resolveInputs b v e computed cancelled).map Inputs.flat :=
  resolveInputs_sameFor hv hcovers (h.mono (ownPlan_below_plan hmem)) b cancelled

theorem resolveInputs_project_of_loaded (hloaded : (c.plan field).LoadedIn e) :
    ∃ i, resolveInputs b v (Store.project q e) computed cancelled = .ok i := by
  have hown := hloaded.mono (ownPlan_below_plan hmem)
  obtain ⟨i, hi⟩ := resolveInputs_of_loaded hv hcovers hown b cancelled
  exact ⟨i.flat, by rw [resolveInputs_project h hmem hv hcovers, hi]; rfl⟩

end Loaded

/-- A row that is loaded by the plan of a field supplies the fields in its order. -/
theorem Lawful.supplies (hc : c.Lawful) (h : SameFor (c.plan field) (Store.project q e) e.whole) :
    c.Supplies q field e where
  registered g hg := get?_of_mem_keys (hc.mem_keys_of_computationOrder hg)
  same g hg v hv computed hcovers b cancelled := by
    obtain rfl := hc.name_of_get? hv
    exact resolveInputs_project h hg hv hcovers b cancelled
  found hloaded g hg v hv computed hcovers b cancelled := by
    obtain rfl := hc.name_of_get? hv
    exact resolveInputs_project_of_loaded h hg hv hcovers b cancelled hloaded
  turns hloaded σ en b p v table hcatalog hturn cancelled := by
    subst hcatalog
    have hfinished : Walk.Finished en.catalog.references
        ((en.catalog.computationOrder field).reverse ++ []) := by
      rw [List.append_nil]
      exact hc.finished_computationOrder field
    obtain ⟨hmem, hv, hcovers⟩ := hturn.covers hc hfinished
      (fun n hn => hc.mem_keys_of_computationOrder hn) fun n hn => nomatch hn
    exact resolveInputs_project_of_loaded h hmem hv hcovers b cancelled hloaded

/-- **No computation is starved by what a query leaves out.** In every catalog that registrations have
built, for every request whose filters can be translated, with any tidy selection or none and any sort
key, the query to the store supplies the fields in the order of every virtual field that is asked for. -/
theorem supplies_enterAll (rs : List Registration) {s : FilterSettings} {p : Params}
    {t : Translation} (ht : s.translate (enterAll {} rs) p = .ok t) {selection : Option Selection}
    (hs : ∀ sel, selection = some sel → sel.Tidy) {sort : Option SortKey} {field : String}
    (hfield : Asked t selection sort field) (entityType : String) (e : Entity) :
    (enterAll {} rs).Supplies ((enterAll {} rs).queryOf entityType t selection sort) field e := by
  have hc : Lawful (Catalog.enterAll {} rs) := Lawful.empty.enterAll rs
  exact hc.supplies (sameFor_asked ht hs hfield entityType e)

section Reviews

/-- How often a title is commented on. -/
def commentCount : VirtualField where
  name := "comment_count"
  fieldType := .integer
  computation := .pure fun _ i => .ok (.int (Int64.ofNat (i.relation "comments").length))
  computationName := "comment_count"
  dependencies := ["title"]
  relationships := ["comments"]
  operators := FieldType.integer.operators

/-- A grade by the number of comments. -/
def commentGrade : VirtualField where
  name := "grade"
  fieldType := .integer
  computation := .pure fun _ i => .ok ((i.get? "comment_count").getD .null)
  computationName := "grade"
  dependencies := ["comment_count"]
  operators := FieldType.integer.operators

/-- The two fields, the one that needs the other first. -/
def reviewRegistrations : List Registration := [.virtual commentGrade, .virtual commentCount]

/-- The grade, and of the comments their words. -/
def reviewSelection : Selection where
  relations := [("comments", some ["words"])]
  virtualFields := ["grade"]

/-- A review with notes that nothing asks for. -/
def review : Entity :=
  .mk "review" (.int 1) [("notes", .text "none"), ("title", .text "Kalocain")]
    [("comments", [.mk "comment" (.int 7) [("author", .text "Linda"), ("words", .text "Yes")] []])]

/-- The query leaves the notes out, and the comments are there with all columns, though the selection
asks for some of them only: the first field in the order of the grade finds its inputs. -/
theorem supplies_reviews :
    ∃ t, ({} : FilterSettings).translate (enterAll {} reviewRegistrations) {} = .ok t ∧
      (Store.project ((enterAll {} reviewRegistrations).queryOf "review" t (some reviewSelection) none)
        review).attribute? "notes" = none ∧
      (Store.project ((enterAll {} reviewRegistrations).queryOf "review" t (some reviewSelection) none)
        review).relation? "comments" = review.relation? "comments" ∧
      ∀ b, ∃ i, resolveInputs b commentCount
        (Store.project ((enterAll {} reviewRegistrations).queryOf "review" t (some reviewSelection)
          none) review) [] false = .ok i := by
  have ht : ({} : FilterSettings).translate (enterAll {} reviewRegistrations) {} = .ok _ :=
    FilterSettings.translate_eq_ok_iff.2 ⟨(nomatch ·), by decide +kernel⟩
  have htidy : ∀ sel, some reviewSelection = some sel → sel.Tidy := by
    rintro _ ⟨⟩
    exact List.pairwise_singleton _ _
  have hasked : ∀ t, Asked t (some reviewSelection) none "grade" := fun _ =>
    .selected rfl (List.mem_singleton.2 rfl)
  have hplan : (enterAll {} reviewRegistrations).plan "grade" = ⟨["title"], ["comments"]⟩ := by
    decide +kernel
  have hloaded : ((enterAll {} reviewRegistrations).plan "grade").LoadedIn review := by
    rw [hplan]
    constructor
    · intro d hd
      obtain rfl := List.mem_singleton.1 hd
      rfl
    · intro r hr
      obtain rfl := List.mem_singleton.1 hr
      rfl
  have hcovers : (enterAll {} reviewRegistrations).Covers commentCount [] := by
    rintro d ⟨w, hw, hd, hvirtual⟩
    cases hw
    rw [List.mem_singleton.1 hd] at hvirtual
    exact absurd hvirtual (by decide +kernel)
  refine ⟨_, ht, by rfl, by rfl, fun b => ?_⟩
  exact (supplies_enterAll reviewRegistrations ht htidy (hasked _) "review" review).found hloaded
    "comment_count" (by decide +kernel) commentCount (by rfl) [] hcovers b false

end Reviews

end Catalog

end FieldQuery
