import FieldQuery.Proofs.Data.KeyMap
import FieldQuery.Proofs.Listing.Twins

/-!
# Clauses commute

Clauses on virtual fields are evaluated one after the other, each on the rows that the clauses before it
have left.  Which rows remain, and with which values, does not depend on the order of the clauses.

* `Row.Gains` — a row has some fields besides those that another one has;
* `Row.Carries` — a row has its own values of some fields and of no others.

Principal results: `narrow_gains` — which fields have been computed for the rows that satisfy the clauses,
`Row.Carries.ext` — an entity and the names of its fields determine such a row, and `narrow_commutes`.
-/

namespace FieldQuery

open Meaning

variable {σ : Type}

/-! ## Which fields have been computed -/

/-- A row has some fields besides those that another one has, in the order of their names. -/
structure Row.Gains (names : String → Prop) (r r' : Row) : Prop where
  has : ∀ name, r'.has name = true ↔ names name ∨ r.has name = true
  sorted : KeyMap.Sorted r.computed → KeyMap.Sorted r'.computed

namespace Row

/-- A row that has the field gains it. -/
theorem Gains.of_has {field : String} {r : Row} (h : r.has field = true) : r.Gains (· = field) r where
  has name := by
    refine ⟨.inr, ?_⟩
    rintro (rfl | hname)
    · exact h
    · exact hname
  sorted := id

theorem gains_give (field : String) (v : Value) (r : Row) : r.Gains (· = field) (r.give field v) where
  has name := by
    unfold has give KeyMap.contains
    by_cases hname : name = field
    · subst hname
      simp
    · simp [KeyMap.get?_insert_ne hname, hname]
  sorted := KeyMap.Sorted.insert

/-- A row that is not dropped gains the field. -/
theorem gains_of_settle {field : String} {default : Value} {o : BatchOutcome} {r r' : Row}
    (h : r.settle field .drop default o = some r') : r.Gains (· = field) r' := by
  unfold settle at h
  split at h
  · rename_i hhas
    cases h
    exact .of_has hhas
  · cases hvalue : o.value? r.entity.id with
    | none =>
      rw [hvalue] at h
      cases h
    | some v =>
      rw [hvalue] at h
      cases h
      exact gains_give field v r

end Row

namespace Engine

variable {en : Engine σ} {heeds : Bool}

/-- Rows that have been filled gain the field. -/
theorem fill_gains {field : String} {rows filled : List Row} {s : EngineState σ}
    (h : (en.fill heeds .drop field rows s).1 = .ok filled) :
    ∀ r' ∈ filled, ∃ r ∈ rows, r.Gains (· = field) r' := by
  intro r' hr'
  rw [fill_eq] at h
  split at h
  · rename_i hnone
    cases h
    have hhas := List.filter_eq_nil_iff.1 (List.map_eq_nil_iff.1 hnone) r' hr'
    exact ⟨r', hr', .of_has (by simpa using hhas)⟩
  · dsimp only at h
    cases hrun : (en.computeBatch heeds field
        ((rows.filter fun r => !r.has field).map (·.entity)) s).1 with
    | error err =>
      rw [hrun] at h
      cases h
    | ok o =>
      rw [hrun] at h
      cases h
      obtain ⟨r, hr, hsettle⟩ := List.mem_filterMap.1 hr'
      exact ⟨r, hr, Row.gains_of_settle hsettle⟩

/-- **Rows that satisfy clauses gain their fields.** -/
theorem narrow_gains {clauses : List Clause} {rows kept : List Row} {s : EngineState σ}
    (h : (en.narrow heeds clauses rows s).1 = .ok kept) :
    ∀ r' ∈ kept, ∃ r ∈ rows, r.Gains (fun name => ∃ cl ∈ clauses, cl.field = name) r' := by
  induction clauses generalizing rows s with
  | nil =>
    cases h
    intro r hr
    exact ⟨r, hr, fun name => by simp, id⟩
  | cons cl clauses ih =>
    unfold narrow at h
    cases hrun : en.fill heeds .drop cl.field rows s with
    | mk result s₁ =>
      rw [hrun] at h
      cases result with
      | error err => cases h
      | ok filled =>
        intro r'' hr''
        obtain ⟨r', hr', hrest⟩ := ih h r'' hr''
        obtain ⟨r, hr, hfirst⟩ := fill_gains (congrArg Prod.fst hrun) r' (List.mem_filter.1 hr').1
        refine ⟨r, hr, fun name => ?_, fun hsorted => hrest.sorted (hfirst.sorted hsorted)⟩
        rw [hrest.has, hfirst.has, List.exists_mem_cons_iff, eq_comm, or_assoc, or_left_comm]

end Engine

/-! ## Rows with their own values -/

/-- A row has its own values of some fields and of no others, in the order of their names. -/
structure Row.Carries (c : Catalog) (policy : FailurePolicy) (names : String → Prop) (r : Row) : Prop where
  sorted : KeyMap.Sorted r.computed
  values : ∀ name a, r.value? name = some a ↔ names name ∧ own? c policy name r.entity = some a

/-- **The entity and the names of the fields determine such a row.** -/
theorem Row.Carries.ext {c : Catalog} {policy : FailurePolicy} {names names' : String → Prop} {r r' : Row}
    (h : r.Carries c policy names) (h' : r'.Carries c policy names')
    (hnames : ∀ name, names name ↔ names' name) (hentity : r.entity = r'.entity) : r = r' := by
  have hcomputed : r.computed = r'.computed := by
    refine h.sorted.ext h'.sorted fun name a => ?_
    exact (h.values name a).trans ((hnames name).and (by rw [hentity]) |>.trans (h'.values name a).symm)
  cases r
  cases r'
  simp_all

/-- So do they for many rows. -/
theorem rows_ext {c : Catalog} {policy : FailurePolicy} {names names' : String → Prop}
    (hnames : ∀ name, names name ↔ names' name) :
    ∀ {rows rows' : List Row}, rows.map (·.entity) = rows'.map (·.entity) →
      (∀ r ∈ rows, r.Carries c policy names) → (∀ r ∈ rows', r.Carries c policy names') →
      rows = rows'
  | [], [], _, _, _ => rfl
  | [], _ :: _, h, _, _ => nomatch h
  | _ :: _, [], h, _, _ => nomatch h
  | r :: rows, r' :: rows', h, hrows, hrows' => by
    obtain ⟨hentity, hentities⟩ := List.cons.inj h
    obtain ⟨hfirst, hrest⟩ := List.forall_mem_cons.1 hrows
    obtain ⟨hfirst', hrest'⟩ := List.forall_mem_cons.1 hrows'
    rw [hfirst.ext hfirst' hnames hentity, rows_ext hnames hentities hrest hrest']

namespace Engine

section Commuting

variable {en : Engine σ} (hc : en.catalog.Lawful) (hpure : en.catalog.IsPure)
  (hcache : en.cache = none) (habort : en.settings.abortBatchOnFailure = false)
  (hpolicy : en.settings.failurePolicy ≠ .throw) {es : List Entity} (hids : (es.map (·.id)).Nodup)
  {heeds : Bool}

include hc hpure hcache habort hpolicy hids

/-- **Rows that have been narrowed** are those whose entities satisfy all clauses, with their own values of
the fields of these. -/
theorem narrow_carries {clauses : List Clause}
    (hclauses : ∀ cl ∈ clauses, cl.field ∈ KeyMap.keys en.catalog.virtualFields)
    (hample : ∀ cl ∈ clauses, Ample en es cl.field) {s : EngineState σ}
    (htoken : (heeds && s.cancelled) = false) :
    ∃ kept, (en.narrow heeds clauses (es.map fun e => { entity := e }) s).1 = .ok kept ∧
      kept.map (·.entity) = es.filter (fun e =>
        clauses.all (Meaning.satisfies en.catalog en.settings.failurePolicy e)) ∧
      ∀ r ∈ kept, r.Carries en.catalog en.settings.failurePolicy
        fun name => ∃ cl ∈ clauses, cl.field = name := by
  have hentities : (es.map fun e => ({ entity := e } : Row)).map (·.entity) = es := by
    rw [List.map_map]
    exact List.map_id es
  have hsound : FieldQuery.Sound en.catalog en.settings.failurePolicy
      (es.map fun e => { entity := e }) := by
    intro r hr field a ha
    obtain ⟨e, -, rfl⟩ := List.mem_map.1 hr
    cases ha
  have hnarrow := (narrow_delivers hc hpure hcache habort hpolicy hclauses
    (by rw [hentities]; exact hids) (by rw [hentities]; exact List.Subset.refl es)
    (fun cl hcl (_ : True) => hample cl hcl) htoken hsound).1
  obtain ⟨kept, hkept, hrows, hvalues⟩ := hnarrow.of_ample
  rw [hentities] at hrows
  refine ⟨kept, hkept, hrows, fun r hr => ?_⟩
  obtain ⟨r₀, hr₀, hgains⟩ := narrow_gains hkept r hr
  obtain ⟨e, -, rfl⟩ := List.mem_map.1 hr₀
  have hhas : ∀ name, r.has name = true ↔ ∃ cl ∈ clauses, cl.field = name :=
    fun name => (hgains.has name).trans ⟨fun h => h.resolve_right fun h => (nomatch h), .inl⟩
  refine ⟨hgains.sorted KeyMap.sorted_nil, fun name a => ⟨fun ha => ?_, fun ⟨hname, hown⟩ => ?_⟩⟩
  · exact ⟨(hhas name).1 (Option.isSome_iff_exists.2 ⟨a, ha⟩), hvalues r hr name a ha⟩
  · obtain ⟨b, hb⟩ := Option.isSome_iff_exists.1 ((hhas name).2 hname)
    have hvalue : r.value? name = some b := hb
    rw [hvalue, ← hown, hvalues r hr name b hvalue]

/-- **The order of clauses does not matter.** -/
theorem narrow_commutes {clauses clauses' : List Clause} (hperm : clauses.Perm clauses')
    (hclauses : ∀ cl ∈ clauses, cl.field ∈ KeyMap.keys en.catalog.virtualFields)
    (hample : ∀ cl ∈ clauses, Ample en es cl.field) {s s' : EngineState σ}
    (htoken : (heeds && s.cancelled) = false) (htoken' : (heeds && s'.cancelled) = false) :
    ∃ kept, (en.narrow heeds clauses (es.map fun e => { entity := e }) s).1 = .ok kept ∧
      (en.narrow heeds clauses' (es.map fun e => { entity := e }) s').1 = .ok kept := by
  obtain ⟨kept, hkept, hentities, hcarries⟩ :=
    narrow_carries hc hpure hcache habort hpolicy hids hclauses hample htoken
  obtain ⟨kept', hkept', hentities', hcarries'⟩ :=
    narrow_carries hc hpure hcache habort hpolicy hids (fun cl hcl => hclauses cl (hperm.mem_iff.2 hcl))
      (fun cl hcl => hample cl (hperm.mem_iff.2 hcl)) htoken'
  have hall : ∀ e, clauses.all (Meaning.satisfies en.catalog en.settings.failurePolicy e) =
      clauses'.all (Meaning.satisfies en.catalog en.settings.failurePolicy e) :=
    fun e => hperm.all_eq
  have hsame : kept = kept' := by
    refine rows_ext (fun name => ?_) ?_ hcarries hcarries'
    · simp only [hperm.mem_iff]
    · rw [hentities, hentities']
      simp only [hall]
  rw [hsame] at hkept
  exact ⟨kept', hkept, hkept'⟩

end Commuting

end Engine

end FieldQuery
