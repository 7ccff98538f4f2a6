import FieldQuery.Proofs.Engine.Follow
import FieldQuery.Proofs.Engine.Loaded

/-!
# Batches in step

An engine without a cache computes one field for two lists of entities, of which the field sees the
same. Clocks may differ.

* `Computation.IsLocal` — a computation that sees no more of its entity than type and identity, and
  nothing of the deadline. It may look at the token, cancel its batch and take its time;
* `Level` — two progresses that have spent, used and counted the same, and whose tokens mean the same;
* `InStep` — two runs with one result, and level after it.

Principal results: `computeOne_inStep`, one field, and from it by induction `computeOrder_inStep`,
`computeChunk_inStep`, `computeChunks_inStep` and `computeBatch_inStep`; `computeBatch_cancelled` — a
token that has been cancelled ends a batch before it starts.
-/

namespace FieldQuery

/-- A computation that sees no more of its entity than type and identity, and nothing of the
deadline. -/
def Computation.IsLocal (f : Computation) : Prop :=
  ∀ e e' i deadline, e.ref = e'.ref → f e i = f e' { i with deadline := deadline }

/-- All computations of a catalog are local. -/
def Catalog.IsLocal (c : Catalog) : Prop := ∀ p ∈ c.virtualFields, p.2.computation.IsLocal

theorem Computation.IsOfInputs.isLocal {f : Computation} (h : f.IsOfInputs) : f.IsLocal := by
  intro e e' i deadline href
  rw [h.looks e i, h.looks e' { i with deadline := deadline }]
  exact h.ref e e' _ href

theorem Catalog.IsOfInputs.isLocal {c : Catalog} (h : c.IsOfInputs) : c.IsLocal :=
  fun p hp => (h p hp).isLocal

/-- Chunks of related lists are related. -/
theorem forall₂_chunks {α β : Type} {R : α → β → Prop} (k : Nat) {as : List α} :
    ∀ {bs : List β}, List.Forall₂ R as bs →
      List.Forall₂ (List.Forall₂ R) (chunks k as) (chunks k bs) := by
  induction as using chunks.induct k with
  | case1 =>
    intro bs h
    cases h
    simp
  | case2 a as ih =>
    intro bs h
    cases h with
    | cons hab h =>
      rw [chunks_cons, chunks_cons]
      exact .cons (.cons hab (List.forall₂_take k h)) (ih (List.forall₂_drop k h))

namespace Engine

variable {σ : Type}

/-- Two progresses that have spent, used and counted the same, and whose tokens mean the same. -/
structure Level (heeds : Bool) (p p' : Progress σ) : Prop where
  spent : p.spent = p'.spent
  used : p.used = p'.used
  token : (heeds && p.cancelled) = (heeds && p'.cancelled)
  stats : p.stats = p'.stats

/-- Two runs with one result, and level after it. -/
structure InStep {α : Type} (heeds : Bool) (run run' : α × Progress σ) : Prop where
  result : run.1 = run'.1
  level : Level heeds run.2 run'.2

variable {heeds : Bool} {p p' : Progress σ}

/-- The time of an outcome passes for both. -/
theorem Level.spend (h : Level heeds p p') (o : Outcome) :
    Level heeds (Engine.spend o p) (Engine.spend o p') where
  spent := by simp [h.spent]
  used := by simp [h.used]
  token := by
    rw [spend_cancelled, spend_cancelled, Bool.and_or_distrib_left, Bool.and_or_distrib_left, h.token]
  stats := by
    unfold Engine.spend
    split <;> simp [Progress.after, Progress.countComputed, h.stats]

/-! ## One field -/

theorem takeOver_inStep (b : Budget) (value : Value) (h : Level heeds p p') :
    InStep heeds (takeOver b value p) (takeOver b value p') := by
  unfold takeOver
  rw [h.spent, h.used]
  split
  · exact ⟨rfl, h⟩
  · split
    · exact ⟨rfl, rfl, rfl, h.token, h.stats⟩
    · exact ⟨rfl, rfl, rfl, h.token, h.stats⟩

/-- One outcome counts for the same in both runs. -/
theorem compute_inStep {b b' : Batch} (hbudget : b.budget = b'.budget) {v : VirtualField}
    {e e' : Entity} {i i' : Inputs} (href : e.ref = e'.ref)
    (houtcome : v.computation e i = v.computation e' i') (h : Level heeds p p') :
    InStep heeds (compute b v e i p) (compute b' v e' i' p') := by
  have haccept : v.accept e (v.computation e' i') = v.accept e' (v.computation e' i') := by
    unfold VirtualField.accept
    rw [href]
  rw [compute_eq, compute_eq, houtcome, hbudget, haccept]
  cases v.accept e' (v.computation e' i') with
  | error err => exact ⟨rfl, h.spend _⟩
  | ok value => exact takeOver_inStep b'.budget value (h.spend _)

/-- What a field is given of two entities of which it sees the same. -/
theorem resolveInputs_inStep {b b' : Batch} (hb : Alike b b') {v : VirtualField} {e e' : Entity}
    {computed : List (String × Value)} {token token' : Bool} (href : e.ref = e'.ref)
    (hcolumns : ∀ d ∈ v.dependencies, (List.lookup d computed).or (e.attribute? d) =
      (List.lookup d computed).or (e'.attribute? d))
    (hrelations : ∀ r ∈ v.relationships, e.relation? r = e'.relation? r)
    (htoken : (b'.heeds && token) = (b'.heeds && token')) :
    resolveInputs b' v e' computed token' =
      (resolveInputs b v e computed token).map fun i => { i with deadline := some b'.deadline } := by
  unfold resolveInputs resolveColumns resolveRelations
  rw [Meaning.gather_congr hcolumns, Meaning.gather_congr hrelations, href, hb.heeds, htoken]
  cases gather (fun d => (List.lookup d computed).or (e'.attribute? d))
      (.missingDependency v.name e'.ref) v.dependencies with
  | error err => rfl
  | ok columns =>
    dsimp only
    cases gather e'.relation? (.missingRelation v.name e'.ref) v.relationships <;> rfl

/-- A field sees the same columns of two entities that have its own plan in common: what it needs is done,
and it asks the entities for nothing else. -/
theorem columns_inStep {c : Catalog} {v : VirtualField} (hv : KeyMap.get? v.name c.virtualFields = some v)
    {e e' : Entity} (hown : SameFor (c.ownPlan v.name) e e') {computed : List (String × Value)}
    (hdone : ∀ d, c.Needs v.name d → (List.lookup d computed).isSome = true) :
    ∀ d ∈ v.dependencies, (List.lookup d computed).or (e.attribute? d) =
      (List.lookup d computed).or (e'.attribute? d) := by
  intro d hd
  cases hvirtual : KeyMap.contains d c.virtualFields with
  | false => rw [hown.columns d ((Catalog.mem_ownPlan_of_get? hv).1 d hd hvirtual)]
  | true =>
    obtain ⟨a, ha⟩ := Option.isSome_iff_exists.1
      (hdone d ⟨v, hv, hd, KeyMap.contains_eq_true_iff.1 hvirtual⟩)
    rw [ha]
    rfl

/-- Names that have been done have values, and so has the next one. -/
theorem isSome_lookup_cons {done : List String} {computed : List (String × Value)}
    (h : ∀ n ∈ done, (List.lookup n computed).isSome = true) (name : String) (a : Value) :
    ∀ n ∈ name :: done, (List.lookup n ((name, a) :: computed)).isSome = true := by
  intro n hn
  rw [List.lookup_cons]
  split
  · rfl
  · rename_i hne
    refine h n ((List.mem_cons.1 hn).resolve_left fun heq => ?_)
    simp [heq] at hne

section Steps

variable {en : Engine σ} (hc : en.catalog.Lawful) (hlocal : en.catalog.IsLocal)
  (hcache : en.cache = none) {b b' : Batch} (hb : Alike b b') (hheeds : b'.heeds = heeds)

include hlocal hcache hb hheeds

/-- **One field of two entities of which it sees the same.** -/
theorem computeOne_inStep {v : VirtualField}
    (hv : KeyMap.get? v.name en.catalog.virtualFields = some v) {e e' : Entity}
    {computed : List (String × Value)} (href : e.ref = e'.ref)
    (hcolumns : ∀ d ∈ v.dependencies, (List.lookup d computed).or (e.attribute? d) =
      (List.lookup d computed).or (e'.attribute? d))
    (hrelations : ∀ r ∈ v.relationships, e.relation? r = e'.relation? r) (h : Level heeds p p') :
    InStep heeds (en.computeOne b v e computed p) (en.computeOne b' v e' computed p') := by
  have hslot : ∀ e i, en.slot? v e i = none := by
    intro e i
    unfold slot?
    rw [hcache]
  have htoken : (b'.heeds && p.cancelled) = (b'.heeds && p'.cancelled) := by
    rw [hheeds]
    exact h.token
  have hinputs := resolveInputs_inStep hb href hcolumns hrelations htoken
  unfold computeOne
  rw [hinputs]
  cases resolveInputs b v e computed p.cancelled with
  | error err => exact ⟨rfl, h⟩
  | ok i =>
    dsimp only [Except.map]
    rw [hslot, hslot]
    exact compute_inStep hb.budget href (hlocal _ (KeyMap.mem_of_get? hv) e e' i _ href) h

include hc

/-- **The fields of an order, for two entities that have in common what these load.**  A field finds the
virtual fields that it needs among those that are done, and the entities are asked for the others. -/
theorem computeOrder_inStep {plan : LoadPlan} {e e' : Entity} (hsame : SameFor plan e e')
    (names : List String) :
    ∀ (done : List String) (computed : List (String × Value)) (p p' : Progress σ),
      Walk.Finished en.catalog.references (names.reverse ++ done) →
      (∀ n ∈ names, n ∈ KeyMap.keys en.catalog.virtualFields ∧
        (en.catalog.ownPlan n).Below plan) →
      (∀ n ∈ done, (List.lookup n computed).isSome = true) → Level heeds p p' →
      InStep heeds (en.computeOrder b e names computed p) (en.computeOrder b' e' names computed p') := by
  induction names with
  | nil =>
    intro done computed p p' _ _ _ h
    unfold computeOrder
    rw [hb.target]
    split <;> exact ⟨rfl, h⟩
  | cons name names ih =>
    intro done computed p p' hfinished hnames hdone h
    obtain ⟨⟨hkey, hbelow⟩, hrest⟩ := List.forall_mem_cons.1 hnames
    obtain ⟨v, hv⟩ := Catalog.get?_of_mem_keys hkey
    have hname : v.name = name := hc.name_of_get? hv
    subst hname
    have hfinished' : Walk.Finished en.catalog.references (names.reverse ++ v.name :: done) := by
      simpa using hfinished
    have hown := hsame.mono hbelow
    have hcolumns := @columns_inStep en.catalog v hv e e' hown computed fun d hneeds =>
      hdone d (hfinished'.of_append.2.1 d (Catalog.mem_references.2 hneeds))
    have hrelations : ∀ r ∈ v.relationships, e.relation? r = e'.relation? r :=
      fun r hr => hown.relations r ((Catalog.mem_ownPlan_of_get? hv).2 r hr)
    have hone := computeOne_inStep hlocal hcache hb hheeds hv hsame.ref hcolumns hrelations h
    have hnext := isSome_lookup_cons hdone v.name
    unfold computeOrder
    rw [hc.virtual?_eq hkey, hv]
    dsimp only
    generalize en.computeOne b v e computed p = run at hone ⊢
    generalize en.computeOne b' v e' computed p' = run' at hone ⊢
    obtain ⟨r, p₁⟩ := run
    obtain ⟨r', p₁'⟩ := run'
    obtain ⟨hresult, hlevel⟩ := hone
    dsimp only at hresult hlevel
    subst hresult
    cases r with
    | ok value => exact ih _ _ p₁ p₁' hfinished' hrest (hnext value) hlevel
    | error err =>
      dsimp only
      rw [hb.target, hsame.ref]
      split
      · exact ⟨rfl, hlevel⟩
      · split
        · exact ih _ _ p₁ p₁' hfinished' hrest (hnext v.default) hlevel
        · exact ⟨rfl, hlevel⟩

/-! ## Many entities -/

variable (htarget : b.target.name ∈ KeyMap.keys en.catalog.virtualFields)
  (horder : b.order = en.catalog.computationOrder b.target.name)

include htarget horder

/-- The field of a batch for one entity. -/
theorem computeEntity_inStep {e e' : Entity} (hsame : SameFor (en.catalog.plan b.target.name) e e')
    (h : Level heeds p p') : InStep heeds (en.computeEntity b e p) (en.computeEntity b' e' p') := by
  obtain ⟨hfinished, -, -⟩ := hc.computationOrder_spec htarget
  unfold computeEntity
  rw [hb.budget, h.spent]
  split
  · exact ⟨rfl, h⟩
  · rw [← hb.order, horder]
    exact computeOrder_inStep hc hlocal hcache hb hheeds hsame _ [] [] p p'
      (by rw [List.append_nil]; exact hfinished)
      (fun n hn => ⟨hc.mem_keys_of_order htarget hn, Catalog.ownPlan_below_plan hn⟩)
      (fun n hn => nomatch hn) h

/-- The entities of a chunk. -/
theorem computeChunk_inStep {es es' : List Entity}
    (hsame : List.Forall₂ (SameFor (en.catalog.plan b.target.name)) es es') :
    ∀ {p p' : Progress σ}, Level heeds p p' →
      InStep heeds (en.computeChunk b es p) (en.computeChunk b' es' p') := by
  induction hsame with
  | nil => exact fun h => ⟨rfl, h⟩
  | @cons e e' es es' hfirst _ ih =>
    intro p p' h
    obtain ⟨hresult, hlevel⟩ :=
      computeEntity_inStep hc hlocal hcache hb hheeds htarget horder hfirst h
    obtain ⟨hresults, hlevel'⟩ := ih hlevel
    have hid : e.id = e'.id := congrArg EntityRef.id hfirst.ref
    unfold computeChunk
    dsimp only
    rw [hresult, hresults, hid]
    exact ⟨rfl, hlevel'⟩

/-- The chunks of a batch. -/
theorem computeChunks_inStep {parts parts' : List (List Entity)}
    (hsame : List.Forall₂ (List.Forall₂ (SameFor (en.catalog.plan b.target.name))) parts parts') :
    ∀ (acc : Results) {p p' : Progress σ}, Level heeds p p' →
      InStep heeds (en.computeChunks b parts acc p) (en.computeChunks b' parts' acc p') := by
  induction hsame with
  | nil => exact fun acc p p' h => ⟨rfl, h⟩
  | @cons es es' parts parts' hfirst _ ih =>
    intro acc p p' h
    have htime : b.budget.checkTime p.spent = b'.budget.checkTime p'.spent := by
      rw [hb.budget, h.spent]
    unfold computeChunks
    rw [hb.heeds, hheeds, h.token, htime, hb.target]
    split
    · exact ⟨rfl, h⟩
    split
    · exact ⟨rfl, h⟩
    have hstart : Level heeds { p with stats := { p.stats with chunks := p.stats.chunks + 1 } }
        { p' with stats := { p'.stats with chunks := p'.stats.chunks + 1 } } :=
      ⟨h.spent, h.used, h.token, by rw [h.stats]⟩
    have hchunk := computeChunk_inStep hc hlocal hcache hb hheeds htarget horder hfirst hstart
    dsimp only
    generalize en.computeChunk b es _ = run at hchunk ⊢
    generalize en.computeChunk b' es' _ = run' at hchunk ⊢
    obtain ⟨found, p₁⟩ := run
    obtain ⟨found', p₁'⟩ := run'
    obtain ⟨hfound, hlevel⟩ := hchunk
    dsimp only at hfound hlevel
    subst hfound
    rw [hlevel.stats]
    dsimp only
    cases en.collect b'.target found acc p₁'.stats with
    | error err => exact ⟨rfl, hlevel⟩
    | ok collected => exact ih _ ⟨hlevel.spent, hlevel.used, hlevel.token, rfl⟩

end Steps

/-! ## Batches -/

section Batches

variable {en : Engine σ} (hc : en.catalog.Lawful) {field : String}
  (hfield : field ∈ KeyMap.keys en.catalog.virtualFields) {s s' : EngineState σ}

include hc hfield

/-- **A batch yields the same for entities of which its field sees the same.** -/
theorem computeBatch_inStep (hlocal : en.catalog.IsLocal) (hcache : en.cache = none)
    {es es' : List Entity} (hsame : List.Forall₂ (SameFor (en.catalog.plan field)) es es')
    (htoken : (heeds && s.cancelled) = (heeds && s'.cancelled)) :
    (en.computeBatch heeds field es s).1 = (en.computeBatch heeds field es' s').1 ∧
      (heeds && (en.computeBatch heeds field es s).2.cancelled) =
        (heeds && (en.computeBatch heeds field es' s').2.cancelled) := by
  obtain ⟨v, hv⟩ := Catalog.get?_of_mem_keys hfield
  obtain rfl := hc.name_of_get? hv
  have halike : Alike (en.batchOf heeds v s) (en.batchOf heeds v s') := ⟨rfl, rfl, rfl, rfl⟩
  have hstart : Level heeds (startOf es s) (startOf es' s') := ⟨rfl, rfl, htoken, by
    unfold startOf
    rw [hsame.length_eq]⟩
  have hchunks := computeChunks_inStep hc hlocal hcache halike rfl hfield rfl
    (forall₂_chunks (en.settings.batchSize - 1) hsame) [] hstart
  unfold computeBatch
  rw [hc.virtual?_eq hfield, hv]
  unfold batchOf startOf at hchunks
  dsimp only at hchunks ⊢
  generalize en.computeChunks _ _ _ _ = run at hchunks ⊢
  generalize en.computeChunks _ _ _ _ = run' at hchunks ⊢
  obtain ⟨found, p⟩ := run
  obtain ⟨found', p'⟩ := run'
  obtain ⟨hfound, hlevel⟩ := hchunks
  dsimp only at hfound hlevel
  subst hfound
  cases found with
  | error err => exact ⟨rfl, hlevel.token⟩
  | ok results =>
    dsimp only
    rw [hlevel.stats]
    exact ⟨rfl, hlevel.token⟩

/-- **A token that has been cancelled ends a batch before it starts.** -/
theorem computeBatch_cancelled {es : List Entity} (hes : es ≠ [])
    (hcancelled : (heeds && s.cancelled) = true) :
    (en.computeBatch heeds field es s).1 = .error (.cancelled field) ∧
      (en.computeBatch heeds field es s).2.cancelled = s.cancelled := by
  obtain ⟨v, hv⟩ := Catalog.get?_of_mem_keys hfield
  obtain rfl := hc.name_of_get? hv
  obtain ⟨e, es, rfl⟩ := List.exists_cons_of_ne_nil hes
  unfold computeBatch
  rw [hc.virtual?_eq hfield, hv, chunks_cons]
  unfold computeChunks
  dsimp only
  rw [if_pos hcancelled]
  exact ⟨rfl, rfl⟩

end Batches

end Engine

end FieldQuery
