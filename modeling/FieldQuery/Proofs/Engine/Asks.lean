import FieldQuery.Engine.Batch
import FieldQuery.Proofs.Catalog.Registration
import FieldQuery.Proofs.Data.Except
import FieldQuery.Proofs.Engine.Loaded

/-!
# What computations are asked for

* `Ask` — a field, the identity of an entity, and the inputs that the field declares: all that a
  computation which depends on its inputs only can tell apart;
* `Ask.key`, `Ask.answer` — the name under which the answer is cached, and the answer;
* `Engine.orderAsks`, `Engine.entityAsks`, `Engine.chunkAsks`, `Engine.chunksAsks`,
  `Engine.batchAsks` — the asks of cacheable fields that occur in a run, along the run itself;
* `Registration.IsBuilt` — a registration of a definition that has been checked;
* `Catalog.IsChecked` — a catalog of names that have been checked.

Principal results: `Ask.answer_of` — the answer to an ask is what the computation of the engine
amounts to, `Ask.field_eq_of_key` — in a catalog of checked definitions a key tells its field, and
`Catalog.isChecked_enterAll` — registrations of checked definitions make such a catalog.
-/

namespace FieldQuery

/-- All that the computation of a field depends on. -/
structure Ask where
  field : String
  entity : EntityRef
  columns : List (String × Value)
  relations : List (String × List Entity)

/-- An entity of which nothing has been loaded. -/
def EntityRef.bare (r : EntityRef) : Entity := .mk r.entityType r.id [] []

namespace Ask

/-- What a field is asked for an entity with its inputs. -/
def of (v : VirtualField) (e : Entity) (i : Inputs) : Ask := ⟨v.name, e.ref, i.columns, i.relations⟩

/-- The inputs of an ask. -/
def inputs (a : Ask) : Inputs := { columns := a.columns, relations := a.relations }

/-- The name under which the answer is cached. -/
def key (digest : Digest) (a : Ask) : String := cacheKey digest a.field a.entity.bare a.inputs

/-- The answer of a field: a value that it may have, or a failure. -/
def answer (v : VirtualField) (a : Ask) : Except ComputationError Value :=
  v.accept a.entity.bare (v.computation a.entity.bare a.inputs)

theorem ref_bare (r : EntityRef) : r.bare.ref = r := rfl

theorem key_of (digest : Digest) (v : VirtualField) (e : Entity) (i : Inputs) :
    (of v e i).key digest = cacheKey digest v.name e i := rfl

/-- **The answer to an ask is what the computation amounts to.** -/
theorem answer_of {v : VirtualField} (hv : v.computation.IsOfInputs) (e : Entity) (i : Inputs) :
    (of v e i).answer v = v.accept e (v.computation e i) := by
  have hcomputation : v.computation e.ref.bare (of v e i).inputs = v.computation e i := by
    rw [hv.ref e.ref.bare e _ (ref_bare e.ref), hv.looks e i]
    rfl
  unfold answer VirtualField.accept
  rw [show (of v e i).entity = e.ref from rfl, hcomputation, ref_bare]

end Ask

/-! ## Keys -/

/-- Two texts that are cut at their first separator have the same parts. -/
theorem cut_unique {α : Type} {c : α} {a b x y : List α} (ha : c ∉ a) (hb : c ∉ b)
    (h : a ++ c :: x = b ++ c :: y) : a = b ∧ x = y := by
  induction a generalizing b with
  | nil =>
    cases b with
    | nil => exact ⟨rfl, (List.cons.inj h).2⟩
    | cons d b =>
      obtain ⟨rfl, -⟩ := List.cons.inj h
      exact absurd List.mem_cons_self hb
  | cons d a ih =>
    cases b with
    | nil =>
      obtain ⟨rfl, -⟩ := List.cons.inj h
      exact absurd List.mem_cons_self ha
    | cons d' b =>
      obtain ⟨rfl, htail⟩ := List.cons.inj h
      obtain ⟨rfl, hrest⟩ := ih (fun hc => ha (List.mem_cons_of_mem _ hc))
        (fun hc => hb (List.mem_cons_of_mem _ hc)) htail
      exact ⟨rfl, hrest⟩

/-- The identity of an entity as it stands in keys. -/
def EntityRef.label (r : EntityRef) : List Char :=
  r.entityType.toList ++ ':' :: r.id.display.toList

/-- A key is the field, the identity and the digest of the inputs. -/
theorem toList_cacheKey (digest : Digest) (field : String) (e : Entity) (i : Inputs) :
    (cacheKey digest field e i).toList =
      field.toList ++ ':' :: (e.ref.label ++ ':' :: (digest (inputsText i)).toList) := by
  unfold cacheKey EntityRef.label
  simp [Entity.ref]

/-- A name of a field has no separator in it. -/
def NoColon (name : String) : Prop := ':' ∉ name.toList

/-- **A key tells its field.** -/
theorem Ask.field_eq_of_key {digest : Digest} {a a' : Ask} (ha : NoColon a.field)
    (ha' : NoColon a'.field) (h : a.key digest = a'.key digest) : a.field = a'.field := by
  have htext := congrArg String.toList h
  unfold Ask.key at htext
  rw [toList_cacheKey, toList_cacheKey] at htext
  exact String.toList_inj.1 (cut_unique ha ha' htext).1

/-! ## Checked definitions -/

/-- A registration of a definition that has been checked. -/
def Registration.IsBuilt : Registration → Prop
  | .field f => ∃ d : FieldDraft, d.define = .ok f
  | .virtual v => ∃ d : VirtualDraft, d.define = .ok v
  | .aliased _ _ => True

theorem noColon_of_checkName {name : String} (h : checkName name = .ok ()) : NoColon name := by
  have hchar : isNameChar ':' = false := by decide
  unfold checkName nameFault? at h
  intro hmem
  split at h
  · cases h
  · rename_i hfault
    split at hfault
    · cases hfault
    · split at hfault
      · cases hfault
      · rename_i hall
        have hcolon := List.all_eq_true.1 (by simpa using hall) ':' hmem
        rw [hchar] at hcolon
        cases hcolon

theorem notMem_reservedNames {name : String} (h : checkName name = .ok ()) : name ∉ reservedNames := by
  unfold checkName nameFault? at h
  intro hmem
  rw [if_pos (List.contains_iff_mem.2 hmem)] at h
  split at h
  · cases h
  · rename_i hfault
    split at hfault
    · cases hfault
    · split at hfault <;> cases hfault

/-- A virtual field that has been checked has the name of its draft. -/
theorem VirtualDraft.name_of_define {d : VirtualDraft} {v : VirtualField} (h : d.define = .ok v) :
    checkName d.name = .ok () ∧ v.name = d.name := by
  unfold define at h
  obtain ⟨_, hname, h⟩ := Except.bind_eq_ok_iff.1 h
  refine ⟨hname, ?_⟩
  dsimp only at h
  split at h
  · simp only [Except.bind_eq_ok_iff, Except.ok.injEq, exists_eq_left'] at h
    -- dependencies, relations, and repeated dependencies
    split at h
    · cases h
    split at h
    · cases h
    split at h
    · cases h
    simp only [Except.bind_eq_ok_iff] at h
    obtain ⟨_, _, _, _, h⟩ := h
    split at h
    · cases h
    · cases h
      rfl
  · cases h

/-- A column that has been checked has the name of its draft. -/
theorem FieldDraft.name_of_define {d : FieldDraft} {f : Field} (h : d.define = .ok f) :
    checkName d.name = .ok () ∧ f.name = d.name := by
  unfold define at h
  obtain ⟨_, hname, h⟩ := Except.bind_eq_ok_iff.1 h
  refine ⟨hname, ?_⟩
  obtain ⟨_, _, h⟩ := Except.bind_eq_ok_iff.1 h
  obtain ⟨_, _, h⟩ := Except.bind_eq_ok_iff.1 h
  split at h
  · cases h
  · cases h
    rfl

/-- All names of a catalog have been checked. -/
structure Catalog.IsChecked (c : Catalog) : Prop where
  fields : ∀ p ∈ c.fields, checkName p.2.name = .ok ()
  virtualFields : ∀ p ∈ c.virtualFields, checkName p.2.name = .ok ()

theorem Catalog.IsChecked.enter {c : Catalog} (hc : c.IsChecked) {r : Registration} (hr : r.IsBuilt) :
    (c.enter r).2.IsChecked := by
  rcases c.enter_spec r with ⟨e, he⟩ | ⟨c', hc', haccepts⟩
  · rw [he]
    exact hc
  · rw [hc']
    cases haccepts with
    | @field f hfree =>
      refine ⟨fun p hp => ?_, hc.virtualFields⟩
      rcases KeyMap.mem_insert hp with rfl | hp
      · obtain ⟨d, hd⟩ := hr
        obtain ⟨hcheck, hname⟩ := FieldDraft.name_of_define hd
        rw [hname]
        exact hcheck
      · exact hc.fields p hp
    | @virtual v hfree hacyclic =>
      refine ⟨hc.fields, fun p hp => ?_⟩
      rcases KeyMap.mem_insert hp with rfl | hp
      · obtain ⟨d, hd⟩ := hr
        obtain ⟨hcheck, hname⟩ := VirtualDraft.name_of_define hd
        rw [hname]
        exact hcheck
      · exact hc.virtualFields p hp
    | aliased hfree htarget => exact ⟨hc.fields, hc.virtualFields⟩

/-- **All names in a catalog of checked definitions have been checked.** -/
theorem Catalog.isChecked_enterAll {rs : List Registration} (hrs : ∀ r ∈ rs, r.IsBuilt) :
    (Catalog.enterAll {} rs).IsChecked := by
  have hgeneral : ∀ c : Catalog, c.IsChecked → (Catalog.enterAll c rs).IsChecked := by
    induction rs with
    | nil => exact fun c hc => hc
    | cons r rs ih =>
      intro c hc
      exact ih (fun r' hr' => hrs r' (List.mem_cons_of_mem _ hr')) _ (hc.enter (hrs r List.mem_cons_self))
  refine hgeneral {} ⟨?_, ?_⟩
  · intro p hp
    cases hp
  · intro p hp
    cases hp

/-- The names in a catalog of checked definitions have no separator. -/
theorem Catalog.noColon_enterAll {rs : List Registration} (hrs : ∀ r ∈ rs, r.IsBuilt) :
    ∀ p ∈ (Catalog.enterAll {} rs).virtualFields, NoColon p.2.name :=
  fun p hp => noColon_of_checkName ((isChecked_enterAll hrs).virtualFields p hp)

/-! ## The asks of a run -/

namespace Engine

variable {σ : Type} (en : Engine σ)

/-- The ask of one field, if its answers are cached. -/
def oneAsks (b : Batch) (v : VirtualField) (e : Entity) (computed : List (String × Value))
    (p : Progress σ) : List Ask :=
  match resolveInputs b v e computed p.cancelled with
  | .error _ => []
  | .ok i => if v.cacheable then [.of v e i] else []

/-- The asks of the fields of an order. -/
def orderAsks (b : Batch) (e : Entity) :
    List String → List (String × Value) → Progress σ → List Ask
  | [], _, _ => []
  | name :: rest, computed, p =>
    match en.catalog.virtual? name with
    | none => orderAsks b e rest computed p
    | some v =>
      oneAsks b v e computed p ++
        match en.computeOne b v e computed p with
        | (.ok value, p) => orderAsks b e rest ((name, value) :: computed) p
        | (.error err, p) =>
          if v.name = b.target.name ∨ err.isBatchLevel then []
          else if en.settings.failurePolicy = .default then
            orderAsks b e rest ((name, v.default) :: computed) p
          else []

/-- The asks for an entity. -/
def entityAsks (b : Batch) (e : Entity) (p : Progress σ) : List Ask :=
  match b.budget.checkTime p.spent with
  | .error _ => []
  | .ok _ => en.orderAsks b e b.order [] p

/-- The asks for the entities of a chunk. -/
def chunkAsks (b : Batch) : List Entity → Progress σ → List Ask
  | [], _ => []
  | e :: es, p => en.entityAsks b e p ++ chunkAsks b es (en.computeEntity b e p).2

/-- The asks for the chunks of a batch. -/
def chunksAsks (b : Batch) : List (List Entity) → Results → Progress σ → List Ask
  | [], _, _ => []
  | chunk :: rest, results, p =>
    if b.heeds && p.cancelled then []
    else match b.budget.checkTime p.spent with
      | .error _ => []
      | .ok _ =>
        let p := { p with stats := { p.stats with chunks := p.stats.chunks + 1 } }
        en.chunkAsks b chunk p ++
          match en.collect b.target (en.computeChunk b chunk p).1 results
              (en.computeChunk b chunk p).2.stats with
          | .error _ => []
          | .ok (results, stats) =>
            chunksAsks b rest results { (en.computeChunk b chunk p).2 with stats := stats }

/-- A batch for a virtual field, its state at the start and its chunks. -/
def batchOf (heeds : Bool) (v : VirtualField) (s : EngineState σ) : Batch where
  target := v
  order := en.catalog.computationOrder v.name
  budget := Budget.ofField v en.settings
  deadline := s.clock + nanosPerMilli * (Budget.ofField v en.settings).timeLimitMs
  heeds := heeds

/-- The progress at the start of a batch. -/
def startOf (es : List Entity) (s : EngineState σ) : Progress σ where
  cache := s.cache
  clock := s.clock
  cancelled := s.cancelled
  stats := { entities := es.length }

/-- The asks of a batch. -/
def batchAsks (heeds : Bool) (field : String) (es : List Entity) (s : EngineState σ) : List Ask :=
  match en.catalog.virtual? field with
  | none => []
  | some v =>
    en.chunksAsks (en.batchOf heeds v s) (chunks (en.settings.batchSize - 1) es) [] (startOf es s)

end Engine

end FieldQuery
