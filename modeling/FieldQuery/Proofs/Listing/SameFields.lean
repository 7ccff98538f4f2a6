import FieldQuery.Listing.Rows

/-!
# Engines that do the same for a field

Two engines may differ and still do the same for some of their fields. What a batch does depends on its
field, on the fields that this one needs, and on the settings: where two engines agree on these, their
batches are the same, and so is what comes of rows.

* `Engine.SameAt` — one field of one entity is computed alike;
* `Engine.SameOn` — so is everything that a batch of a field meets.

Principal results: `computeBatch_sameOn` — the batches of the field are the same, and `narrow_sameOn` and
`fillAll_sameOn` — so are the rows that remain and the fields of a page.
-/

namespace FieldQuery

namespace Engine

variable {σ : Type}

/-- Engines of which the second does with a field of an entity what the first does. -/
structure SameAt (en en' : Engine σ) (n : String) : Prop where
  registered : en'.catalog.virtual? n = en.catalog.virtual? n
  computed : ∀ v, en.catalog.virtual? n = some v → ∀ b e computed (p : Progress σ),
    en'.computeOne b v e computed p = en.computeOne b v e computed p

/-- Engines of which the second does in a batch of a field what the first does. -/
structure SameOn (en en' : Engine σ) (field : String) : Prop where
  settings : en'.settings = en.settings
  registered : en'.catalog.virtual? field = en.catalog.virtual? field
  order : ∀ v, en.catalog.virtual? field = some v →
    en'.catalog.computationOrder v.name = en.catalog.computationOrder v.name
  needed : ∀ v, en.catalog.virtual? field = some v →
    ∀ n ∈ en.catalog.computationOrder v.name, en.SameAt en' n

variable {en en' : Engine σ}

/-! ## Batches -/

section Chunks

variable (hsettings : en'.settings = en.settings) {b : Batch}

include hsettings

theorem computeOrder_sameAt (e : Entity) {names : List String}
    (hnames : ∀ n ∈ names, en.SameAt en' n) (computed : List (String × Value)) (p : Progress σ) :
    en'.computeOrder b e names computed p = en.computeOrder b e names computed p := by
  induction names generalizing computed p with
  | nil => rfl
  | cons name names ih =>
    obtain ⟨hname, hnames⟩ := List.forall_mem_cons.1 hnames
    have ih := ih hnames
    unfold computeOrder
    rw [hname.registered]
    cases hv : en.catalog.virtual? name with
    | none => exact ih computed p
    | some v =>
      dsimp only
      rw [hname.computed v hv, hsettings]
      simp only [ih]

theorem computeChunk_sameAt (horder : ∀ n ∈ b.order, en.SameAt en' n) (es : List Entity)
    (p : Progress σ) : en'.computeChunk b es p = en.computeChunk b es p := by
  induction es generalizing p with
  | nil => rfl
  | cons e es ih =>
    unfold computeChunk computeEntity
    simp only [computeOrder_sameAt hsettings e horder, ih]

/-- What is taken over depends on the settings alone. -/
theorem collect_sameAt (v : VirtualField) (found results : Results) (stats : BatchStats) :
    en'.collect v found results stats = en.collect v found results stats := by
  induction found generalizing results stats with
  | nil => rfl
  | cons r found ih =>
    obtain ⟨id, err | value⟩ := r
    · unfold collect settle
      simp only [hsettings, ih]
    · exact ih _ stats

theorem computeChunks_sameAt (horder : ∀ n ∈ b.order, en.SameAt en' n) (parts : List (List Entity))
    (results : Results) (p : Progress σ) :
    en'.computeChunks b parts results p = en.computeChunks b parts results p := by
  induction parts generalizing results p with
  | nil => rfl
  | cons es parts ih =>
    unfold computeChunks
    simp only [computeChunk_sameAt hsettings horder, collect_sameAt hsettings, ih]

end Chunks

/-- **Engines that agree on a field, and on what it needs, have the same batches of it.** -/
theorem computeBatch_sameOn {field : String} (h : en.SameOn en' field) (heeds : Bool) (es : List Entity)
    (s : EngineState σ) : en'.computeBatch heeds field es s = en.computeBatch heeds field es s := by
  unfold computeBatch
  rw [h.registered]
  cases hv : en.catalog.virtual? field with
  | none => rfl
  | some v =>
    dsimp only
    rw [h.settings, h.order v hv, computeChunks_sameAt h.settings (h.needed v hv)]

/-! ## Rows -/

theorem fill_sameOn {field : String} (h : en.SameOn en' field) (heeds : Bool) (excluded : Excluded)
    (rows : List Row) :
    en'.fill heeds excluded field rows = en.fill heeds excluded field rows := by
  have hdefault : en'.defaultOf field = en.defaultOf field := by
    unfold defaultOf
    rw [h.registered]
  funext s
  unfold fill
  simp only [computeBatch_sameOn h, hdefault]

/-- The rows that remain are the same. -/
theorem narrow_sameOn {clauses : List Clause} (h : ∀ cl ∈ clauses, en.SameOn en' cl.field) (heeds : Bool)
    (rows : List Row) : en'.narrow heeds clauses rows = en.narrow heeds clauses rows := by
  induction clauses generalizing rows with
  | nil => rfl
  | cons cl clauses ih =>
    obtain ⟨hcl, h⟩ := List.forall_mem_cons.1 h
    funext s
    unfold narrow
    simp only [fill_sameOn hcl, ih h]

/-- **The fields of a page are the same.** -/
theorem fillAll_sameOn {fields : List String} (h : ∀ field ∈ fields, en.SameOn en' field) (heeds : Bool)
    (excluded : Excluded) (rows : List Row) :
    en'.fillAll heeds excluded fields rows = en.fillAll heeds excluded fields rows := by
  induction fields generalizing rows with
  | nil => rfl
  | cons field fields ih =>
    obtain ⟨hfield, h⟩ := List.forall_mem_cons.1 h
    funext s
    unfold fillAll
    simp only [fill_sameOn hfield, ih h]

end Engine

end FieldQuery
