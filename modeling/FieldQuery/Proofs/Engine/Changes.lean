import FieldQuery.Proofs.Engine.Keys
import FieldQuery.Proofs.Json.SelfDelimiting
import FieldQuery.Proofs.Value.Natural

/-!
# Changed dependencies

The digest in the name of a cached value is that of one text, in which columns stand with a NUL after name
and value, and relations as a marked name with their records one after the other.  Names may have these
marks in them too; as long as two texts have the same names, each is still cut where the other one is.

Values stand there in their natural form, so what that form loses is no change: an instant may become the
text that writes it, and a decimal that is not finite may become null.

* `plainColumns`, `shownRelations` — what the text of inputs tells of columns and of relations.

Principal results: `inputsText_eq_iff` — texts under the same names are the same exactly if they tell the
same; `cacheKey_eq_iff_plain` — every other change of a dependency leads to another name;
`stamped_keepsValue` — a changed kind that the natural form loses finds the value of before.
-/

namespace FieldQuery

open Text Json

/-! ## Cutting texts -/

/-- Texts that go on with the same word and a mark have the same parts, also if the mark occurs in the
word. -/
theorem cut_unique_before {α : Type} {c : α} {a b : List α} (ha : c ∉ a) (hb : c ∉ b)
    (word : List α) {x y : List α} (h : a ++ (word ++ c :: x) = b ++ (word ++ c :: y)) :
    a = b ∧ x = y := by
  by_cases hword : c ∈ word
  · -- The first mark is the one in the word.
    obtain ⟨p, q, rfl, hp⟩ := List.eq_append_cons_of_mem hword
    have hcut : (a ++ p) ++ c :: (q ++ c :: x) = (b ++ p) ++ c :: (q ++ c :: y) := by
      simpa using h
    obtain ⟨hfirst, hrest⟩ := cut_unique (by simp [ha, hp]) (by simp [hb, hp]) hcut
    have hlast := List.append_cancel_left hrest
    exact ⟨List.append_cancel_right hfirst, (List.cons.inj hlast).2⟩
  · have hcut : (a ++ word) ++ c :: x = (b ++ word) ++ c :: y := by
      simpa using h
    obtain ⟨hfirst, hrest⟩ := cut_unique (by simp [ha, hword]) (by simp [hb, hword]) hcut
    exact ⟨List.append_cancel_right hfirst, hrest⟩

/-- The mark after the name and the value of a column is in no JSON text. -/
theorem nul_notMem_write (j : Json) : Char.ofNat 0 ∉ j.write := fun h =>
  absurd (isPlainChar_write j _ h) (by decide)

/-- The mark after the name of a relation is in no JSON text. -/
theorem mark_notMem_write (j : Json) : Char.ofNat 1 ∉ j.write := fun h =>
  absurd (isPlainChar_write j _ h) (by decide)

theorem columnsText_cons (name : String) (v : Value) (columns : List (String × Value)) :
    columnsText ((name, v) :: columns) =
      name.toList ++ Char.ofNat 0 :: (v.toJson.write ++ Char.ofNat 0 :: columnsText columns) := by
  simp [columnsText]

theorem relationsText_cons (name : String) (rows : List Entity)
    (relations : List (String × List Entity)) :
    relationsText ((name, rows) :: relations) =
      name.toList ++ Char.ofNat 1 :: ((rows.map Entity.toJson).flatMap write ++
        relationsText relations) := by
  simp [relationsText, List.flatMap_map]

/-- Columns under the same names are cut alike. -/
theorem columns_of_text {columns columns' : List (String × Value)}
    (hnames : columns.map (·.1) = columns'.map (·.1)) {x y : List Char}
    (h : columnsText columns ++ x = columnsText columns' ++ y) :
    columns.map (·.2.plain) = columns'.map (·.2.plain) ∧ x = y := by
  induction columns generalizing columns' with
  | nil =>
    obtain rfl : columns' = [] := List.map_eq_nil_iff.1 hnames.symm
    exact ⟨rfl, h⟩
  | cons c columns ih =>
    obtain ⟨c', columns', rfl, hname, htail⟩ := List.map_eq_cons_iff.1 hnames.symm
    obtain ⟨name, v⟩ := c
    obtain ⟨name', v'⟩ := c'
    obtain rfl : name' = name := hname
    rw [columnsText_cons, columnsText_cons] at h
    have hcut : v.toJson.write ++ Char.ofNat 0 :: (columnsText columns ++ x) =
        v'.toJson.write ++ Char.ofNat 0 :: (columnsText columns' ++ y) := by
      simpa using h
    obtain ⟨hvalue, hrest⟩ := cut_unique (nul_notMem_write _) (nul_notMem_write _) hcut
    have hjson : v.toJson = v'.toJson :=
      compact_injective v.isFinite_toJson v'.isFinite_toJson (congrArg String.ofList hvalue)
    obtain ⟨hcolumns, hend⟩ := ih htail.symm hrest
    refine ⟨?_, hend⟩
    rw [List.map_cons, List.map_cons, hcolumns, Value.toJson_eq_iff.1 hjson]

theorem mark_notMem_rows (js : List Json) : Char.ofNat 1 ∉ js.flatMap write := by
  intro h
  obtain ⟨j, -, hj⟩ := List.mem_flatMap.1 h
  exact mark_notMem_write j hj

/-- Records end where the name of the next relation begins. -/
theorem rows_of_text {js js' : List Json} {relations relations' : List (String × List Entity)}
    (hnames : relations.map (·.1) = relations'.map (·.1))
    (h : js.flatMap write ++ relationsText relations =
      js'.flatMap write ++ relationsText relations') :
    js.flatMap write = js'.flatMap write ∧ relationsText relations = relationsText relations' := by
  cases relations with
  | nil =>
    obtain rfl : relations' = [] := List.map_eq_nil_iff.1 hnames.symm
    exact ⟨List.append_cancel_right h, rfl⟩
  | cons r relations =>
    obtain ⟨r', relations', rfl, hname, -⟩ := List.map_eq_cons_iff.1 hnames.symm
    obtain ⟨name, rows⟩ := r
    obtain ⟨name', rows'⟩ := r'
    obtain rfl : name' = name := hname
    rw [relationsText_cons, relationsText_cons] at h ⊢
    obtain ⟨hfirst, hrest⟩ := cut_unique_before (mark_notMem_rows js) (mark_notMem_rows js') _ h
    exact ⟨hfirst, by rw [hrest]⟩

/-- Relations under the same names are cut alike. -/
theorem relations_of_text {relations relations' : List (String × List Entity)}
    (hnames : relations.map (·.1) = relations'.map (·.1))
    (h : relationsText relations = relationsText relations') :
    relations.map (·.2.map Entity.toJson) = relations'.map (·.2.map Entity.toJson) := by
  have hobjects : ∀ rows : List Entity, ∀ j ∈ rows.map Entity.toJson,
      IsFinite j ∧ j.isObject = true := by
    intro rows j hj
    obtain ⟨e, -, rfl⟩ := List.mem_map.1 hj
    exact ⟨e.isFinite_toJson, rfl⟩
  induction relations generalizing relations' with
  | nil =>
    obtain rfl : relations' = [] := List.map_eq_nil_iff.1 hnames.symm
    rfl
  | cons r relations ih =>
    obtain ⟨r', relations', rfl, hname, htail⟩ := List.map_eq_cons_iff.1 hnames.symm
    obtain ⟨name, rows⟩ := r
    obtain ⟨name', rows'⟩ := r'
    obtain rfl : name' = name := hname
    rw [relationsText_cons, relationsText_cons] at h
    have hbody := (List.cons.inj (List.append_cancel_left h)).2
    obtain ⟨hrows, hrest⟩ := rows_of_text htail.symm hbody
    rw [List.map_cons, List.map_cons, ih htail.symm hrest,
      eq_of_flatMap_write (hobjects rows) (hobjects rows') hrows]

/-! ## What the text tells -/

/-- What the text of inputs tells of their columns, which is what their natural forms keep. -/
def plainColumns (i : Inputs) : List Value := i.columns.map (·.2.plain)

/-- What the text of inputs tells of their relations: the records as they are written. -/
def shownRelations (i : Inputs) : List (List Json) := i.relations.map (·.2.map Entity.toJson)

/-- Columns under the same names that are alike but for what natural forms lose have one text. -/
theorem columnsText_congr {columns columns' : List (String × Value)}
    (hnames : columns.map (·.1) = columns'.map (·.1))
    (h : columns.map (·.2.plain) = columns'.map (·.2.plain)) :
    columnsText columns = columnsText columns' := by
  induction columns generalizing columns' with
  | nil =>
    obtain rfl : columns' = [] := List.map_eq_nil_iff.1 hnames.symm
    rfl
  | cons c columns ih =>
    obtain ⟨c', columns', rfl, hname, htail⟩ := List.map_eq_cons_iff.1 hnames.symm
    obtain ⟨name, v⟩ := c
    obtain ⟨name', v'⟩ := c'
    obtain rfl : name' = name := hname
    rw [List.map_cons, List.map_cons] at h
    obtain ⟨hvalue, hrest⟩ := List.cons.inj h
    rw [columnsText_cons, columnsText_cons, Value.toJson_eq_iff.2 hvalue, ih htail.symm hrest]

/-- Relations under the same names with records that are written alike have one text. -/
theorem relationsText_congr {relations relations' : List (String × List Entity)}
    (hnames : relations.map (·.1) = relations'.map (·.1))
    (h : relations.map (·.2.map Entity.toJson) = relations'.map (·.2.map Entity.toJson)) :
    relationsText relations = relationsText relations' := by
  induction relations generalizing relations' with
  | nil =>
    obtain rfl : relations' = [] := List.map_eq_nil_iff.1 hnames.symm
    rfl
  | cons r relations ih =>
    obtain ⟨r', relations', rfl, hname, htail⟩ := List.map_eq_cons_iff.1 hnames.symm
    obtain ⟨name, rows⟩ := r
    obtain ⟨name', rows'⟩ := r'
    obtain rfl : name' = name := hname
    rw [List.map_cons, List.map_cons] at h
    obtain ⟨hrows, hrest⟩ := List.cons.inj h
    rw [relationsText_cons, relationsText_cons, hrows, ih htail.symm hrest]

section Inputs

variable {i i' : Inputs} (hcolumns : i.columns.map (·.1) = i'.columns.map (·.1))
  (hrelations : i.relations.map (·.1) = i'.relations.map (·.1))

include hcolumns hrelations in
/-- **Texts of inputs under the same names are the same exactly if they tell the same.** -/
theorem inputsText_eq_iff :
    inputsText i = inputsText i' ↔
      plainColumns i = plainColumns i' ∧ shownRelations i = shownRelations i' := by
  unfold inputsText plainColumns shownRelations
  constructor
  · intro h
    obtain ⟨hvalues, hrest⟩ := columns_of_text hcolumns (String.ofList_injective h)
    exact ⟨hvalues, relations_of_text hrelations hrest⟩
  · rintro ⟨hvalues, hrows⟩
    rw [columnsText_congr hcolumns hvalues, relationsText_congr hrelations hrows]

omit hrelations in
include hcolumns in
/-- Plain columns under the same names are told in full. -/
theorem columns_eq_of_plain (hplain : ∀ c ∈ i.columns, c.2.IsPlain)
    (hplain' : ∀ c ∈ i'.columns, c.2.IsPlain) (h : plainColumns i = plainColumns i') :
    i.columns = i'.columns := by
  have hvalues : ∀ columns : List (String × Value), (∀ c ∈ columns, c.2.IsPlain) →
      columns.map (·.2.plain) = columns.map (·.2) :=
    fun columns hc => List.map_congr_left fun c hmem => hc c hmem
  unfold plainColumns at h
  rw [hvalues _ hplain, hvalues _ hplain'] at h
  exact (List.zip_of_prod hcolumns h).trans (List.zip_of_prod rfl rfl).symm

/-- **Every change of a dependency that can be written leads to another name.**  One identity and two
inputs under the same names have one name exactly if the columns are alike but for what their natural
forms lose, and the relations have records that are written alike.  So whatever else changes, the value of
before is not found.  Where all columns are plain, that is every change of a column. -/
theorem cacheKey_eq_iff_plain {digest : Digest} (field : String) {e e' : Entity}
    (hentity : e.ref = e'.ref)
    (hcolumns : i.columns.map (·.1) = i'.columns.map (·.1))
    (hrelations : i.relations.map (·.1) = i'.relations.map (·.1))
    (hdigest : digest (inputsText i) = digest (inputsText i') → inputsText i = inputsText i') :
    (cacheKey digest field e i = cacheKey digest field e' i' ↔
      plainColumns i = plainColumns i' ∧ shownRelations i = shownRelations i') ∧
    ((∀ c ∈ i.columns, c.2.IsPlain) → (∀ c ∈ i'.columns, c.2.IsPlain) →
      i.columns ≠ i'.columns ∨ shownRelations i ≠ shownRelations i' →
        cacheKey digest field e i ≠ cacheKey digest field e' i') := by
  have hkey : cacheKey digest field e i = cacheKey digest field e' i' ↔
      plainColumns i = plainColumns i' ∧ shownRelations i = shownRelations i' := by
    rw [← inputsText_eq_iff hcolumns hrelations, ← String.toList_inj, toList_cacheKey,
      toList_cacheKey, hentity]
    constructor
    · intro h
      have hrest := (List.cons.inj (List.append_cancel_left h)).2
      exact hdigest (String.toList_inj.1 (List.cons.inj (List.append_cancel_left hrest)).2)
    · intro h
      rw [h]
  refine ⟨hkey, fun hplain hplain' hchanged hsame => ?_⟩
  obtain ⟨hvalues, hrows⟩ := hkey.1 hsame
  rcases hchanged with hchanged | hchanged
  · exact hchanged (columns_eq_of_plain hcolumns hplain hplain' hvalues)
  · exact hchanged hrows

end Inputs

section Stamps

/-- The inputs of a user who has been seen a number of times and has some orders. -/
def seen (times : Int64) (orders : List Entity) : Inputs where
  columns := [("seen", .list [.int times, .text "times"])]
  relations := [("orders", orders)]

/-- A user. -/
def visitor : Entity := .mk "user" (.int 1) [] []

/-- An order of a number. -/
def ordered (n : Int64) : Entity := .mk "order" (.int n) [] []

theorem isPlain_seen (times : Int64) (orders : List Entity) :
    ∀ c ∈ (seen times orders).columns, c.2.IsPlain := by
  intro c hc
  rw [List.mem_singleton.1 hc]
  rfl

/-- Another number in a list leads to another name, and so does one record more. -/
theorem cacheKey_seen :
    (seen 1 [ordered 1]).columns ≠ (seen 2 [ordered 1]).columns ∧
    shownRelations (seen 1 [ordered 1]) ≠ shownRelations (seen 1 [ordered 1, ordered 2]) ∧
    cacheKey .sha256 "visits" visitor (seen 1 [ordered 1]) ≠
      cacheKey .sha256 "visits" visitor (seen 2 [ordered 1]) ∧
    cacheKey .sha256 "visits" visitor (seen 1 [ordered 1]) ≠
      cacheKey .sha256 "visits" visitor (seen 1 [ordered 1, ordered 2]) := by
  have htimes : (seen 1 [ordered 1]).columns ≠ (seen 2 [ordered 1]).columns := by
    simp [seen]
  have horders : shownRelations (seen 1 [ordered 1]) ≠
      shownRelations (seen 1 [ordered 1, ordered 2]) := by
    simp [shownRelations, seen]
  have hdigest : Digest.sha256 (inputsText (seen 1 [ordered 1])) ≠
      Digest.sha256 (inputsText (seen 2 [ordered 1])) := by
    decide +kernel
  have hdigest' : Digest.sha256 (inputsText (seen 1 [ordered 1])) ≠
      Digest.sha256 (inputsText (seen 1 [ordered 1, ordered 2])) := by
    decide +kernel
  obtain ⟨-, hmoved⟩ := @cacheKey_eq_iff_plain (seen 1 [ordered 1]) (seen 2 [ordered 1]) .sha256
    "visits" visitor visitor rfl rfl rfl fun h => absurd h hdigest
  obtain ⟨-, hgrown⟩ := @cacheKey_eq_iff_plain (seen 1 [ordered 1]) (seen 1 [ordered 1, ordered 2])
    .sha256 "visits" visitor visitor rfl rfl rfl fun h => absurd h hdigest'
  exact ⟨htimes, horders, hmoved (isPlain_seen _ _) (isPlain_seen _ _) (.inl htimes),
    hgrown (isPlain_seen _ _) (isPlain_seen _ _) (.inr horders)⟩

/-- A copy of a point in time, which is cached. -/
def stamped : VirtualField where
  name := "stamped"
  fieldType := .datetime
  computation := .coalesce
  computationName := "stamped"
  dependencies := ["at"]
  operators := FieldType.datetime.operators
  cacheable := true

/-- An engine that remembers ten values under their digests. -/
def stamping : Engine MemoryCache where
  catalog := Catalog.enterAll {} [.virtual stamped]
  digest := .sha256
  cache := some MemoryCache.cache

/-- The first midnight of the year 2000. -/
def millennium : Instant := .midnight ⟨2000, 1, 1, by decide⟩

/-- A call for the point in time of one event. -/
def stampOf (v : Value) : BatchCall where
  field := "stamped"
  entities := [.mk "event" (.int 1) [("at", v)] []]

/-- An event whose instant becomes the text that writes it. -/
def rewritten : List BatchCall := [stampOf (.instant millennium), stampOf (.text millennium.text)]

/-- The kinds among results. -/
def kinds (results : Results) : List Value.Kind :=
  results.filterMap fun r => r.2.toOption.map Value.kind

/-- **A changed kind that the natural form loses finds the value of before.**  An instant and its text
have one name with every digest, and so have null and a decimal that is not finite.  An engine with a cache
goes on with the instant where one without a cache has the text. -/
theorem stamped_keepsValue :
    (∀ digest field e,
      cacheKey digest field e { columns := [("at", .instant millennium)] } =
        cacheKey digest field e { columns := [("at", .text millennium.text)] } ∧
      cacheKey digest field e { columns := [("at", .decimal .nan)] } =
        cacheKey digest field e { columns := [("at", .null)] }) ∧
    (stamping.runBatches rewritten Engine.blank).map (Engine.shown kinds) =
      [some [.instant], some [.instant]] ∧
    ({ stamping with cache := none }.runBatches rewritten Engine.blank).map (Engine.shown kinds) =
      [some [.instant], some [.text]] :=
  ⟨fun _ _ _ => ⟨rfl, rfl⟩, by decide +kernel, by decide +kernel⟩

end Stamps

end FieldQuery
