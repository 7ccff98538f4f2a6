import FieldQuery.Listing.Execute
import FieldQuery.Cache.Memory
import FieldQuery.Proofs.Value.Decoded

/-!
# A cache gives back what was put into it, or nothing

Values stand in a cache as texts of their tagged form.  A decimal that is not finite has no text, so that it
must not be read back as anything else.  Whether a finite decimal is read back is a matter of the reader of
numbers: the program's reader rounds twice when there are many digits.

* `Json.nesting` — how deep containers nest;
* `Json.readWordExactly` — the program's reader of words, except that the text of a finite number is that
  number;
* `Value.decodeBy?` — reads the text of the tagged form by some reader of words.

Principal results: `Value.decodeBy?_encode` — a value whose words are read is read back if its decimals are
finite, and not at all if they are not; `codec_exact` — this is so for every value with an exact reader, for
kept values with the program's reader, and for every list of identities.
-/

namespace FieldQuery

namespace Json

mutual

/-- How deep containers nest. -/
def nesting : Json → Nat
  | .array items => nestings items + 1
  | .object fields => fieldsNesting fields + 1
  | .null => 0
  | .bool _ => 0
  | .int _ => 0
  | .float _ => 0
  | .text _ => 0

/-- How deep containers nest in any of some items. -/
def nestings : List Json → Nat
  | [] => 0
  | j :: js => max (nesting j) (nestings js)

/-- How deep containers nest in any of some fields. -/
def fieldsNesting : List (String × Json) → Nat
  | [] => 0
  | (_, j) :: rest => max (nesting j) (fieldsNesting rest)

end

/-- The reader of words, with every text of a finite number read as that number. -/
def readWordExactly (cs : List Char) : Option Written :=
  match Binary64.read cs with
  | some x => if x.isFinite ∧ x.printJson = cs then some (.float x) else readWord cs
  | none => readWord cs

/-- The text of a finite number is read exactly. -/
theorem readWordExactly_printJson {x : Binary64} (hx : x.isFinite = true) :
    readWordExactly x.printJson = some (.float x) := by
  unfold readWordExactly
  rw [Binary64.read_printJson hx]
  exact if_pos ⟨hx, rfl⟩

/-- A text that is not one of a number with a fraction is read as before. -/
theorem readWordExactly_eq {cs : List Char} {w : Written} (hcs : exactWord cs = some w)
    (hw : ∀ x, w ≠ .float x) : readWordExactly cs = readWord cs := by
  unfold readWordExactly
  split
  · rename_i x _
    refine if_neg ?_
    rintro ⟨hx, rfl⟩
    rw [exactWord_printJson hx] at hcs
    exact hw x (Option.some.inj hcs).symm
  · rfl

end Json

namespace Value

open Json

/-! ## Nesting -/

mutual

/-- Each list takes two levels, and what is inside the innermost one may take another. -/
theorem depth_bounds : ∀ v : Value,
    2 * v.depth ≤ v.tagged.nesting ∧ v.tagged.nesting ≤ 2 * v.depth + 1
  | .null => by simp [tagged, depth, nesting, fieldsNesting]
  | .bool _ => by simp [tagged, tag, depth, nesting, fieldsNesting]
  | .int _ => by simp [tagged, tag, depth, nesting, fieldsNesting]
  | .decimal x => by
    unfold tagged ofBinary64
    split <;> simp [tag, depth, nesting, fieldsNesting]
  | .text _ => by simp [tagged, tag, depth, nesting, fieldsNesting]
  | .instant _ => by simp [tagged, tag, depth, nesting, fieldsNesting]
  | .list items => by
    obtain ⟨hlow, hhigh⟩ := depths_bounds items
    simp only [tagged, tag, depth, nesting, fieldsNesting]
    omega

theorem depths_bounds : ∀ vs : List Value,
    2 * depths vs ≤ nestings (taggeds vs) ∧ nestings (taggeds vs) ≤ 2 * depths vs + 1
  | [] => ⟨Nat.le_refl 0, Nat.zero_le 1⟩
  | v :: vs => by
    obtain ⟨hlow, hhigh⟩ := depth_bounds v
    obtain ⟨hlow', hhigh'⟩ := depths_bounds vs
    simp only [taggeds, depths, nestings]
    omega

end

/-! ## Decimals that are not finite -/

mutual

/-- What has a decimal that is not finite inside it is not read, however much room there is. -/
theorem isFinite_of_ofWritten? (v : Value) {room : Nat} {w : Value}
    (h : ofWritten? (room + 1) (Written.ofJson v.tagged) = some w) : v.IsFinite := by
  match v with
  | .null => trivial
  | .bool _ => trivial
  | .int _ => trivial
  | .text _ => trivial
  | .instant _ => trivial
  | .decimal x =>
    have hread := ofScalar?_tagged rfl (by decide) h
    unfold ofBinary64 at hread
    split at hread
    · assumption
    · simp [Written.ofJson, Written.value?, ofScalar?] at hread
  | .list items =>
    rw [tagged, ofWritten?_tag] at h
    obtain ⟨vs, hvs, -⟩ : ∃ vs, itemsOf? room (Written.ofJsons (taggeds items)) = some vs ∧
        .list vs = w := Option.map_eq_some_iff.1 h
    exact allFinite_of_itemsOf? items hvs

theorem allFinite_of_itemsOf? (vs : List Value) {room : Nat} {ws : List Value}
    (h : itemsOf? room (Written.ofJsons (taggeds vs)) = some ws) : AllFinite vs := by
  match room, vs with
  | _, [] => trivial
  | 0, _ :: _ => cases h
  | 1, v :: vs => simp [itemsOf?, taggeds, Written.ofJsons, ofWritten?] at h
  | room + 2, v :: vs =>
    rw [taggeds, Written.ofJsons] at h
    have hmap : (Written.ofJson v.tagged :: Written.ofJsons (taggeds vs)).mapM
        (ofWritten? (room + 1)) = some ws := h
    rw [List.mapM_cons] at hmap
    obtain ⟨w, hw, hrest⟩ := Option.bind_eq_some_iff.1 hmap
    obtain ⟨ws', hws, -⟩ := Option.bind_eq_some_iff.1 hrest
    have hitems : itemsOf? (room + 2) (Written.ofJsons (taggeds vs)) = some ws' := hws
    exact ⟨isFinite_of_ofWritten? v hw, allFinite_of_itemsOf? vs hitems⟩

end

/-! ## Reading a value back -/

/-- Reads the text of the tagged form; `word` reads the words and the numbers in it. -/
def decodeBy? (word : List Char → Option Written) (s : String) : Option Value :=
  (Written.readBy word s).bind (ofWritten? maxDepth)

theorem decode?_eq (s : String) : decode? s = decodeBy? readWord s := rfl

mutual

/-- An exact reader reads all words in the tagged form of any value. -/
theorem readable_tagged : ∀ v : Value, Readable readWordExactly v.tagged
  | .null => by simp [tagged, Readable, ReadableFields]
  | .bool true => readable_tag (readWordExactly_eq (w := .bool true) rfl nofun)
  | .bool false => readable_tag (readWordExactly_eq (w := .bool false) rfl nofun)
  | .int n => by
    refine readable_tag ?_
    rw [Readable, write, readWordExactly_eq (exactWord_intNumeral _) nofun]
    exact readWord_int64 n
  | .decimal x => by
    refine readable_tag ?_
    unfold ofBinary64
    split
    · rename_i hfinite
      rw [Readable, write]
      exact readWordExactly_printJson hfinite
    · exact readWordExactly_eq (w := .null) rfl nofun
  | .text _ => readable_tag trivial
  | .instant _ => readable_tag trivial
  | .list items => readable_tag (readableItems_taggeds items)

theorem readableItems_taggeds : ∀ vs : List Value, ReadableItems readWordExactly (taggeds vs)
  | [] => trivial
  | v :: vs => ⟨readable_tagged v, readableItems_taggeds vs⟩

end

/-- **A value is read back exactly, or it is not read at all**: the former if its decimals are finite, and
the latter if they are not. -/
theorem decodeBy?_encode {word : List Char → Option Written} {v : Value}
    (hreadable : Readable word v.tagged) (hnesting : v.tagged.nesting ≤ maxDepth) :
    (v.IsFinite → decodeBy? word v.encode = some v) ∧
      (¬ v.IsFinite → decodeBy? word v.encode = none) := by
  have hread : decodeBy? word v.encode = ofWritten? (126 + 1) (Written.ofJson v.tagged) := by
    unfold decodeBy? encode
    rw [readBy_compact hreadable]
    rfl
  rw [hread]
  constructor
  · intro hfinite
    refine ofWritten?_tagged_self v hfinite ?_
    have := (depth_bounds v).1
    unfold maxDepth at hnesting
    omega
  · intro hinfinite
    rw [Option.eq_none_iff_forall_ne_some]
    exact fun w hw => hinfinite (isFinite_of_ofWritten? v hw)

end Value

/-! ## Orders -/

namespace Listing

variable {σ τ : Type} {l : Listing σ τ}

/-- An order that has been put into the cache is found there, as long as its text is. -/
theorem cachedOrder_cacheOrder {cache : Cache σ} (hcache : l.sortCache = some cache) {key : String}
    {ids : List EntityId} {s : ListingState σ τ}
    (htext : (cache.get ((l.cacheOrder key ids s).engine.clock + 1) key
      (l.cacheOrder key ids s).engine.cache).1 = .ok (some (EntityId.encodeList ids))) :
    (l.cachedOrder key (l.cacheOrder key ids s)).1 = some ids := by
  have hfetch : (cache.fetch EntityId.decodeList? ((l.cacheOrder key ids s).engine.clock + 1) key
      (l.cacheOrder key ids s).engine.cache).1 = .ok (some ids) := by
    unfold Cache.fetch
    dsimp only
    rw [htext, Cache.decode, EntityId.decodeList?_encodeList]
  unfold cachedOrder
  rw [hcache]
  dsimp only
  rw [hfetch]

end Listing

/-- A cache in memory has the text of an order that has just been put there. -/
theorem MemoryCache.get_cacheOrder {τ : Type} {l : Listing MemoryCache τ}
    (hcache : l.sortCache = some MemoryCache.cache) (httl : 0 < l.settings.sort.sortCacheTtlSecs)
    (key : String) (ids : List EntityId) (s : ListingState MemoryCache τ) :
    (MemoryCache.cache.get ((l.cacheOrder key ids s).engine.clock + 1) key
      (l.cacheOrder key ids s).engine.cache).1 = .ok (some (EntityId.encodeList ids)) := by
  unfold Listing.cacheOrder
  rw [hcache]
  refine congrArg Except.ok (MemoryCache.get_put ?_ key _ _)
  unfold nanosPerSecond
  dsimp only
  omega

/-- **What is put into a cache is read back as it was, or not at all.**  Take any value whose tagged form
nests no deeper than the reader follows.  If all decimals inside it are finite, its text is read as this very
value, and otherwise the text is not read: so it is with a reader that converts the texts of finite numbers
exactly, and so it is with the program's reader if this converts those of the value exactly.  Every list of
identities is read back from its text, and so is every order that a listing has put into a cache, as long as
the cache has the text. -/
theorem codec_exact :
    (∀ v : Value, v.tagged.nesting ≤ Json.maxDepth →
      ((v.IsFinite → Value.decodeBy? Json.readWordExactly v.encode = some v) ∧
        (¬ v.IsFinite → Value.decodeBy? Json.readWordExactly v.encode = none)) ∧
      (v.IsKept →
        (v.IsFinite → Value.decode? v.encode = some v) ∧
          (¬ v.IsFinite → Value.decode? v.encode = none))) ∧
    (∀ ids, EntityId.decodeList? (EntityId.encodeList ids) = some ids) ∧
    (∀ {σ τ : Type} (l : Listing σ τ) (cache : Cache σ) (key : String) (ids : List EntityId)
        (s : ListingState σ τ), l.sortCache = some cache →
      (cache.get ((l.cacheOrder key ids s).engine.clock + 1) key
        (l.cacheOrder key ids s).engine.cache).1 = .ok (some (EntityId.encodeList ids)) →
      (l.cachedOrder key (l.cacheOrder key ids s)).1 = some ids) := by
  refine ⟨fun v hnesting => ⟨?_, fun hkept => ?_⟩, EntityId.decodeList?_encodeList, ?_⟩
  · exact Value.decodeBy?_encode v.readable_tagged hnesting
  · rw [Value.decode?_eq]
    exact Value.decodeBy?_encode hkept.readable hnesting
  · intro σ τ l cache key ids s hcache htext
    exact Listing.cachedOrder_cacheOrder hcache htext

/-- A leap second in a year of five digits. -/
def lateLeapSecond : Instant :=
  ⟨⟨12345, 6, 30, by decide⟩, 86399, 1500000000, by decide, by decide, by decide⟩

/-- Values that look alike, and lists in lists. -/
def lookalikes : Value :=
  .list [.int 1, .decimal (.ofInt 1), .text "1", .instant lateLeapSecond,
    .text (String.ofList lateLeapSecond.printZulu), .list [], .list [.list [.null], .bool true]]

/-- The same with a decimal that is no number, two lists deep. -/
def withNaN : Value := .list [.list [lookalikes, .decimal .nan]]

/-- A listing with a cache in memory. -/
def rememberingOrders : Listing MemoryCache Unit where
  engine := { catalog := {}, digest := id }
  backend := {
    count := fun _ _ => .ok 0
    fetch := fun _ _ _ _ t => (.ok [], t)
    fetchByIds := fun _ _ t => (.ok [], t)
    bound := fun _ _ => 0 }
  sortCache := some MemoryCache.cache

/-- The text of the decimal is the decimal's. -/
theorem isKept_lookalikes : lookalikes.IsKept := by
  refine ⟨trivial, fun _ => ?_, trivial, trivial, trivial, trivial, ⟨⟨trivial, trivial⟩, trivial, trivial⟩,
    trivial⟩
  have htext : (Binary64.ofInt 1).printJson = ['1', '.', '0'] := by decide +kernel
  have hdigits : Binary64.ofDigits false 10 (-1) = .ofInt 1 := by decide +kernel
  rw [htext, ← hdigits]
  rfl

/-- Values that look alike are read back each as itself, a decimal that is no number is not, and an order is
found again. -/
theorem codec_exact_lookalikes :
    Value.decode? lookalikes.encode = some lookalikes ∧ Value.decode? withNaN.encode = none ∧
      (rememberingOrders.cachedOrder "k" (rememberingOrders.cacheOrder "k" [.int 1, .text "1"]
        ⟨{ cache := .empty 1 }, ()⟩)).1 = some [.int 1, .text "1"] := by
  obtain ⟨hvalues, -, horders⟩ := codec_exact
  have hone : (Binary64.ofInt 1).isFinite = true := by decide +kernel
  have hfinite : lookalikes.IsFinite :=
    ⟨trivial, hone, trivial, trivial, trivial, trivial, ⟨⟨trivial, trivial⟩, trivial, trivial⟩, trivial⟩
  have hnan : ¬ Binary64.nan.isFinite = true := by decide +kernel
  have hinfinite : ¬ withNaN.IsFinite := fun h => hnan h.1.2.1
  have hkept : withNaN.IsKept := ⟨⟨isKept_lookalikes, fun h => absurd h hnan, trivial⟩, trivial⟩
  have hnesting : lookalikes.tagged.nesting ≤ Json.maxDepth := by decide +kernel
  have hnesting' : withNaN.tagged.nesting ≤ Json.maxDepth := by decide +kernel
  refine ⟨((hvalues lookalikes hnesting).2 isKept_lookalikes).1 hfinite,
    ((hvalues withNaN hnesting').2 hkept).2 hinfinite, ?_⟩
  · exact horders _ _ _ _ _ rfl (MemoryCache.get_cacheOrder rfl (by decide) _ _ _)

end FieldQuery
