import FieldQuery.Proofs.Text.Percent
import FieldQuery.Proofs.Text.Pieces
import FieldQuery.Request.Params

/-!
# Query strings are read back

A name or a value is percent-encoded before it is put into a query string, and an encoded text holds
none of the characters that a query string is cut at. So the parts of a query string are the parts
that were put together, and each of them is the pair that was written.

* `Params.insertAll` — parameters set one after the other;
* `Params.Distinct` — no name twice; `Params.Built` — what can be made by setting parameters and by
  reading query strings, and has each name once;
* `parsePart_partText` — one parameter is read back from its part.

Principal result: `Params.parseQuery_queryText` — parameters are read back from their query string,
with what replaces or joins them set one after the other.
-/

namespace FieldQuery

open Text

namespace Params

/-- Sets parameters one after the other. -/
def insertAll (pairs : List (String × String)) (p : Params) : Params :=
  pairs.foldl (fun q pair => q.insert pair.1 pair.2) p

/-- No parameter stands there twice. -/
def Distinct (p : Params) : Prop := (p.pairs.map (·.1)).Nodup

instance (p : Params) : Decidable p.Distinct := inferInstanceAs (Decidable (List.Nodup _))

/-- Parameters that are set one by one, or read from a query string. -/
inductive Built : Params → Prop where
  | empty : Built {}
  | insert (k v : String) {p : Params} (h : Built p) : Built (p.insert k v)
  | parsed (query : String) : Built (parseQuery query)

/-! ## Distinct names -/

theorem Distinct.insert {p : Params} (h : p.Distinct) (k v : String) : (p.insert k v).Distinct :=
  Assoc.nodup_keys_set h v

theorem Distinct.insertAll (pairs : List (String × String)) {p : Params} (h : p.Distinct) :
    (p.insertAll pairs).Distinct := by
  induction pairs generalizing p with
  | nil => exact h
  | cons pair pairs ih => exact ih (h.insert pair.1 pair.2)

theorem distinct_empty : ({} : Params).Distinct := List.nodup_nil

theorem Built.distinct {p : Params} (h : p.Built) : p.Distinct := by
  induction h with
  | empty => exact distinct_empty
  | insert k v _ ih => exact ih.insert k v
  | parsed query => exact distinct_empty.insertAll _

/-- New parameters with distinct names come last, in their order. -/
theorem insertAll_of_new {pairs : List (String × String)} {p : Params}
    (h : ((p.pairs ++ pairs).map (·.1)).Nodup) : p.insertAll pairs = ⟨p.pairs ++ pairs⟩ := by
  induction pairs generalizing p with
  | nil => simp [insertAll]
  | cons pair pairs ih =>
    have hnew : pair.1 ∉ p.pairs.map (·.1) := by
      rw [List.map_append, List.map_cons, List.nodup_append] at h
      intro hmem
      exact h.2.2 _ hmem _ List.mem_cons_self rfl
    have hset : p.insert pair.1 pair.2 = ⟨p.pairs ++ [pair]⟩ :=
      congrArg Params.mk (Assoc.set_of_not_mem hnew pair.2)
    have hrest : p.insertAll (pair :: pairs) = (⟨p.pairs ++ [pair]⟩ : Params).insertAll pairs := by
      rw [← hset]
      rfl
    rw [hrest, ih (by simpa using h)]
    simp

/-- Setting distinct parameters one after the other makes the parameters. -/
theorem Distinct.ofPairs_pairs {p : Params} (h : p.Distinct) : ofPairs p.pairs = p :=
  insertAll_of_new (p := {}) h

/-! ## One parameter -/

theorem decodePart_encode (cs : List Char) : decodePart (Percent.encode cs) = String.ofList cs := by
  -- a plus is written as a triple, so there is none that would be read as a blank
  have hspaced : (Percent.encode cs).map (fun c => if c = '+' then ' ' else c) =
      Percent.encode cs := by
    refine (List.map_congr_left fun c hc => if_neg ?_).trans (List.map_id' _)
    rintro rfl
    exact Percent.notMem_encode (by decide) cs hc
  unfold decodePart
  dsimp only
  rw [hspaced, Percent.decode_encode, Option.getD_some]

/-- **One parameter is read back from its part.** -/
theorem parsePart_partText (pair : String × String) : parsePart (partText pair) = pair := by
  have hcut := cutAt_append (Percent.notMem_encode (show ¬ Percent.IsWritten '=' by decide)
    pair.1.toList) (Percent.encode pair.2.toList)
  unfold parsePart partText
  rw [hcut]
  simp [decodePart_encode]

theorem mem_partText {pair : String × String} {c : Char} (hc : c ∈ partText pair) :
    Percent.IsWritten c ∨ c = '=' := by
  rcases List.mem_append.1 hc with hc | hc
  · exact .inl (Percent.isWritten_encode c hc)
  · rcases List.mem_cons.1 hc with rfl | hc
    · exact .inr rfl
    · exact .inl (Percent.isWritten_encode c hc)

theorem partText_ne_nil (pair : String × String) : partText pair ≠ [] :=
  List.append_ne_nil_of_right_ne_nil _ (List.cons_ne_nil _ _)

/-! ## The query string -/

/-- What a query string is cut into: the parts that were put together, and none that is empty. -/
theorem pieces_parts (pairs : List (String × String)) :
    (pieces '&' (joinPieces ['&'] (pairs.map partText))).filter (!·.isEmpty) =
      pairs.map partText := by
  cases pairs with
  | nil => rfl
  | cons pair pairs =>
    rw [pieces_joinPieces (by simp)]
    · refine List.filter_eq_self.2 fun part hpart => ?_
      obtain ⟨q, -, rfl⟩ := List.mem_map.1 hpart
      simp [partText_ne_nil]
    · intro part hpart
      obtain ⟨q, -, rfl⟩ := List.mem_map.1 hpart
      intro hc
      exact absurd (mem_partText hc) (by decide)

/-- A query string does not begin with a question mark. -/
theorem dropWhile_queryText (pairs : List (String × String)) :
    (joinPieces ['&'] (pairs.map partText)).dropWhile (· == '?') =
      joinPieces ['&'] (pairs.map partText) := by
  cases pairs with
  | nil => rfl
  | cons pair pairs =>
    obtain ⟨c, cs, hcs⟩ := List.exists_cons_of_ne_nil (partText_ne_nil pair)
    have hmark : '?' ∉ partText pair := fun hmem => absurd (mem_partText hmem) (by decide)
    have hc : (c == '?') = false := by
      rw [beq_eq_false_iff_ne]
      rintro rfl
      exact hmark (hcs ▸ List.mem_cons_self)
    cases pairs with
    | nil => simp [joinPieces, hcs, hc]
    | cons q pairs => simp [joinPieces, hcs, hc]

theorem parseQuery_queryText_nil {p : Params} (h : p.Distinct) :
    parseQuery (p.queryText []) = p := by
  unfold parseQuery queryText
  simp only [List.foldl_nil, String.toList_ofList]
  rw [dropWhile_queryText, pieces_parts, List.map_map]
  have hparts : p.pairs.map (parsePart ∘ partText) = p.pairs := by
    refine (List.map_congr_left fun pair _ => ?_).trans (List.map_id' _)
    exact parsePart_partText pair
  rw [hparts, h.ofPairs_pairs]

theorem pairs_insertAll (pairs : List (String × String)) (p : Params) :
    (p.insertAll pairs).pairs = pairs.foldl (fun ps pair => Assoc.set pair.1 pair.2 ps) p.pairs := by
  induction pairs generalizing p with
  | nil => rfl
  | cons pair pairs ih => exact ih (p.insert pair.1 pair.2)

/-- The query string of parameters that are replaced or added is that of the changed parameters. -/
theorem queryText_insertAll (pairs : List (String × String)) (p : Params) :
    p.queryText pairs = (p.insertAll pairs).queryText [] := by
  unfold queryText
  rw [pairs_insertAll]
  rfl

/-- **Parameters are read back from their query string.** Each name stands there once, and what
replaces or joins the parameters is set one after the other. -/
theorem parseQuery_queryText {p : Params} (h : p.Built) (overrides : List (String × String)) :
    p.Distinct ∧ parseQuery (p.queryText overrides) = p.insertAll overrides := by
  refine ⟨h.distinct, ?_⟩
  rw [queryText_insertAll]
  exact parseQuery_queryText_nil (h.distinct.insertAll overrides)

/-- Names and values with the characters of a query string in them, an empty name and an empty value,
and a name that is replaced twice. -/
theorem parseQuery_queryText_reserved :
    parseQuery (((parseQuery "?é=a+b&=&é=%C3%A9").insert "a&b=" "?%+").queryText
        [("", "é"), ("new", ""), ("", "&")]) =
      ⟨[("é", "é"), ("", "&"), ("a&b=", "?%+"), ("new", "")]⟩ :=
  (parseQuery_queryText (.insert _ _ (.parsed _)) _).2.trans (by decide)

end Params

end FieldQuery
