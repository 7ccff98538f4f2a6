import FieldQuery.Proofs.Data.KeyMap
import FieldQuery.Proofs.Json.Invariant
import FieldQuery.Proofs.Json.WellFormed

/-!
# Every tree that is parsed is well-formed

The reader of numbers takes whole numbers that fit a word only, a number beyond all bounds has no value, and
of fields with one key the last remains.

* `Written.Fits` — the whole numbers in what is written fit a word;
* `Machine.Fits` — so do those in what the reader has taken so far.

Principal result: `wellFormed_parse`.
-/

namespace FieldQuery

namespace Json

open Text

/-! ## Numbers -/

/-- The digits that are kept fit a word. -/
theorem keepDigits_le {n : Nat} (hn : n ≤ wordMax) (cs : List Char) :
    (Binary64.keepDigits n cs).1 ≤ wordMax := by
  induction cs generalizing n with
  | nil => exact hn
  | cons c cs ih =>
    unfold Binary64.keepDigits
    split
    · rename_i hfits
      exact ih hfits
    · exact hn

namespace Written

mutual

/-- The whole numbers in what is written fit a word. -/
def Fits : Written → Prop
  | .int n => minInt ≤ n ∧ n ≤ wordMax
  | .array items => ItemsFit items
  | .object fields => FieldsFit fields
  | .null => True
  | .bool _ => True
  | .float _ => True
  | .text _ => True

/-- `Fits` for every item. -/
def ItemsFit : List Written → Prop
  | [] => True
  | w :: ws => Fits w ∧ ItemsFit ws

/-- `Fits` for every field. -/
def FieldsFit : List (Option String × Written) → Prop
  | [] => True
  | (_, w) :: rest => Fits w ∧ FieldsFit rest

end

theorem itemsFit_iff {ws : List Written} : ItemsFit ws ↔ ∀ w ∈ ws, Fits w := by
  induction ws with
  | nil => simp [ItemsFit]
  | cons w ws ih =>
    rw [List.forall_mem_cons, ← ih]
    rfl

theorem fieldsFit_iff {fs : List (Option String × Written)} : FieldsFit fs ↔ ∀ f ∈ fs, Fits f.2 := by
  induction fs with
  | nil => simp [FieldsFit]
  | cons f fs ih =>
    rw [List.forall_mem_cons, ← ih]
    rfl

end Written

/-- The number of a text fits a word if it is whole. -/
theorem fits_readMagnitude {negative : Bool} {cs : List Char} {w : Written}
    (h : readMagnitude negative cs = some w) : w.Fits := by
  have hkept := keepDigits_le (Nat.zero_le wordMax) (cs.takeWhile isDigit)
  unfold readMagnitude at h
  dsimp only at h
  split at h
  · cases h
  split at h
  · split at h
    · cases h
      trivial
    split at h
    · cases h
      refine ⟨?_, Int.ofNat_le.2 hkept⟩
      unfold minInt
      omega
    split at h
    · rename_i hneg
      cases h
      refine ⟨hneg.2, ?_⟩
      unfold wordMax
      omega
    · cases h
      trivial
  · split at h
    · cases h
    · obtain ⟨e, -, rfl⟩ := Option.map_eq_some_iff.1 h
      trivial
  · obtain ⟨e, -, rfl⟩ := Option.map_eq_some_iff.1 h
    trivial

theorem fits_readWord {cs : List Char} {w : Written} (h : readWord cs = some w) : w.Fits := by
  unfold readWord at h
  split at h
  · cases h
    trivial
  split at h
  · cases h
    trivial
  split at h
  · cases h
    trivial
  · unfold readNumber at h
    split at h <;> exact fits_readMagnitude h

/-! ## Texts -/

/-- The whole numbers in an open container fit a word. -/
def Frame.Fits : Frame → Prop
  | .items done => Written.ItemsFit done
  | .fields done _ => Written.FieldsFit done

/-- The whole numbers in what the reader has taken fit a word. -/
def Machine.Fits : Machine → Prop
  | .value stack => ∀ f ∈ stack, f.Fits
  | .firstItem stack => ∀ f ∈ stack, f.Fits
  | .firstKey stack => ∀ f ∈ stack, f.Fits
  | .key stack done => (∀ f ∈ stack, f.Fits) ∧ Written.FieldsFit done
  | .colon stack done _ => (∀ f ∈ stack, f.Fits) ∧ Written.FieldsFit done
  | .after stack w => (∀ f ∈ stack, f.Fits) ∧ w.Fits

theorem fits_startValue {stack : List Frame} {t : Token} {m : Machine} (hstack : ∀ f ∈ stack, f.Fits)
    (ht : ∀ w, t = .scalar w → w.Fits) (h : Machine.startValue stack t = some m) : m.Fits := by
  cases t with
  | scalar w =>
    cases h
    exact ⟨hstack, ht w rfl⟩
  | openArray | openObject =>
    cases h
    exact hstack
  | closeArray | closeObject | comma | colon => cases h

/-- Tokens keep whole numbers in their bounds. -/
theorem kept_fits : Kept Machine.Fits Written.Fits where
  text s := trivial
  feed {m m' t} hm ht h := by
    unfold Machine.feed at h
    split at h
    · exact fits_startValue hm ht h
    · cases h
      exact ⟨hm, trivial⟩
    · have hnew : (Frame.items []).Fits := trivial
      exact fits_startValue (List.forall_mem_cons.2 ⟨hnew, hm⟩) ht h
    · cases h
      exact ⟨hm, trivial⟩
    · cases h
      exact ⟨hm, trivial⟩
    · cases h
      exact hm
    · cases h
      exact List.forall_mem_cons.2 ⟨hm.2, hm.1⟩
    · cases h
      obtain ⟨hframe, hstack⟩ := List.forall_mem_cons.1 hm.1
      exact List.forall_mem_cons.2 ⟨⟨hm.2, hframe⟩, hstack⟩
    · cases h
      obtain ⟨hframe, hstack⟩ := List.forall_mem_cons.1 hm.1
      refine ⟨hstack, Written.itemsFit_iff.2 fun w hw => ?_⟩
      rcases List.mem_cons.1 (List.mem_reverse.1 hw) with rfl | hw
      · exact hm.2
      · exact Written.itemsFit_iff.1 hframe w hw
    · cases h
      obtain ⟨hframe, hstack⟩ := List.forall_mem_cons.1 hm.1
      exact ⟨hstack, hm.2, hframe⟩
    · cases h
      obtain ⟨hframe, hstack⟩ := List.forall_mem_cons.1 hm.1
      refine ⟨hstack, Written.fieldsFit_iff.2 fun f hf => ?_⟩
      rcases List.mem_cons.1 (List.mem_reverse.1 hf) with rfl | hf
      · exact hm.2
      · exact Written.fieldsFit_iff.1 hframe f hf
    · cases h

/-- Whole numbers in a text fit a word. -/
theorem fits_read {text : String} {w : Written} (h : Written.read text = some w) : w.Fits := by
  obtain ⟨r, hrun, hresult⟩ := Option.bind_eq_some_iff.1 h
  have hinitial : Reader.initial.machine.Fits := fun f hf => absurd hf List.not_mem_nil
  obtain ⟨m, hm, hw⟩ := kept_fits.result fits_readWord
    (kept_fits.run fits_readWord hinitial hrun) hresult
  unfold Machine.result at hw
  split at hw
  · cases hw
    exact hm.2
  · cases hw

/-! ## Values -/

mutual

/-- The normal form of the value is well-formed. -/
theorem wellFormed_normal {room : Nat} {w : Written} {j : Json} (hw : w.Fits)
    (h : w.value? room = some j) : j.normal.WellFormed := by
  match room, w with
  | _, .null | _, .bool _ =>
    rw [Written.value?] at h
    cases h
    trivial
  | _, .int n =>
    rw [Written.value?] at h
    cases h
    exact hw
  | _, .float x =>
    rw [Written.value?] at h
    split at h
    · rename_i hfinite
      cases h
      exact hfinite
    · cases h
  | _, .text s =>
    rw [Written.value?] at h
    obtain ⟨s, -, rfl⟩ := Option.map_eq_some_iff.1 h
    trivial
  | 0, .array _ | 0, .object _ =>
    rw [Written.value?] at h
    cases h
  | room + 1, .array items =>
    rw [Written.value?] at h
    obtain ⟨js, hjs, rfl⟩ := Option.map_eq_some_iff.1 h
    exact itemsWellFormed_normal hw hjs
  | room + 1, .object fields =>
    rw [Written.value?] at h
    obtain ⟨fs, hfs, rfl⟩ := Option.map_eq_some_iff.1 h
    have hfields := fieldsWellFormed_normal hw hfs
    refine ⟨(KeyMap.sorted_ofPairs _).nodup_keys, ?_⟩
    exact fieldsWellFormed_iff.2 fun f hf => fieldsWellFormed_iff.1 hfields f (KeyMap.mem_ofPairs hf)

theorem itemsWellFormed_normal {room : Nat} {ws : List Written} {js : List Json}
    (hws : Written.ItemsFit ws) (h : Written.values? room ws = some js) :
    ItemsWellFormed (normalItems js) := by
  match ws with
  | [] =>
    rw [Written.values?] at h
    cases h
    trivial
  | w :: ws =>
    rw [Written.values?] at h
    split at h
    · rename_i j js hj hjs
      cases h
      exact ⟨wellFormed_normal hws.1 hj, itemsWellFormed_normal hws.2 hjs⟩
    · cases h

theorem fieldsWellFormed_normal {room : Nat} {fields : List (Option String × Written)}
    {fs : List (String × Json)} (hfields : Written.FieldsFit fields)
    (h : Written.fieldValues? room fields = some fs) : FieldsWellFormed (normalFields fs) := by
  match fields with
  | [] =>
    rw [Written.fieldValues?] at h
    cases h
    trivial
  | (k, w) :: rest =>
    unfold Written.fieldValues? at h
    split at h
    · rename_i k j fs hj hfs
      cases h
      exact ⟨wellFormed_normal hfields.1 hj, fieldsWellFormed_normal hfields.2 hfs⟩
    · cases h

end

/-- **Every tree that is parsed is well-formed.** -/
theorem wellFormed_parse {text : String} {j : Json} (h : parse text = some j) : j.WellFormed := by
  obtain ⟨j', hread, rfl⟩ := Option.map_eq_some_iff.1 h
  obtain ⟨w, hw, hvalue⟩ := Option.bind_eq_some_iff.1 hread
  exact wellFormed_normal (fits_read hw) hvalue

end Json

end FieldQuery
