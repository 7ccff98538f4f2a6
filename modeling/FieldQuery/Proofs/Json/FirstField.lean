import FieldQuery.Proofs.Json.Invariant
import FieldQuery.Proofs.Json.RoundTrip

/-!
# The first field stays

What the reader has taken it does not take back.  Once the first field of the outermost object has been
read, every text that goes on from there writes an object with that field first, whatever its numbers are
read as.

* `Opened` — among what is open, the outermost container is an object, and a field is its first;
* `Begun` — the same of a whole state between two tokens, up to the end of the object.

Principal results: `Begun.feed` — a token keeps this, and so does a text, and `first_of_readBy` — a text that
begins with a field of an object writes an object that begins with that field.
-/

namespace FieldQuery.Json

variable {word : List Char → Option Written} {f : Option String × Written}

/-- The outermost of the open containers is an object, and it holds a first field. -/
def Opened (f : Option String × Written) : List Frame → Prop
  | [] => False
  | .items _ :: stack => Opened f stack
  | .fields done _ :: stack => stack = [] ∧ done.getLast? = some f ∨ Opened f stack

/-- The outermost object has a first field. -/
def Begun (f : Option String × Written) : Machine → Prop
  | .value stack => Opened f stack
  | .firstItem stack => Opened f stack
  | .firstKey stack => Opened f stack
  | .key stack done => Opened f (.fields done none :: stack)
  | .colon stack done _ => Opened f (.fields done none :: stack)
  | .after [] w => ∃ rest, w = .object (f :: rest)
  | .after (.items _ :: stack) _ => Opened f stack
  | .after (.fields done key :: stack) w => Opened f (.fields ((key, w) :: done) none :: stack)

/-! ## Tokens -/

/-- A value inside of what is open is complete. -/
theorem begun_after {stack : List Frame} (h : Opened f stack) (w : Written) :
    Begun f (.after stack w) := by
  match stack with
  | [] => exact h.elim
  | .items done :: stack => exact h
  | .fields done key :: stack =>
    refine h.imp_left fun ⟨hstack, hlast⟩ => ⟨hstack, ?_⟩
    rw [List.getLast?_cons, hlast]
    rfl

/-- An object is complete. -/
theorem begun_object {done : List (Option String × Written)} {stack : List Frame}
    (h : Opened f (.fields done none :: stack)) : Begun f (.after stack (.object done.reverse)) := by
  rcases h with ⟨rfl, hlast⟩ | h
  · obtain ⟨rest, hrest⟩ := List.head?_eq_some_iff.1 (List.head?_reverse.trans hlast)
    exact ⟨rest, by rw [hrest]⟩
  · exact begun_after h _

theorem begun_startValue {stack : List Frame} {t : Token} {m : Machine} (h : Opened f stack)
    (hstart : Machine.startValue stack t = some m) : Begun f m := by
  cases t with
  | scalar w =>
    cases hstart
    exact begun_after h w
  | openArray | openObject =>
    cases hstart
    exact h
  | closeArray | closeObject | comma | colon => cases hstart

/-- **A token leaves the first field where it is.** -/
theorem Begun.feed {m m' : Machine} {t : Token} (h : Begun f m) (hfeed : m.feed t = some m') :
    Begun f m' := by
  unfold Machine.feed at hfeed
  split at hfeed
  · exact begun_startValue h hfeed
  · cases hfeed
    exact begun_after h _
  · exact @begun_startValue _ (.items [] :: _) _ _ h hfeed
  · cases hfeed
    exact begun_after h _
  · cases hfeed
    exact .inr h
  · cases hfeed
    exact h
  · cases hfeed
    exact h
  · cases hfeed
    exact h
  · cases hfeed
    exact begun_after h _
  · cases hfeed
    exact h
  · cases hfeed
    exact begun_object h
  · cases hfeed

/-! ## Texts -/

/-- Every token leaves the first field where it is, whatever scalars there are. -/
theorem kept_begun : Kept (Begun f) fun _ => True where
  feed hm _ hfeed := hm.feed hfeed
  text _ := trivial

theorem Begun.of_result {m : Machine} {w : Written} (h : Begun f m) (hw : m.result = some w) :
    ∃ rest, w = .object (f :: rest) := by
  unfold Machine.result at hw
  split at hw
  · cases hw
    exact h
  · cases hw

/-- **The first field of an object is read first**, if it is a text, and whatever is made of the words and
numbers in the fields after it. -/
theorem first_of_readBy {k s : String} {fields : List (String × Json)} {w : Written}
    (h : Written.readBy word (Json.compact (.object ((k, .text s) :: fields))) = some w) :
    ∃ rest, w = .object ((some k, .text (some s)) :: rest) := by
  obtain ⟨tail, htail⟩ : ∃ tail, write (.object ((k, .text s) :: fields)) =
      '\x7b' :: (quote k ++ ':' :: (quote s ++ tail)) := by
    cases fields with
    | nil => exact ⟨['\x7d'], by simp [write, writeFields]⟩
    | cons g rest => exact ⟨_, by simp [write, writeFields]; rfl⟩
  -- the state after the text of the first field
  have hkey : (⟨.between, .firstKey []⟩ : Reader).run word (quote k) =
      some ⟨.between, .colon [] [] (some k)⟩ := run_quote rfl
  have htext : (⟨.between, .value [.fields [] (some k)]⟩ : Reader).run word (quote s) =
      some ⟨.between, .after [.fields [] (some k)] (.text (some s))⟩ := run_quote rfl
  have hopen : Reader.initial.step word '\x7b' = some ⟨.between, .firstKey []⟩ := rfl
  have hcolon : (⟨.between, .colon [] [] (some k)⟩ : Reader).step word ':' =
      some ⟨.between, .value [.fields [] (some k)]⟩ := rfl
  have hbegun : Begun (some k, .text (some s))
      (.after [.fields [] (some k)] (.text (some s))) := .inl ⟨rfl, rfl⟩
  unfold Written.readBy compact at h
  rw [String.toList_ofList, htail, Reader.run, hopen] at h
  dsimp only at h
  rw [Reader.run_append, hkey, Option.bind_some, Reader.run, hcolon] at h
  dsimp only at h
  rw [Reader.run_append, htext, Option.bind_some] at h
  obtain ⟨r, hrun, hresult⟩ := Option.bind_eq_some_iff.1 h
  have hword : ∀ {cs : List Char} {w : Written}, word cs = some w → True := fun _ => trivial
  obtain ⟨m, hm, hw⟩ := kept_begun.result hword (kept_begun.run hword hbegun hrun) hresult
  exact hm.of_result hw

end FieldQuery.Json
