import FieldQuery.Json.Reader

/-!
# What the reader keeps

Between two tokens the reader is in a state of its machine.  What every token keeps of this state is kept by
every text, whatever its words and numbers are read as.

* `Kept P Q` — tokens keep `P`, as long as what is read of words and texts has `Q`.

Principal results: `Kept.run` — texts keep it, and `Kept.result` — so it holds of the state in which a text
ends.
-/

namespace FieldQuery.Json

/-- Tokens keep a property of the machine if all scalars among them have another property. -/
structure Kept (P : Machine → Prop) (Q : Written → Prop) : Prop where
  feed : ∀ {m m' t}, P m → (∀ w, t = .scalar w → Q w) → m.feed t = some m' → P m'
  text : ∀ s, Q (.text s)

/-- A punctuation mark is no scalar. -/
theorem mark?_ne_scalar (c : Char) (w : Written) : mark? c ≠ some (.scalar w) := by
  unfold mark?
  repeat (split; · exact nofun)
  exact nofun

namespace Kept

variable {P : Machine → Prop} {Q : Written → Prop} {word : List Char → Option Written}

/-- A scalar keeps what tokens keep. -/
theorem feed_scalar (h : Kept P Q) {m m' : Machine} {w : Written} (hm : P m) (hw : Q w)
    (hfeed : m.feed (.scalar w) = some m') : P m' :=
  h.feed hm (fun _ heq => Token.scalar.inj heq ▸ hw) hfeed

theorem start (h : Kept P Q) {m : Machine} {c : Char} {r : Reader} (hm : P m)
    (hstart : Reader.start m c = some r) : P r.machine := by
  unfold Reader.start at hstart
  split at hstart
  · cases hstart
    exact hm
  split at hstart
  · cases hstart
    exact hm
  split at hstart
  · rename_i t hmark
    obtain ⟨m', hfeed, rfl⟩ := Option.map_eq_some_iff.1 hstart
    exact h.feed hm (fun w hw => absurd (hw ▸ hmark) (mark?_ne_scalar c w)) hfeed
  · cases hstart
    exact hm

theorem step (h : Kept P Q) (hword : ∀ {cs w}, word cs = some w → Q w) {r r' : Reader} {c : Char}
    (hr : P r.machine) (hstep : r.step word c = some r') : P r'.machine := by
  unfold Reader.step at hstep
  split at hstep
  · exact h.start hr hstep
  · split at hstep
    · obtain ⟨w, hw, hstep⟩ := Option.bind_eq_some_iff.1 hstep
      obtain ⟨m, hfeed, hstart⟩ := Option.bind_eq_some_iff.1 hstep
      exact h.start (h.feed_scalar hr (hword hw) hfeed) hstart
    · cases hstep
      exact hr
  · split at hstep
    · obtain ⟨m, hfeed, rfl⟩ := Option.map_eq_some_iff.1 hstep
      exact h.feed_scalar hr (h.text _) hfeed
    split at hstep
    · cases hstep
      exact hr
    split at hstep
    · cases hstep
    · cases hstep
      exact hr
  · split at hstep
    · cases hstep
      exact hr
    · obtain ⟨c', -, rfl⟩ := Option.map_eq_some_iff.1 hstep
      exact hr
  · obtain ⟨d, -, rfl⟩ := Option.map_eq_some_iff.1 hstep
    split <;> exact hr

/-- **What tokens keep is kept by texts.** -/
theorem run (h : Kept P Q) (hword : ∀ {cs w}, word cs = some w → Q w) {cs : List Char} :
    ∀ {r r' : Reader}, P r.machine → r.run word cs = some r' → P r'.machine := by
  induction cs with
  | nil =>
    rintro r r' hr ⟨⟩
    exact hr
  | cons c cs ih =>
    intro r r' hr hrun
    unfold Reader.run at hrun
    split at hrun
    · rename_i r₁ hstep
      exact ih (h.step hword hr hstep) hrun
    · cases hrun

/-- **What is read is the result of a state in which this has been kept.** -/
theorem result (h : Kept P Q) (hword : ∀ {cs w}, word cs = some w → Q w) {r : Reader} {w : Written}
    (hr : P r.machine) (hw : r.result word = some w) : ∃ m, P m ∧ m.result = some w := by
  unfold Reader.result at hw
  split at hw
  · exact ⟨_, hr, hw⟩
  · obtain ⟨w', hw', hw⟩ := Option.bind_eq_some_iff.1 hw
    obtain ⟨m, hfeed, hresult⟩ := Option.bind_eq_some_iff.1 hw
    exact ⟨m, h.feed_scalar hr (hword hw') hfeed, hresult⟩
  · cases hw

end Kept

end FieldQuery.Json
