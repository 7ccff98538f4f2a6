import FieldQuery.Proofs.Number.ReadBack
import FieldQuery.Time.Reading

/-!
# Printed instants are read back

* `readNumber_digits`, `readSmall_padded`, `readFixed_padded`, `readYear_yearText`,
  `read_fractionText` — one element of an instant's text is read, whatever follows it;
* `readItems_date`, `readItems_clock` — so are the day and the clock.

Principal results: `readRelaxed?_printZulu` — an instant is read back from its text, so that different
instants have different texts; `readStrict?_print` — in a year of four digits this is so in the strict
form too.
-/

namespace FieldQuery

open Text

/-! ## Numerals of a fixed width -/

theorem length_natNumeral_le {n width : Nat} (hpos : 0 < width) (h : n < 10 ^ width) :
    (natNumeral n).length ≤ width := by
  induction width generalizing n with
  | zero => omega
  | succ width ih =>
    rw [natNumeral]
    split
    · simp
    · rename_i hlarge
      have hwidth : 0 < width := by
        rcases Nat.eq_zero_or_pos width with rfl | hwidth
        · omega
        · exact hwidth
      have hrest : n / 10 < 10 ^ width := by
        rw [Nat.pow_succ] at h
        omega
      have := ih hwidth hrest
      simp
      omega

namespace Instant

theorem all_isDigit_padded (width n : Nat) : (padded width n).all isDigit = true := by
  unfold padded
  rw [List.all_append, all_isDigit_natNumeral, Bool.and_true]
  exact Binary64.isDigit_zeros _

theorem foldDigits_padded (width n : Nat) : foldDigits 0 (padded width n) = n := by
  unfold padded
  dsimp only
  have hzeros := Binary64.foldDigits_zeros 0 (width - (natNumeral n).length)
  unfold zeros at hzeros
  rw [Binary64.foldDigits_append, hzeros, Nat.zero_mul, foldDigits_natNumeral]

theorem le_length_padded (width n : Nat) : width ≤ (padded width n).length := by
  unfold padded
  simp
  omega

theorem length_padded {width n : Nat} (hpos : 0 < width) (h : n < 10 ^ width) :
    (padded width n).length = width := by
  have := length_natNumeral_le hpos h
  unfold padded
  simp
  omega

theorem padded_eq_cons {width : Nat} (hpos : 0 < width) (n : Nat) :
    ∃ c cs, padded width n = c :: cs ∧ isDigit c = true := by
  have hdigits := all_isDigit_padded width n
  have hlength := le_length_padded width n
  cases hpadded : padded width n with
  | nil =>
    rw [hpadded] at hlength
    simp at hlength
    omega
  | cons c cs =>
    rw [hpadded] at hdigits
    simp only [List.all_cons, Bool.and_eq_true] at hdigits
    exact ⟨c, cs, rfl, hdigits.1⟩

end Instant

namespace Time

open Instant Binary64

/-- A digit is no blank. -/
theorem isBlank_of_isDigit {c : Char} (h : isDigit c = true) : isBlank c = false := by
  have := toNat_of_isDigit h
  unfold isBlank
  simp
  omega

theorem trimStart_padded {width : Nat} (hpos : 0 < width) (n : Nat) (rest : List Char) :
    trimStart (padded width n ++ rest) = padded width n ++ rest := by
  obtain ⟨c, cs, hcs, hc⟩ := padded_eq_cons hpos n
  rw [hcs]
  exact trimStart_of_head (isBlank_of_isDigit hc)

/-- A row of digits is read as a number. -/
theorem readNumber_digits {least most : Nat} {ds rest : List Char} (hds : ds.all isDigit = true)
    (hleast : least ≤ ds.length) (hmost : ds.length ≤ most) (hrest : NoDigit rest) :
    readNumber least most (ds ++ rest) = some (foldDigits 0 ds, rest) := by
  unfold readNumber
  rw [(takeWhile_digits hds hrest).1, List.take_of_length_le hmost, if_neg (by omega),
    List.drop_left]

theorem readSmall_padded {least most n : Nat} {rest : List Char} (hrest : NoDigit rest)
    (hleast : least ≤ n) (hmost : n ≤ most) (hlt : n < 100) :
    readSmall least most (padded 2 n ++ rest) = some (n, rest) := by
  have hlength : (padded 2 n).length = 2 := length_padded (by decide) hlt
  unfold readSmall
  rw [trimStart_padded (by decide), readNumber_digits (all_isDigit_padded 2 n) (by omega)
    (Nat.le_of_eq hlength) hrest, foldDigits_padded]
  simp [hleast, hmost]

/-- A number of a fixed width is read. -/
theorem readFixed_padded {width least most n : Nat} {rest : List Char} (hpos : 0 < width)
    (hrest : NoDigit rest) (hleast : least ≤ n) (hmost : n ≤ most) (hlt : n < 10 ^ width) :
    readFixed width least most (padded width n ++ rest) = some (n, rest) := by
  have hlength : (padded width n).length = width := length_padded hpos hlt
  unfold readFixed
  rw [readNumber_digits (all_isDigit_padded width n) (Nat.le_of_eq hlength.symm)
    (Nat.le_of_eq hlength) hrest, foldDigits_padded]
  simp [hleast, hmost]

theorem readYear_yearText (year : Int) {rest : List Char} (hrest : NoDigit rest) :
    readYear (yearText year ++ rest) = some (year, rest) := by
  -- a year outside four digits has a sign
  have hsigned : ∀ n : Nat, readNumber 1 (padded 4 n ++ rest).length (padded 4 n ++ rest) =
      some (n, rest) := by
    intro n
    have hleast := le_length_padded 4 n
    have hmost : (padded 4 n).length ≤ (padded 4 n ++ rest).length := by simp
    rw [readNumber_digits (all_isDigit_padded 4 n) (by omega) hmost hrest, foldDigits_padded]
  unfold yearText
  split
  · rename_i hyear
    have hlt : year.toNat < 10 ^ 4 := by omega
    have hread : readNumber 1 4 (padded 4 year.toNat ++ rest) = some (year.toNat, rest) := by
      have hlength := length_padded (by decide) hlt
      rw [readNumber_digits (all_isDigit_padded 4 _) (by omega) (Nat.le_of_eq hlength) hrest,
        foldDigits_padded]
    unfold readYear
    rw [trimStart_padded (by decide)]
    obtain ⟨c, cs, hcs, hc⟩ := padded_eq_cons (show 0 < 4 by decide) year.toNat
    rw [hcs] at hread ⊢
    split
    · rename_i heq
      cases heq
      cases hc
    · rename_i heq
      cases heq
      cases hc
    · rw [hread]
      simp
      omega
  · split
    · rename_i hneg
      have htrim : trimStart ('-' :: padded 4 year.natAbs ++ rest) =
          '-' :: (padded 4 year.natAbs ++ rest) := trimStart_of_head (by decide)
      unfold readYear
      rw [htrim]
      show (readNumber 1 (padded 4 year.natAbs ++ rest).length _).map _ = _
      rw [hsigned, Option.map_some]
      show some (-(year.natAbs : Int), rest) = _
      rw [show -(year.natAbs : Int) = year by omega]
    · rename_i hneg
      have htrim : trimStart ('+' :: padded 4 year.natAbs ++ rest) =
          '+' :: (padded 4 year.natAbs ++ rest) := trimStart_of_head (by decide)
      unfold readYear
      rw [htrim]
      show (readNumber 1 (padded 4 year.natAbs ++ rest).length _).map _ = _
      rw [hsigned, Option.map_some]
      show some ((year.natAbs : Int), rest) = _
      rw [show (year.natAbs : Int) = year by omega]

/-- The digits of a fraction are read as nanoseconds. -/
theorem readNanos_padded {width n : Nat} (hpos : 0 < width) (hwidth : width ≤ 9)
    (h : n < 10 ^ width) {rest : List Char} (hrest : NoDigit rest) :
    readNanos (padded width n ++ rest) = some (n * Nat.pow 10 (9 - width), rest) := by
  have hlength := length_padded hpos h
  obtain ⟨htake, hdrop⟩ := takeWhile_digits (all_isDigit_padded width n) hrest
  have hne : padded width n ≠ [] := by
    intro hnil
    rw [hnil] at hlength
    simp at hlength
    omega
  unfold readNanos
  rw [htake, hdrop]
  dsimp only
  rw [if_neg hne, List.take_of_length_le (by omega), foldDigits_padded, hlength]

/-- A fraction of a second is nothing, or a point and digits that stand for the nanoseconds. -/
theorem fractionText_cases {nanos : Nat} (h : nanos < 1000000000) :
    (nanos = 0 ∧ fractionText nanos = []) ∨
      ∃ width n, fractionText nanos = '.' :: padded width n ∧
        ∀ rest, NoDigit rest → readNanos (padded width n ++ rest) = some (nanos, rest) := by
  have hread : ∀ width n, 0 < width → width ≤ 9 → n < 10 ^ width →
      n * Nat.pow 10 (9 - width) = nanos →
      ∀ rest, NoDigit rest → readNanos (padded width n ++ rest) = some (nanos, rest) := by
    intro width n hpos hwidth hn hvalue rest hrest
    rw [readNanos_padded hpos hwidth hn hrest, hvalue]
  unfold fractionText
  split
  · rename_i hzero
    exact .inl ⟨hzero, rfl⟩
  · right
    split
    · exact ⟨3, _, rfl, hread 3 _ (by decide) (by decide) (by omega)
        (by show _ * 1000000 = _; omega)⟩
    · split
      · exact ⟨6, _, rfl, hread 6 _ (by decide) (by decide) (by omega)
          (by show _ * 1000 = _; omega)⟩
      · exact ⟨9, _, rfl, hread 9 _ (by decide) (by decide) (by omega)
          (by show _ * 1 = _; omega)⟩

/-- The fraction of a second is read, and nothing is read where there is none. -/
theorem read_fractionText (p : Parts) (hp : p.nanos = none) {nanos : Nat} (h : nanos < 1000000000)
    {rest : List Char} (hrest : NoDigit rest) (hpoint : rest.head? ≠ some '.') :
    ∃ found, Item.read p (fractionText nanos ++ rest) .fraction =
      some ({ p with nanos := found }, rest) ∧ found.getD 0 = nanos := by
  rcases fractionText_cases h with ⟨hzero, htext⟩ | ⟨width, n, htext, hread⟩
  · refine ⟨none, ?_, hzero.symm⟩
    have hnone : ({ p with nanos := none } : Parts) = p := by
      rw [← hp]
    rw [hnone, htext, List.nil_append]
    simp only [Item.read]
    split
    · exact absurd rfl hpoint
    · rfl
  · refine ⟨some nanos, ?_, rfl⟩
    rw [htext]
    show ((readNanos (padded width n ++ rest)).bind _) = _
    rw [hread rest hrest, Option.bind_some, hp]
    rfl

theorem readFraction_fractionText {nanos : Nat} (h : nanos < 1000000000) {rest : List Char}
    (hrest : NoDigit rest) (hpoint : rest.head? ≠ some '.') :
    readFraction (fractionText nanos ++ rest) = some (nanos, rest) := by
  rcases fractionText_cases h with ⟨hzero, htext⟩ | ⟨width, n, htext, hread⟩
  · rw [htext, List.nil_append, hzero]
    unfold readFraction
    split
    · exact absurd rfl hpoint
    · rfl
  · rw [htext]
    exact hread rest hrest

/-! ## Day and clock -/

theorem month_day_bounds (d : Date) :
    1 ≤ d.month ∧ d.month ≤ 12 ∧ 1 ≤ d.day ∧ d.day ≤ 31 := by
  have h := d.exists'
  unfold isDay at h
  simp only [Bool.and_eq_true, decide_eq_true_eq] at h
  have hdays : daysInMonth d.year d.month ≤ 31 := by
    unfold daysInMonth
    split
    · split <;> decide
    · split <;> decide
  omega

/-- The day of an instant is read. -/
theorem readItems_date (d : Date) {rest : List Char} (hrest : NoDigit rest) :
    readItems {} (yearText d.year ++ '-' :: (padded 2 d.month ++ '-' :: (padded 2 d.day ++ rest)))
      relaxedDate = some (⟨some d.year, some d.month, some d.day, none, none, none, none⟩, rest) := by
  obtain ⟨hm, hm', hd, hd'⟩ := month_day_bounds d
  have hyear := readYear_yearText d.year
    (noDigit_cons (show isDigit '-' = false by decide)
      (padded 2 d.month ++ '-' :: (padded 2 d.day ++ rest)))
  have hmonth := @readSmall_padded 1 12 d.month _
    (noDigit_cons (show isDigit '-' = false by decide) (padded 2 d.day ++ rest)) hm hm' (by omega)
  have hday := @readSmall_padded 1 31 d.day rest hrest hd hd' (by omega)
  have hblank : ∀ cs, trimStart ('-' :: cs) = '-' :: cs := fun _ => trimStart_of_head (by decide)
  simp [readItems, relaxedDate, Item.read, hyear, hmonth, hday, hblank, agree]

theorem readItems_cons {p p' : Parts} {cs rest : List Char} {i : Item} (is : List Item)
    (h : i.read p cs = some (p', rest)) : readItems p cs (i :: is) = readItems p' rest is := by
  rw [readItems, h]

/-- A mark between two numbers, and the blanks that could stand before it. -/
theorem readItems_mark (p : Parts) {c : Char} (hc : isBlank c = false) (rest : List Char)
    (is : List Item) : readItems p (c :: rest) (.blanks :: .char c :: is) = readItems p rest is := by
  have hblanks : Item.read p (c :: rest) .blanks = some (p, c :: rest) := by
    simp [Item.read, trimStart_of_head hc]
  have hchar : Item.read p (c :: rest) (.char c) = some (p, rest) := by
    simp [Item.read]
  rw [readItems_cons _ hblanks, readItems_cons _ hchar]

/-- A fraction does not begin with a digit. -/
theorem noDigit_fractionText (nanos : Nat) {rest : List Char} (hrest : NoDigit rest) :
    NoDigit (fractionText nanos ++ rest) := by
  have hpoint : isDigit '.' = false := by decide
  unfold fractionText
  split
  · exact hrest
  · split
    · exact noDigit_cons hpoint _
    · split
      · exact noDigit_cons hpoint _
      · exact noDigit_cons hpoint _

/-- The clock of an instant is read. -/
theorem readItems_clock (p : Parts) (hhour : p.hour = none) (hminute : p.minute = none)
    (hsecond : p.second = none) (hnanos : p.nanos = none) {hour minute second nanos : Nat}
    (h₁ : hour ≤ 23) (h₂ : minute ≤ 59) (h₃ : second ≤ 60) (h₄ : nanos < 1000000000) :
    ∃ found, readItems p (padded 2 hour ++ ':' :: (padded 2 minute ++ ':' ::
        (padded 2 second ++ (fractionText nanos ++ ['Z'])))) relaxedTime =
      some ({ p with
        hour := some hour, minute := some minute, second := some second, nanos := found }, ['Z']) ∧
      found.getD 0 = nanos := by
  have hcolon : ∀ cs, NoDigit (':' :: cs) := noDigit_cons (by decide)
  have hzulu : NoDigit ['Z'] := noDigit_cons (by decide) []
  have hblank : isBlank ':' = false := by decide
  obtain ⟨found, hfraction, hfound⟩ := read_fractionText
    { p with hour := some hour, minute := some minute, second := some second } hnanos h₄ hzulu
    (by simp)
  refine ⟨found, ?_, hfound⟩
  have hread₁ : ∀ cs, Item.read p (padded 2 hour ++ ':' :: cs) .hour =
      some ({ p with hour := some hour }, ':' :: cs) := by
    intro cs
    simp [Item.read, readSmall_padded (hcolon cs) (Nat.zero_le hour) h₁ (by omega), agree, hhour]
  have hread₂ : ∀ cs, Item.read { p with hour := some hour } (padded 2 minute ++ ':' :: cs) .minute =
      some ({ p with hour := some hour, minute := some minute }, ':' :: cs) := by
    intro cs
    simp [Item.read, readSmall_padded (hcolon cs) (Nat.zero_le minute) h₂ (by omega), agree, hminute]
  have hread₃ : Item.read { p with hour := some hour, minute := some minute }
      (padded 2 second ++ (fractionText nanos ++ ['Z'])) .second =
      some ({ p with hour := some hour, minute := some minute, second := some second },
        fractionText nanos ++ ['Z']) := by
    simp [Item.read, readSmall_padded (noDigit_fractionText nanos hzulu) (Nat.zero_le second) h₃
      (by omega), agree, hsecond]
  unfold relaxedTime
  rw [readItems_cons _ (hread₁ _), readItems_mark _ hblank, readItems_cons _ (hread₂ _),
    readItems_mark _ hblank, readItems_cons _ hread₃, readItems_cons _ hfraction]
  rfl

/-- The instant that the parts of an instant name. -/
theorem instant?_parts (t : Instant) {found : Option Nat}
    (hfound : found.getD 0 = t.nanos % 1000000000) :
    Parts.instant? ⟨some t.date.year, some t.date.month, some t.date.day, some (t.second / 3600),
      some (t.second / 60 % 60), some (t.second % 60 + t.nanos / 1000000000), found⟩ 0 = some t := by
  have hlt := t.second_lt
  have hnanos := t.nanos_lt
  have hleap := t.leap_last
  have hclock : Parts.clock? ⟨some t.date.year, some t.date.month, some t.date.day,
      some (t.second / 3600), some (t.second / 60 % 60),
      some (t.second % 60 + t.nanos / 1000000000), found⟩ = some (t.second, t.nanos) := by
    unfold Parts.clock?
    simp only [Option.getD_some, hfound]
    split
    · congr 2
      · omega
      · omega
    · congr 2
      · omega
      · omega
  unfold Parts.instant?
  rw [hclock]
  simp only [Parts.date?, Date.ofNumbers?_self]
  have hsecond : ¬ ((t.second : Int) - 0 < 0) := by omega
  unfold Instant.atOffset?
  dsimp only
  rw [if_neg hsecond, if_pos (by omega), Int.sub_zero, Int.toNat_natCast]
  unfold Instant.ofParts?
  rw [dif_pos hlt, dif_pos hnanos, dif_pos hleap]

/-- **An instant is read back from its text.** -/
theorem readRelaxed?_printZulu (t : Instant) : readRelaxed? t.printZulu = some t := by
  have hlt := t.second_lt
  have hnanos := t.nanos_lt
  have hdate := readItems_date t.date (noDigit_cons (show isDigit 'T' = false by decide)
    (padded 2 (t.second / 3600) ++ ':' :: (padded 2 (t.second / 60 % 60) ++ ':' ::
      (padded 2 (t.second % 60 + t.nanos / 1000000000) ++
        (fractionText (t.nanos % 1000000000) ++ ['Z'])))))
  obtain ⟨found, hclock, hfound⟩ := readItems_clock
    ⟨some t.date.year, some t.date.month, some t.date.day, none, none, none, none⟩ rfl rfl rfl rfl
    (show t.second / 3600 ≤ 23 by omega) (show t.second / 60 % 60 ≤ 59 by omega)
    (show t.second % 60 + t.nanos / 1000000000 ≤ 60 by have := t.leap_last; omega)
    (show t.nanos % 1000000000 < 1000000000 by omega)
  have htext : t.printZulu = yearText t.date.year ++ '-' :: (padded 2 t.date.month ++ '-' ::
      (padded 2 t.date.day ++ 'T' :: (padded 2 (t.second / 3600) ++ ':' ::
        (padded 2 (t.second / 60 % 60) ++ ':' :: (padded 2 (t.second % 60 + t.nanos / 1000000000) ++
          (fractionText (t.nanos % 1000000000) ++ ['Z'])))))) := by
    simp [printZulu, localText]
  have hmark : ∀ cs, readMark ('T' :: cs) = some cs := fun _ => rfl
  have hoffset : readRelaxedOffset (trimStart ['Z']) = some (0, []) := by decide
  have hinstant := instant?_parts t hfound
  unfold readRelaxed?
  rw [htext, hdate]
  simp only [Option.bind_eq_bind, Option.bind_some, hmark, hclock, hoffset, hinstant]
  rfl

/-- **In a year of four digits an instant is read back in the strict form.** -/
theorem readStrict?_print {t : Instant} (h : 0 ≤ t.date.year ∧ t.date.year ≤ 9999) :
    readStrict? t.print = some t := by
  have hlt := t.second_lt
  have hnanos := t.nanos_lt
  have hleap := t.leap_last
  obtain ⟨hm, hm', hd, hd'⟩ := month_day_bounds t.date
  have hplus : NoDigit ['+', '0', '0', ':', '0', '0'] := noDigit_cons (by decide) _
  have htext : t.print = padded 4 t.date.year.toNat ++ '-' :: (padded 2 t.date.month ++ '-' ::
      (padded 2 t.date.day ++ 'T' :: (padded 2 (t.second / 3600) ++ ':' ::
        (padded 2 (t.second / 60 % 60) ++ ':' :: (padded 2 (t.second % 60 + t.nanos / 1000000000) ++
          (fractionText (t.nanos % 1000000000) ++ ['+', '0', '0', ':', '0', '0'])))))) := by
    simp [Instant.print, localText, yearText, h]
  -- the elements one after the other, each before the mark that follows it
  have hyear : ∀ cs, readFixed 4 0 9999 (padded 4 t.date.year.toNat ++ '-' :: cs) = _ := fun cs =>
    readFixed_padded (by decide) (noDigit_cons (by decide) cs) (Nat.zero_le _) (by omega) (by omega)
  have hmonth : ∀ cs, readFixed 2 1 12 (padded 2 t.date.month ++ '-' :: cs) = _ := fun cs =>
    readFixed_padded (by decide) (noDigit_cons (by decide) cs) hm hm' (by omega)
  have hday : ∀ cs, readFixed 2 1 31 (padded 2 t.date.day ++ 'T' :: cs) = _ := fun cs =>
    readFixed_padded (by decide) (noDigit_cons (by decide) cs) hd hd' (by omega)
  have hhour : ∀ cs, readFixed 2 0 23 (padded 2 (t.second / 3600) ++ ':' :: cs) = _ := fun cs =>
    readFixed_padded (by decide) (noDigit_cons (by decide) cs) (Nat.zero_le _) (by omega) (by omega)
  have hminute : ∀ cs, readFixed 2 0 59 (padded 2 (t.second / 60 % 60) ++ ':' :: cs) = _ := fun cs =>
    readFixed_padded (by decide) (noDigit_cons (by decide) cs) (Nat.zero_le _) (by omega) (by omega)
  have hsecond := @readFixed_padded 2 0 60 (t.second % 60 + t.nanos / 1000000000) _ (by decide)
    (noDigit_fractionText (t.nanos % 1000000000) hplus) (Nat.zero_le _) (by omega) (by omega)
  have hfraction := @readFraction_fractionText (t.nanos % 1000000000) (by omega) _ hplus (by simp)
  have hchar : ∀ c cs, readChar c (c :: cs) = some cs := fun c cs => if_pos rfl
  have hmark : ∀ cs, readMark ('T' :: cs) = some cs := fun _ => rfl
  have hoffset : readOffset colon? ['+', '0', '0', ':', '0', '0'] = some (0, []) := by decide
  have hinstant := @instant?_parts t (some (t.nanos % 1000000000)) rfl
  rw [htext]
  refine Option.bind_eq_some_iff.2 ⟨_, hyear _, Option.bind_eq_some_iff.2 ⟨_, hchar '-' _, ?_⟩⟩
  refine Option.bind_eq_some_iff.2 ⟨_, hmonth _, Option.bind_eq_some_iff.2 ⟨_, hchar '-' _, ?_⟩⟩
  refine Option.bind_eq_some_iff.2 ⟨_, hday _, Option.bind_eq_some_iff.2 ⟨_, hmark _, ?_⟩⟩
  refine Option.bind_eq_some_iff.2 ⟨_, hhour _, Option.bind_eq_some_iff.2 ⟨_, hchar ':' _, ?_⟩⟩
  refine Option.bind_eq_some_iff.2 ⟨_, hminute _, Option.bind_eq_some_iff.2 ⟨_, hchar ':' _, ?_⟩⟩
  refine Option.bind_eq_some_iff.2 ⟨_, hsecond, Option.bind_eq_some_iff.2 ⟨_, hfraction, ?_⟩⟩
  refine Option.bind_eq_some_iff.2 ⟨_, hoffset, ?_⟩
  rw [Int.toNat_of_nonneg h.1]
  exact hinstant

/-- Different instants have different texts. -/
theorem printZulu_injective {t u : Instant} (h : t.printZulu = u.printZulu) : t = u := by
  have hread := readRelaxed?_printZulu t
  rw [h, readRelaxed?_printZulu u] at hread
  exact (Option.some.inj hread).symm

end Time

end FieldQuery
