import FieldQuery.Proofs.Time.ReadBack

/-!
# Instants and the order of their texts

Texts are sorted character by character. Texts that write instants at universal time and in one
length have the same parts at the same places, the larger parts first, so they are sorted as
their instants are. With another offset or another length they need not be.

* `Zulu` — a text of a given length with a `T` before the clock and a `Z` at the end;
* `ClockText` — the parts of such a text, and `ClockText.Writes` what they stand for;
* `readNumber_eq_some`, `readFixed_eq_some`, `readStrict?_zulu` — what a text that has been read is
  made of;
* `append_not_lt`, `foldDigits_lt_of_lt` — the order of texts part by part, and of numerals.

Principal result: `compare_of_zulu`.
-/

namespace FieldQuery

namespace Text

/-! ## The order of texts -/

/-- Texts are compared part by part. -/
theorem append_not_lt {x y r s : List Char} (h : x.length = y.length) (hle : ¬ y ++ s < x ++ r) :
    x < y ∨ x = y ∧ ¬ s < r := by
  induction x generalizing y with
  | nil =>
    obtain rfl := List.eq_nil_of_length_eq_zero h.symm
    exact .inr ⟨rfl, hle⟩
  | cons c x ih =>
    cases y with
    | nil => simp at h
    | cons d y =>
      rw [List.cons_append, List.cons_append, List.cons_lt_cons_iff, not_or, not_and] at hle
      rw [List.cons_lt_cons_iff, List.cons.injEq]
      obtain ⟨hnot, hle⟩ := hle
      by_cases hcd : c = d
      · subst hcd
        rcases ih (Nat.succ.inj h) (hle rfl) with hlt | ⟨rfl, hrest⟩
        · exact .inl (.inr ⟨rfl, hlt⟩)
        · exact .inr ⟨⟨rfl, rfl⟩, hrest⟩
      · have hlt : c < d := by
          by_contra hnot'
          exact hcd (Char.le_antisymm (Char.not_lt.1 hnot) (Char.not_lt.1 hnot'))
        exact .inl (.inl hlt)

theorem digitValue_of_isDigit {c : Char} (h : isDigit c = true) :
    digitValue c = c.toNat - 48 ∧ digitValue c ≤ 9 := by
  have := toNat_of_isDigit h
  have hvalue : digitValue c = c.toNat - 48 := rfl
  omega

/-- Equally many digits behind a smaller number write a smaller number. -/
theorem foldDigits_lt {x y : List Char} (h : x.length = y.length) (hx : x.all isDigit = true)
    {m n : Nat} (hmn : m < n) : foldDigits m x < foldDigits n y := by
  induction x generalizing y m n with
  | nil =>
    obtain rfl := List.eq_nil_of_length_eq_zero h.symm
    exact hmn
  | cons c x ih =>
    cases y with
    | nil => simp at h
    | cons d y =>
      simp only [List.all_cons, Bool.and_eq_true] at hx
      have := (digitValue_of_isDigit hx.1).2
      have hstep : 10 * m + digitValue c < 10 * n + digitValue d := by omega
      exact ih (Nat.succ.inj h) hx.2 hstep

/-- Numerals of one length are in the order of their numbers. -/
theorem foldDigits_lt_of_lt {x y : List Char} (h : x.length = y.length)
    (hx : x.all isDigit = true) (hy : y.all isDigit = true) (n : Nat) (hlt : x < y) :
    foldDigits n x < foldDigits n y := by
  induction x generalizing y n with
  | nil =>
    obtain rfl := List.eq_nil_of_length_eq_zero h.symm
    exact absurd hlt (List.lt_irrefl _)
  | cons c x ih =>
    cases y with
    | nil => simp at h
    | cons d y =>
      simp only [List.all_cons, Bool.and_eq_true] at hx hy
      rw [List.cons_lt_cons_iff] at hlt
      rcases hlt with hlt | ⟨rfl, hlt⟩
      · have hc := digitValue_of_isDigit hx.1
        have hd := digitValue_of_isDigit hy.1
        have hchars : c.toNat < d.toNat := hlt
        have := toNat_of_isDigit hx.1
        have hstep : 10 * n + digitValue c < 10 * n + digitValue d := by omega
        exact foldDigits_lt (Nat.succ.inj h) hx.2 hstep
      · exact ih (Nat.succ.inj h) hx.2 hy.2 _ hlt

/-- A row of digits. -/
def IsRow (width : Nat) (ds : List Char) : Prop := ds.length = width ∧ ds.all isDigit = true

/-- The numbers of two rows, and what follows a row, in the order of the texts. -/
theorem IsRow.compare {width : Nat} {x y r s : List Char} (hx : IsRow width x)
    (hy : IsRow width y) (hle : ¬ y ++ s < x ++ r) :
    foldDigits 0 x < foldDigits 0 y ∨ foldDigits 0 x = foldDigits 0 y ∧ ¬ s < r := by
  have hlength : x.length = y.length := hx.1.trans hy.1.symm
  rcases append_not_lt hlength hle with hlt | ⟨rfl, hrest⟩
  · exact .inl (foldDigits_lt_of_lt hlength hx.2 hy.2 0 hlt)
  · exact .inr ⟨rfl, hrest⟩

theorem not_lt_of_cons {c : Char} {r s : List Char} (hle : ¬ c :: s < c :: r) : ¬ s < r :=
  fun hlt => hle (List.cons_lt_cons_iff.2 (.inr ⟨rfl, hlt⟩))

end Text

namespace Time

open Text

/-! ## What has been read -/

theorem readNumber_eq_some {width n : Nat} {cs rest : List Char}
    (h : readNumber width width cs = some (n, rest)) :
    ∃ ds, cs = ds ++ rest ∧ IsRow width ds ∧ foldDigits 0 ds = n := by
  unfold readNumber at h
  dsimp only at h
  split at h
  · cases h
  · rename_i hlength
    cases h
    have hwidth : ((cs.takeWhile isDigit).take width).length = width := by
      have := List.length_take_le width (cs.takeWhile isDigit)
      omega
    have hprefix : (cs.takeWhile isDigit).take width <+: cs :=
      (List.take_prefix _ _).trans (List.takeWhile_prefix _)
    refine ⟨(cs.takeWhile isDigit).take width, ?_, ⟨hwidth, ?_⟩, rfl⟩
    · exact (List.prefix_iff_eq_append.1 hprefix).symm
    · rw [List.all_eq_true]
      intro c hc
      exact List.all_eq_true.1 List.all_takeWhile c (List.mem_of_mem_take hc)

theorem readFixed_eq_some {width least most n : Nat} {cs rest : List Char}
    (h : readFixed width least most cs = some (n, rest)) :
    ∃ ds, cs = ds ++ rest ∧ IsRow width ds ∧ foldDigits 0 ds = n ∧ n ≤ most := by
  unfold readFixed at h
  obtain ⟨⟨m, rest'⟩, hread, hbounds⟩ := Option.bind_eq_some_iff.1 h
  dsimp only at hbounds
  split at hbounds
  · rename_i hm
    cases hbounds
    obtain ⟨ds, hcs, hrow, hvalue⟩ := readNumber_eq_some hread
    exact ⟨ds, hcs, hrow, hvalue, hm.2⟩
  · cases hbounds

theorem readChar_eq_some {c : Char} {cs rest : List Char} (h : readChar c cs = some rest) :
    cs = c :: rest := by
  unfold readChar at h
  split at h
  · split at h
    · rename_i heq
      cases h
      rw [heq]
    · cases h
  · cases h

/-- A text of `length` characters with a `T` before the clock and a `Z` at the end. -/
def Zulu (length : Nat) (cs : List Char) : Prop :=
  cs.length = length ∧ cs[10]? = some 'T' ∧ cs.getLast? = some 'Z'

/-- Hours and minutes end in a digit. -/
theorem readHoursAndMinutes_last {cs : List Char} {seconds : Int}
    (h : readHoursAndMinutes colon? cs = some (seconds, [])) :
    ∃ before c, cs = before ++ [c] ∧ isDigit c = true := by
  unfold readHoursAndMinutes at h
  split at h
  · cases h
  · rename_i hour rest hhour
    split at h
    · cases h
    · rename_i rest' hcolon
      split at h
      · cases h
      · rename_i minute last hminute
        split at h
        · cases h
          obtain ⟨hours, rfl, -, -⟩ := readNumber_eq_some hhour
          obtain ⟨minutes, rfl, hrow, -⟩ := readNumber_eq_some hminute
          have hrest : rest = ':' :: (minutes ++ []) := by
            unfold colon? at hcolon
            split at hcolon
            · cases hcolon
              rfl
            · cases hcolon
          have hne : minutes ≠ [] := by
            rintro rfl
            cases hrow.1
          refine ⟨hours ++ ':' :: minutes.dropLast, minutes.getLast hne, ?_, ?_⟩
          · rw [hrest, List.append_assoc, List.cons_append, List.dropLast_concat_getLast hne,
              List.append_nil]
          · exact List.all_eq_true.1 hrow.2 _ (List.getLast_mem hne)
        · cases h

/-- An offset that ends in `Z` is none. -/
theorem readOffset_zulu {cs : List Char} {offset : Int}
    (h : readOffset colon? cs = some (offset, [])) (hlast : cs.getLast? = some 'Z') :
    cs = ['Z'] ∧ offset = 0 := by
  unfold readOffset at h
  split at h
  · cases h
  · rename_i c rest
    have hunsigned : ∀ seconds, readHoursAndMinutes colon? rest ≠ some (seconds, []) := by
      intro seconds hread
      obtain ⟨before, d, rfl, hd⟩ := readHoursAndMinutes_last hread
      rw [← List.cons_append, List.getLast?_concat] at hlast
      cases hlast
      cases hd
    split at h
    · cases h
      cases hlast
      exact ⟨rfl, rfl⟩
    · split at h
      · exact absurd h (hunsigned offset)
      · split at h
        · obtain ⟨⟨seconds, rest'⟩, hread, heq⟩ := Option.map_eq_some_iff.1 h
          cases heq
          exact absurd hread (hunsigned seconds)
        · cases h

/-- Nothing, or digits behind a point. -/
def IsFraction (x : List Char) : Prop := x = [] ∨ ∃ ds, x = '.' :: ds ∧ ds.all isDigit = true

/-- The nanoseconds of a fraction with its point. -/
def fractionNanos : List Char → Nat
  | [] => 0
  | _ :: ds => foldDigits 0 (ds.take 9) * Nat.pow 10 (9 - (ds.take 9).length)

/-- The parts of a text that ends in `Z`. -/
structure ClockText where
  year : List Char
  month : List Char
  day : List Char
  hour : List Char
  minute : List Char
  second : List Char
  /-- Nothing, or digits behind a point. -/
  fraction : List Char

namespace ClockText

/-- The text of the parts. -/
def text (p : ClockText) : List Char :=
  p.year ++ '-' :: (p.month ++ '-' :: (p.day ++ 'T' :: (p.hour ++ ':' :: (p.minute ++ ':' ::
    (p.second ++ (p.fraction ++ ['Z']))))))

/-- The parts are rows of digits, and name an instant. -/
structure Writes (p : ClockText) (t : Instant) : Prop where
  year : IsRow 4 p.year
  month : IsRow 2 p.month
  day : IsRow 2 p.day
  hour : IsRow 2 p.hour
  minute : IsRow 2 p.minute
  second : IsRow 2 p.second
  fraction : IsFraction p.fraction
  hour_le : foldDigits 0 p.hour ≤ 23
  minute_le : foldDigits 0 p.minute ≤ 59
  second_le : foldDigits 0 p.second ≤ 60
  instant : Parts.instant? ⟨some (foldDigits 0 p.year), some (foldDigits 0 p.month),
    some (foldDigits 0 p.day), some (foldDigits 0 p.hour), some (foldDigits 0 p.minute),
    some (foldDigits 0 p.second), some (fractionNanos p.fraction)⟩ 0 = some t

end ClockText

theorem readMark_eq_some {cs rest : List Char} (h : readMark cs = some rest) :
    ∃ c, cs = c :: rest := by
  unfold readMark at h
  split at h
  · split at h
    · cases h
      exact ⟨_, rfl⟩
    · cases h
  · cases h

/-- A fraction that has been read, or nothing. -/
theorem readFraction_eq_some {cs rest : List Char} {nanos : Nat}
    (h : readFraction cs = some (nanos, rest)) :
    ∃ fraction, cs = fraction ++ rest ∧ fractionNanos fraction = nanos ∧
      IsFraction fraction := by
  unfold readFraction at h
  split at h
  · rename_i digits
    unfold readNanos at h
    dsimp only at h
    split at h
    · cases h
    · cases h
      refine ⟨'.' :: digits.takeWhile isDigit, ?_, rfl, .inr ⟨_, rfl, List.all_takeWhile⟩⟩
      rw [List.cons_append, List.takeWhile_append_dropWhile]
  · cases h
    exact ⟨[], rfl, rfl, .inl rfl⟩

/-- **A text that is read and ends in `Z` consists of the parts of its instant.** -/
theorem readStrict?_zulu {length : Nat} {cs : List Char} {t : Instant} (hz : Zulu length cs)
    (h : readStrict? cs = some t) : ∃ p : ClockText, cs = p.text ∧ p.Writes t := by
  unfold readStrict? at h
  obtain ⟨⟨_, _⟩, hyear, h⟩ := Option.bind_eq_some_iff.1 h
  obtain ⟨_, hdash, h⟩ := Option.bind_eq_some_iff.1 h
  obtain ⟨⟨_, _⟩, hmonth, h⟩ := Option.bind_eq_some_iff.1 h
  obtain ⟨_, hdash', h⟩ := Option.bind_eq_some_iff.1 h
  obtain ⟨⟨_, _⟩, hday, h⟩ := Option.bind_eq_some_iff.1 h
  obtain ⟨_, hmark, h⟩ := Option.bind_eq_some_iff.1 h
  obtain ⟨⟨_, _⟩, hhour, h⟩ := Option.bind_eq_some_iff.1 h
  obtain ⟨_, hcolon, h⟩ := Option.bind_eq_some_iff.1 h
  obtain ⟨⟨_, _⟩, hminute, h⟩ := Option.bind_eq_some_iff.1 h
  obtain ⟨_, hcolon', h⟩ := Option.bind_eq_some_iff.1 h
  obtain ⟨⟨_, _⟩, hsecond, h⟩ := Option.bind_eq_some_iff.1 h
  obtain ⟨⟨_, zone⟩, hfraction, h⟩ := Option.bind_eq_some_iff.1 h
  obtain ⟨⟨offset, rest⟩, hoffset, h⟩ := Option.bind_eq_some_iff.1 h
  dsimp only at *
  obtain ⟨year, rfl, hy, rfl, -⟩ := readFixed_eq_some hyear
  obtain rfl := readChar_eq_some hdash
  obtain ⟨month, rfl, hm, rfl, -⟩ := readFixed_eq_some hmonth
  obtain rfl := readChar_eq_some hdash'
  obtain ⟨day, rfl, hd, rfl, -⟩ := readFixed_eq_some hday
  obtain ⟨mark, rfl⟩ := readMark_eq_some hmark
  obtain ⟨hour, rfl, hh, rfl, hh'⟩ := readFixed_eq_some hhour
  obtain rfl := readChar_eq_some hcolon
  obtain ⟨minute, rfl, hmin, rfl, hmin'⟩ := readFixed_eq_some hminute
  obtain rfl := readChar_eq_some hcolon'
  obtain ⟨second, rfl, hs, rfl, hs'⟩ := readFixed_eq_some hsecond
  obtain ⟨fraction, rfl, rfl, hf⟩ := readFraction_eq_some hfraction
  split at h
  · cases h
  rename_i hrest
  obtain rfl : rest = [] := by
    by_contra hne
    exact hrest (.inl hne)
  obtain ⟨-, hten, hlast⟩ := hz
  -- the mark is the eleventh character, and the last one belongs to the offset
  obtain rfl : mark = 'T' := by
    have hbefore : (year ++ '-' :: (month ++ '-' :: day)).length = 10 := by
      simp [hy.1, hm.1, hd.1]
    have hsplit : ∀ rest, year ++ '-' :: (month ++ '-' :: (day ++ mark :: rest)) =
        (year ++ '-' :: (month ++ '-' :: day)) ++ mark :: rest := by
      intro rest
      simp
    rw [hsplit, List.getElem?_append_right (by omega), hbefore] at hten
    exact Option.some.inj hten
  have hzone : zone.getLast? = some 'Z' := by
    have hne : zone ≠ [] := by
      rintro rfl
      cases hoffset
    simpa [List.getLast?_append, List.getLast?_cons, List.getLast?_eq_some_getLast hne] using hlast
  obtain ⟨rfl, rfl⟩ := readOffset_zulu hoffset hzone
  exact ⟨⟨year, month, day, hour, minute, second, fraction⟩, rfl, hy, hm, hd, hh, hmin, hs, hf,
    hh', hmin', hs', h⟩

/-! ## The order of instants -/

/-- The order of instants part by part, from the year to the nanoseconds. -/
theorem compare_ne_gt {t u : Instant}
    (h : t.date.year < u.date.year ∨ t.date.year = u.date.year ∧
      (t.date.month < u.date.month ∨ t.date.month = u.date.month ∧
        (t.date.day < u.date.day ∨ t.date.day = u.date.day ∧
          (t.second < u.second ∨ t.second = u.second ∧ t.nanos ≤ u.nanos)))) :
    Instant.compare t u ≠ .gt := by
  unfold Instant.compare Date.compare
  rcases h with hyear | ⟨hyear, hmonth | ⟨hmonth, hday | ⟨hday, hsecond | ⟨hsecond, hnanos⟩⟩⟩⟩
  · rw [Int.compare_eq_lt.2 hyear]
    exact fun h => nomatch h
  · rw [Int.compare_eq_eq.2 hyear, Nat.compare_eq_lt.2 hmonth]
    exact fun h => nomatch h
  · rw [Int.compare_eq_eq.2 hyear, Nat.compare_eq_eq.2 hmonth, Nat.compare_eq_lt.2 hday]
    exact fun h => nomatch h
  · rw [Int.compare_eq_eq.2 hyear, Nat.compare_eq_eq.2 hmonth, Nat.compare_eq_eq.2 hday,
      Nat.compare_eq_lt.2 hsecond]
    exact fun h => nomatch h
  · rw [Int.compare_eq_eq.2 hyear, Nat.compare_eq_eq.2 hmonth, Nat.compare_eq_eq.2 hday,
      Nat.compare_eq_eq.2 hsecond]
    exact Nat.compare_ne_gt.2 hnanos

/-- A clock at universal time shows the instant. -/
theorem parts_of_atOffset? {date : Date} {second nanos : Nat} {t : Instant} (hlt : second < 86400)
    (h : Instant.atOffset? date second nanos 0 = some t) :
    t.date = date ∧ t.second = second ∧ t.nanos = nanos := by
  unfold Instant.atOffset? at h
  dsimp only at h
  rw [if_neg (by omega), if_pos (by omega), Int.sub_zero, Int.toNat_natCast] at h
  unfold Instant.ofParts? at h
  rw [dif_pos hlt] at h
  split at h
  · split at h
    · cases h
      exact ⟨rfl, rfl, rfl⟩
    · cases h
  · cases h

namespace ClockText

variable {p q : ClockText} {t u : Instant}

/-- The day and the clock that the parts name; second 60 is a leap second. -/
theorem Writes.parts (h : p.Writes t) :
    t.date.year = foldDigits 0 p.year ∧ t.date.month = foldDigits 0 p.month ∧
      t.date.day = foldDigits 0 p.day ∧
        (foldDigits 0 p.second = 60 ∧
            t.second = foldDigits 0 p.hour * 3600 + foldDigits 0 p.minute * 60 + 59 ∧
            t.nanos = 1000000000 + fractionNanos p.fraction ∨
          foldDigits 0 p.second < 60 ∧
            t.second = foldDigits 0 p.hour * 3600 + foldDigits 0 p.minute * 60 +
              foldDigits 0 p.second ∧
            t.nanos = fractionNanos p.fraction) := by
  have hinstant := h.instant
  have hhour := h.hour_le
  have hminute := h.minute_le
  have hsecond := h.second_le
  unfold Parts.instant? at hinstant
  split at hinstant
  · rename_i date second nanos hdate hclock
    have hday : date.year = foldDigits 0 p.year ∧ date.month = foldDigits 0 p.month ∧
        date.day = foldDigits 0 p.day := by
      unfold Parts.date? Date.ofNumbers? at hdate
      dsimp only at hdate
      split at hdate
      · cases hdate
        exact ⟨rfl, rfl, rfl⟩
      · cases hdate
    unfold Parts.clock? at hclock
    simp only [Option.getD_some] at hclock
    split at hclock
    · rename_i hleap
      cases hclock
      obtain ⟨rfl, hs, hn⟩ := parts_of_atOffset? (by omega) hinstant
      exact ⟨hday.1, hday.2.1, hday.2.2, .inl ⟨hleap, hs, hn⟩⟩
    · rename_i hleap
      cases hclock
      obtain ⟨rfl, hs, hn⟩ := parts_of_atOffset? (by omega) hinstant
      exact ⟨hday.1, hday.2.1, hday.2.2, .inr ⟨by omega, hs, hn⟩⟩
  · cases hinstant

/-- The first digits of a row. -/
theorem isRow_take {ds : List Char} (h : ds.all isDigit = true) (n : Nat) :
    IsRow (min n ds.length) (ds.take n) :=
  ⟨List.length_take, List.all_eq_true.2 fun c hc =>
    List.all_eq_true.1 h c (List.mem_of_mem_take hc)⟩

/-- Fractions of one length are in the order of their nanoseconds. -/
theorem fractionNanos_le {x y : List Char} (h : x.length = y.length) (hx : IsFraction x)
    (hy : IsFraction y) {r s : List Char} (hle : ¬ y ++ s < x ++ r) :
    fractionNanos x ≤ fractionNanos y := by
  rcases hx with rfl | ⟨ds, rfl, hds⟩
  · exact Nat.zero_le _
  rcases hy with rfl | ⟨es, rfl, hes⟩
  · cases h
  have hlength : ds.length = es.length := Nat.succ.inj h
  have hrow := isRow_take hes 9
  rw [← hlength] at hrow
  have hkept : ¬ es.take 9 ++ (es.drop 9 ++ s) < ds.take 9 ++ (ds.drop 9 ++ r) := by
    rw [← List.append_assoc, ← List.append_assoc, List.take_append_drop, List.take_append_drop]
    exact not_lt_of_cons hle
  have hfold : foldDigits 0 (ds.take 9) ≤ foldDigits 0 (es.take 9) := by
    rcases (isRow_take hds 9).compare hrow hkept with hlt | ⟨heq, -⟩ <;> omega
  unfold fractionNanos
  dsimp only
  rw [(isRow_take hds 9).1, hrow.1]
  exact Nat.mul_le_mul_right _ hfold

/-- A row of digits writes a number below the power of its width. -/
theorem isRow_lt {width : Nat} {ds : List Char} (h : IsRow width ds) (n : Nat) :
    foldDigits n ds < (n + 1) * 10 ^ width := by
  obtain ⟨rfl, hds⟩ := h
  induction ds generalizing n with
  | nil => simp [foldDigits]
  | cons d ds ih =>
    simp only [List.all_cons, Bool.and_eq_true] at hds
    have hd := (digitValue_of_isDigit hds.1).2
    have hfactor : (10 * n + digitValue d + 1) * 10 ^ ds.length ≤
        (n + 1) * 10 * 10 ^ ds.length := Nat.mul_le_mul_right _ (by omega)
    calc foldDigits n (d :: ds) = foldDigits (10 * n + digitValue d) ds := rfl
      _ < (10 * n + digitValue d + 1) * 10 ^ ds.length := ih (10 * n + digitValue d) hds.2
      _ ≤ (n + 1) * 10 * 10 ^ ds.length := hfactor
      _ = (n + 1) * 10 ^ (d :: ds).length := by
        rw [List.length_cons, Nat.pow_succ', Nat.mul_assoc]

/-- Below a second: fewer than `10 ^ 9` nanoseconds. -/
theorem fractionNanos_lt {x : List Char} (hx : IsFraction x) : fractionNanos x < 1000000000 := by
  rcases hx with rfl | ⟨ds, rfl, hds⟩
  · decide
  have hrow := isRow_take hds 9
  have hlt := isRow_lt hrow 0
  rw [Nat.zero_add, Nat.one_mul] at hlt
  have hwidth : min 9 ds.length + (9 - min 9 ds.length) = 9 := by omega
  calc fractionNanos ('.' :: ds)
      = foldDigits 0 (ds.take 9) * 10 ^ (9 - min 9 ds.length) := by rw [← hrow.1]; rfl
    _ < 10 ^ min 9 ds.length * 10 ^ (9 - min 9 ds.length) :=
      Nat.mul_lt_mul_of_pos_right hlt (Nat.pow_pos (by decide))
    _ = 1000000000 := by rw [← Nat.pow_add, hwidth]

/-- **Texts of one length are in the order of their instants.** -/
theorem Writes.compare (hp : p.Writes t) (hq : q.Writes u)
    (hlength : p.text.length = q.text.length) (hle : ¬ q.text < p.text) :
    Instant.compare t u ≠ .gt := by
  have hfraction : p.fraction.length = q.fraction.length := by
    have := hp.year.1
    simp only [text, List.length_append, List.length_cons, hp.year.1, hq.year.1, hp.month.1,
      hq.month.1, hp.day.1, hq.day.1, hp.hour.1, hq.hour.1, hp.minute.1, hq.minute.1, hp.second.1,
      hq.second.1] at hlength
    omega
  obtain ⟨hyear, hmonth, hday, hclock⟩ := hp.parts
  obtain ⟨hyear', hmonth', hday', hclock'⟩ := hq.parts
  have hbelow := fractionNanos_lt hp.fraction
  have hminute := hp.minute_le
  have hminute' := hq.minute_le
  apply compare_ne_gt
  rw [hyear, hyear', hmonth, hmonth', hday, hday']
  -- the first part in which the texts differ decides
  rcases hp.year.compare hq.year hle with h | ⟨hy, hle⟩
  · exact .inl (Int.ofNat_lt.2 h)
  refine .inr ⟨congrArg _ hy, ?_⟩
  rcases hp.month.compare hq.month (not_lt_of_cons hle) with h | ⟨hm, hle⟩
  · exact .inl h
  refine .inr ⟨hm, ?_⟩
  rcases hp.day.compare hq.day (not_lt_of_cons hle) with h | ⟨hd, hle⟩
  · exact .inl h
  refine .inr ⟨hd, ?_⟩
  rcases hp.hour.compare hq.hour (not_lt_of_cons hle) with h | ⟨hh, hle⟩
  · omega
  rcases hp.minute.compare hq.minute (not_lt_of_cons hle) with h | ⟨hmin, hle⟩
  · omega
  rcases hp.second.compare hq.second (not_lt_of_cons hle) with h | ⟨hs, hle⟩
  · omega
  have hnanos := fractionNanos_le hfraction hp.fraction hq.fraction hle
  omega

end ClockText

/-- The order of strings is that of their characters. -/
theorem toList_not_lt_of_compare {a b : String} (h : compare a b ≠ .gt) :
    ¬ b.toList < a.toList := by
  change compareOfLessAndEq a b ≠ .gt at h
  unfold compareOfLessAndEq at h
  split at h
  · rename_i hlt
    exact List.lt_asymm hlt
  · split at h
    · rename_i heq
      rw [heq]
      exact List.lt_irrefl _
    · exact absurd rfl h

/-- **Texts in one form at universal time are sorted as their instants are.** -/
theorem compare_of_zulu {length : Nat} {a b : String} {t u : Instant} (ha : Zulu length a.toList)
    (hb : Zulu length b.toList) (hat : readStrict? a.toList = some t)
    (hbu : readStrict? b.toList = some u) (hle : compare a b ≠ .gt) :
    Instant.compare t u ≠ .gt := by
  obtain ⟨p, hp, hpt⟩ := readStrict?_zulu ha hat
  obtain ⟨q, hq, hqu⟩ := readStrict?_zulu hb hbu
  have hlength : p.text.length = q.text.length := by
    rw [← hp, ← hq, ha.1, hb.1]
  have htexts := toList_not_lt_of_compare hle
  rw [hp, hq] at htexts
  exact hpt.compare hqu hlength htexts

end Time

end FieldQuery
