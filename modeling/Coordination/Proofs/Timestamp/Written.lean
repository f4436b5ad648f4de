import Coordination.Proofs.Timestamp.Calendar
import Mathlib

/-!
# The text of a point in time

A point in time that is on the calendar is read back from its text (`Timestamp.read_write`),
and whatever text states a point in time, it is one that is on the calendar
(`Timestamp.isValid_of_read`). Only the last second of a minute may be a leap second.

* `readNumber_padded`, `readYear_writeYear`, `readFraction_writeFraction`: the parts of the
  text, read back one by one.
-/

namespace Coordination

/-- A digit is not blank. -/
theorem Text.isBlank_of_isDigit {c : Char} (h : c.isDigit = true) : isBlank c = false := by
  obtain ⟨hleast, hmost⟩ : 48 ≤ c.toNat ∧ c.toNat ≤ 57 := by
    simpa [Char.isDigit, UInt32.le_iff_toNat_le] using h
  have hspace : c ≠ ' ' := by
    rintro rfl
    simp at hleast
  simp [isBlank, blankRanges, hspace]
  omega

theorem Text.skipBlank_cons {c : Char} (h : isBlank c = false) (rest : List Char) :
    skipBlank (c :: rest) = c :: rest := List.dropWhile_cons_of_neg (by simp [h])

namespace Timestamp

/-! ## Digits -/

theorem digitsValue_eq (digits : List Char) :
    digitsValue digits = Nat.ofDigitChars 10 digits 0 := by
  rw [Nat.ofDigitChars_eq_foldl, digitsValue]
  congr 1
  funext n c
  rw [Nat.mul_comm]

theorem toList_padded (width n : Nat) : (padded width n).toList =
    List.replicate (width - (Nat.toDigits 10 n).length) '0' ++ Nat.toDigits 10 n := by
  simp [padded, Nat.toList_repr]

theorem isDigit_of_mem_padded {width n : Nat} {c : Char} (h : c ∈ (padded width n).toList) :
    c.isDigit = true := by
  rw [toList_padded, List.mem_append, List.mem_replicate] at h
  rcases h with ⟨-, rfl⟩ | h
  · rfl
  · exact Nat.isDigit_of_mem_toDigits (by decide) (by decide) h

theorem length_padded_pos (width n : Nat) : 0 < (padded width n).toList.length := by
  rw [toList_padded, List.length_append]
  exact Nat.lt_of_lt_of_le Nat.length_toDigits_pos (Nat.le_add_left _ _)

theorem length_padded {width n : Nat} (hwidth : 0 < width) (h : n < 10 ^ width) :
    (padded width n).toList.length = width := by
  have := (Nat.length_toDigits_le_iff (by decide) hwidth).2 h
  rw [toList_padded, List.length_append, List.length_replicate]
  omega

/-- Zeros in front do not count. -/
theorem digitsValue_padded (width n : Nat) : digitsValue (padded width n).toList = n := by
  have hzeros : ∀ k, digitsValue (List.replicate k '0' ++ Nat.toDigits 10 n) = n := by
    intro k
    induction k with
    | zero => rw [digitsValue_eq]; exact Nat.ofDigitChars_ten_toDigits
    | succ k ih => exact ih
  rw [toList_padded, hzeros]

theorem digitsValue_lt (digits : List Char) (h : ∀ c ∈ digits, c.isDigit = true) :
    digitsValue digits < 10 ^ digits.length := by
  induction digits using List.reverseRecOn with
  | nil => simp [digitsValue]
  | append_singleton digits c ih =>
    obtain ⟨hleast, hmost⟩ : 48 ≤ c.toNat ∧ c.toNat ≤ 57 := by
      simpa [Char.isDigit, UInt32.le_iff_toNat_le] using h c (by simp)
    have := ih fun d hd => h d (List.mem_append_left _ hd)
    rw [List.length_append, List.length_singleton, Nat.pow_succ]
    simp only [digitsValue, List.foldl_append, List.foldl_cons, List.foldl_nil] at this ⊢
    have hzero : '0'.toNat = 48 := rfl
    omega

/-- Digits are read up to the first character that is none, or as many as are asked for. -/
theorem readDigits_append {most : Nat} {digits rest : List Char}
    (hdigits : ∀ c ∈ digits, c.isDigit = true) (hpos : 0 < digits.length)
    (hmost : digits.length ≤ most)
    (hstop : digits.length = most ∨ ∀ c ∈ rest.head?, c.isDigit = false) :
    readDigits most (digits ++ rest) = some (digits, rest) := by
  have hrest : (rest.take (most - digits.length)).takeWhile Char.isDigit = [] := by
    rcases hstop with rfl | hstop
    · simp
    · cases rest with
      | nil => simp
      | cons c rest =>
        cases most - digits.length with
        | zero => rfl
        | succ k => simp [hstop c rfl]
  have htake : ((digits ++ rest).take most).takeWhile Char.isDigit = digits := by
    rw [List.take_append, List.take_of_length_le hmost, List.takeWhile_append_of_pos hdigits,
      hrest, List.append_nil]
  have hsome : digits.isEmpty = false := by
    cases digits with
    | nil => cases hpos
    | cons => rfl
  simp only [readDigits, htake, hsome, Bool.false_eq_true, if_false, List.drop_left]

/-- A text that starts with a digit starts with no blank. -/
theorem skipBlank_padded (width n : Nat) (rest : List Char) :
    Text.skipBlank ((padded width n).toList ++ rest) = (padded width n).toList ++ rest := by
  have hpos := length_padded_pos width n
  cases hpadded : (padded width n).toList with
  | nil => simp [hpadded] at hpos
  | cons c digits =>
    have hmem : c ∈ (padded width n).toList := by simp [hpadded]
    exact Text.skipBlank_cons (Text.isBlank_of_isDigit (isDigit_of_mem_padded hmem)) _

/-! ## The parts of a text -/

theorem readNumber_padded {n : Nat} (h : n < 100) (rest : List Char) :
    readNumber 2 ((padded 2 n).toList ++ rest) = some (n, rest) := by
  have hlength : (padded 2 n).toList.length = 2 := length_padded (by decide) h
  have hread : readDigits 2 ((padded 2 n).toList ++ rest) = some ((padded 2 n).toList, rest) :=
    readDigits_append (fun c hc => isDigit_of_mem_padded hc) (length_padded_pos 2 n)
      (Nat.le_of_eq hlength) (.inl hlength)
  simp [readNumber, skipBlank_padded, hread, digitsValue_padded]

/-- Behind a sign, a year is read up to the next sign. -/
theorem readDigits_year (n : Nat) (rest : List Char) :
    readDigits ((padded 4 n).toList ++ '-' :: rest).length ((padded 4 n).toList ++ '-' :: rest) =
      some ((padded 4 n).toList, '-' :: rest) :=
  readDigits_append (fun c hc => isDigit_of_mem_padded hc) (length_padded_pos 4 n)
    (by rw [List.length_append]; exact Nat.le_add_right _ _) (.inr (by simp [Char.isDigit]))

theorem readYear_writeYear (year : Int) (rest : List Char) :
    readYear ((writeYear year).toList ++ '-' :: rest) = some (year, '-' :: rest) := by
  unfold writeYear
  split
  next hfour =>
    have hlength : (padded 4 year.toNat).toList.length = 4 := length_padded (by decide) (by omega)
    have hread : readDigits 4 ((padded 4 year.toNat).toList ++ '-' :: rest) =
        some ((padded 4 year.toNat).toList, '-' :: rest) :=
      readDigits_append (fun c hc => isDigit_of_mem_padded hc) (length_padded_pos 4 year.toNat)
        (Nat.le_of_eq hlength) (.inl hlength)
    have hfirst : ∀ sign tail, (padded 4 year.toNat).toList ++ '-' :: rest = sign :: tail →
        sign.isDigit = true := by
      intro sign tail heq
      cases hpadded : (padded 4 year.toNat).toList with
      | nil => simp [hpadded] at hlength
      | cons c digits =>
        have hmem : c ∈ (padded 4 year.toNat).toList := by simp [hpadded]
        rw [hpadded, List.cons_append, List.cons.injEq] at heq
        exact heq.1 ▸ isDigit_of_mem_padded hmem
    rw [readYear, skipBlank_padded]
    split
    next heq => exact absurd (hfirst _ _ heq) (by decide)
    next heq => exact absurd (hfirst _ _ heq) (by decide)
    next =>
      simp only [hread, bind, Option.bind, digitsValue_padded]
      rw [Int.toNat_of_nonneg hfour.1]
      rfl
  next hlong =>
    split
    next hneg =>
      have hread := readDigits_year year.natAbs rest
      have hminus : ("-" ++ padded 4 year.natAbs).toList ++ '-' :: rest =
          '-' :: ((padded 4 year.natAbs).toList ++ '-' :: rest) := by
        simp
      rw [hminus, readYear, Text.skipBlank_cons (by decide)]
      simp only [hread, bind, Option.bind, digitsValue_padded, pure]
      rw [Int.ofNat_natAbs_of_nonpos (Int.le_of_lt hneg), Int.neg_neg]
    next hpos =>
      have hread := readDigits_year year.natAbs rest
      have hplus : ("+" ++ padded 4 year.natAbs).toList ++ '-' :: rest =
          '+' :: ((padded 4 year.natAbs).toList ++ '-' :: rest) := by
        simp
      rw [hplus, readYear, Text.skipBlank_cons (by decide)]
      simp only [hread, bind, Option.bind, digitsValue_padded, pure]
      rw [Int.natAbs_of_nonneg (Int.not_lt.1 hpos)]

/-- A fraction is read back from its groups of three digits. -/
theorem readFraction_writeFraction {nanos : Nat} (h : nanos < 1000000000) (rest : List Char) :
    readFraction ((writeFraction nanos).toList ++ 'Z' :: rest) = some (nanos, 'Z' :: rest) := by
  have hgroups : ∀ width n, 0 < width → width ≤ 9 → n < 10 ^ width →
      readFraction (("." ++ padded width n).toList ++ 'Z' :: rest) =
        some (n * Nat.pow 10 (9 - width), 'Z' :: rest) := by
    intro width n hpos hmost hn
    have hlength : (padded width n).toList.length = width := length_padded hpos hn
    have hread : readDigits 9 ((padded width n).toList ++ 'Z' :: rest) =
        some ((padded width n).toList, 'Z' :: rest) :=
      readDigits_append (fun c hc => isDigit_of_mem_padded hc) (length_padded_pos width n)
        (by omega) (.inr (by simp [Char.isDigit]))
    have hpoint : ("." ++ padded width n).toList ++ 'Z' :: rest =
        '.' :: ((padded width n).toList ++ 'Z' :: rest) := by
      simp
    rw [hpoint, readFraction]
    simp only [hread, bind, Option.bind, digitsValue_padded, hlength, pure]
    rfl
  unfold writeFraction
  split
  next hzero => rw [hzero]; rfl
  next =>
    split
    next hmillis =>
      rw [hgroups 3 _ (by decide) (by decide) (by omega)]
      simp only [Option.some.injEq, Prod.mk.injEq, and_true]
      rw [show Nat.pow 10 (9 - 3) = 1000000 from rfl]
      omega
    next =>
      split
      next hmicros =>
        rw [hgroups 6 _ (by decide) (by decide) (by omega)]
        simp only [Option.some.injEq, Prod.mk.injEq, and_true]
        rw [show Nat.pow 10 (9 - 6) = 1000 from rfl]
        omega
      next =>
        rw [hgroups 9 _ (by decide) (by decide) (by omega)]
        simp only [Option.some.injEq, Prod.mk.injEq, and_true]
        exact Nat.mul_one nanos

/-! ## Whole texts -/

/-- Whether a point in time is on the calendar. Only the last second of a minute may be
a leap second. -/
structure IsValid (t : Timestamp) : Prop where
  date : (CalendarDate.ofDays (t.seconds / 86400)).isValid = true
  nanos : t.nanos < 1000000000 ∨ (t.nanos < 2000000000 ∧ t.seconds % 60 = 59)

theorem month_day_lt {date : CalendarDate} (h : date.isValid = true) :
    date.month < 100 ∧ date.day < 100 := by
  have hdays : CalendarDate.daysInMonth date.year date.month ≤ 31 := by
    unfold CalendarDate.daysInMonth
    split
    · split <;> decide
    · split <;> decide
  simp only [CalendarDate.isValid, Bool.and_eq_true, decide_eq_true_eq] at h
  omega

/-- A point in time is read back from its text. -/
theorem read_write {t : Timestamp} (h : t.IsValid) : read t.write = some t := by
  obtain ⟨hdate, hnanos⟩ := h
  obtain ⟨date, hofDays⟩ : ∃ date, CalendarDate.ofDays (t.seconds / 86400) = date := ⟨_, rfl⟩
  obtain ⟨hmonth, hday⟩ := month_day_lt (hofDays ▸ hdate)
  have hback : date.toDays = t.seconds / 86400 := by rw [← hofDays, CalendarDate.toDays_ofDays]
  obtain ⟨second, hsecond⟩ : ∃ second, (t.seconds % 86400).toNat = second := ⟨_, rfl⟩
  obtain ⟨leap, hleap⟩ : ∃ leap, t.nanos / 1000000000 = leap := ⟨_, rfl⟩
  have hwrite : t.write.toList = (writeYear date.year).toList ++ '-' ::
      ((padded 2 date.month).toList ++ '-' :: ((padded 2 date.day).toList ++ 'T' ::
        ((padded 2 (second / 3600)).toList ++ ':' :: ((padded 2 (second / 60 % 60)).toList ++ ':' ::
          ((padded 2 (second % 60 + leap)).toList ++
            ((writeFraction (t.nanos % 1000000000)).toList ++ ['Z'])))))) := by
    simp [write, hofDays, hsecond, hleap, List.append_assoc]
  -- Only a leap second makes a sixtieth second.
  have hsixty : (second % 60 + leap) / 60 = leap ∧ second % 60 + leap - leap = second % 60 := by
    omega
  have hseconds : date.toDays * 86400 + ((second / 3600 : Nat) : Int) * 3600 +
      ((second / 60 % 60 : Nat) : Int) * 60 + ((second % 60 : Nat) : Int) - 0 = t.seconds := by
    omega
  have hnanosBack : t.nanos % 1000000000 + leap * 1000000000 = t.nanos := by omega
  have hbounds : second / 3600 < 24 ∧ second / 60 % 60 < 60 ∧ second % 60 + leap ≤ 60 ∧
      Int.natAbs 0 < 86400 := by
    refine ⟨?_, ?_, ?_, by decide⟩ <;> omega
  have heta : (⟨date.year, date.month, date.day⟩ : CalendarDate) = date := rfl
  have hdash : ∀ rest, Text.skipBlank ('-' :: rest) = '-' :: rest := Text.skipBlank_cons (by decide)
  have hcolon : ∀ rest, Text.skipBlank (':' :: rest) = ':' :: rest :=
    Text.skipBlank_cons (by decide)
  have hzone : readZone (Text.skipBlank ['Z']) = some (0, []) := by decide
  have hend : (Text.skipBlank []).isEmpty = true := rfl
  have hfraction := readFraction_writeFraction (Nat.mod_lt t.nanos (by decide)) []
  unfold read
  rw [hwrite]
  simp only [readYear_writeYear, readNumber_padded hmonth, readNumber_padded hday,
    readNumber_padded (show second / 3600 < 100 by omega),
    readNumber_padded (show second / 60 % 60 < 100 by omega),
    readNumber_padded (show second % 60 + leap < 100 by omega), hdash, hcolon, readMark, if_true,
    hfraction, hzone, hend, heta, hsixty, hseconds, hnanosBack, guard, if_pos hbounds, hofDays,
    if_pos (hofDays ▸ hdate), bind, Option.bind, pure, HOrElse.hOrElse, OrElse.orElse,
    Option.orElse]

/-! ## Texts that are read -/

theorem readDigits_eq_some {most : Nat} {text digits rest : List Char}
    (h : readDigits most text = some (digits, rest)) :
    digits.length ≤ most ∧ ∀ c ∈ digits, c.isDigit = true := by
  unfold readDigits at h
  simp only at h
  split at h
  · cases h
  · obtain ⟨rfl, -⟩ := Prod.mk.inj (Option.some.inj h)
    exact ⟨Nat.le_trans (List.takeWhile_prefix _).length_le (List.length_take_le _ _),
      List.all_eq_true.1 List.all_takeWhile⟩

theorem lt_of_readFraction {text rest : List Char} {nanos : Nat}
    (h : readFraction text = some (nanos, rest)) : nanos < 1000000000 := by
  unfold readFraction at h
  split at h
  next fraction =>
    obtain ⟨⟨digits, tail⟩, hread, heq⟩ := Option.bind_eq_some_iff.1 h
    obtain ⟨hlength, hdigits⟩ := readDigits_eq_some hread
    obtain ⟨rfl, -⟩ := Prod.mk.inj (Option.some.inj heq)
    calc
      digitsValue digits * 10 ^ (9 - digits.length)
      _ < 10 ^ digits.length * 10 ^ (9 - digits.length) :=
        Nat.mul_lt_mul_of_pos_right (digitsValue_lt digits hdigits) (Nat.pow_pos (by decide))
      _ = 10 ^ 9 := by rw [← Nat.pow_add, Nat.add_sub_cancel' hlength]
  next =>
    obtain ⟨rfl, -⟩ := Prod.mk.inj (Option.some.inj h)
    decide

/-- Offsets are whole minutes. -/
theorem mod_of_readOffset {text rest : List Char} {offset : Int}
    (h : readOffset text = some (offset, rest)) : offset % 60 = 0 := by
  unfold readOffset at h
  split at h
  next => cases h; rfl
  next => cases h; rfl
  next =>
    simp only [Option.bind_eq_bind, Option.bind_eq_some_iff] at h
    obtain ⟨-, -, ⟨hours, rest'⟩, -, ⟨minutes, rest''⟩, -, -, -, heq⟩ := h
    obtain ⟨rfl, -⟩ := Prod.mk.inj (Option.some.inj heq)
    split <;> omega
  next => cases h

theorem mod_of_readZone {text rest : List Char} {offset : Int}
    (h : readZone text = some (offset, rest)) : offset % 60 = 0 := by
  unfold readZone at h
  split at h
  · cases h
    rfl
  · exact mod_of_readOffset h

/-- A text that states a point in time states one on the calendar. -/
theorem isValid_of_read {text : String} {t : Timestamp} (h : read text = some t) : t.IsValid := by
  unfold read at h
  dsimp only [Option.bind_eq_bind] at h
  -- From the outside in, so that no step is looked at before it is its turn.
  simp only [↓Option.bind_eq_some_iff, Prod.exists] at h
  obtain ⟨year, _, -, _, -, month, _, -, _, -, day, _, -, _, -, hour, _, -, _, -, minute, _, -, _,
    -, second, _, -, nanos, _, hfraction, offset, _, hzone, _, -, _, -, _, hbounds, _, hdate,
    heq⟩ := h
  cases heq
  have hnanos := lt_of_readFraction hfraction
  have hoffset := mod_of_readZone hzone
  have hbounds := (Option.guard_eq_some' _).1 hbounds
  refine ⟨(Option.guard_eq_some' _).1 hdate, ?_⟩
  by_cases hleap : second = 60
  · right
    dsimp only
    omega
  · left
    dsimp only
    omega

end Timestamp

end Coordination
