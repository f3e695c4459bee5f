import Mathlib.Data.List.TakeWhile
import PlanFold.Interpreter.Preparation

/-!
# The grammar of durations

A written duration is a sign, or none, and up to seven numbers, each with the
letter of its unit, in the order of the units; the letter `T` stands before
the time of day and only where a component of it follows. A number is written
with digits, and possibly digits behind a point or a comma.

The reader accepts exactly the texts that are written so, and each of them is
written in one way only. Nothing is said here about how many seconds a number
of a unit counts.
-/

set_option autoImplicit false

namespace PlanFold.Duration

def Digits (cs : List Char) : Prop := cs ≠ [] ∧ ∀ c ∈ cs, c.isDigit = true

inductive Mark where
  | point
  | comma

def Mark.char : Mark → Char
  | .point => '.'
  | .comma => ','

structure Numeral where
  whole : List Char
  fraction : Option (Mark × List Char)
  whole_digits : Digits whole
  fraction_digits : ∀ mark digits, fraction = some (mark, digits) → Digits digits

namespace Numeral

def chars (n : Numeral) : List Char :=
  n.whole ++
    match n.fraction with
    | some (mark, digits) => mark.char :: digits
    | none => []

def amount (n : Numeral) : Amount := ⟨n.whole, (n.fraction.map Prod.snd).getD []⟩

end Numeral

def endsNumber (c : Char) : Bool := !c.isDigit && c != '.' && c != ','

theorem Mark.isDigit_char (mark : Mark) : mark.char.isDigit = false := by
  cases mark <;> rfl

theorem span_digits {digits : List Char} (rest : List Char)
    (h : ∀ c ∈ digits, c.isDigit = true) (hrest : ∀ c ∈ rest.head?, c.isDigit = false) :
    (digits ++ rest).takeWhile Char.isDigit = digits ∧
      (digits ++ rest).dropWhile Char.isDigit = rest := by
  have htake : rest.takeWhile Char.isDigit = [] ∧ rest.dropWhile Char.isDigit = rest := by
    cases rest with
    | nil => exact ⟨rfl, rfl⟩
    | cons c rest =>
      have hc : c.isDigit = false := hrest c rfl
      simp [hc]
  rw [List.takeWhile_append_of_pos h, List.dropWhile_append_of_pos h, htake.1, htake.2]
  exact ⟨List.append_nil digits, rfl⟩

theorem read?_chars (n : Numeral) {c : Char} (hc : endsNumber c = true) (rest : List Char) :
    Amount.read? (n.chars ++ c :: rest) = some (n.amount, c :: rest) := by
  obtain ⟨whole, fraction, ⟨hne, hwhole⟩, hfraction⟩ := n
  obtain ⟨⟨hdigit, hpoint⟩, hcomma⟩ : (c.isDigit = false ∧ c ≠ '.') ∧ c ≠ ',' := by
    simpa [endsNumber] using hc
  unfold Amount.read? Numeral.chars Numeral.amount
  cases fraction with
  | none =>
    obtain ⟨htake, hdrop⟩ := span_digits (c :: rest) hwhole (by simpa using hdigit)
    simp [htake, hdrop, hne, hpoint, hcomma]
  | some fraction =>
    obtain ⟨mark, digits⟩ := fraction
    obtain ⟨hne', hdigits⟩ := hfraction mark digits rfl
    obtain ⟨htake, hdrop⟩ := span_digits (mark.char :: (digits ++ c :: rest)) hwhole
      (by simpa using mark.isDigit_char)
    obtain ⟨htake', hdrop'⟩ := span_digits (c :: rest) hdigits (by simpa using hdigit)
    have hmark : mark.char = '.' ∨ mark.char = ',' := by cases mark <;> decide
    simp [htake, hdrop, htake', hdrop', hne, hne', hmark]

theorem exists_numeral {cs rest : List Char} {a : Amount} (h : Amount.read? cs = some (a, rest)) :
    ∃ n : Numeral, n.amount = a ∧ cs = n.chars ++ rest := by
  have hdigits : ∀ cs : List Char, ∀ c ∈ cs.takeWhile Char.isDigit, c.isDigit = true :=
    fun _ _ hc => List.mem_takeWhile_imp hc
  have hsplit := List.takeWhile_append_dropWhile (p := Char.isDigit) (l := cs)
  unfold Amount.read? at h
  dsimp only at h
  split at h
  · cases h
  next hne =>
    have hwhole : Digits (cs.takeWhile Char.isDigit) := ⟨by simpa using hne, hdigits cs⟩
    let plain : Numeral := ⟨_, none, hwhole, fun _ _ h => nomatch h⟩
    have hplain : cs = plain.chars ++ cs.dropWhile Char.isDigit := by
      simp [plain, Numeral.chars]
    split at h
    next c behind hrest =>
      split at h
      next hmark =>
        split at h
        · cases h
        next hne' =>
          cases h
          have hfraction : Digits (behind.takeWhile Char.isDigit) :=
            ⟨by simpa using hne', hdigits behind⟩
          obtain ⟨mark, rfl⟩ : ∃ mark : Mark, mark.char = c := by
            rcases Bool.or_eq_true_iff.mp hmark with h | h
            · exact ⟨.point, (of_decide_eq_true h).symm⟩
            · exact ⟨.comma, (of_decide_eq_true h).symm⟩
          refine ⟨⟨_, some (mark, _), hwhole, fun _ _ h => by cases h; exact hfraction⟩, rfl, ?_⟩
          have hsplit' := List.takeWhile_append_dropWhile (p := Char.isDigit) (l := behind)
          simp only [Numeral.chars, List.append_assoc, List.cons_append, hsplit', ← hrest, hsplit]
      next =>
        cases h
        exact ⟨plain, rfl, hplain⟩
    next =>
      cases h
      exact ⟨plain, rfl, hplain⟩

def given (unit : Char) : Option Numeral → List Char
  | some n => n.chars ++ [unit]
  | none => []

inductive Opens (units : List Char) : List Char → Prop
  | nil : Opens units []
  | letter {c : Char} {rest : List Char} : c.isDigit = false → Opens units (c :: rest)
  | number (n : Numeral) {unit : Char} {rest : List Char} : unit ∈ units →
      Opens units (n.chars ++ unit :: rest)

theorem Opens.cons {units rest : List Char} (h : Opens units rest) (unit : Char)
    (o : Option Numeral) : Opens (unit :: units) (given unit o ++ rest) := by
  cases o with
  | some n =>
    rw [given, List.append_assoc]
    exact .number n (List.mem_cons_self ..)
  | none =>
    cases h with
    | nil => exact .nil
    | letter hc => exact .letter hc
    | number n hunit => exact .number n (List.mem_cons_of_mem _ hunit)

theorem component_of_opens {units cs : List Char} (h : Opens units cs) {unit : Char}
    (hunit : unit ∉ units) (hends : units.all endsNumber = true) :
    component unit cs = (none, cs) := by
  unfold component
  cases h with
  | nil => rfl
  | letter hc => simp [Amount.read?, hc]
  | @number n other rest hmem =>
    have hne : ¬other = unit := fun heq => hunit (heq ▸ hmem)
    simp only [read?_chars n (List.all_eq_true.mp hends other hmem), hne, if_false]

/-- A component is read where it stands, and only there. -/
theorem component_given {units rest : List Char} (hrest : Opens units rest) (unit : Char)
    (hunit : unit ∉ units) (hends : (unit :: units).all endsNumber = true)
    (o : Option Numeral) :
    component unit (given unit o ++ rest) = (o.map Numeral.amount, rest) := by
  cases o with
  | none =>
    exact component_of_opens hrest hunit (Bool.and_eq_true_iff.mp hends).2
  | some n =>
    have hread := read?_chars n (Bool.and_eq_true_iff.mp hends).1 rest
    unfold component
    rw [given, List.append_assoc, List.singleton_append, hread]
    simp

theorem exists_given (unit : Char) (cs : List Char) :
    ∃ o rest, component unit cs = (o.map Numeral.amount, rest) ∧ cs = given unit o ++ rest := by
  unfold component
  split
  next a c rest hread =>
    split
    next hc =>
      obtain ⟨n, rfl, hcs⟩ := exists_numeral hread
      exact ⟨some n, rest, rfl, by rw [hcs, hc, given, List.append_assoc]; rfl⟩
    next => exact ⟨none, cs, rfl, rfl⟩
  next => exact ⟨none, cs, rfl, rfl⟩

/-- A duration as it is written: optional numbers, at least one of which is given. -/
structure Written where
  negative : Bool
  years : Option Numeral
  months : Option Numeral
  weeks : Option Numeral
  days : Option Numeral
  hours : Option Numeral
  minutes : Option Numeral
  seconds : Option Numeral
  present : (years.isSome || months.isSome || weeks.isSome || days.isSome || hours.isSome ||
    minutes.isSome || seconds.isSome) = true

namespace Written

def components (w : Written) : Components where
  years := w.years.map Numeral.amount
  months := w.months.map Numeral.amount
  weeks := w.weeks.map Numeral.amount
  days := w.days.map Numeral.amount
  hours := w.hours.map Numeral.amount
  minutes := w.minutes.map Numeral.amount
  seconds := w.seconds.map Numeral.amount

def duration (w : Written) : Duration := signed w.negative w.components.total

def date (w : Written) : List Char :=
  given 'Y' w.years ++ given 'M' w.months ++ given 'W' w.weeks ++ given 'D' w.days

def time (w : Written) : List Char :=
  given 'H' w.hours ++ given 'M' w.minutes ++ given 'S' w.seconds

def timed (w : Written) : List Char := if w.components.hasTime then 'T' :: w.time else []

def body (w : Written) : List Char := w.date ++ w.timed

def chars (w : Written) : List Char :=
  if w.negative then '-' :: 'P' :: w.body else 'P' :: w.body

theorem opens_timed (w : Written) : Opens [] w.timed := by
  unfold timed
  split
  · exact .letter rfl
  · exact .nil

theorem hasTime_eq (w : Written) :
    w.components.hasTime = (w.hours.isSome || w.minutes.isSome || w.seconds.isSome) := by
  simp [Components.hasTime, components]

theorem hasDate_eq (w : Written) : w.components.hasDate =
    (w.years.isSome || w.months.isSome || w.weeks.isSome || w.days.isSome) := by
  simp [Components.hasDate, components]

theorem absent_of_hasTime {w : Written} (h : w.components.hasTime = false) :
    w.hours = none ∧ w.minutes = none ∧ w.seconds = none := by
  simpa [hasTime_eq, and_assoc] using h

theorem hasDate_of_hasTime {w : Written} (h : w.components.hasTime = false) :
    w.components.hasDate = true := by
  obtain ⟨hhours, hminutes, hseconds⟩ := absent_of_hasTime h
  have hpresent := w.present
  simp only [hhours, hminutes, hseconds, Option.isSome_none, Bool.or_false] at hpresent
  rw [hasDate_eq, hpresent]

theorem ofChars?_body (w : Written) : Components.ofChars? w.body = some w.components := by
  have hdays := w.opens_timed.cons 'D' w.days
  have hweeks := hdays.cons 'W' w.weeks
  have hmonths := hweeks.cons 'M' w.months
  have hseconds := (Opens.nil : Opens [] []).cons 'S' w.seconds
  have hminutes := hseconds.cons 'M' w.minutes
  unfold Components.ofChars? body date
  simp only [List.append_assoc,
    component_given hmonths 'Y' (by decide) (by decide),
    component_given hweeks 'M' (by decide) (by decide),
    component_given hdays 'W' (by decide) (by decide),
    component_given w.opens_timed 'D' (by decide) (by decide)]
  unfold timed
  cases htime : w.components.hasTime with
  | false =>
    obtain ⟨hhours, hminute, hsecond⟩ := absent_of_hasTime htime
    have hdate := hasDate_of_hasTime htime
    rw [hasDate_eq] at hdate
    simp [Components.hasDate, components, hdate, hhours, hminute, hsecond]
  | true =>
    have hparts : w.time =
        given 'H' w.hours ++ (given 'M' w.minutes ++ (given 'S' w.seconds ++ [])) := by
      simp [time]
    rw [hasTime_eq] at htime
    simp only [hparts, if_true,
      component_given hminutes 'H' (by decide) (by decide),
      component_given hseconds 'M' (by decide) (by decide),
      component_given (Opens.nil : Opens [] []) 'S' (by decide) (by decide)]
    simp [Components.hasTime, components, htime]

end Written

theorem exists_written {cs : List Char} {c : Components} (h : Components.ofChars? cs = some c)
    (negative : Bool) : ∃ w : Written, w.negative = negative ∧ w.body = cs ∧ w.components = c := by
  obtain ⟨years, cs₁, hyears, rfl⟩ := exists_given 'Y' cs
  obtain ⟨months, cs₂, hmonths, rfl⟩ := exists_given 'M' cs₁
  obtain ⟨weeks, cs₃, hweeks, rfl⟩ := exists_given 'W' cs₂
  obtain ⟨days, cs₄, hdays, rfl⟩ := exists_given 'D' cs₃
  unfold Components.ofChars? at h
  simp only [hyears, hmonths, hweeks, hdays] at h
  split at h
  next =>
    split at h
    next hdate =>
      cases h
      simp only [Components.hasDate, Option.isSome_map] at hdate
      refine ⟨⟨negative, years, months, weeks, days, none, none, none, by simpa using hdate⟩, rfl,
        ?_, rfl⟩
      simp [Written.body, Written.date, Written.timed, Components.hasTime, Written.components]
    next => cases h
  next cs =>
    obtain ⟨hours, cs₅, hhours, rfl⟩ := exists_given 'H' cs
    obtain ⟨minutes, cs₆, hminutes, rfl⟩ := exists_given 'M' cs₅
    obtain ⟨seconds, cs₇, hseconds, rfl⟩ := exists_given 'S' cs₆
    simp only [hhours, hminutes, hseconds] at h
    split at h
    next hread =>
      cases h
      obtain ⟨hgiven, hend⟩ := Bool.and_eq_true_iff.mp hread
      obtain rfl := List.isEmpty_iff.mp hend
      have htime : hours.isSome || minutes.isSome || seconds.isSome := by
        simpa [Components.hasTime] using hgiven
      refine ⟨⟨negative, years, months, weeks, days, hours, minutes, seconds, ?_⟩, rfl, ?_, rfl⟩
      · simp only [Bool.or_assoc] at htime ⊢
        simp only [htime, Bool.or_true]
      · simp [Written.body, Written.date, Written.timed, Written.time, Components.hasTime,
          Written.components, htime]
    next => cases h
  next => cases h

theorem Mark.char_injective {mark mark' : Mark} (h : mark.char = mark'.char) : mark = mark' := by
  cases mark <;> cases mark' <;> first | rfl | cases h

theorem Numeral.eq_of_chars {n n' : Numeral} (hamount : n.amount = n'.amount)
    (hchars : n.chars = n'.chars) : n = n' := by
  obtain ⟨whole, fraction, _, _⟩ := n
  obtain ⟨whole', fraction', _, _⟩ := n'
  obtain rfl : whole = whole' := congrArg Amount.whole hamount
  have hrest := List.append_cancel_left hchars
  cases fraction with
  | none =>
    cases fraction' with
    | none => rfl
    | some fraction' => cases hrest
  | some fraction =>
    cases fraction' with
    | none => cases hrest
    | some fraction' =>
      obtain ⟨hmark, hdigits⟩ := List.cons.inj hrest
      obtain rfl : fraction = fraction' := Prod.ext (Mark.char_injective hmark) hdigits
      rfl

theorem given_append_inj {units rest rest' : List Char} (hrest : Opens units rest)
    (hrest' : Opens units rest') {unit : Char} (hunit : unit ∉ units)
    (hends : (unit :: units).all endsNumber = true) {o o' : Option Numeral}
    (h : given unit o ++ rest = given unit o' ++ rest') : o = o' ∧ rest = rest' := by
  have hread := component_given hrest unit hunit hends o
  rw [h, component_given hrest' unit hunit hends o'] at hread
  obtain ⟨hamount, rfl⟩ := Prod.mk.inj hread
  refine ⟨?_, rfl⟩
  have hgiven := List.append_cancel_right h
  cases o with
  | none =>
    cases o' with
    | none => rfl
    | some n' => cases hamount
  | some n =>
    cases o' with
    | none => cases hamount
    | some n' =>
      have hchars := List.append_cancel_right hgiven
      rw [Numeral.eq_of_chars (Option.some.inj hamount).symm hchars]

namespace Written

theorem date_inj {w w' : Written} (h : w.body = w'.body) : w.years = w'.years ∧
    w.months = w'.months ∧ w.weeks = w'.weeks ∧ w.days = w'.days ∧ w.timed = w'.timed := by
  unfold body date at h
  simp only [List.append_assoc] at h
  have hdays := fun v : Written => v.opens_timed.cons 'D' v.days
  have hweeks := fun v : Written => (hdays v).cons 'W' v.weeks
  have hmonths := fun v : Written => (hweeks v).cons 'M' v.months
  obtain ⟨hyear, h⟩ := given_append_inj (hmonths w) (hmonths w') (by decide) (by decide) h
  obtain ⟨hmonth, h⟩ := given_append_inj (hweeks w) (hweeks w') (by decide) (by decide) h
  obtain ⟨hweek, h⟩ := given_append_inj (hdays w) (hdays w') (by decide) (by decide) h
  obtain ⟨hday, h⟩ :=
    given_append_inj w.opens_timed w'.opens_timed (by decide) (by decide) h
  exact ⟨hyear, hmonth, hweek, hday, h⟩

theorem time_inj {w w' : Written} (h : w.timed = w'.timed) :
    w.hours = w'.hours ∧ w.minutes = w'.minutes ∧ w.seconds = w'.seconds := by
  unfold timed at h
  split at h <;> split at h
  next =>
    have hsame := (List.cons.inj h).2
    unfold time at hsame
    simp only [List.append_assoc] at hsame
    have hseconds := fun v : Written => (Opens.nil : Opens [] []).cons 'S' v.seconds
    have hminutes := fun v : Written => (hseconds v).cons 'M' v.minutes
    simp only [List.append_nil] at hseconds hminutes
    obtain ⟨hhour, hsame⟩ :=
      given_append_inj (hminutes w) (hminutes w') (by decide) (by decide) hsame
    obtain ⟨hminute, hsame⟩ :=
      given_append_inj (hseconds w) (hseconds w') (by decide) (by decide) hsame
    rw [← List.append_nil (given 'S' w.seconds), ← List.append_nil (given 'S' w'.seconds)] at hsame
    have hlast := @given_append_inj [] _ _ .nil .nil _ (by decide) (by decide) _ _ hsame
    exact ⟨hhour, hminute, hlast.1⟩
  next => cases h
  next => cases h
  next hw hw' =>
    obtain ⟨hhours, hminutes, hseconds⟩ := absent_of_hasTime (w := w) (by simpa using hw)
    obtain ⟨hhours', hminutes', hseconds'⟩ := absent_of_hasTime (w := w') (by simpa using hw')
    exact ⟨hhours.trans hhours'.symm, hminutes.trans hminutes'.symm, hseconds.trans hseconds'.symm⟩

/-- A text is written in one way only. -/
theorem eq_of_chars {w w' : Written} (h : w.chars = w'.chars) : w = w' := by
  have hparts : w.negative = w'.negative ∧ w.body = w'.body := by
    unfold chars at h
    cases hw : w.negative <;> cases hw' : w'.negative <;> simp_all
  obtain ⟨hsign, hbody⟩ := hparts
  obtain ⟨hyears, hmonths, hweeks, hdays, htimed⟩ := date_inj hbody
  obtain ⟨hhours, hminutes, hseconds⟩ := time_inj htimed
  cases w
  cases w'
  simp_all

end Written

theorem ofChars?_eq_some_iff (cs : List Char) (d : Duration) :
    ofChars? cs = some d ↔ ∃ w : Written, w.chars = cs ∧ w.duration = d := by
  constructor
  · intro h
    unfold ofChars? at h
    split at h
    next body =>
      obtain ⟨c, hc, rfl⟩ := Option.map_eq_some_iff.mp h
      obtain ⟨w, hsign, hbody, rfl⟩ := exists_written hc true
      exact ⟨w, by rw [Written.chars, hsign, hbody]; rfl, by rw [Written.duration, hsign]⟩
    next body =>
      obtain ⟨c, hc, rfl⟩ := Option.map_eq_some_iff.mp h
      obtain ⟨w, hsign, hbody, rfl⟩ := exists_written hc false
      exact ⟨w, by rw [Written.chars, hsign, hbody]; rfl, by rw [Written.duration, hsign]⟩
    next => cases h
  · rintro ⟨w, rfl, rfl⟩
    unfold Written.chars Written.duration
    cases w.negative <;> simp [ofChars?, w.ofChars?_body]

theorem ofText?_neg {text : String} {w : Written} (h : w.chars = text.toList)
    (hsign : w.negative = false) : ofText? ("-" ++ text) = some ⟨w.duration.seconds.neg⟩ := by
  let other : Written := { w with negative := true }
  have hchars : other.chars = ("-" ++ text).toList := by
    rw [String.toList_append, ← h]
    unfold Written.chars
    rw [hsign]
    rfl
  have hseconds : other.duration = ⟨w.duration.seconds.neg⟩ := by
    unfold Written.duration
    rw [hsign]
    rfl
  exact (ofChars?_eq_some_iff _ _).mpr ⟨other, hchars, hseconds⟩

/-- Where a plan subtracts a text, exactly a text that cannot be read is refused as a
duration. -/
theorem adjust_invalidDuration_iff (text : String) (value : Value) (refused : String) :
    Interpreter.adjust (some text) value = .error (.invalidDuration refused) ↔
      refused = text ∧ ofText? text = none := by
  unfold Interpreter.adjust
  dsimp only
  split
  next hnone => simp [hnone, eq_comm]
  next d hd => split <;> simp [hd]

/-- A text is read exactly when it is a written duration, as the one duration that it is
written for. Any other text is refused where a plan subtracts it, with the text itself;
and a `-` before a text that has no sign negates the seconds. -/
theorem ofText?_written (text : String) :
    (∀ d, ofText? text = some d ↔ ∃ w : Written, w.chars = text.toList ∧ w.duration = d) ∧
    (∀ w w' : Written, w.chars = text.toList → w'.chars = text.toList → w = w') ∧
    (∀ value refused, Interpreter.adjust (some text) value = .error (.invalidDuration refused) ↔
      refused = text ∧ ¬∃ w : Written, w.chars = text.toList) ∧
    ∀ d, ofText? text = some d → text.toList.head? ≠ some '-' →
      ofText? ("-" ++ text) = some ⟨d.seconds.neg⟩ := by
  have hread := ofChars?_eq_some_iff text.toList
  refine ⟨hread, fun w w' h h' => Written.eq_of_chars (h.trans h'.symm), ?_, ?_⟩
  · intro value refused
    rw [adjust_invalidDuration_iff]
    have hnone : ofText? text = none ↔ ¬∃ w : Written, w.chars = text.toList := by
      rw [← Option.not_isSome_iff_eq_none, Option.isSome_iff_exists]
      refine not_congr ⟨?_, ?_⟩
      · rintro ⟨d, hd⟩
        obtain ⟨w, hw, _⟩ := (hread d).mp hd
        exact ⟨w, hw⟩
      · rintro ⟨w, hw⟩
        exact ⟨_, (hread _).mpr ⟨w, hw, rfl⟩⟩
    rw [hnone]
  · intro d hd hsign
    obtain ⟨w, hchars, rfl⟩ := (hread d).mp hd
    refine ofText?_neg hchars ?_
    cases hnegative : w.negative with
    | false => rfl
    | true =>
      rw [← hchars, Written.chars, hnegative] at hsign
      exact absurd rfl hsign

example : (ofText? "P1M").isSome ∧ (ofText? "PT1,5M").isSome ∧ ofText? "P1DT" = none := by
  decide +kernel

end PlanFold.Duration
