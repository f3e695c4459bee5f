import PlanFold.Proofs.DecimalReading
import PlanFold.Proofs.DurationGrammar

/-!
# Reading the text of a duration

Each component adds its amount times its unit to the seconds of a duration. For
whole amounts that sum is exact as long as it does not exceed what doubles count.

The text of a duration writes its number of seconds behind `PT`, whatever the
number is. What is written there is a number of the grammar exactly where the
seconds are finite and carry no sign; such a text is read as the duration, and
any other is not read at all. A text that is read with a sign, or one whose
seconds are too many for a double, has a duration of the other kind.
-/

set_option autoImplicit false

namespace PlanFold

open Numeric

namespace Duration

namespace Components

def count (amount : Option Amount) : Nat :=
  amount.elim 0 fun a => Nat.ofDigitChars 10 a.whole 0

def IsWhole (amount : Option Amount) : Prop := ∀ a, amount = some a → a.fraction = []

theorem valueOf_whole {amount : Option Amount} (h : IsWhole amount) :
    valueOf amount = .ofInt (count amount) := by
  cases amount with
  | none => rfl
  | some a =>
    have hdecimal : a.decimal = ⟨Nat.ofDigitChars 10 a.whole 0, ((0 : Nat) : Int)⟩ := by
      simp [Amount.decimal, h a rfl]
    have hsign : decide (((count (some a) : Nat) : Int) < 0) = false :=
      decide_eq_false (by omega)
    rw [valueOf, Amount.value, hdecimal, Decimal.toBinary64_eq, Decimal.ratio_of_nonneg,
      pow_zero, Nat.mul_one, Binary64.ofInt, hsign, Int.natAbs_natCast]
    rfl

theorem valueOf_mul {amount : Option Amount} (h : IsWhole amount) (unit : Nat)
    (hunit : 0 < unit ∧ unit ≤ 2 ^ 53) (hlimit : count amount * unit ≤ 2 ^ 53) :
    (valueOf amount).mul (.ofInt unit) = .ofInt ((count amount * unit : Nat) : Int) := by
  have hcount : count amount ≤ 2 ^ 53 := (Nat.le_mul_of_pos_right _ hunit.1).trans hlimit
  rw [valueOf_whole h, Binary64.ofInt_mul hcount hunit.2 hlimit]

structure WholeUnits (c : Components) : Prop where
  years : IsWhole c.years
  months : IsWhole c.months
  weeks : IsWhole c.weeks
  days : IsWhole c.days
  hours : IsWhole c.hours
  minutes : IsWhole c.minutes

def unitSeconds (c : Components) : Nat :=
  count c.years * 31556952 + count c.months * 2629746 + count c.weeks * 7 * 86400 +
    count c.days * 86400 + count c.hours * 3600 + count c.minutes * 60

theorem year_eq : year = .ofInt (31556952 : Nat) := by decide +kernel

theorem month_eq : year.divNat 12 = .ofInt (2629746 : Nat) := by decide +kernel

theorem total_eq {c : Components} (h : c.WholeUnits) (hlimit : c.unitSeconds ≤ 2 ^ 53) :
    c.total = (Binary64.ofInt c.unitSeconds).add (valueOf c.seconds) := by
  unfold unitSeconds at hlimit ⊢
  have hyears := valueOf_mul h.years 31556952 (by decide) (by grind)
  have hmonths := valueOf_mul h.months 2629746 (by decide) (by grind)
  have hweek := valueOf_mul h.weeks 7 (by decide) (by grind)
  have hweeks : (Binary64.ofInt ((count c.weeks * 7 : Nat) : Int)).mul (.ofInt (86400 : Nat)) =
      .ofInt ((count c.weeks * 7 * 86400 : Nat) : Int) :=
    Binary64.ofInt_mul (by grind) (by decide) (by grind)
  have hdays := valueOf_mul h.days 86400 (by decide) (by grind)
  have hhours := valueOf_mul h.hours 3600 (by decide) (by grind)
  have hminutes := valueOf_mul h.minutes 60 (by decide) (by grind)
  rw [← hweek] at hweeks
  unfold total
  rw [month_eq, year_eq]
  simp only [Nat.cast_ofNat] at *
  rw [hyears, hmonths, hweeks, hdays, hhours, hminutes]
  rw [Binary64.ofInt_add (by grind), Binary64.ofInt_add (by grind), Binary64.ofInt_add (by grind),
    Binary64.ofInt_add (by grind), Binary64.ofInt_add hlimit]

/-- Each component adds its amount times its unit, exactly as long as the sum does not
exceed what doubles count. -/
theorem total_whole {c : Components} (h : c.WholeUnits) (hseconds : IsWhole c.seconds)
    (hlimit : c.unitSeconds + count c.seconds ≤ 2 ^ 53) :
    c.total = .ofInt ((c.unitSeconds + count c.seconds : Nat) : Int) := by
  have hunits : c.unitSeconds ≤ 2 ^ 53 := (Nat.le_add_right _ _).trans hlimit
  rw [total_eq h hunits, valueOf_whole hseconds, Binary64.ofInt_add hlimit]

example : ofText? "P1MT1M" = some ⟨.ofInt (2629746 + 60)⟩ := by decide +kernel

end Components

theorem digits_toDigits (n : Nat) : Digits (Nat.toDigits 10 n) :=
  ⟨Nat.toDigits_ne_nil, fun _ hc => Nat.isDigit_of_mem_toDigits (by decide) (by decide) hc⟩

theorem digits_zeros {n : Nat} {c : Char} (h : c ∈ List.replicate n '0') : c.isDigit = true := by
  rw [List.eq_of_mem_replicate h]
  rfl

theorem digits_zeros_append (zeros n : Nat) :
    Digits (List.replicate zeros '0' ++ Nat.toDigits 10 n) := by
  obtain ⟨hne, hdigits⟩ := digits_toDigits n
  refine ⟨by simp [hne], fun c hc => ?_⟩
  exact (List.mem_append.mp hc).elim digits_zeros (hdigits c)

theorem ofDigitChars_zeros_append (zeros n : Nat) :
    Nat.ofDigitChars 10 (List.replicate zeros '0' ++ Nat.toDigits 10 n) 0 = n := by
  rw [Nat.ofDigitChars_append, Nat.ofDigitChars_replicate_zero, Nat.mul_zero]
  exact Nat.ofDigitChars_ten_toDigits

namespace Numeral

def plain (whole : List Char) (h : Digits whole) : Numeral := ⟨whole, none, h, nofun⟩

theorem chars_plain {whole : List Char} (h : Digits whole) : (plain whole h).chars = whole :=
  List.append_nil whole

theorem decimal_plain {whole : List Char} (h : Digits whole) :
    (plain whole h).amount.decimal = ⟨Nat.ofDigitChars 10 whole 0, ((0 : Nat) : Int)⟩ := by
  simp [plain, amount, Amount.decimal]

def pointed (whole fraction : List Char) (hwhole : Digits whole) (hfraction : Digits fraction) :
    Numeral :=
  ⟨whole, some (.point, fraction), hwhole, fun _ _ h => by cases h; exact hfraction⟩

theorem decimal_pointed {whole fraction : List Char} (hwhole : Digits whole)
    (hfraction : Digits fraction) : (pointed whole fraction hwhole hfraction).amount.decimal =
      ⟨Nat.ofDigitChars 10 (whole ++ fraction) 0, -fraction.length⟩ := rfl

end Numeral

theorem exists_numeral_whole (digits zeros : Nat) :
    ∃ n : Numeral, n.chars = Layout.plain false ⟨digits, zeros⟩ ∧
      ∀ negative, n.amount.decimal.toBinary64 negative =
        Decimal.toBinary64 negative ⟨digits, zeros⟩ := by
  obtain ⟨hne, hdigits⟩ := digits_toDigits digits
  have hwhole : Digits (Nat.toDigits 10 digits ++ List.replicate zeros '0') :=
    ⟨by simp [hne], fun c hc => (List.mem_append.mp hc).elim (hdigits c) digits_zeros⟩
  refine ⟨.plain _ hwhole, by simp [Numeral.chars_plain, Layout.plain], fun negative => ?_⟩
  rw [Numeral.decimal_plain, Nat.ofDigitChars_append, Nat.ofDigitChars_replicate_zero,
    Nat.ofDigitChars_ten_toDigits]
  apply Decimal.toBinary64_congr
  rw [Decimal.ratio_of_nonneg, Decimal.ratio_of_nonneg]
  ring

theorem exists_numeral_fraction (digits : Nat) {places : Nat} (h : 0 < places) :
    ∃ n : Numeral, n.chars = Layout.plain false ⟨digits, -places⟩ ∧
      n.amount.decimal = ⟨digits, -places⟩ := by
  obtain ⟨hne, hdigits⟩ := digits_toDigits digits
  have hread : Nat.ofDigitChars 10 (Nat.toDigits 10 digits) 0 = digits :=
    Nat.ofDigitChars_ten_toDigits
  unfold Layout.plain
  simp only [Int.neg_neg, Int.toNat_natCast]
  rw [if_neg (by omega)]
  generalize hcs : Nat.toDigits 10 digits = cs at *
  split
  next hlength =>
    have hzero : Digits ['0'] := ⟨by simp, by simp⟩
    have hfraction : Digits (List.replicate (places - cs.length) '0' ++ cs) :=
      ⟨by simp [hne], fun c hc => (List.mem_append.mp hc).elim digits_zeros (hdigits c)⟩
    refine ⟨.pointed _ _ hzero hfraction, rfl, ?_⟩
    rw [Numeral.decimal_pointed]
    simp [Nat.ofDigitChars_append, Nat.ofDigitChars_cons, Nat.ofDigitChars_replicate_zero, hread,
      hlength]
  next hlength =>
    have hwhole : Digits (cs.take (cs.length - places)) :=
      ⟨by simp [hne]; omega, fun c hc => hdigits c (List.mem_of_mem_take hc)⟩
    have hfraction : Digits (cs.drop (cs.length - places)) :=
      ⟨by simp; omega, fun c hc => hdigits c (List.mem_of_mem_drop hc)⟩
    have hcount : cs.length - (cs.length - places) = places := by omega
    refine ⟨.pointed _ _ hwhole hfraction, (List.append_assoc _ ['.'] _).symm, ?_⟩
    rw [Numeral.decimal_pointed, List.take_append_drop, hread, List.length_drop, hcount]

/-- What is written without an exponent is a number, and is read as the decimal. -/
theorem exists_numeral_of_decimal (d : Decimal) :
    ∃ n : Numeral, n.chars = Layout.plain false d ∧
      ∀ negative, n.amount.decimal.toBinary64 negative = d.toBinary64 negative := by
  obtain ⟨digits, exponent⟩ := d
  rcases le_or_gt 0 exponent with hexponent | hexponent
  · obtain ⟨zeros, rfl⟩ := Int.eq_ofNat_of_zero_le hexponent
    exact exists_numeral_whole digits zeros
  · obtain ⟨places, rfl⟩ : ∃ places : Nat, exponent = -places := ⟨(-exponent).toNat, by omega⟩
    have hplaces : 0 < places := by omega
    obtain ⟨n, hchars, hdecimal⟩ := exists_numeral_fraction digits hplaces
    exact ⟨n, hchars, fun negative => by rw [hdecimal]⟩

def onlySeconds (n : Numeral) : Written :=
  ⟨false, none, none, none, none, none, none, some n, rfl⟩

theorem chars_onlySeconds (n : Numeral) :
    (onlySeconds n).chars = 'P' :: 'T' :: (n.chars ++ ['S']) := rfl

theorem duration_onlySeconds (n : Numeral) :
    (onlySeconds n).duration = ⟨(onlySeconds n).components.total⟩ := by
  have hsign : (onlySeconds n).negative = false := rfl
  rw [Written.duration, hsign, signed, if_neg Bool.false_ne_true]

theorem zero_add {x : Double} (h : x.negative = false) :
    (Binary64.ofInt 0).add (.finite x) = .finite x := by
  obtain ⟨negative, units, hunits⟩ := x
  obtain rfl : negative = false := h
  have hsum : (Double.zero false).signed + Double.signed ⟨false, units, hunits⟩ = units := by
    simp [Double.signed, Double.zero]
  rw [Binary64.ofInt_zero]
  show Binary64.ofSigned (false && false) _ = _
  rw [hsum, Bool.and_self, Binary64.ofSigned_natCast hunits]

theorem total_onlySeconds {n : Numeral} {x : Double} (hx : x.negative = false)
    (hvalue : n.amount.value = .finite x) : (onlySeconds n).components.total = .finite x := by
  have hwhole : (onlySeconds n).components.WholeUnits := ⟨nofun, nofun, nofun, nofun, nofun, nofun⟩
  have hzero : (onlySeconds n).components.unitSeconds = 0 := by
    simp [Components.unitSeconds, Components.count, onlySeconds, Written.components]
  have hseconds : Components.valueOf (onlySeconds n).components.seconds = .finite x := hvalue
  rw [Components.total_eq hwhole (hzero ▸ Nat.zero_le _), hzero, hseconds]
  exact zero_add hx

def Unsigned (d : Duration) : Prop := ∃ x, d.seconds = .finite x ∧ x.negative = false

theorem toBinary64_shortest_unsigned (tie : Tie) {x : Double} (h : x.negative = false) :
    (shortest tie x.units).toBinary64 false = .finite x := by
  obtain ⟨negative, units, hunits⟩ := x
  rw [toBinary64_shortest tie hunits, ← h]

theorem secondsChars_unsigned {x : Double} (h : x.negative = false) :
    secondsChars (.finite x) = Layout.plain false (shortest .upper x.units) := by
  show (if x.negative then ['-'] else []) ++ Layout.plain false (shortest .upper x.units) = _
  rw [h]
  rfl

theorem ofText?_unsigned {d : Duration} (h : d.Unsigned) : ofText? d.text = some d := by
  obtain ⟨x, hseconds, hsign⟩ := h
  obtain ⟨n, hchars, hread⟩ := exists_numeral_of_decimal (shortest .upper x.units)
  have hvalue : n.amount.value = d.seconds := by
    rw [Amount.value, hread, toBinary64_shortest_unsigned _ hsign, hseconds]
  have htotal := total_onlySeconds hsign (hvalue.trans hseconds)
  refine (ofChars?_eq_some_iff _ _).mpr ⟨onlySeconds n, ?_, ?_⟩
  · rw [chars_onlySeconds, hchars, text, String.toList_ofList, hseconds,
      secondsChars_unsigned hsign, List.cons_append, List.cons_append]
  · rw [duration_onlySeconds, htotal, ← hseconds]

theorem ofChars?_letter {c : Char} (h : c.isDigit = false) (rest : List Char) :
    ofChars? ('P' :: 'T' :: c :: rest) = none := by
  have habsent : ∀ unit (cs : List Char), Opens [] cs → component unit cs = (none, cs) :=
    fun unit cs hcs => component_of_opens hcs (List.not_mem_nil) rfl
  have hdate : Opens [] ('T' :: c :: rest) := .letter rfl
  have htime : Opens [] (c :: rest) := .letter h
  simp [ofChars?, Components.ofChars?, habsent _ _ hdate, habsent _ _ htime, Components.hasTime]

theorem secondsChars_letter {seconds : Binary64}
    (h : ∀ x, seconds = .finite x → x.negative = true) :
    ∃ c rest, secondsChars seconds = c :: rest ∧ c.isDigit = false := by
  cases seconds with
  | finite x => exact ⟨'-', _, by rw [secondsChars, Layout.finite, h x rfl]; rfl, rfl⟩
  | infinite negative =>
    cases negative with
    | false => exact ⟨'i', _, rfl, rfl⟩
    | true => exact ⟨'-', _, rfl, rfl⟩
  | undefined => exact ⟨'N', _, rfl, rfl⟩

theorem ofText?_other {d : Duration} (h : ¬d.Unsigned) : ofText? d.text = none := by
  have hsign : ∀ x, d.seconds = .finite x → x.negative = true := fun x hx =>
    Bool.eq_true_of_not_eq_false fun hx' => h ⟨x, hx, hx'⟩
  obtain ⟨c, rest, hchars, hc⟩ := secondsChars_letter hsign
  rw [ofText?, text, String.toList_ofList, hchars]
  exact ofChars?_letter hc _

inductive NoSign : Binary64 → Prop
  | finite {x : Double} : x.negative = false → NoSign (.finite x)
  | infinite : NoSign (.infinite false)

theorem noSign_ofUnits (num den : Nat) : NoSign (.ofUnits false num den) := by
  unfold Binary64.ofUnits
  dsimp only
  split
  · exact .finite rfl
  · exact .infinite

theorem noSign_ofInt (n : Nat) : NoSign (.ofInt n) := by
  rw [Binary64.ofInt, decide_eq_false (Int.not_lt.mpr (Int.natCast_nonneg n))]
  exact noSign_ofUnits _ _

theorem noSign_ofSigned {n : Int} (h : 0 ≤ n) : NoSign (.ofSigned false n) := by
  unfold Binary64.ofSigned
  split
  · exact .finite rfl
  · rw [decide_eq_false (Int.not_lt.mpr h)]
    exact noSign_ofUnits _ _

theorem signed_nonneg {x : Double} (h : x.negative = false) : 0 ≤ x.signed := by
  unfold Double.signed
  rw [h]
  exact Int.natCast_nonneg _

theorem NoSign.add {x y : Binary64} (hx : NoSign x) (hy : NoSign y) : NoSign (x.add y) := by
  cases hx with
  | infinite =>
    cases hy with
    | infinite => exact .infinite
    | finite => exact .infinite
  | finite hx =>
    cases hy with
    | infinite => exact .infinite
    | finite hy =>
      rw [Binary64.add, hx, hy]
      exact noSign_ofSigned (Int.add_nonneg (signed_nonneg hx) (signed_nonneg hy))

def isPositive : Binary64 → Bool
  | .finite x => !x.negative && !x.isZero
  | _ => false

theorem NoSign.mul {x y : Binary64} (hx : NoSign x) (hy : isPositive y = true) :
    NoSign (x.mul y) := by
  cases y with
  | undefined => cases hy
  | infinite negative => cases hy
  | finite y =>
    obtain ⟨hsign, hzero⟩ : y.negative = false ∧ y.isZero = false := by
      simpa [isPositive] using hy
    cases hx with
    | infinite =>
      rw [Binary64.mul, hsign, hzero]
      exact .infinite
    | finite hx =>
      rw [Binary64.mul, hx, hsign]
      exact noSign_ofUnits _ _

theorem noSign_valueOf (amount : Option Amount) : NoSign (Components.valueOf amount) := by
  cases amount with
  | none => exact noSign_ofInt 0
  | some a =>
    rw [Components.valueOf, Amount.value, Decimal.toBinary64_eq]
    exact noSign_ofUnits _ _

theorem noSign_total (c : Components) : NoSign c.total := by
  have hyear : isPositive Components.year = true := by decide +kernel
  have hmonth : isPositive (Components.year.divNat 12) = true := by decide +kernel
  have hweek : isPositive (.ofInt 7) = true := by decide +kernel
  have hday : isPositive (.ofInt 86400) = true := by decide +kernel
  have hhour : isPositive (.ofInt 3600) = true := by decide +kernel
  have hminute : isPositive (.ofInt 60) = true := by decide +kernel
  have hyears := (noSign_valueOf c.years).mul hyear
  have hmonths := hyears.add ((noSign_valueOf c.months).mul hmonth)
  have hweeks := hmonths.add (((noSign_valueOf c.weeks).mul hweek).mul hday)
  have hdays := hweeks.add ((noSign_valueOf c.days).mul hday)
  have hhours := hdays.add ((noSign_valueOf c.hours).mul hhour)
  have hminutes := hhours.add ((noSign_valueOf c.minutes).mul hminute)
  exact hminutes.add (noSign_valueOf c.seconds)

/-- A text that is read has seconds without a sign exactly where it has none itself. -/
theorem unsigned_iff {text : String} {d : Duration} (h : ofText? text = some d) :
    d.Unsigned ↔ text.toList.head? ≠ some '-' ∧ d.seconds.finite?.isSome := by
  obtain ⟨w, hchars, rfl⟩ := (ofChars?_eq_some_iff _ _).mp h
  have htotal := noSign_total w.components
  rw [← hchars]
  unfold Unsigned Written.duration Written.chars signed
  generalize w.components.total = seconds at htotal ⊢
  cases htotal with
  | finite hx => cases w.negative <;> simp [hx, Binary64.neg, Binary64.finite?, Double.neg]
  | infinite => cases w.negative <;> simp [Binary64.neg, Binary64.finite?]

/-- The text of a duration that was read is read as that duration again, where it was
written without a sign and its seconds are finite. It is not read at all otherwise. -/
theorem ofText?_text {text : String} {d : Duration} (h : ofText? text = some d) :
    ofText? d.text =
      if text.toList.head? ≠ some '-' ∧ d.seconds.finite?.isSome then some d else none := by
  have hiff := unsigned_iff h
  split
  next hread => exact ofText?_unsigned (hiff.mpr hread)
  next hread => exact ofText?_other fun hunsigned => hread (hiff.mp hunsigned)

/-- A day and a quarter of a second come back as seconds. -/
theorem ofText?_text_fraction : ∃ d, ofText? "P1DT0,25S" = some d ∧ d.text = "PT86400.25S" ∧
    ofText? d.text = some d := by
  let x : Double := ⟨false, 345601 * 2 ^ 1072, by decide +kernel⟩
  have hread : ofText? "P1DT0,25S" = some ⟨.finite x⟩ := by decide +kernel
  exact ⟨⟨.finite x⟩, hread, by decide +kernel, ofText?_text hread⟩

/-- The sign of a text goes behind `PT`, where none is read. -/
theorem ofText?_text_signed : ∃ d, ofText? "-PT40S" = some d ∧ d.text = "PT-40S" ∧
    ofText? d.text = none := by
  let x : Double := ⟨true, 40 * unitsInOne, by decide +kernel⟩
  have htext : text ⟨.finite x⟩ = "PT-40S" := by decide +kernel
  exact ⟨⟨.finite x⟩, by decide +kernel, htext, by rw [htext]; decide +kernel⟩

end Duration

end PlanFold
