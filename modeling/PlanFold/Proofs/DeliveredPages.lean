import PlanFold.Proofs.DurationText
import PlanFold.Proofs.OwnResult
import PlanFold.Proofs.WholeDifferences

/-!
# Overriding the count of delivered pages

A step can say how many pages it delivered, with a number or with a text that
begins with one. Blanks, a sign and zeros may stand before the number, and
anything that does not go on with a digit behind it. The number of a text is
read without its sign, so the least number of 64 signed bits is too large for a
text although it is not for a number.

Only that one count is written, and only into a metadata mapping that is there.
-/

set_option autoImplicit false

namespace PlanFold

open Numeric

inductive Sign where
  | absent
  | plus
  | minus

namespace Sign

def chars : Sign → List Char
  | .absent => []
  | .plus => ['+']
  | .minus => ['-']

def apply : Sign → Int → Int
  | .minus, n => -n
  | _, n => n

end Sign

structure CountText where
  blanks : List Char
  sign : Sign
  zeros : Nat
  number : Nat
  rest : List Char
  blanks_blank : ∀ c ∈ blanks, Text.isBlank c = true
  rest_ends : ∀ c ∈ rest.head?, c.isDigit = false

namespace CountText

def digits (t : CountText) : List Char :=
  List.replicate t.zeros '0' ++ Nat.toDigits 10 t.number

def text (t : CountText) : String :=
  String.ofList (t.blanks ++ (t.sign.chars ++ (t.digits ++ t.rest)))

def value (t : CountText) : Int := t.sign.apply t.number

def ofInt (n : Int) : CountText :=
  ⟨[], if n < 0 then .minus else .absent, 0, n.natAbs, [], nofun, nofun⟩

theorem digits_digits (t : CountText) : Duration.Digits t.digits :=
  Duration.digits_zeros_append t.zeros t.number

theorem ofDigitChars_digits (t : CountText) : Nat.ofDigitChars 10 t.digits 0 = t.number :=
  Duration.ofDigitChars_zeros_append t.zeros t.number

end CountText

def Numberless (text : String) : Prop :=
  ∀ (blanks : List Char) (sign : Sign) (c : Char) (rest : List Char),
    (∀ b ∈ blanks, Text.isBlank b = true) →
      text.toList = blanks ++ (sign.chars ++ c :: rest) → c.isDigit = false

theorem isBlank_of_isDigit {c : Char} (h : c.isDigit = true) : Text.isBlank c = false := by
  have hrange : 48 ≤ c.toNat ∧ c.toNat ≤ 57 := by
    simpa [Char.isDigit, UInt32.le_iff_toNat_le] using h
  simp only [Text.isBlank, Text.blankRanges, List.any_cons, List.any_nil, Bool.or_false,
    Bool.or_eq_false_iff, Bool.and_eq_false_iff, decide_eq_false_iff_not]
  omega

def Sign.Before (sign : Sign) (cs : List Char) : Prop :=
  match sign with
  | .absent => ∀ c ∈ cs.head?, Text.isBlank c = false ∧ c ≠ '-' ∧ c ≠ '+'
  | _ => True

theorem exists_signed (cs : List Char) : ∃ (blanks : List Char) (sign : Sign) (rest : List Char),
    cs = blanks ++ (sign.chars ++ rest) ∧ (∀ b ∈ blanks, Text.isBlank b = true) ∧
      sign.Before rest := by
  have hblanks : ∀ b ∈ cs.takeWhile Text.isBlank, Text.isBlank b = true :=
    fun b hb => List.mem_takeWhile_imp hb
  have hsplit : ∀ (sign : Sign) (rest : List Char),
      cs.dropWhile Text.isBlank = sign.chars ++ rest →
        cs = cs.takeWhile Text.isBlank ++ (sign.chars ++ rest) := by
    intro sign rest hrest
    rw [← hrest, List.takeWhile_append_dropWhile]
  cases hrest : cs.dropWhile Text.isBlank with
  | nil => exact ⟨_, .absent, [], hsplit .absent [] hrest, hblanks, nofun⟩
  | cons c rest =>
    by_cases hminus : c = '-'
    · exact ⟨_, .minus, rest, hsplit .minus rest (by rw [hrest, hminus]; rfl), hblanks, trivial⟩
    by_cases hplus : c = '+'
    · exact ⟨_, .plus, rest, hsplit .plus rest (by rw [hrest, hplus]; rfl), hblanks, trivial⟩
    refine ⟨_, .absent, c :: rest, hsplit .absent _ hrest, hblanks, ?_⟩
    rintro c' ⟨⟩
    have hblank := List.head?_dropWhile_not Text.isBlank cs
    exact ⟨by simpa [hrest] using hblank, hminus, hplus⟩

theorem dropBlanks_append {blanks cs : List Char}
    (hblanks : ∀ b ∈ blanks, Text.isBlank b = true)
    (hcs : ∀ c ∈ cs.head?, Text.isBlank c = false) : Text.dropBlanks (blanks ++ cs) = cs := by
  rw [Text.dropBlanks, List.dropWhile_append_of_pos hblanks]
  cases cs with
  | nil => rfl
  | cons c rest => simp [hcs c rfl]

theorem textCount_signed {text : String} {blanks rest : List Char} {sign : Sign}
    (htext : text.toList = blanks ++ (sign.chars ++ rest))
    (hblanks : ∀ b ∈ blanks, Text.isBlank b = true) (hrest : sign.Before rest) :
    textCount text = sign.apply (leadingNumber rest) := by
  have hhead : ∀ c ∈ (sign.chars ++ rest).head?, Text.isBlank c = false := by
    cases sign with
    | absent => exact fun c hc => (hrest c hc).1
    | plus => intro c hc; cases hc; decide
    | minus => intro c hc; cases hc; decide
  rw [textCount, htext, dropBlanks_append hblanks hhead]
  cases sign with
  | plus => rfl
  | minus => rfl
  | absent =>
    rw [Sign.chars, List.nil_append]
    split
    · exact absurd rfl (hrest '-' rfl).2.1
    · exact absurd rfl (hrest '+' rfl).2.2
    · rfl

theorem leadingNumber_digits {digits rest : List Char} (hdigits : ∀ c ∈ digits, c.isDigit = true)
    (hrest : ∀ c ∈ rest.head?, c.isDigit = false) :
    leadingNumber (digits ++ rest) =
      if (Nat.ofDigitChars 10 digits 0 : Int) ≤ greatestSigned then
        (Nat.ofDigitChars 10 digits 0 : Int) else 0 := by
  rw [leadingNumber, (Duration.span_digits rest hdigits hrest).1]

/-- A text that begins with a number counts as the number, if it fits without the sign. -/
theorem CountText.textCount_text (t : CountText) :
    textCount t.text = if (t.number : Int) ≤ greatestSigned then t.value else 0 := by
  obtain ⟨hne, hdigits⟩ := t.digits_digits
  have hbefore : t.sign.Before (t.digits ++ t.rest) := by
    unfold Sign.Before
    split
    · intro c hc
      have hdigit : c.isDigit = true := by
        rw [List.head?_append, List.head?_eq_some_head hne] at hc
        cases hc
        exact hdigits _ (List.head_mem hne)
      refine ⟨isBlank_of_isDigit hdigit, ?_, ?_⟩ <;>
        · rintro rfl
          cases hdigit
    · trivial
  have htext : t.text.toList = t.blanks ++ (t.sign.chars ++ (t.digits ++ t.rest)) :=
    String.toList_ofList
  rw [textCount_signed htext t.blanks_blank hbefore, leadingNumber_digits hdigits t.rest_ends,
    t.ofDigitChars_digits]
  split
  · rfl
  · cases t.sign <;> rfl

theorem Numberless.textCount {text : String} (h : Numberless text) :
    PlanFold.textCount text = 0 := by
  obtain ⟨blanks, sign, rest, htext, hblanks, hrest⟩ := exists_signed text.toList
  have hhead : ∀ c ∈ rest.head?, c.isDigit = false := by
    intro c hc
    obtain ⟨others, rfl⟩ := List.head?_eq_some_iff.mp hc
    exact h blanks sign c others hblanks htext
  have hzero : leadingNumber rest = 0 := leadingNumber_digits (List.forall_mem_nil _) hhead
  rw [textCount_signed htext hblanks hrest, hzero]
  cases sign <;> rfl

theorem truncate_eq_tdiv (x : Double) : x.truncate = x.signed.tdiv unitsInOne := by
  unfold Double.truncate Double.signed
  split
  · rw [Int.neg_tdiv, Int.ofNat_tdiv]
  · rw [Int.ofNat_tdiv]

theorem saturate_of_large {n : Int} (h : greatestSigned < n) : saturate n = greatestSigned := by
  unfold saturate leastSigned greatestSigned at *
  omega

theorem Numeric.Binary64.eq_of_ofInt {n : Int} {x : Double} (h : ofInt n = .finite x) :
    x.negative = decide (n < 0) ∧ x.units = rounded (n.natAbs * unitsInOne) := by
  rw [ofInt, ofRatio, ofUnits_one] at h
  split at h <;> cases h
  exact ⟨rfl, rfl⟩

theorem le_truncate_of_large {n : Whole} {x : Double} (h : greatestSigned < n.val)
    (hx : Binary64.ofInt n.val = .finite x) : greatestSigned < x.truncate := by
  obtain ⟨hsign, hunits⟩ := Binary64.eq_of_ofInt hx
  unfold greatestSigned at *
  have hpositive : x.negative = false := by
    rw [hsign]
    exact decide_eq_false (by omega)
  have hlarge : 2 ^ 63 ≤ n.val.natAbs := by omega
  have hrounded : 2 ^ 63 * unitsInOne ≤ x.units := by
    have hproduct := Nat.mul_le_mul_right unitsInOne hlarge
    rw [hunits]
    obtain ⟨digits, _, hone⟩ := unitsInOne_pow
    rw [hone, ← pow_add] at hproduct ⊢
    exact le_rounded hproduct
  have hquotient := (Nat.le_div_iff_mul_le unitsInOne_pos).mpr hrounded
  rw [Double.truncate, hpositive, if_neg Bool.false_ne_true]
  omega

theorem pageCount?_of_large {n : Whole} (h : greatestSigned < n.val) :
    pageCount? (.number (.whole n)) = some greatestSigned := by
  have hsigned : (Number.whole n).signed? = none := if_neg (Int.not_le.mpr h)
  obtain ⟨digits, power, hfar, hone, hlimit⟩ := unitsLimit_pow
  have hdouble : 2 ^ (digits + 64) < unitsLimit := by
    rw [hlimit]
    exact Nat.pow_lt_pow_right (by decide) (by omega)
  obtain ⟨x, hx, _⟩ := Binary64.ofInt_whole n hone hdouble
  have hnumber : (Number.whole n).toBinary64 = .finite x := hx
  rw [pageCount?, hsigned, hnumber]
  exact congrArg some (saturate_of_large (le_truncate_of_large h hx))

inductive PageCount : Value → Int → Prop
  | whole {n : Whole} : n.val ≤ greatestSigned → PageCount (.number (.whole n)) n.val
  | large {n : Whole} : greatestSigned < n.val → PageCount (.number (.whole n)) greatestSigned
  | double (x : Double) : PageCount (.number (.double x)) (saturate (x.signed.tdiv unitsInOne))
  | text {t : CountText} : (t.number : Int) ≤ greatestSigned → PageCount (.string t.text) t.value
  | outgrown {t : CountText} : greatestSigned < (t.number : Int) → PageCount (.string t.text) 0
  | numberless {text : String} : Numberless text → PageCount (.string text) 0

theorem PageCount.pageCount? {value : Value} {count : Int} (h : PageCount value count) :
    PlanFold.pageCount? value = some count := by
  cases h with
  | whole hn =>
    have hsigned : (Number.whole _).signed? = some _ := if_pos hn
    simp only [PlanFold.pageCount?, hsigned]
  | large hn => exact pageCount?_of_large hn
  | double x => exact congrArg (some ∘ saturate) (truncate_eq_tdiv x)
  | text ht => exact congrArg some ((CountText.textCount_text _).trans (if_pos ht))
  | outgrown ht =>
    exact congrArg some ((CountText.textCount_text _).trans (if_neg (Int.not_le.mpr ht)))
  | numberless ht => exact congrArg some ht.textCount

theorem CountText.value_eq (t : CountText) : t.value = t.number ∨ t.value = -t.number := by
  unfold value
  cases t.sign with
  | minus => exact .inr rfl
  | _ => exact .inl rfl

/-- Of the numbers of 64 signed bits, texts count all but the least one. -/
theorem CountText.pageCount_value_iff (t : CountText) (h : FitsSigned t.value) :
    PageCount (.string t.text) t.value ↔ t.value ≠ leastSigned := by
  have hvalue := t.value_eq
  constructor
  · intro hcount hleast
    have hlarge : greatestSigned < (t.number : Int) := by
      unfold leastSigned at hleast
      unfold greatestSigned
      omega
    have hzero := (PageCount.outgrown hlarge).pageCount?
    rw [hcount.pageCount?, hleast] at hzero
    cases hzero
  · intro hne
    refine .text ?_
    unfold FitsSigned leastSigned greatestSigned at *
    omega

def Value.Countless : Value → Prop
  | .number _ => False
  | .string _ => False
  | _ => True

namespace StepResult

/-- A result after its count of delivered pages was set: metadata that are a mapping hold
it, and nothing else is different. -/
structure Delivers (result : StepResult) (count : Int) (after : StepResult) : Prop where
  unmapped : result.metadata? = none → after = result
  keys : after.fields.keys = result.fields.keys
  others : ∀ key, key ≠ "metadata" → after.fields.get? key = result.fields.get? key
  mapped : ∀ metadata, result.metadata? = some metadata → ∃ written,
    after.metadata? = some written ∧
      written.get? "page_count_delivered" = some (.ofWhole count) ∧
      (∀ key, key ≠ "page_count_delivered" → written.get? key = metadata.get? key) ∧
      written.keys = if metadata.contains "page_count_delivered" then metadata.keys
        else metadata.keys ++ ["page_count_delivered"]

theorem delivers_mapMetadata (result : StepResult) (count : Int) :
    result.Delivers count (result.mapMetadata fun metadata =>
      metadata.insert "page_count_delivered" (.ofWhole count)) where
  unmapped h := by rw [mapMetadata, h]
  keys := keys_mapMetadata _ _
  others key h := get?_mapMetadata _ _ h
  mapped metadata h := by
    refine ⟨_, by rw [metadata?_mapMetadata, h]; rfl, Fields.get?_insert_self _ _ _, ?_, ?_⟩
    · intro key hkey
      exact Fields.get?_insert_of_ne hkey.symm _ _
    · simp only [Fields.keys_insert, Fields.contains_iff_mem_keys]

end StepResult

theorem overridePageCount_of_count {step : Step} {value : Value} {count : Int}
    (hvalue : step.get? "set_page_count_delivered" = some value) (hcount : PageCount value count)
    (result : StepResult) : overridePageCount step result = result.mapMetadata fun metadata =>
      metadata.insert "page_count_delivered" (.ofWhole count) := by
  rw [overridePageCount, hvalue, Option.bind_some, hcount.pageCount?]

/-- A step that holds a number, or a text that begins with one, sets the count of delivered
pages to that number, and so do texts that count nothing set it to zero; no other step
changes the result, and no step changes anything else. Of the whole numbers of 64 signed
bits, a text sets the same as the number does for all but the least one. -/
theorem overridePageCount_delivers (step : Step) (result : StepResult) :
    (∀ value count, step.get? "set_page_count_delivered" = some value → PageCount value count →
      result.Delivers count (overridePageCount step result)) ∧
    ((∀ value, step.get? "set_page_count_delivered" = some value → value.Countless) →
      overridePageCount step result = result) ∧
    ∀ t : CountText, FitsSigned t.value →
      (PageCount (.string t.text) t.value ↔ t.value ≠ leastSigned) := by
  refine ⟨?_, ?_, CountText.pageCount_value_iff⟩
  · intro value count hvalue hcount
    rw [overridePageCount_of_count hvalue hcount]
    exact result.delivers_mapMetadata count
  · intro hcountless
    rw [overridePageCount]
    cases hvalue : step.get? "set_page_count_delivered" with
    | none => rfl
    | some value =>
      have hnone := hcountless value hvalue
      cases value with
      | number n => exact hnone.elim
      | string text => exact hnone.elim
      | _ => rfl

/-- A text with blanks, zeros and a word around its number. -/
theorem overridePageCount_delivers_pages :
    let text : CountText := ⟨['\n', ' '], .plus, 2, 7, [' ', 'p', 'a', 'g', 'e', 's'],
      List.forall_mem_cons.mpr ⟨rfl, List.forall_mem_singleton.mpr rfl⟩,
      fun _ h => Option.some.inj h ▸ rfl⟩
    let step : Step := ⟨[("as", .string "w"), ("set_page_count_delivered", .string text.text)]⟩
    let result : StepResult := ⟨[("metadata", .mapping [("page_count_delivered", .ofWhole 5)])]⟩
    text.text = "\n +007 pages" ∧ result.Delivers 7 (overridePageCount step result) := by
  intro text step result
  have htext : text.text = "\n +007 pages" := by decide +kernel
  have hcount : PageCount (.string text.text) 7 := .text (by decide)
  exact ⟨htext, (overridePageCount_delivers step result).1 _ _ rfl hcount⟩

/-- The least number of 64 signed bits is set by a number and not by its text. -/
theorem overridePageCount_least :
    let result : StepResult := ⟨[("metadata", .mapping [])]⟩
    (CountText.ofInt leastSigned).text = "-9223372036854775808" ∧
    overridePageCount ⟨[("set_page_count_delivered", .string "-9223372036854775808")]⟩ result =
      ⟨[("metadata", .mapping [("page_count_delivered", .ofWhole 0)])]⟩ ∧
    overridePageCount ⟨[("set_page_count_delivered", .ofWhole leastSigned)]⟩ result =
      ⟨[("metadata", .mapping [("page_count_delivered", .ofWhole leastSigned)])]⟩ := by
  have htext : (CountText.ofInt leastSigned).text = "-9223372036854775808" := by decide +kernel
  have hcount : PageCount (.string "-9223372036854775808") 0 :=
    htext ▸ .outgrown (t := .ofInt leastSigned) (by decide)
  exact ⟨htext, overridePageCount_of_count rfl hcount _, rfl⟩

end PlanFold
