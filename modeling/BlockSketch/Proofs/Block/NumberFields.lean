import BlockSketch.Proofs.Block
import BlockSketch.Proofs.Json.Numerals
import BlockSketch.Proofs.Number.Integers

/-!
# Integers in number fields

A number field takes an integer as it is, and the decimal text of one as the nearest integer that is a
binary64 number. `validate_integer_text` says what is made of the text of every integer and which integers
are taken alike in both forms.
-/

namespace BlockSketch

-- ---------------------------------------------------------------------------
-- Decimal texts
-- ---------------------------------------------------------------------------

namespace Numeral

def asciiDigits : List Char :=
  ['0', '1', '2', '3', '4', '5', '6', '7', '8', '9']

theorem mem_asciiDigits (h : isDigit c = true) : c ∈ asciiDigits := by
  simp only [isDigit, Bool.and_eq_true, decide_eq_true_eq, Char.le_def, UInt32.le_iff_toNat_le] at h
  have hlow : 48 ≤ c.toNat := h.1
  have hhigh : c.toNat ≤ 57 := h.2
  have hmem : ∀ d < 10, Char.ofNat (48 + d) ∈ asciiDigits := by decide
  have hchar := hmem (c.toNat - 48) (by omega)
  rwa [Nat.add_sub_cancel' hlow, Char.ofNat_toNat] at hchar

theorem plain_of_isDigit (h : isDigit c = true) : isMargin c = false ∧ plainDigit c = c ∧
    c ≠ '_' ∧ c ≠ '-' ∧ c ≠ '+' ∧ c.toLower = c := by
  have hall : asciiDigits.all (fun c => !isMargin c && plainDigit c == c && c != '_' &&
      c != '-' && c != '+' && c.toLower == c) = true := rfl
  simpa [and_assoc] using List.all_eq_true.mp hall c (mem_asciiDigits h)

theorem dropUnderscores_of_none (afterDigit : Bool) (h : '_' ∉ cs) :
    dropUnderscores afterDigit cs = some cs := by
  fun_induction dropUnderscores afterDigit cs with
  | case1 => rfl
  | case2 => simp at h
  | case3 => simp at h
  | case4 => simp at h
  | case5 afterDigit c rest _ hne ih =>
    rw [ih fun hmem => h (List.mem_cons_of_mem c hmem)]
    rfl

theorem trimBy_of_none {p : Char → Bool} (h : ∀ c ∈ cs, p c = false) : Text.trimBy p cs = cs := by
  have hdrop : ∀ l : List Char, (∀ c ∈ l, p c = false) → l.dropWhile p = l := by
    intro l hl
    cases l with
    | nil => rfl
    | cons c l => rw [List.dropWhile_cons_of_neg (by simp [hl c])]
  rw [Text.trimBy, hdrop cs h, hdrop _ (by simpa using h), List.reverse_reverse]

theorem bare?_of_plain {s : String}
    (h : ∀ c ∈ s.toList, isMargin c = false ∧ plainDigit c = c ∧ c ≠ '_') :
    bare? s = some s.toList := by
  have hplain : s.toList.map plainDigit = s.toList :=
    (List.map_congr_left fun c hc => (h c hc).2.1).trans (List.map_id' _)
  rw [bare?, trimBy_of_none fun c hc => (h c hc).1, hplain]
  exact dropUnderscores_of_none false fun hmem => (h _ hmem).2.2 rfl

theorem readSign_sign (negative : Bool) (hds : ∀ c ∈ ds, isDigit c = true) :
    readSign ((Binary64.sign negative).toList ++ ds) = (negative, ds) := by
  cases negative with
  | true => rfl
  | false =>
    cases ds with
    | nil => rfl
    | cons d ds =>
      obtain ⟨-, -, -, hminus, hplus, -⟩ := plain_of_isDigit (hds d List.mem_cons_self)
      simp [Binary64.sign, readSign, hminus, hplus]

theorem readDecimal?_digits (negative : Bool) (hds : ∀ c ∈ ds, isDigit c = true) (hne : ds ≠ []) :
    readDecimal? negative ds = some (.ofDecimal negative (digitsValue 0 ds) 0) := by
  have hend : Json.NoDigit [] := by simp [Json.NoDigit]
  have hwhole := Json.takeWhile_digits hds hend
  have hrest := Json.dropWhile_digits hds hend
  rw [List.append_nil] at hwhole hrest
  simp [readDecimal?, hwhole, hrest, hne, readExponent?, digitsValue]

theorem bare?_toString (n : Int) : bare? (toString n) = some (toString n).toList := by
  refine bare?_of_plain fun c hc => ?_
  rw [toList_toString_int, List.mem_append] at hc
  rcases hc with hc | hc
  · cases hneg : decide (n < 0) with
    | false => simp [hneg, Binary64.sign] at hc
    | true =>
      obtain rfl : c = '-' := by simpa [hneg, Binary64.sign] using hc
      exact ⟨rfl, rfl, by decide⟩
  · obtain ⟨hmargin, hplain, hline, -⟩ := plain_of_isDigit (isDigit_toString n.natAbs c hc)
    exact ⟨hmargin, hplain, hline⟩

theorem digits_ne_word {ds : List Char} (hds : ∀ c ∈ ds, isDigit c = true) (word : String)
    (hword : word.toList.all isDigit = false) : String.ofList (ds.map Char.toLower) ≠ word := by
  have hlower : ds.map Char.toLower = ds :=
    (List.map_congr_left fun c hc => (plain_of_isDigit (hds c hc)).2.2.2.2.2).trans (List.map_id' _)
  rintro rfl
  rw [hlower, String.toList_ofList, List.all_eq_true.mpr hds] at hword
  cases hword

/-- The decimal text of an integer is read as the nearest binary64 number. -/
theorem readReal?_toString (n : Int) : readReal? (toString n) = some (.ofInt n) := by
  have hds := isDigit_toString n.natAbs
  have hne : (toString n.natAbs).toList ≠ [] := by
    rw [Nat.toString_eq_repr, Nat.toList_repr]
    exact Nat.toDigits_ne_nil
  have hinf := digits_ne_word hds "inf" (by simp [isDigit])
  have hinfinity := digits_ne_word hds "infinity" (by simp [isDigit])
  have hnan := digits_ne_word hds "nan" (by simp [isDigit])
  simp only [readReal?, bare?_toString, Option.bind_eq_bind, Option.bind_some]
  rw [toList_toString_int, readSign_sign _ hds]
  simp only [hinf, hinfinity, hnan, decide_false, Bool.or_self, Bool.false_eq_true, if_false]
  rw [readDecimal?_digits _ hds hne, digitsValue_toString, Binary64.ofDecimal_integer]
  rfl

end Numeral

-- ---------------------------------------------------------------------------
-- Number fields
-- ---------------------------------------------------------------------------

namespace Field

open Binary64 (nearestInt? IsNearest IsExact)

/-- The integer and its decimal text are both refused, or are both stored as the integer. -/
def ReadsAlike (field : Field) (n : Int) : Prop :=
  (¬field.Admits (.text (toString n)) ∧ ¬field.Admits (.int n)) ∨
    (field.validate (.text (toString n)) = .ok (.int n) ∧ field.validate (.int n) = .ok (.int n))

theorem readNumber_toString_some (h : nearestInt? n = some k) :
    readNumber (.text (toString n)) = .ok (.int k) := by
  have h : (Binary64.ofInt n).toInt? = some k := h
  simp only [readNumber, Numeral.readReal?_toString, h]

theorem readNumber_toString_none (h : nearestInt? n = none) :
    readNumber (.text (toString n)) = .ok (.real (.infinite (decide (n < 0)))) := by
  have hinfinite := (Binary64.nearestInt?_eq_none h).1
  simp only [readNumber, Numeral.readReal?_toString, hinfinite, Binary64.toInt?]

variable {field : Field}

theorem validate_of_readNumber (hkind : field.kind = .number) (h : readNumber v = .ok n) :
    field.validate v = field.validate (.number n) := by
  have hself : readNumber (.number n) = .ok n := rfl
  simp only [validate, hkind, validateNumber, h, hself]

theorem validate_notFinite (hkind : field.kind = .number) (h : readNumber v = .ok n)
    (hn : n.isFinite = false) : field.validate v = .error (.notFinite n) := by
  simp [validate, hkind, validateNumber, h, hn, bind, Except.bind, Except.map]

/-- A number that is not refused is stored as it is. -/
theorem validate_number_eq (hkind : field.kind = .number)
    (h : field.validate (.number n) = .ok stored) : stored = .number n := by
  simp only [validate, hkind, map_ok, validateNumber, bind_ok] at h
  obtain ⟨m, ⟨_, ⟨⟩, h⟩, rfl⟩ := h
  split at h
  · cases h
  · simp only [bind_ok, Except.ok.injEq] at h
    obtain ⟨_, -, _, -, rfl⟩ := h
    rfl

theorem readsAlike_of_refused (h : ¬field.Admits (.text (toString n))) :
    field.ReadsAlike n ↔ ¬field.Admits (.int n) := by
  constructor
  · rintro (⟨-, hint⟩ | ⟨htext, -⟩)
    · exact hint
    · exact absurd ⟨_, htext⟩ h
  · exact fun hint => .inl ⟨h, hint⟩

theorem readsAlike_of_validate (hkind : field.kind = .number)
    (h : field.validate (.text (toString n)) = field.validate (.int k)) :
    field.ReadsAlike n ↔ k = n ∨ ¬field.Admits (.int n) ∧ ¬field.Admits (.int k) := by
  have hadmits : field.Admits (.text (toString n)) ↔ field.Admits (.int k) := by
    rw [Admits, h, Admits]
  constructor
  · rintro (⟨htext, hint⟩ | ⟨htext, -⟩)
    · exact .inr ⟨hint, hadmits.not.mp htext⟩
    · have heq := validate_number_eq hkind (h ▸ htext)
      simp only [Value.number.injEq, Number.int.injEq] at heq
      exact .inl heq.symm
  · rintro (rfl | ⟨hint, hnear⟩)
    · by_cases hint : field.Admits (.int k)
      · obtain ⟨stored, hstored⟩ := hint
        obtain rfl := validate_number_eq hkind hstored
        exact .inr ⟨h.trans hstored, hstored⟩
      · exact .inl ⟨hadmits.not.mpr hint, hint⟩
    · exact .inl ⟨hadmits.not.mpr hnear, hint⟩

/-- The decimal text of an integer is validated as the nearest integer that is a binary64 number, and is
refused where the integer lies beyond them all. So it is taken as the integer itself is exactly if that is
such a number, or if both the integer and the one nearest to it are refused. -/
theorem validate_integer_text (field : Field) (hkind : field.kind = .number) (n : Int) :
    (∀ k, nearestInt? n = some k →
      IsNearest n k ∧ field.validate (.text (toString n)) = field.validate (.int k)) ∧
    (nearestInt? n = none → (∀ j, IsExact j → j < n.natAbs) ∧
      field.validate (.text (toString n)) = .error (.notFinite (.real (.infinite (decide (n < 0)))))) ∧
    (field.ReadsAlike n ↔ IsExact n.natAbs ∨
      ¬field.Admits (.int n) ∧ ∀ k, nearestInt? n = some k → ¬field.Admits (.int k)) := by
  have hsome : ∀ k, nearestInt? n = some k →
      field.validate (.text (toString n)) = field.validate (.int k) :=
    fun k h => validate_of_readNumber hkind (readNumber_toString_some h)
  have hnone : nearestInt? n = none → field.validate (.text (toString n)) =
      .error (.notFinite (.real (.infinite (decide (n < 0))))) :=
    fun h => validate_notFinite hkind (readNumber_toString_none h) rfl
  refine ⟨fun k h => ⟨Binary64.isNearest_of_nearestInt? h, hsome k h⟩,
    fun h => ⟨(Binary64.nearestInt?_eq_none h).2, hnone h⟩, ?_⟩
  cases hnear : nearestInt? n with
  | none =>
    have hrefused : ¬field.Admits (.text (toString n)) := by
      rintro ⟨stored, hstored⟩
      cases (hnone hnear).symm.trans hstored
    have hexact : ¬IsExact n.natAbs :=
      fun h => lt_irrefl _ ((Binary64.nearestInt?_eq_none hnear).2 _ h)
    rw [readsAlike_of_refused hrefused]
    simp [hexact]
  | some k =>
    rw [readsAlike_of_validate hkind (hsome k hnear),
      (Binary64.isNearest_of_nearestInt? hnear).eq_iff]
    simp

def unbounded : Field := { kind := .number, initial := .int 0 }

theorem unbounded_readsAlike_power : unbounded.ReadsAlike 1152921504606846976 :=
  (validate_integer_text unbounded rfl _).2.2.mpr (.inl ⟨1, 60, by decide, by decide, by decide⟩)

/-- A number field that ends where the integers stop being binary64 numbers. -/
def capped : Field := { unbounded with maximum := .int 9007199254740992 }

theorem capped_admits_text_above :
    capped.validate (.text (toString (9007199254740993 : Int))) = .ok (.int 9007199254740992) ∧
      ¬capped.Admits (.int 9007199254740993) ∧ ¬capped.ReadsAlike 9007199254740993 := by
  have hnear : nearestInt? 9007199254740993 = some 9007199254740992 := by decide +kernel
  have htext : capped.validate (.text (toString (9007199254740993 : Int))) =
      .ok (.int 9007199254740992) :=
    (validate_of_readNumber rfl (readNumber_toString_some hnear)).trans rfl
  have hint : ¬capped.Admits (.int 9007199254740993) := by
    rintro ⟨stored, hstored⟩
    cases hstored
  refine ⟨htext, hint, ?_⟩
  rintro (⟨hrefused, -⟩ | ⟨-, hstored⟩)
  · exact hrefused ⟨_, htext⟩
  · exact hint ⟨_, hstored⟩

end Field

end BlockSketch
