import BlockSketch.Json.Reader
import BlockSketch.Json.Writer
import Mathlib.Tactic.SplitIfs

/-!
# Strings in JSON text

A string is read back from its text, character by character. What is no printable ASCII character is
written as an escape: a short one, or the four hexadecimal digits of its code, or those of a pair of
surrogates, which no character has as its code.
-/

namespace BlockSketch

-- ---------------------------------------------------------------------------
-- Hexadecimal digits
-- ---------------------------------------------------------------------------

namespace Text

theorem hex_one (h : n < 16) : (hex 1 n).toList = [n.digitChar] := by
  simp [hex, Nat.toDigits_of_lt_base h]

theorem hex_succ (hwidth : 0 < width) (n : Nat) :
    (hex (width + 1) n).toList = (hex width (n / 16)).toList ++ [(n % 16).digitChar] := by
  simp only [hex, String.toList_ofList]
  by_cases h : n < 16
  · obtain ⟨k, rfl⟩ : ∃ k, width = k + 1 := ⟨width - 1, by omega⟩
    have hzero : ['0'] = Nat.toDigits 16 0 := rfl
    simp [Nat.toDigits_of_lt_base h, Nat.div_eq_of_lt h, Nat.mod_eq_of_lt h, List.replicate_succ']
  · simp [Nat.toDigits_of_base_le (by decide : 1 < 16) (Nat.le_of_not_lt h)]

end Text

namespace Json

theorem hexDigit?_digitChar : ∀ d < 16, hexDigit? d.digitChar = some d := by
  decide

theorem hex_four (h : n < 0x10000) : (Text.hex 4 n).toList = [(n / 16 / 16 / 16).digitChar,
    (n / 16 / 16 % 16).digitChar, (n / 16 % 16).digitChar, (n % 16).digitChar] := by
  rw [Text.hex_succ (by decide), Text.hex_succ (by decide), Text.hex_succ (by decide),
    Text.hex_one (by omega)]
  rfl

theorem readUnit?_hex (hn : n < 0x10000) (hrest : rest ≠ []) :
    readUnit? ((Text.hex 4 n).toList ++ rest) = some (n, rest) := by
  have hvalue : n / 16 / 16 / 16 * 4096 + n / 16 / 16 % 16 * 256 + n / 16 % 16 * 16 + n % 16 = n := by
    omega
  rw [hex_four hn]
  simp only [List.cons_append, List.nil_append, readUnit?, List.isEmpty_iff, if_neg hrest,
    hexDigit?_digitChar _ (Nat.mod_lt _ (by decide : 0 < 16)),
    hexDigit?_digitChar (n / 16 / 16 / 16) (by omega)]
  simp [hvalue]

-- ---------------------------------------------------------------------------
-- Characters
-- ---------------------------------------------------------------------------

theorem isHighSurrogate_iff : isHighSurrogate n = true ↔ 0xd800 ≤ n ∧ n < 0xdc00 := by
  simp [isHighSurrogate]

theorem isLowSurrogate_iff : isLowSurrogate n = true ↔ 0xdc00 ≤ n ∧ n < 0xe000 := by
  simp [isLowSurrogate]

theorem toNat_lt (c : Char) : c.toNat < 0x110000 := by
  rcases c.valid with h | ⟨-, h⟩
  · exact Nat.lt_trans h (by decide)
  · exact h

theorem isHighSurrogate_toNat (c : Char) : isHighSurrogate c.toNat = false := by
  rw [← Bool.not_eq_true, isHighSurrogate_iff]
  rcases c.valid with h | ⟨h, -⟩
  · have hlt : c.toNat < 0xd800 := h
    omega
  · have hlt : 0xdfff < c.toNat := h
    omega

theorem highSurrogate_bounds (c : Char) : 0xd800 ≤ highSurrogate c ∧ highSurrogate c < 0xdc00 := by
  have hbound := toNat_lt c
  rw [highSurrogate]
  omega

theorem lowSurrogate_bounds (c : Char) : 0xdc00 ≤ lowSurrogate c ∧ lowSurrogate c < 0xe000 := by
  rw [lowSurrogate]
  omega

/-- A character beyond the first plane is the one that its surrogates stand for. -/
theorem joinSurrogates_eq (h : 0x10000 ≤ c.toNat) :
    joinSurrogates (highSurrogate c) (lowSurrogate c) = c := by
  have hpair : 0x10000 + (highSurrogate c - 0xd800) * 0x400 + (lowSurrogate c - 0xdc00) = c.toNat := by
    rw [highSurrogate, lowSurrogate]
    omega
  rw [joinSurrogates, hpair, Char.ofNat_toNat]

theorem readUnicode_single (here : List Char) (h : readUnit? cs = some (n, rest))
    (hn : isHighSurrogate n = false) : readUnicode here cs = .ok (Char.ofNat n, rest) := by
  rw [readUnicode, h]
  simp [hn]

theorem readUnicode_pair (here : List Char) (h : readUnit? cs = some (high, '\\' :: 'u' :: tail))
    (htail : readUnit? tail = some (low, rest)) (hmore : tail.drop 4 ≠ [])
    (hhigh : isHighSurrogate high = true) (hlow : isLowSurrogate low = true) :
    readUnicode here cs = .ok (joinSurrogates high low, rest) := by
  rw [readUnicode, h]
  simp [hhigh, hmore, htail, hlow]

theorem readEscape_unicode (whole here cs : List Char) :
    readEscape whole here ('u' :: cs) = readUnicode ('u' :: cs) cs :=
  rfl

theorem readChars_backslash (hescape : readEscape whole ('\\' :: cs) cs = .ok (c, rest))
    (h : readChars whole fuel rest = .ok (ds, after)) :
    readChars whole (fuel + 1) ('\\' :: cs) = .ok (c :: ds, after) := by
  rw [readChars, if_neg (by decide), if_pos rfl, hescape]
  simp only [bind, Except.bind, h]

theorem readChars_plain (hquote : c ≠ '"') (hslash : c ≠ '\\') (hcode : 0x20 ≤ c.toNat)
    (h : readChars whole fuel rest = .ok (ds, after)) :
    readChars whole (fuel + 1) (c :: rest) = .ok (c :: ds, after) := by
  rw [readChars, if_neg hquote, if_neg hslash, if_neg (Nat.not_lt.mpr hcode)]
  simp only [bind, Except.bind, h]

theorem escapeUnit_append (n : Nat) (rest : List Char) :
    escapeUnit n ++ rest = '\\' :: 'u' :: ((Text.hex 4 n).toList ++ rest) :=
  rfl

/-- A character is read back from its escape, if text follows. -/
theorem readChars_escapeChar (hrest : rest ≠ [])
    (h : readChars whole fuel rest = .ok (cs, after)) :
    readChars whole (fuel + 1) (escapeChar c ++ rest) = .ok (c :: cs, after) := by
  unfold escapeChar
  -- the short escapes are read by evaluation; the tests that remain are those of the code
  by_cases hshort : c ∈ ['"', '\\', '\n', '\r', '\t', '\x0c', '\x08']
  · simp only [List.mem_cons, List.not_mem_nil, or_false] at hshort
    rcases hshort with rfl | rfl | rfl | rfl | rfl | rfl | rfl <;> exact readChars_backslash rfl h
  simp only [List.mem_cons, List.not_mem_nil, or_false, not_or] at hshort
  obtain ⟨hquote, hslash, h3, h4, h5, h6, h7⟩ := hshort
  rw [if_neg hquote, if_neg hslash, if_neg h3, if_neg h4, if_neg h5, if_neg h6, if_neg h7]
  split_ifs with hprintable hplane
  · simp only [Bool.and_eq_true, decide_eq_true_eq] at hprintable
    exact readChars_plain hquote hslash hprintable.1 h
  · rw [escapeUnit_append]
    refine readChars_backslash ?_ h
    rw [readEscape_unicode, readUnicode_single _ (readUnit?_hex hplane hrest)
      (isHighSurrogate_toNat c), Char.ofNat_toNat]
  · have hhigh := highSurrogate_bounds c
    have hlow := lowSurrogate_bounds c
    rw [List.append_assoc, escapeUnit_append, escapeUnit_append]
    refine readChars_backslash ?_ h
    rw [readEscape_unicode, readUnicode_pair _ (readUnit?_hex (by omega) (by simp))
      (readUnit?_hex (by omega) hrest) ?_ (isHighSurrogate_iff.mpr hhigh)
      (isLowSurrogate_iff.mpr hlow), joinSurrogates_eq (by omega)]
    simpa [hex_four (n := lowSurrogate c) (by omega)] using hrest

theorem readChars_write (hfuel : cs.length < fuel) :
    readChars whole fuel (cs.flatMap escapeChar ++ '"' :: rest) = .ok (cs, rest) := by
  induction cs generalizing fuel with
  | nil =>
    obtain ⟨fuel, rfl⟩ : ∃ k, fuel = k + 1 := ⟨fuel - 1, by simp at hfuel; omega⟩
    simp [readChars]
  | cons c cs ih =>
    obtain ⟨fuel, rfl⟩ : ∃ k, fuel = k + 1 := ⟨fuel - 1, by omega⟩
    rw [List.flatMap_cons, List.append_assoc]
    exact readChars_escapeChar (by simp) (ih (by simpa using hfuel))

theorem escapeChar_ne_nil (c : Char) : escapeChar c ≠ [] := by
  unfold escapeChar
  repeat' refine iteInduction (motive := (· ≠ [])) (fun _ => List.cons_ne_nil _ _) fun _ => ?_
  exact List.cons_ne_nil _ _

theorem length_le_flatMap_escapeChar (cs : List Char) :
    cs.length ≤ (cs.flatMap escapeChar).length := by
  induction cs with
  | nil => simp
  | cons c cs ih =>
    have hpos := List.length_pos_iff.mpr (escapeChar_ne_nil c)
    rw [List.flatMap_cons, List.length_append, List.length_cons]
    omega

theorem readString_write (s : String) (hfuel : (s.toList.flatMap escapeChar).length < fuel) :
    readString fuel (s.toList.flatMap escapeChar ++ '"' :: rest) = .ok (s, rest) := by
  have hlength := Nat.lt_of_le_of_lt (length_le_flatMap_escapeChar s.toList) hfuel
  simp [readString, readChars_write hlength, bind, Except.bind]

end Json

end BlockSketch
