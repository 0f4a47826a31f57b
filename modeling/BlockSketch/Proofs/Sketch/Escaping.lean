import BlockSketch.Proofs.Expression.Lexing

/-!
# Escaped texts

A text between quotes is escaped character by character, which is the same as replacing one special
character after the other in the whole text, the backslash first. Read from left to right, the escapes
give the text back, and nothing else is read as that text.
-/

namespace BlockSketch.Sketch

open Expression (textTail textTail_escaped)

-- ---------------------------------------------------------------------------
-- Replacing
-- ---------------------------------------------------------------------------

/-- The special characters in the order in which they are replaced, each with the character that
stands for it behind a backslash. -/
def escapes : List (Char × Char) :=
  [('\\', '\\'), ('"', '"'), ('\n', 'n'), ('\r', 'r'), ('\t', 't')]

def replaceChar (cs : List Char) (c : Char) (code : List Char) : List Char :=
  cs.flatMap fun d => if d = c then code else [d]

def replaceSpecial (cs : List Char) : List Char :=
  escapes.foldl (fun cs e => replaceChar cs e.1 ['\\', e.2]) cs

theorem replaceSpecial_append (cs ds : List Char) :
    replaceSpecial (cs ++ ds) = replaceSpecial cs ++ replaceSpecial ds := by
  simp [replaceSpecial, escapes, replaceChar]

/-- No replacement touches what an earlier one has put in place of the character. -/
theorem replaceSpecial_singleton (c : Char) : replaceSpecial [c] = escapeChar c := by
  unfold escapeChar
  split
  case h_6 hbackslash hquote hfeed hreturn htab =>
    simp [replaceSpecial, escapes, replaceChar, if_neg hbackslash, if_neg hquote, if_neg hfeed,
      if_neg hreturn, if_neg htab]
  all_goals rfl

theorem replaceSpecial_eq (cs : List Char) : replaceSpecial cs = cs.flatMap escapeChar := by
  induction cs with
  | nil => rfl
  | cons c cs ih =>
    rw [← List.singleton_append, replaceSpecial_append, replaceSpecial_singleton, ih]
    rfl

-- ---------------------------------------------------------------------------
-- Decoding
-- ---------------------------------------------------------------------------

def isSpecial (c : Char) : Bool :=
  escapes.any (·.1 = c)

def unescape? (d : Char) : Option Char :=
  (escapes.find? (·.2 = d)).map Prod.fst

/-- What a text between quotes stands for. A special character that is not escaped, and an escape that
is none of the five, are refused. -/
def decode : List Char → Option (List Char)
  | [] => some []
  | '\\' :: d :: cs => do
    let c ← unescape? d
    let rest ← decode cs
    some (c :: rest)
  | c :: cs => if isSpecial c then none else (decode cs).map (c :: ·)

theorem escapeChar_of_plain (h : isSpecial c = false) : escapeChar c = [c] := by
  unfold escapeChar
  split
  case h_6 => rfl
  all_goals cases h

theorem escapeChar_of_special (h : isSpecial c = true) :
    ∃ d, escapeChar c = ['\\', d] ∧ unescape? d = some c ∧ d ∉ ['\n', '\r', '\t'] := by
  simp only [isSpecial, escapes, List.any_cons, List.any_nil, Bool.or_false, Bool.or_eq_true,
    decide_eq_true_eq] at h
  rcases h with rfl | rfl | rfl | rfl | rfl <;> exact ⟨_, rfl, rfl, by simp⟩

theorem escapeChar_of_unescape? (h : unescape? d = some c) : escapeChar c = ['\\', d] := by
  obtain ⟨e, hfind, rfl⟩ := Option.map_eq_some_iff.mp h
  have hd := List.find?_some hfind
  simp only [decide_eq_true_eq] at hd
  subst hd
  have hall : ∀ e ∈ escapes, escapeChar e.1 = ['\\', e.2] := by
    simp [escapes, escapeChar]
  exact hall e (List.mem_of_find?_eq_some hfind)

theorem decode_plain (h : isSpecial c = false) (cs : List Char) :
    decode (c :: cs) = (decode cs).map (c :: ·) := by
  have hne : c ≠ '\\' := by
    rintro rfl
    cases h
  rw [decode]
  · simp [h]
  · exact fun d rest hc => absurd hc hne

theorem decode_escaped (cs : List Char) : decode (cs.flatMap escapeChar) = some cs := by
  induction cs with
  | nil => rfl
  | cons c cs ih =>
    rw [List.flatMap_cons]
    cases hc : isSpecial c with
    | false => rw [escapeChar_of_plain hc, List.singleton_append, decode_plain hc, ih, Option.map_some]
    | true =>
      obtain ⟨d, hcode, hd, -⟩ := escapeChar_of_special hc
      rw [hcode, List.cons_append, List.singleton_append, decode, hd, ih]
      rfl

/-- Nothing but the escaped text is decoded to a text. -/
theorem eq_escaped_of_decode (h : decode cs = some s) : cs = s.flatMap escapeChar := by
  fun_induction decode cs generalizing s with
  | case1 =>
    cases h
    rfl
  | case2 d cs ih =>
    simp only [Option.bind_eq_bind, Option.bind_eq_some_iff] at h
    obtain ⟨c, hc, rest, hrest, heq⟩ := h
    cases heq
    rw [List.flatMap_cons, escapeChar_of_unescape? hc, ih hrest]
    rfl
  | case3 => cases h
  | case4 c cs _ hc ih =>
    obtain ⟨rest, hrest, rfl⟩ := Option.map_eq_some_iff.mp h
    rw [List.flatMap_cons, escapeChar_of_plain (by simpa using hc), ih hrest]
    rfl

-- ---------------------------------------------------------------------------
-- What an escaped text holds
-- ---------------------------------------------------------------------------

theorem escaped_unbroken (cs : List Char) : ∀ c ∈ cs.flatMap escapeChar, c ∉ ['\n', '\r', '\t'] := by
  intro c hc
  obtain ⟨b, -, hc⟩ := List.mem_flatMap.mp hc
  cases hb : isSpecial b with
  | false =>
    rw [escapeChar_of_plain hb] at hc
    obtain rfl := List.mem_singleton.mp hc
    intro hbreak
    simp only [List.mem_cons, List.not_mem_nil, or_false] at hbreak
    rcases hbreak with rfl | rfl | rfl <;> cases hb
  | true =>
    obtain ⟨d, hcode, -, hd⟩ := escapeChar_of_special hb
    rw [hcode] at hc
    rcases List.mem_cons.mp hc with rfl | hc
    · simp
    · exact List.mem_singleton.mp hc ▸ hd

/-- The number of backslashes that a text ends in, if there are `count` before it. -/
def backslashes (count : Nat) (cs : List Char) : Nat :=
  cs.foldl (fun n c => if c = '\\' then n + 1 else 0) count

/-- The backslashes before a quote come in pairs, apart from the one that escapes the quote. -/
theorem escaped_quote {cs before after : List Char} (hcount : count % 2 = 0)
    (h : cs.flatMap escapeChar = before ++ '"' :: after) : backslashes count before % 2 = 1 := by
  induction cs generalizing before count with
  | nil => simp at h
  | cons c cs ih =>
    rw [List.flatMap_cons] at h
    cases hc : isSpecial c with
    | false =>
      rw [escapeChar_of_plain hc, List.singleton_append] at h
      cases before with
      | nil =>
        obtain ⟨rfl, -⟩ := List.cons.inj h
        cases hc
      | cons b before =>
        rw [List.cons_append, List.cons.injEq] at h
        obtain ⟨rfl, h⟩ := h
        have hne : c ≠ '\\' := by
          rintro rfl
          cases hc
        rw [backslashes, List.foldl_cons, if_neg hne]
        exact ih rfl h
    | true =>
      obtain ⟨d, hcode, -, -⟩ := escapeChar_of_special hc
      rw [hcode, List.cons_append, List.singleton_append] at h
      rcases before with _ | ⟨b, _ | ⟨b', before⟩⟩
      · cases h
      · obtain ⟨rfl, -⟩ := List.cons.inj h
        rw [backslashes, List.foldl_cons, if_pos rfl, List.foldl_nil]
        omega
      · rw [List.cons_append, List.cons_append, List.cons.injEq, List.cons.injEq] at h
        obtain ⟨rfl, rfl, h⟩ := h
        rw [backslashes, List.foldl_cons, List.foldl_cons, if_pos rfl]
        -- A second backslash completes a pair, and anything else ends the run.
        refine ih ?_ h
        split <;> omega

-- ---------------------------------------------------------------------------
-- Literals
-- ---------------------------------------------------------------------------

/-- The literal of a text is a quote, the text with every special character replaced, and a quote. It
is broken by nothing, all quotes inside are escaped, it is the only one that stands for the text, and
it ends with its last quote, whatever comes after it. -/
theorem stringLiteral_exact :
    Function.Injective stringLiteral ∧ ∀ t : String, ∃ inner : List Char,
      (stringLiteral t).toList = '"' :: (inner ++ ['"']) ∧ inner = replaceSpecial t.toList ∧
      (∀ c ∈ inner, c ∉ ['\n', '\r', '\t']) ∧
      (∀ before after, inner = before ++ '"' :: after → backslashes 0 before % 2 = 1) ∧
      (∀ cs, decode cs = some t.toList ↔ cs = inner) ∧
      ∀ rest, textTail (inner ++ '"' :: rest) = some (t.toList, rest) := by
  have htoList : ∀ t, (stringLiteral t).toList = '"' :: (t.toList.flatMap escapeChar ++ ['"']) :=
    fun t => String.toList_ofList
  constructor
  · intro s t heq
    have hchars := congrArg String.toList heq
    rw [htoList, htoList, List.cons.injEq, List.append_left_inj] at hchars
    have hdecode := decode_escaped s.toList
    rw [hchars.2, decode_escaped, Option.some.injEq] at hdecode
    exact String.toList_inj.mp hdecode.symm
  · intro t
    refine ⟨t.toList.flatMap escapeChar, htoList t, (replaceSpecial_eq _).symm,
      escaped_unbroken _, fun before after => escaped_quote rfl, fun cs => ?_, textTail_escaped _⟩
    exact ⟨eq_escaped_of_decode, fun heq => heq ▸ decode_escaped _⟩

end BlockSketch.Sketch
