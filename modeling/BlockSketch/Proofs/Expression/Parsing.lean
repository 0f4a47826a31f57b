import BlockSketch.Proofs.Expression.Lexing

/-!
# How pieces of code are parsed

`Phrase cs level t` says that a piece of code is an expression of a level with the operator tree `t`,
wherever it stands: what follows is not drawn into it unless it starts with an operator of the level.
The lemmas follow the productions of the grammar. `Phrase.lift` is the use of a tighter expression
in a looser place, and `Phrase.enclosed` the one way back.
-/

namespace BlockSketch.Expression

open Sketch

-- ---------------------------------------------------------------------------
-- Where an expression ends
-- ---------------------------------------------------------------------------

theorem Binary.level_bounds (op : Binary) : 3 ≤ op.level ∧ op.level ≤ 12 := by
  cases op <;> decide

/-- Whether a token draws what is behind it into an expression of the level before it. A conditional
ends in an assignment, so it is continued by one. -/
def continues (level : Nat) : Token → Bool
  | .sign s =>
    (decide (1 ≤ level) && ["(", "[", "."].contains s) || (binary? s).any (·.level ≤ level) ||
      (decide (13 ≤ level) && (s == "?" || (assignment? s).isSome)) ||
      (decide (15 ≤ level) && s == ",")
  | _ => false

def Stops (level : Nat) (ts : List Token) : Prop :=
  ∀ t ∈ ts.head?, continues level t = false

theorem Stops.nil : Stops level [] := by
  simp [Stops]

theorem stops_cons : Stops level (t :: ts) ↔ continues level t = false := by
  simp [Stops]

theorem stops_sign : Stops level (.sign s :: ts) ↔
    (1 ≤ level → s ∉ ["(", "[", "."]) ∧ (∀ op, binary? s = some op → level < op.level) ∧
      (13 ≤ level → s ≠ "?" ∧ assignment? s = none) ∧ (15 ≤ level → s ≠ ",") := by
  rw [stops_cons]
  simp [continues, and_assoc, imp_iff_not_or, Option.any_eq_false]

theorem Stops.mono (h : Stops level ts) (hle : level' ≤ level) : Stops level' ts := by
  cases ts with
  | nil => exact .nil
  | cons t ts =>
    cases t with
    | sign s =>
      obtain ⟨hpost, hbinary, hassign, hcomma⟩ := stops_sign.mp h
      exact stops_sign.mpr ⟨fun hl => hpost (by omega),
        fun op hop => Nat.lt_of_le_of_lt hle (hbinary op hop), fun hl => hassign (by omega),
        fun hl => hcomma (by omega)⟩
    | _ => exact stops_cons.mpr rfl

theorem Stops.close : Stops level (.sign ")" :: ts) := by
  have hbinary : binary? ")" = none := by decide
  have hassign : assignment? ")" = none := by decide
  exact stops_sign.mpr ⟨by simp, by simp [hbinary], by simp [hassign], by simp⟩

/-- Nothing binds between the conditional operator and the assignments. -/
theorem Stops.assignment (h : Stops 13 ts) : Stops 14 ts := by
  cases ts with
  | nil => exact .nil
  | cons t ts =>
    cases t with
    | sign s =>
      obtain ⟨hpost, hbinary, hassign, -⟩ := stops_sign.mp h
      refine stops_sign.mpr ⟨fun _ => hpost (by omega), fun op hop => ?_, fun _ => hassign (by omega),
        by omega⟩
      have := hbinary op hop
      have := op.level_bounds
      omega
    | _ => exact stops_cons.mpr rfl

theorem Stops.binary (op : Binary) : Stops (op.level - 1) (.sign op.sign :: ts) :=
  stops_cons.mpr (by cases op <;> decide)

@[simp] theorem binary?_sign (op : Binary) : binary? op.sign = some op := by
  cases op <;> decide

@[simp] theorem unary?_sign (op : Unary) : unary? op.sign = some op := by
  cases op <;> decide

-- ---------------------------------------------------------------------------
-- Productions
-- ---------------------------------------------------------------------------

/-- The tokens are an expression of the level. The fuel allows for one step down from each level and
for twenty steps at each token. -/
def ParsesAt (level : Nat) (ts : List Token) (t : Tree) : Prop :=
  ∀ rest, Stops level rest → ∀ fuel, 20 * ts.length + level < fuel →
    parseAt fuel level (ts ++ rest) = some (t, rest)

section
variable {inner : Nat → Reader Tree}

theorem postfixes_stop (h : Stops 1 rest) : postfixes inner (fuel + 1) t rest = some (t, rest) := by
  cases rest with
  | nil => rfl
  | cons x rest =>
    cases x with
    | sign s =>
      have hs := (stops_sign.mp h).1 (Nat.le_refl 1)
      simp only [List.mem_cons, List.not_mem_nil, or_false, not_or] at hs
      simp [postfixes, hs]
    | _ => rfl

theorem chain_stop (h : Stops level rest) :
    chain inner level (fuel + 1) t rest = some (t, rest) := by
  cases rest with
  | nil => rfl
  | cons x rest =>
    cases x with
    | sign s =>
      have hnone : (binary? s).filter (·.level = level) = none := by
        rw [Option.filter_eq_none_iff]
        intro op hop
        have := (stops_sign.mp h).2.1 op hop
        simp
        omega
      simp [chain, hnone]
    | _ => rfl

theorem chain_step (op : Binary) (h : inner (op.level - 1) ts = some (right, rest)) :
    chain inner op.level (fuel + 1) t (.sign op.sign :: ts) =
      chain inner op.level fuel (.binary op t right) rest := by
  simp [chain, Option.filter, h]

theorem expect_stop (h : ∀ s' ts, rest = .sign s' :: ts → s' ≠ s) : expect s rest = none := by
  cases rest with
  | nil => rfl
  | cons x rest =>
    cases x with
    | sign s' => simp [expect, h s' rest rfl]
    | _ => rfl

theorem alternatives_stop (h : Stops 13 rest) : alternatives inner t rest = some (t, rest) := by
  have hnone : expect "?" rest = none := by
    refine expect_stop ?_
    rintro s' ts rfl
    exact ((stops_sign.mp h).2.2.1 (Nat.le_refl 13)).1
  simp [alternatives, hnone]

theorem assigned_stop (h : Stops 14 rest) : assigned inner t rest = some (t, rest) := by
  cases rest with
  | nil => rfl
  | cons x rest =>
    cases x with
    | sign s =>
      have hs := ((stops_sign.mp h).2.2.1 (by decide)).2
      simp [assigned, hs]
    | _ => rfl

theorem commas_stop (h : Stops 15 rest) : commas inner (fuel + 1) t rest = some (t, rest) := by
  have hnone : expect "," rest = none := by
    refine expect_stop ?_
    rintro s' ts rfl
    exact (stops_sign.mp h).2.2.2 (Nat.le_refl 15)
  simp [commas, hnone]

theorem continued_stop (h : Stops level rest) (hlevel : level ≤ 15) :
    continued inner level (fuel + 1) t rest = some (t, rest) := by
  unfold continued
  split
  · subst_vars
    exact postfixes_stop h
  · split
    · exact chain_stop h
    · split
      · subst_vars
        exact alternatives_stop h
      · split
        · subst_vars
          exact assigned_stop h
        · obtain rfl : level = 15 := by omega
          exact commas_stop h

theorem prefixed_primary (h : primary inner ts = some r) (outer : Nat → Reader Tree) :
    prefixed outer ts = outer 1 ts := by
  cases ts with
  | nil => rfl
  | cons x ts =>
    cases x with
    | sign s =>
      by_cases hs : s = "("
      · simp [prefixed, hs, unary?, Unary.all, Unary.sign]
      · simp [primary, hs] at h
    | _ => rfl

end

-- ---------------------------------------------------------------------------
-- Levels
-- ---------------------------------------------------------------------------

theorem parseAt_zero : parseAt (fuel + 1) 0 ts = primary (parseAt fuel) ts := rfl

theorem parseAt_two : parseAt (fuel + 1) 2 ts = prefixed (parseAt fuel) ts := rfl

theorem parseAt_step (hzero : level ≠ 0) (htwo : level ≠ 2)
    (h : parseAt fuel (level - 1) ts = some (t, rest)) :
    parseAt (fuel + 1) level ts = continued (parseAt fuel) level fuel t rest := by
  simp [parseAt, hzero, htwo, h]

theorem ParsesAt.succ (h : ParsesAt level ts t) (hlevel : level < 15) :
    ParsesAt (level + 1) ts t := by
  intro rest hstop fuel hfuel
  obtain ⟨fuel, rfl⟩ := Nat.exists_eq_add_one_of_ne_zero (Nat.ne_zero_of_lt hfuel)
  have hbelow := h rest (hstop.mono (by omega)) fuel (by omega)
  obtain ⟨fuel, rfl⟩ := Nat.exists_eq_add_one_of_ne_zero (show fuel ≠ 0 by omega)
  by_cases hone : level = 1
  · subst hone
    obtain ⟨r, hprimary⟩ : ∃ r, parseAt fuel 0 (ts ++ rest) = some r := by
      cases hprimary : parseAt fuel 0 (ts ++ rest) with
      | none => simp [parseAt, hprimary] at hbelow
      | some r => exact ⟨r, rfl⟩
    obtain ⟨fuel, rfl⟩ := Nat.exists_eq_add_one_of_ne_zero (show fuel ≠ 0 by omega)
    rw [parseAt_two, prefixed_primary hprimary, hbelow]
  · rw [parseAt_step (by omega) (by omega) hbelow]
    exact continued_stop hstop (by omega)

theorem ParsesAt.lift (h : ParsesAt level ts t) (hle : level ≤ level') (hlast : level' ≤ 15) :
    ParsesAt level' ts t := by
  induction hle with
  | refl => exact h
  | step hle ih => exact (ih (by omega)).succ (by omega)

theorem ParsesAt.leaf (h : ∀ inner rest, primary inner (x :: rest) = some (t, rest)) :
    ParsesAt 0 [x] t := by
  intro rest _ fuel hfuel
  obtain ⟨fuel, rfl⟩ := Nat.exists_eq_add_one_of_ne_zero (Nat.ne_zero_of_lt hfuel)
  exact h (parseAt fuel) rest

theorem ParsesAt.enclosed (h : ParsesAt 15 ts t) :
    ParsesAt 0 (.sign "(" :: (ts ++ [Token.sign ")"])) t := by
  intro rest _ fuel hfuel
  obtain ⟨fuel, rfl⟩ := Nat.exists_eq_add_one_of_ne_zero (Nat.ne_zero_of_lt hfuel)
  simp only [List.length_cons, List.length_append, List.length_nil] at hfuel
  have hinner := h (.sign ")" :: rest) .close fuel (by omega)
  simp [parseAt_zero, primary, hinner, expect]

theorem ParsesAt.unary (op : Unary) (h : ParsesAt 2 ts t) :
    ParsesAt 2 (.sign op.sign :: ts) (.unary op t) := by
  intro rest hstop fuel hfuel
  obtain ⟨fuel, rfl⟩ := Nat.exists_eq_add_one_of_ne_zero (Nat.ne_zero_of_lt hfuel)
  simp only [List.length_cons] at hfuel
  simp [parseAt_two, prefixed, h rest hstop fuel (by omega)]

theorem continued_binary (op : Binary) (inner : Nat → Reader Tree) :
    continued inner op.level fuel t = chain inner op.level fuel t := by
  have := op.level_bounds
  unfold continued
  rw [if_neg (by omega), if_pos (by omega)]

theorem ParsesAt.binary (op : Binary) (hl : ParsesAt (op.level - 1) ls l)
    (hr : ParsesAt (op.level - 1) rs r) :
    ParsesAt op.level (ls ++ .sign op.sign :: rs) (.binary op l r) := by
  intro rest hstop fuel hfuel
  have hlevel := op.level_bounds
  simp only [List.length_append, List.length_cons] at hfuel
  obtain ⟨fuel, rfl⟩ : ∃ n, fuel = n + 3 := ⟨fuel - 3, by omega⟩
  have hleft := hl (.sign op.sign :: (rs ++ rest)) (.binary op) (fuel + 2) (by omega)
  have hright := hr rest (hstop.mono (by omega)) (fuel + 2) (by omega)
  rw [List.append_assoc, List.cons_append, parseAt_step (by omega) (by omega) hleft,
    continued_binary, chain_step op hright]
  exact chain_stop hstop

/-- Two operators of one level group from the left. -/
theorem ParsesAt.between {op op' : Binary} (hop : op'.level = op.level)
    (hl : ParsesAt (op.level - 1) ls l) (hm : ParsesAt (op.level - 1) ms m)
    (hr : ParsesAt (op.level - 1) rs r) :
    ParsesAt op.level (ls ++ .sign op.sign :: (ms ++ .sign op'.sign :: rs))
      (.binary op' (.binary op l m) r) := by
  intro rest hstop fuel hfuel
  have hlevel := op.level_bounds
  simp only [List.length_append, List.length_cons] at hfuel
  obtain ⟨fuel, rfl⟩ : ∃ n, fuel = n + 4 := ⟨fuel - 4, by omega⟩
  have hstop' : Stops (op.level - 1) (.sign op'.sign :: (rs ++ rest)) := hop ▸ .binary op'
  have hleft := hl (.sign op.sign :: (ms ++ .sign op'.sign :: (rs ++ rest))) (.binary op) (fuel + 3)
    (by omega)
  have hmiddle := hm (.sign op'.sign :: (rs ++ rest)) hstop' (fuel + 3) (by omega)
  have hright := hr rest (hstop.mono (by omega)) (fuel + 3) (by omega)
  simp only [List.append_assoc, List.cons_append]
  rw [parseAt_step (by omega) (by omega) hleft, continued_binary, chain_step op hmiddle, ← hop,
    chain_step op' (by rw [hop]; exact hright)]
  exact chain_stop (hop ▸ hstop)

theorem ParsesAt.conditional (hc : ParsesAt 12 cs c) (ha : ParsesAt 15 as a)
    (hb : ParsesAt 14 bs b) :
    ParsesAt 13 (cs ++ .sign "?" :: (as ++ .sign ":" :: bs)) (.conditional c a b) := by
  intro rest hstop fuel hfuel
  simp only [List.length_append, List.length_cons] at hfuel
  obtain ⟨fuel, rfl⟩ := Nat.exists_eq_add_one_of_ne_zero (Nat.ne_zero_of_lt hfuel)
  have hcondition := hc (.sign "?" :: (as ++ .sign ":" :: (bs ++ rest))) (stops_cons.mpr rfl) fuel
    (by omega)
  have hyes := ha (.sign ":" :: (bs ++ rest)) (stops_cons.mpr rfl) fuel (by omega)
  have hno := hb rest hstop.assignment fuel (by omega)
  simp only [List.append_assoc, List.cons_append]
  rw [parseAt_step (by omega) (by omega) hcondition]
  simp [continued, alternatives, expect, hyes, hno]

/-- The target of an assignment is tighter than a conditional. -/
theorem ParsesAt.assigned (hl : ParsesAt 12 ls l) (hr : ParsesAt 14 rs r) :
    ParsesAt 14 (ls ++ .sign "=" :: rs) (.assign none l r) := by
  intro rest hstop fuel hfuel
  simp only [List.length_append, List.length_cons] at hfuel
  obtain ⟨fuel, rfl⟩ : ∃ n, fuel = n + 2 := ⟨fuel - 2, by omega⟩
  have hbelow := hl (.sign "=" :: (rs ++ rest)) (stops_cons.mpr rfl) fuel (by omega)
  have htarget : parseAt (fuel + 1) 13 (ls ++ .sign "=" :: (rs ++ rest)) =
      some (l, .sign "=" :: (rs ++ rest)) := by
    rw [parseAt_step (by omega) (by omega) hbelow]
    simp [continued, alternatives, expect]
  have hvalue := hr rest hstop (fuel + 1) (by omega)
  rw [List.append_assoc, List.cons_append, parseAt_step (by omega) (by omega) htarget]
  simp [continued, Expression.assigned, assignment?, hvalue]

theorem parseAt_close : parseAt fuel level (.sign ")" :: ts) = none := by
  induction fuel generalizing level with
  | zero => rfl
  | succ fuel ih =>
    by_cases hzero : level = 0
    · simp [hzero, parseAt, primary]
    · by_cases htwo : level = 2
      · have hunary : unary? ")" = none := by decide
        simp [htwo, parseAt, prefixed, hunary, ih]
      · simp [parseAt, hzero, htwo, ih]

theorem ParsesAt.expect_close (h : ParsesAt level ts t) (rest : List Token) :
    expect ")" (ts ++ rest) = none := by
  cases ts with
  | nil =>
    have hempty := h [.sign ")"] .close _ (Nat.lt_succ_self _)
    simp [parseAt_close] at hempty
  | cons x ts =>
    refine expect_stop ?_
    rintro s' ts' heq rfl
    cases heq
    have hclose := h [] .nil _ (Nat.lt_succ_self _)
    simp [parseAt_close] at hclose

theorem ParsesAt.call (f : String) (h : ParsesAt 14 as a) :
    ParsesAt 1 (.name f :: .sign "(" :: (as ++ [Token.sign ")"])) (.call (.name f) [a]) := by
  intro rest hstop fuel hfuel
  simp only [List.length_cons, List.length_append, List.length_nil] at hfuel
  obtain ⟨fuel, rfl⟩ : ∃ n, fuel = n + 4 := ⟨fuel - 4, by omega⟩
  have hname : parseAt (fuel + 3) 0 (.name f :: .sign "(" :: (as ++ .sign ")" :: rest)) =
      some (.name f, .sign "(" :: (as ++ .sign ")" :: rest)) := rfl
  have harguments : arguments (parseAt (fuel + 3)) (fuel + 2) (as ++ .sign ")" :: rest) =
      some ([a], rest) := by
    have hinner := h (.sign ")" :: rest) .close (fuel + 3) (by omega)
    simp [arguments, h.expect_close, hinner, moreArguments]
  simp only [List.cons_append, List.append_assoc, List.nil_append]
  rw [parseAt_step (by omega) (by omega) hname]
  simp [continued, postfixes, harguments, postfixes_stop hstop]

theorem ParsesAt.method (o m : String) :
    ParsesAt 1 [.name o, .sign ".", .name m, .sign "(", .sign ")"]
      (.call (.member (.name o) m) []) := by
  intro rest hstop fuel hfuel
  simp only [List.length_cons, List.length_nil] at hfuel
  obtain ⟨fuel, rfl⟩ : ∃ n, fuel = n + 4 := ⟨fuel - 4, by omega⟩
  have hname : parseAt (fuel + 3) 0
      (.name o :: .sign "." :: .name m :: .sign "(" :: .sign ")" :: rest) =
      some (.name o, .sign "." :: .name m :: .sign "(" :: .sign ")" :: rest) := rfl
  simp only [List.cons_append, List.nil_append]
  rw [parseAt_step (by omega) (by omega) hname]
  simp [continued, postfixes, arguments, expect, postfixes_stop hstop]

theorem ParsesAt.index (array : String) (h : ParsesAt 15 is i) :
    ParsesAt 1 (.name array :: .sign "[" :: (is ++ [Token.sign "]"])) (.index (.name array) i) := by
  intro rest hstop fuel hfuel
  simp only [List.length_cons, List.length_append, List.length_nil] at hfuel
  obtain ⟨fuel, rfl⟩ : ∃ n, fuel = n + 4 := ⟨fuel - 4, by omega⟩
  have hname : parseAt (fuel + 3) 0 (.name array :: .sign "[" :: (is ++ .sign "]" :: rest)) =
      some (.name array, .sign "[" :: (is ++ .sign "]" :: rest)) := rfl
  have hposition := h (.sign "]" :: rest) (stops_cons.mpr rfl) (fuel + 3) (by omega)
  simp only [List.cons_append, List.append_assoc, List.nil_append]
  rw [parseAt_step (by omega) (by omega) hname]
  simp [continued, postfixes, hposition, expect, postfixes_stop hstop]

-- ---------------------------------------------------------------------------
-- Phrases
-- ---------------------------------------------------------------------------

def Opens (code : String) : Prop :=
  ∃ c rest, code.toList = c :: rest ∧ isOpening c = true

theorem Opens.append (h : Opens code) (more : String) : Opens (code ++ more) := by
  obtain ⟨c, rest, hcode, hc⟩ := h
  exact ⟨c, rest ++ more.toList, by rw [String.toList_append, hcode, List.cons_append], hc⟩

theorem Opens.word (h : isWord code.toList = true) : Opens code := by
  cases hcs : code.toList with
  | nil => simp [hcs, isWord] at h
  | cons c rest =>
    simp only [hcs, isWord, Bool.and_eq_true] at h
    exact ⟨c, rest, hcs, by simp [isOpening, isNameChar_start h.1]⟩

def IsName (s : String) : Prop :=
  isWord s.toList = true ∧ wordToken s = .name s

instance : DecidablePred IsName := fun _ => inferInstanceAs (Decidable (_ ∧ _))

theorem Spells.name (h : IsName s) : Spells s.toList [.name s] := by
  have hspells := Spells.word h.1
  rwa [String.ofList_toList, h.2] at hspells

/-- A piece of code that is an expression of a level. Up to the level of calls it can be the operand
of a prefix operator, which a sign at its start could make a longer one. -/
def Phrase (code : String) (level : Nat) (t : Tree) : Prop :=
  ∃ ts, Spells code.toList ts ∧ ParsesAt level ts t ∧ (level ≤ 1 → Opens code)

namespace Phrase

theorem parse (h : Phrase code level t) (hlevel : level ≤ 15) : parse code = some t := by
  obtain ⟨ts, hspells, hparses, -⟩ := h
  have htokens : tokens (code.length + 1) code.toList = some ts := by
    have hlexes := hspells [] [] .nil .nil
    simp only [List.append_nil] at hlexes
    exact hlexes (code.length + 1) (Nat.lt_add_one _)
  have htree := hparses.lift hlevel (Nat.le_refl 15) [] .nil (enough ts.length)
    (by simp [enough])
  rw [List.append_nil] at htree
  simp [Expression.parse, htokens, htree]

theorem not_empty (h : Phrase code level t) : code.isEmpty = false := by
  rw [← Bool.not_eq_true, String.isEmpty_iff]
  rintro rfl
  obtain ⟨ts, hspells, hparses, -⟩ := h
  have hnil : some [] = some (ts ++ []) := hspells [] [] .nil .nil 1 Nat.one_pos
  simp only [List.append_nil, Option.some.injEq] at hnil
  subst hnil
  have hclose := hparses [.sign ")"] .close _ (Nat.lt_succ_self _)
  simp [parseAt_close] at hclose

theorem lift (h : Phrase code level t) (hle : level ≤ level') (hlast : level' ≤ 15) :
    Phrase code level' t := by
  obtain ⟨ts, hspells, hparses, hopens⟩ := h
  exact ⟨ts, hspells, hparses.lift hle hlast, fun hl => hopens (by omega)⟩

theorem enclosed (h : Phrase code level t) (hlevel : level ≤ 15) :
    Phrase ("(" ++ code ++ ")") 0 t := by
  obtain ⟨ts, hspells, hparses, -⟩ := h
  refine ⟨.sign "(" :: (ts ++ [Token.sign ")"]), ?_, (hparses.lift hlevel (Nat.le_refl 15)).enclosed,
    fun _ => ⟨'(', code.toList ++ [')'], by simp, rfl⟩⟩
  intro rest others hrest hothers
  have hinner := hspells _ _ (.cons rfl) (hothers.token ')' [] rfl rfl)
  simpa using hinner.token '(' [] rfl rfl

theorem name (h : IsName s) : Phrase s 0 (.name s) :=
  ⟨[.name s], .name h, .leaf fun _ _ => rfl, fun _ => .word h.1⟩

theorem boolean (b : Bool) : Phrase (if b then "true" else "false") 0 (.boolean b) := by
  have hword : isWord (if b then "true" else "false").toList = true := by cases b <;> decide
  have hspells := Spells.word hword
  rw [String.ofList_toList] at hspells
  refine ⟨[.boolean b], ?_, .leaf fun _ _ => rfl, fun _ => .word hword⟩
  cases b <;> exact hspells

theorem number (h : isNumeral s.toList = true) : Phrase s 0 (.number s) := by
  have hspells := Spells.number h
  rw [String.ofList_toList] at hspells
  refine ⟨[.number s], hspells, .leaf fun _ _ => rfl, fun _ => ?_⟩
  cases hcs : s.toList with
  | nil => simp [hcs, isNumeral] at h
  | cons c rest =>
    simp only [hcs, isNumeral, Bool.and_eq_true] at h
    exact ⟨c, rest, hcs, by simp [isOpening, isNameChar_digit h.1]⟩

theorem text (s : String) : Phrase (stringLiteral s) 0 (.text s) :=
  ⟨[.text s], .text s, .leaf fun _ _ => rfl,
    fun _ => ⟨'"', _, by rw [stringLiteral, stringLiteralChars, String.toList_ofList], rfl⟩⟩

theorem unary (op : Unary) (h : Phrase code 1 t) : Phrase (op.sign ++ code) 2 (.unary op t) := by
  obtain ⟨ts, hspells, hparses, hopens⟩ := h
  obtain ⟨c, cs, hcode, hc⟩ := hopens (Nat.le_refl 1)
  refine ⟨.sign op.sign :: ts, ?_, (hparses.lift (by omega) (by omega)).unary op, by omega⟩
  intro rest others hrest hothers
  have hinner := hspells rest others hrest hothers
  rw [hcode, List.cons_append] at hinner
  rw [String.toList_append, hcode, List.append_assoc, List.cons_append]
  exact hinner.unary op hc

theorem spells_binary (op : Binary) (hl : Spells l.toList ls) (hr : Spells r.toList rs) :
    Spells (l ++ " " ++ op.sign ++ " " ++ r).toList (ls ++ .sign op.sign :: rs) := by
  intro rest others hrest hothers
  have hright := hr rest others hrest hothers
  have hleft := hl _ _ (.cons rfl) (hright.binary op)
  simpa using hleft

theorem binary (op : Binary) (hl : Phrase l (op.level - 1) tl) (hr : Phrase r (op.level - 1) tr) :
    Phrase (l ++ " " ++ op.sign ++ " " ++ r) op.level (.binary op tl tr) := by
  obtain ⟨ls, hlspells, hlparses, -⟩ := hl
  obtain ⟨rs, hrspells, hrparses, -⟩ := hr
  have := op.level_bounds
  exact ⟨_, spells_binary op hlspells hrspells, hlparses.binary op hrparses, by omega⟩

theorem between {op op' : Binary} (hop : op'.level = op.level) (hl : Phrase l (op.level - 1) tl)
    (hm : Phrase m (op.level - 1) tm) (hr : Phrase r (op.level - 1) tr) :
    Phrase (l ++ " " ++ op.sign ++ " " ++ (m ++ " " ++ op'.sign ++ " " ++ r)) op.level
      (.binary op' (.binary op tl tm) tr) := by
  obtain ⟨ls, hlspells, hlparses, -⟩ := hl
  obtain ⟨ms, hmspells, hmparses, -⟩ := hm
  obtain ⟨rs, hrspells, hrparses, -⟩ := hr
  have := op.level_bounds
  exact ⟨_, spells_binary op hlspells (spells_binary op' hmspells hrspells),
    hlparses.between hop hmparses hrparses, by omega⟩

theorem conditional (hc : Phrase c 12 tc) (ha : Phrase a 15 ta) (hb : Phrase b 14 tb) :
    Phrase (c ++ " ? " ++ a ++ " : " ++ b) 13 (.conditional tc ta tb) := by
  obtain ⟨cs, hcspells, hcparses, -⟩ := hc
  obtain ⟨as, haspells, haparses, -⟩ := ha
  obtain ⟨bs, hbspells, hbparses, -⟩ := hb
  refine ⟨_, ?_, hcparses.conditional haparses hbparses, by omega⟩
  intro rest others hrest hothers
  have hno := (hbspells rest others hrest hothers).blank.token ':' [] rfl rfl
  have hyes := (haspells _ _ (.cons rfl) hno.blank).blank.token '?' [] rfl rfl
  have hcondition := hcspells _ _ (.cons rfl) hyes.blank
  simpa using hcondition

theorem assigned (hl : Phrase l 12 tl) (hr : Phrase r 14 tr) :
    Phrase (l ++ " = " ++ r) 14 (.assign none tl tr) := by
  obtain ⟨ls, hlspells, hlparses, -⟩ := hl
  obtain ⟨rs, hrspells, hrparses, -⟩ := hr
  refine ⟨_, ?_, hlparses.assigned hrparses, by omega⟩
  intro rest others hrest hothers
  have hvalue := (hrspells rest others hrest hothers).blank.token '=' [] rfl rfl
  have htarget := hlspells _ _ (.cons rfl) hvalue.blank
  simpa using htarget

theorem call (hf : IsName f) (h : Phrase code 14 t) :
    Phrase (f ++ "(" ++ code ++ ")") 1 (.call (.name f) [t]) := by
  obtain ⟨ts, hspells, hparses, -⟩ := h
  refine ⟨_, ?_, hparses.call f, fun _ => (((Opens.word hf.1).append _).append _).append _⟩
  intro rest others hrest hothers
  have hargument := hspells _ _ (.cons rfl) (hothers.token ')' [] rfl rfl)
  have hfunction := Spells.name hf _ _ (.cons rfl) (hargument.token '(' [] rfl rfl)
  simpa using hfunction

theorem index (hf : IsName f) (h : Phrase code 15 t) :
    Phrase (f ++ "[" ++ code ++ "]") 1 (.index (.name f) t) := by
  obtain ⟨ts, hspells, hparses, -⟩ := h
  refine ⟨_, ?_, hparses.index f, fun _ => (((Opens.word hf.1).append _).append _).append _⟩
  intro rest others hrest hothers
  have hposition := hspells _ _ (.cons rfl) (hothers.token ']' [] rfl rfl)
  have harray := Spells.name hf _ _ (.cons rfl) (hposition.token '[' [] rfl rfl)
  simpa using harray

theorem method (ho : IsName o) (hm : IsName m) :
    Phrase (o ++ "." ++ m ++ "()") 1 (.call (.member (.name o) m) []) := by
  refine ⟨_, ?_, .method o m, fun _ => (((Opens.word ho.1).append _).append _).append _⟩
  intro rest others hrest hothers
  have hcall := (hothers.token ')' [] rfl rfl).token '(' [] rfl rfl
  have hmember := (Spells.name hm _ _ (.cons rfl) hcall).point hm.1
  have hobject := hmember.word ho.1 (by simp [isNameChar])
  rw [String.ofList_toList, ho.2] at hobject
  simpa using hobject

end Phrase

end BlockSketch.Expression
