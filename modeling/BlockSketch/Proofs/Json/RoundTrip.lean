import BlockSketch.Proofs.Checking
import BlockSketch.Proofs.Json.Numerals
import BlockSketch.Proofs.Json.Strings
import BlockSketch.Proofs.Value

/-!
# Values in JSON text

A value is read back from the text it is written as, on one line or with any number of spaces a level.
Text carries no labels, so that only what is not a number can differ, by its label. The readers go on
where a value ends, so each part of a text is read by itself, whatever comes after it.
-/

namespace BlockSketch

namespace Value

/-- A value that a program can hold: the names of an object are distinct, and what is stored as a
binary64 number is one. -/
inductive Valid : Value → Prop
  | scalar (h : v.isContainer = false) (hreal : ∀ x, v = .real x → x.IsCanonical) : Valid v
  | list {items : List Value} (h : ∀ v ∈ items, Valid v) : Valid (.list items)
  | object {members : List (String × Value)} (hnames : (members.map Prod.fst).Nodup)
      (h : ∀ m ∈ members, Valid m.2) : Valid (.object members)

theorem Valid.wellKeyed (h : Valid v) : v.WellKeyed := by
  induction h with
  | scalar h _ => exact .scalar h
  | list _ ih => exact .list ih
  | object hnames _ ih => exact .object hnames ih

theorem unlabelledItems_eq (items : List Value) : unlabelledItems items = items.map unlabelled := by
  induction items with
  | nil => rfl
  | cons v items ih => rw [unlabelledItems, ih, List.map_cons]

theorem unlabelledMembers_eq (members : List (String × Value)) :
    unlabelledMembers members = members.map fun m => (m.1, m.2.unlabelled) := by
  induction members with
  | nil => rfl
  | cons m members ih => rw [unlabelledMembers, ih, List.map_cons]

end Value

namespace Assoc

theorem put_new {entries : Assoc α} (h : name ∉ entries.names) (a : α) :
    entries.put name a = entries ++ [(name, a)] := by
  induction entries with
  | nil => rfl
  | cons e entries ih =>
    simp only [names, List.map_cons, List.mem_cons, not_or] at h
    rw [put, if_neg (Ne.symm h.1), ih h.2, List.cons_append]

theorem ofList_eq {entries : List (String × α)} (h : (entries.map Prod.fst).Nodup) :
    ofList entries = entries := by
  have hfold : ∀ (rest acc : List (String × α)), ((acc ++ rest).map Prod.fst).Nodup →
      rest.foldl (fun acc m => put acc m.1 m.2) acc = acc ++ rest := by
    intro rest
    induction rest with
    | nil => simp
    | cons m rest ih =>
      intro acc hnodup
      have hnew : m.1 ∉ names acc := by
        rw [List.map_append, List.map_cons, List.nodup_append] at hnodup
        exact fun hmem => hnodup.2.2 _ hmem m.1 (by simp) rfl
      rw [List.foldl_cons, put_new hnew, ih _ (by simpa using hnodup), List.append_assoc]
      rfl
  exact hfold entries [] h

end Assoc

namespace Json

open Numeral (isDigit)

-- ---------------------------------------------------------------------------
-- Blanks
-- ---------------------------------------------------------------------------

def Blank (cs : List Char) : Prop :=
  ∀ c ∈ cs, isSpace c = true

theorem skipSpace_append (h : Blank ws) (cs : List Char) : skipSpace (ws ++ cs) = skipSpace cs :=
  List.dropWhile_append_of_pos h

theorem skipSpace_cons (h : isSpace c = false) (cs : List Char) : skipSpace (c :: cs) = c :: cs := by
  simp [skipSpace, h]

theorem stops_space (h : isSpace c = true) : isDigit c = false ∧ c ≠ '.' ∧ c ≠ 'e' ∧ c ≠ 'E' := by
  simp only [isSpace, Bool.or_eq_true, decide_eq_true_eq] at h
  rcases h with ((rfl | rfl) | rfl) | rfl <;> decide

theorem Blank.stops (h : Blank ws) (hrest : Stops rest) : Stops (ws ++ rest) := by
  cases ws with
  | nil => exact hrest
  | cons c ws =>
    intro x hx
    rw [List.cons_append, List.head?_cons, Option.mem_some_iff] at hx
    exact hx ▸ stops_space (h c (by simp))

namespace Layout

def IsBlank : Layout → Prop
  | .line => True
  | .block indent => Blank indent.toList

theorem ofIndent_isBlank (indent : Option Int) : (ofIndent indent).IsBlank := by
  cases indent with
  | none => trivial
  | some n =>
    intro c hc
    rw [String.toList_ofList] at hc
    rw [List.eq_of_mem_replicate hc]
    decide

theorem newline_blank {layout : Layout} (h : layout.IsBlank) (depth : Nat) :
    Blank (layout.newline depth).toList := by
  cases layout with
  | line => simp [newline, Blank]
  | block indent =>
    intro c hc
    simp only [newline, String.toList_append, String.toList_join, List.mem_append, List.mem_flatMap,
      List.mem_replicate] at hc
    rcases hc with hc | ⟨s, ⟨-, rfl⟩, hc⟩
    · obtain rfl : c = '\n' := by simpa using hc
      decide
    · exact h c hc

theorem separator_eq {layout : Layout} (h : layout.IsBlank) (depth : Nat) :
    ∃ ws, Blank ws ∧ (layout.comma ++ layout.newline depth).toList = ',' :: ws := by
  have hnewline := newline_blank h depth
  cases layout with
  | line => exact ⟨[' '], by simp [Blank, isSpace], by simp [comma, newline]⟩
  | block indent => exact ⟨_, hnewline, by simp [comma]⟩

end Layout

-- ---------------------------------------------------------------------------
-- Texts of values
-- ---------------------------------------------------------------------------

/-- A character that is not skipped, closes no list and is no byte order mark. -/
def opens (c : Char) : Bool :=
  !isSpace c && c ≠ ']' && c ≠ '\ufeff'

def Begins (cs : List Char) : Prop :=
  ∃ c tail, cs = c :: tail ∧ opens c = true

theorem Begins.append (h : Begins cs) (rest : List Char) : Begins (cs ++ rest) := by
  obtain ⟨c, tail, rfl, hc⟩ := h
  exact ⟨c, tail ++ rest, rfl, hc⟩

theorem Begins.intercalate (h : Begins t) (sep : List Char) (ts : List (List Char)) :
    Begins (sep.intercalate (t :: ts)) := by
  obtain ⟨c, tail, rfl, hc⟩ := h
  exact ⟨c, _, List.intercalate_cons_cons_left, hc⟩

theorem Begins.skipSpace (h : Begins cs) (hws : Blank ws) : skipSpace (ws ++ cs) = cs := by
  obtain ⟨c, tail, rfl, hc⟩ := h
  simp only [opens, Bool.and_eq_true, Bool.not_eq_true'] at hc
  rw [skipSpace_append hws, skipSpace_cons hc.1.1]

/-- A text is read as a value, whatever comes after it that does not go on with a number. -/
structure ReadsAs (cs : List Char) (v : Value) : Prop where
  reads : ∀ fuel rest, Stops rest → 2 * cs.length ≤ fuel → readValue fuel (cs ++ rest) = .ok (v, rest)
  head : Begins cs

theorem readValue_word (hc : c ≠ '"' ∧ c ≠ '\x7b' ∧ c ≠ '[')
    (h : readWord? (c :: cs) = some (v, rest)) : readValue (fuel + 1) (c :: cs) = .ok (v, rest) := by
  simp [readValue, hc, h]

theorem readValue_number (hc : c ≠ '"' ∧ c ≠ '\x7b' ∧ c ≠ '[') (hword : readWord? (c :: cs) = none)
    (h : readNumber (c :: cs) = .ok (n, rest)) :
    readValue (fuel + 1) (c :: cs) = .ok (.number n, rest) := by
  simp [readValue, hc, hword, h, Except.map]

theorem readValue_text (h : readString fuel cs = .ok (s, rest)) :
    readValue (fuel + 1) ('"' :: cs) = .ok (.text s, rest) := by
  simp [readValue, h, Except.map]

theorem readsAs_word (hcs : cs = c :: tail) (hc : c ≠ '"' ∧ c ≠ '\x7b' ∧ c ≠ '[')
    (hopens : opens c = true)
    (h : ∀ rest, readWord? (c :: (tail ++ rest)) = some (v, rest)) : ReadsAs cs v := by
  refine ⟨fun fuel rest _ hfuel => ?_, ⟨c, tail, hcs, hopens⟩⟩
  rw [hcs, List.length_cons] at hfuel
  obtain ⟨fuel, rfl⟩ : ∃ k, fuel = k + 1 := ⟨fuel - 1, by omega⟩
  rw [hcs]
  exact readValue_word hc (h rest)

theorem ne_digit (hc : isDigit c = true) (hx : isDigit x = false) : x ≠ c := by
  rintro rfl
  rw [hc] at hx
  cases hx

theorem readWord?_digit (hc : isDigit c = true) : readWord? (c :: tail) = none := by
  simp [readWord?, words, ne_digit hc (x := 'n') (by decide), ne_digit hc (x := 't') (by decide),
    ne_digit hc (x := 'f') (by decide), ne_digit hc (x := 'N') (by decide),
    ne_digit hc (x := 'I') (by decide), ne_digit hc (x := '-') (by decide)]

theorem readWord?_minus (hc : isDigit c = true) : readWord? ('-' :: c :: tail) = none := by
  simp [readWord?, words, ne_digit hc (x := 'I') (by decide)]

theorem readsAs_number (h : NumberText cs n) : ReadsAs cs (.number n) := by
  obtain ⟨c, tail, hdigit, hcs⟩ := h.head
  have hne : ∀ x, isDigit x = false → c ≠ x := fun x hx => (ne_digit hdigit hx).symm
  refine ⟨fun fuel rest hrest hfuel => ?_, ?_⟩
  · have hnumber := h.reads rest hrest
    rcases hcs with rfl | rfl
    · obtain ⟨fuel, rfl⟩ : ∃ k, fuel = k + 1 := ⟨fuel - 1, by simp at hfuel; omega⟩
      exact readValue_number ⟨hne _ (by decide), hne _ (by decide), hne _ (by decide)⟩
        (readWord?_digit hdigit) hnumber
    · obtain ⟨fuel, rfl⟩ : ∃ k, fuel = k + 1 := ⟨fuel - 1, by simp at hfuel; omega⟩
      exact readValue_number (by decide) (readWord?_minus hdigit) hnumber
  · rcases hcs with rfl | rfl
    · refine ⟨c, tail, rfl, ?_⟩
      simp [opens, isSpace, hne ' ' (by decide), hne '\t' (by decide), hne '\n' (by decide),
        hne '\r' (by decide), hne ']' (by decide), hne '\ufeff' (by decide)]
    · exact ⟨'-', c :: tail, rfl, by decide⟩

theorem readsAs_writeNumber (hreal : ∀ x, n = .real x → x.IsCanonical) :
    ReadsAs (writeNumber n).toList (Value.unlabelled (.number n)) := by
  cases n with
  | int n => exact readsAs_number (numberText_int n)
  | real x =>
    cases x with
    | finite negative m e => exact readsAs_number (numberText_finite negative (hreal _ rfl))
    | infinite negative =>
      cases negative with
      | true =>
        exact readsAs_word (by simp [writeNumber, Binary64.sign]; exact ⟨rfl, rfl⟩) (by decide)
          (by decide) fun _ => rfl
      | false =>
        exact readsAs_word (by simp [writeNumber, Binary64.sign]; exact ⟨rfl, rfl⟩) (by decide)
          (by decide) fun _ => rfl
    | nan label =>
      exact readsAs_word (by simp [writeNumber]; exact ⟨rfl, rfl⟩) (by decide) (by decide) fun _ => rfl

theorem readsAs_text (s : String) : ReadsAs (writeString s).toList (.text s) := by
  have heq : (writeString s).toList = '"' :: (s.toList.flatMap escapeChar ++ ['"']) := by
    simp [writeString]
  refine ⟨fun fuel rest _ hfuel => ?_, ⟨'"', _, heq, by decide⟩⟩
  rw [heq] at hfuel ⊢
  simp only [List.length_cons, List.length_append, List.length_nil] at hfuel
  obtain ⟨fuel, rfl⟩ : ∃ k, fuel = k + 1 := ⟨fuel - 1, by omega⟩
  rw [List.cons_append, List.append_assoc]
  exact readValue_text (readString_write s (by omega))

-- ---------------------------------------------------------------------------
-- Containers
-- ---------------------------------------------------------------------------

theorem stops_cons (h : c = ',' ∨ c = ']' ∨ c = '\x7d') (cs : List Char) : Stops (c :: cs) := by
  intro x hx
  obtain rfl : c = x := by simpa using hx
  rcases h with rfl | rfl | rfl <;> decide

theorem readItems_write (h : List.Forall₂ ReadsAs ts vs) (hne : ts ≠ []) (hws : Blank ws)
    (hclose : Blank close) (hfuel : 2 * ((',' :: ws).intercalate ts).length < fuel) :
    readItems fuel ((',' :: ws).intercalate ts ++ (close ++ ']' :: rest)) = .ok (vs, rest) := by
  induction h generalizing fuel with
  | nil => exact absurd rfl hne
  | @cons t v ts vs ht hts ih =>
    obtain ⟨fuel, rfl⟩ : ∃ k, fuel = k + 1 := ⟨fuel - 1, by omega⟩
    cases hts with
    | nil =>
      rw [List.intercalate_singleton] at hfuel ⊢
      have hvalue := ht.reads fuel _ (hclose.stops (stops_cons (c := ']') (by simp) rest)) (by omega)
      simp [readItems, hvalue, bind, Except.bind, skipSpace_append hclose,
        skipSpace_cons (c := ']') (by decide)]
    | @cons t' v' ts vs ht' hts =>
      rw [List.intercalate_cons_cons] at hfuel ⊢
      simp only [List.length_append, List.length_cons] at hfuel
      have hmore : readItems fuel ((',' :: ws).intercalate (t' :: ts) ++ (close ++ ']' :: rest)) =
          .ok (v' :: vs, rest) := ih (by simp) (by omega)
      have hbegins := ((Begins.intercalate ht'.head (',' :: ws) ts).append (close ++ ']' :: rest))
      have hvalue := ht.reads fuel _ (stops_cons (c := ',') (by simp)
        (ws ++ ((',' :: ws).intercalate (t' :: ts) ++ (close ++ ']' :: rest)))) (by omega)
      simp only [List.append_assoc, List.cons_append, readItems, hvalue, bind, Except.bind,
        skipSpace_cons (c := ',') (by decide), hbegins.skipSpace hws, hmore]

def MemberText (cs : List Char) (m : String × Value) : Prop :=
  ∃ t, ReadsAs t m.2 ∧ cs = '"' :: (m.1.toList.flatMap escapeChar ++ '"' :: ':' :: ' ' :: t)

theorem MemberText.begins (h : MemberText cs m) : Begins cs := by
  obtain ⟨t, -, rfl⟩ := h
  exact ⟨'"', _, rfl, by decide⟩

/-- A member is read with its name; what follows it closes the object or goes on with members. -/
theorem readMembers_member (h : MemberText t m) (hfuel : 2 * t.length ≤ fuel) (hrest : Stops rest)
    (hmore : skipSpace rest = '\x7d' :: after ∧ ms = [] ∨
      ∃ cs, skipSpace rest = ',' :: cs ∧ readMembers fuel (skipSpace cs) = .ok (ms, after)) :
    readMembers (fuel + 1) (t ++ rest) = .ok (m :: ms, after) := by
  obtain ⟨t, ht, rfl⟩ := h
  obtain ⟨name, v⟩ := m
  simp only [List.length_cons, List.length_append] at hfuel
  have hname : readString fuel (name.toList.flatMap escapeChar ++ '"' :: ':' :: ' ' :: (t ++ rest)) =
      .ok (name, ':' :: ' ' :: (t ++ rest)) := readString_write name (by omega)
  have hvalue := ht.reads fuel rest hrest (by omega)
  have hspace : Blank [' '] := by simp [Blank, isSpace]
  have hskip : skipSpace (' ' :: (t ++ rest)) = t ++ rest :=
    (Begins.append ht.head rest).skipSpace hspace
  simp only [List.cons_append, List.append_assoc, readMembers, hname, bind, Except.bind,
    skipSpace_cons (c := ':') (by decide), hskip, hvalue]
  rcases hmore with ⟨hclose, rfl⟩ | ⟨cs, hcomma, hms⟩
  · simp only [hclose]
  · simp only [hcomma, hms]

theorem readMembers_write (h : List.Forall₂ MemberText ts ms) (hne : ts ≠ []) (hws : Blank ws)
    (hclose : Blank close) (hfuel : 2 * ((',' :: ws).intercalate ts).length < fuel) :
    readMembers fuel ((',' :: ws).intercalate ts ++ (close ++ '\x7d' :: rest)) = .ok (ms, rest) := by
  induction h generalizing fuel with
  | nil => exact absurd rfl hne
  | @cons t m ts ms ht hts ih =>
    obtain ⟨fuel, rfl⟩ : ∃ k, fuel = k + 1 := ⟨fuel - 1, by omega⟩
    cases hts with
    | nil =>
      rw [List.intercalate_singleton] at hfuel ⊢
      refine readMembers_member ht (by omega) (hclose.stops (stops_cons (by simp) rest)) (.inl ⟨?_, rfl⟩)
      rw [skipSpace_append hclose, skipSpace_cons (by decide)]
    | @cons t' m' ts ms ht' hts =>
      rw [List.intercalate_cons_cons] at hfuel ⊢
      simp only [List.length_append, List.length_cons] at hfuel
      have hbegins := (Begins.intercalate ht'.begins (',' :: ws) ts).append (close ++ '\x7d' :: rest)
      rw [List.append_assoc, List.append_assoc, List.cons_append]
      refine readMembers_member ht (by omega) (stops_cons (by simp) _)
        (.inr ⟨_, skipSpace_cons (by decide) _, ?_⟩)
      rw [hbegins.skipSpace hws]
      exact ih (by simp) (by omega)

theorem wrap_toList {layout : Layout} {texts : List String} (h : texts ≠ []) :
    (layout.wrap depth opening closing texts).toList = opening.toList ++
      ((layout.newline depth).toList ++
        ((layout.comma ++ layout.newline depth).toList.intercalate (texts.map String.toList) ++
          ((layout.newline (depth - 1)).toList ++ closing.toList))) := by
  simp [Layout.wrap, h, String.toList_intercalate]

theorem readValue_list (h : skipSpace cs = body) (hbegins : Begins body)
    (hitems : readItems fuel body = .ok (vs, rest)) :
    readValue (fuel + 1) ('[' :: cs) = .ok (.list vs, rest) := by
  obtain ⟨c, tail, rfl, hc⟩ := hbegins
  have hbracket : c ≠ ']' := by
    rintro rfl
    cases hc
  simp [readValue, h, hbracket, hitems, Except.map]

theorem readValue_object (h : skipSpace cs = body) (hquote : ∃ tail, body = '"' :: tail)
    (hmembers : readMembers fuel body = .ok (ms, rest)) :
    readValue (fuel + 1) ('\x7b' :: cs) = .ok (.object (Assoc.ofList ms), rest) := by
  obtain ⟨tail, rfl⟩ := hquote
  simp [readValue, h, hmembers, Except.map]

theorem readsAs_list {layout : Layout} (hlayout : layout.IsBlank) (depth : Nat) {texts : List String}
    (h : List.Forall₂ ReadsAs (texts.map String.toList) vs) :
    ReadsAs (layout.wrap depth "[" "]" texts).toList (.list vs) := by
  cases texts with
  | nil =>
    cases h
    refine ⟨fun fuel rest _ hfuel => ?_, ⟨'[', [']'], by simp [Layout.wrap], by decide⟩⟩
    simp [Layout.wrap] at hfuel
    obtain ⟨fuel, rfl⟩ : ∃ k, fuel = k + 1 := ⟨fuel - 1, by omega⟩
    simp [Layout.wrap, readValue, skipSpace_cons (c := ']') (by decide)]
  | cons t texts =>
    obtain ⟨ws, hws, hsep⟩ := Layout.separator_eq hlayout depth
    have hnewline := Layout.newline_blank hlayout
    have hbegins : Begins t.toList := by
      cases h with
      | cons ht _ => exact ht.head
    rw [wrap_toList (by simp), hsep]
    refine ⟨fun fuel rest _ hfuel => ?_, ⟨'[', _, rfl, by decide⟩⟩
    simp only [List.length_append] at hfuel
    obtain ⟨fuel, rfl⟩ : ∃ k, fuel = k + 1 := ⟨fuel - 1, by simp at hfuel; omega⟩
    rw [List.append_assoc, List.append_assoc, List.append_assoc, List.append_assoc]
    refine readValue_list ((Begins.append (hbegins.intercalate _ _) _).skipSpace (hnewline depth))
      (Begins.append (hbegins.intercalate _ _) _) ?_
    exact readItems_write h (by simp) hws (hnewline _) (by simp at hfuel ⊢; omega)

theorem readsAs_object {layout : Layout} (hlayout : layout.IsBlank) (depth : Nat) {texts : List String}
    (h : List.Forall₂ MemberText (texts.map String.toList) ms) :
    ReadsAs (layout.wrap depth "\x7b" "\x7d" texts).toList (.object (Assoc.ofList ms)) := by
  cases texts with
  | nil =>
    cases h
    refine ⟨fun fuel rest _ hfuel => ?_,
      ⟨'\x7b', ['\x7d'], by simp [Layout.wrap], by decide⟩⟩
    simp [Layout.wrap] at hfuel
    obtain ⟨fuel, rfl⟩ : ∃ k, fuel = k + 1 := ⟨fuel - 1, by omega⟩
    simp [Layout.wrap, readValue, skipSpace_cons (c := '\x7d') (by decide)]
    rfl
  | cons t texts =>
    obtain ⟨ws, hws, hsep⟩ := Layout.separator_eq hlayout depth
    have hnewline := Layout.newline_blank hlayout
    obtain ⟨tail, hquote⟩ : ∃ tail, t.toList = '"' :: tail := by
      cases h with
      | cons ht _ =>
        obtain ⟨_, -, heq⟩ := ht
        exact ⟨_, heq⟩
    have hbegins : Begins t.toList := ⟨'"', tail, hquote, by decide⟩
    rw [wrap_toList (by simp), hsep]
    refine ⟨fun fuel rest _ hfuel => ?_, ⟨'\x7b', _, rfl, by decide⟩⟩
    simp only [List.length_append] at hfuel
    obtain ⟨fuel, rfl⟩ : ∃ k, fuel = k + 1 := ⟨fuel - 1, by simp at hfuel; omega⟩
    rw [List.append_assoc, List.append_assoc, List.append_assoc, List.append_assoc]
    refine readValue_object ((Begins.append (hbegins.intercalate _ _) _).skipSpace (hnewline depth)) ?_ ?_
    · rw [hquote, List.intercalate_cons_cons_left]
      exact ⟨_, rfl⟩
    · exact readMembers_write h (by simp) hws (hnewline _) (by simp at hfuel ⊢; omega)

-- ---------------------------------------------------------------------------
-- Round trip
-- ---------------------------------------------------------------------------

theorem writeItems_eq (layout : Layout) (depth : Nat) (items : List Value) :
    writeItems layout depth items = items.map (writeAt layout depth) := by
  induction items with
  | nil => rfl
  | cons v items ih => rw [writeItems, ih, List.map_cons]

theorem writeMembers_eq (layout : Layout) (depth : Nat) (members : List (String × Value)) :
    writeMembers layout depth members =
      members.map fun m => writeString m.1 ++ ": " ++ writeAt layout depth m.2 := by
  induction members with
  | nil => rfl
  | cons m members ih => rw [writeMembers, ih, List.map_cons]

theorem memberText_write (name : String) (h : ReadsAs text.toList v) :
    MemberText (writeString name ++ ": " ++ text).toList (name, v) :=
  ⟨_, h, by simp [writeString]⟩

theorem readsAs_writeAt {layout : Layout} (hlayout : layout.IsBlank) (depth : Nat)
    (h : Value.Valid v) : ReadsAs (writeAt layout depth v).toList v.unlabelled := by
  induction h generalizing depth with
  | @scalar v h hreal =>
    cases v with
    | null =>
      exact readsAs_word (by simp [writeAt]; exact ⟨rfl, rfl⟩) (by decide) (by decide) fun _ => rfl
    | bool b =>
      cases b with
      | true =>
        exact readsAs_word (by simp [writeAt]; exact ⟨rfl, rfl⟩) (by decide) (by decide) fun _ => rfl
      | false =>
        exact readsAs_word (by simp [writeAt]; exact ⟨rfl, rfl⟩) (by decide) (by decide) fun _ => rfl
    | number n => exact readsAs_writeNumber fun x hx => hreal x (by rw [hx])
    | text s => exact readsAs_text s
    | list _ => cases h
    | object _ => cases h
  | @list items _ ih =>
    rw [writeAt, writeItems_eq, Value.unlabelled, Value.unlabelledItems_eq]
    refine readsAs_list hlayout _ ?_
    rw [List.map_map, List.forall₂_map_left_iff, List.forall₂_map_right_iff, List.forall₂_same]
    exact fun v hv => ih v hv _
  | @object members hnames _ ih =>
    have hof : Assoc.ofList (members.map fun m => (m.1, m.2.unlabelled)) =
        members.map fun m => (m.1, m.2.unlabelled) := Assoc.ofList_eq (by rwa [List.map_map])
    rw [writeAt, writeMembers_eq, Value.unlabelled, Value.unlabelledMembers_eq, ← hof]
    refine readsAs_object hlayout _ ?_
    rw [List.map_map, List.forall₂_map_left_iff, List.forall₂_map_right_iff, List.forall₂_same]
    exact fun m hm => memberText_write m.1 (ih m hm _)

/-- A value is read back from its text, apart from labels. -/
theorem read_write {layout : Layout} (hlayout : layout.IsBlank) (h : Value.Valid v) :
    read (write layout v) = .ok v.unlabelled := by
  obtain ⟨hreads, hbegins⟩ := readsAs_writeAt hlayout 0 h
  have hvalue := hreads (2 * (write layout v).toList.length + 2) [] (by simp [Stops]) (by rw [write]; omega)
  have hskip := hbegins.skipSpace (show Blank [] by simp [Blank])
  have hmark : (write layout v).toList.head? ≠ some '\ufeff' := by
    obtain ⟨c, tail, heq, hc⟩ := hbegins
    rw [write, heq, List.head?_cons, ne_eq, Option.some.injEq]
    rintro rfl
    cases hc
  rw [List.append_nil] at hvalue
  rw [List.nil_append] at hskip
  rw [← write] at hvalue hskip
  rw [read, mapError_ok, readText, if_neg hmark, hskip, hvalue]
  rfl

end Json

end BlockSketch
