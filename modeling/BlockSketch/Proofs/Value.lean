import BlockSketch.Block.Registry
import BlockSketch.Proofs.Checking
import Mathlib.Data.List.Nodup

/-!
# Texts as values and as keys

A text coincides with itself only. A table whose keys are distinct texts is therefore a finite map:
`mem_put` says what an entry for a key changes, and `find?_text` that looking up is membership.
Associations have texts for names in any case.
-/

namespace BlockSketch

theorem Number.Magnitude.align_int (m n : Int) : align m 0 n 0 = (m, n) := by
  show (m * 1, n * 1) = (m, n)
  rw [Int.mul_one, Int.mul_one]

theorem Number.less_int (m n : Int) : (Number.int m).less (.int n) = decide (m < n) := by
  simp [less, magnitude, Magnitude.align_int]

theorem Number.same_int (m n : Int) : (Number.int m).same (.int n) = decide (m = n) := by
  simp [same, magnitude, Magnitude.align_int, Bool.beq_eq_decide_eq]

theorem Value.same_int (m n : Int) : (Value.int m).same (.int n) = decide (m = n) := by
  simp [same, coincides, sameWith, coincidesScalar, sameScalar, number?, label?, Number.label?,
    Number.same_int]

theorem Number.same_self {n : Number} (h : n.label? = none) : n.same n = true := by
  cases n with
  | int n => simp [same_int]
  | real x =>
    cases x with
    | finite negative m e => simp [same, magnitude, Magnitude.align]
    | infinite negative => simp [same, magnitude]
    | nan label => cases h

/-- Values without parts coincide with themselves, what is not a number by its label. -/
theorem Value.coincides_self {v : Value} (h : v.isContainer = false) : v.coincides v = true := by
  cases v with
  | number n =>
    cases hlabel : n.label? with
    | none =>
      simp [coincides, sameWith, coincidesScalar, sameScalar, number?, Number.same_self hlabel]
    | some label => simp [coincides, sameWith, coincidesScalar, label?, hlabel]
  | bool b => simp [coincides, sameWith, coincidesScalar, sameScalar, number?, Number.same_int]
  | null => rfl
  | text s => simp [coincides, sameWith, coincidesScalar, sameScalar]
  | list items => cases h
  | object members => cases h

-- ---------------------------------------------------------------------------
-- Coincidence with a text
-- ---------------------------------------------------------------------------

namespace Value

variable {v : Value} {s : String}

@[simp] theorem coincides_text : v.coincides (.text s) = true ↔ v = .text s := by
  cases v with
  | number n => cases h : n.label? <;>
      simp [coincides, sameWith, coincidesScalar, sameScalar, label?, number?, h]
  | _ => simp [coincides, sameWith, coincidesScalar, sameScalar, label?, number?]

theorem coincides_text_of_ne (h : v ≠ .text s) : v.coincides (.text s) = false := by
  rw [← Bool.not_eq_true, coincides_text]
  exact h

@[simp] theorem text_coincides : (Value.text s).coincides v = true ↔ v = .text s := by
  cases v <;>
    simp [coincides, sameWith, coincidesScalar, sameScalar, label?, number?]
  exact eq_comm

@[simp] theorem same_text : v.same (.text s) = true ↔ v = .text s := by
  cases v <;> simp only [same, Bool.and_eq_true, coincides_text] <;> simp [label?]

@[simp] theorem text_same : (Value.text s).same v = true ↔ v = .text s := by
  simp [same, label?]

@[simp] theorem text_isIn : (Value.text s).isIn items = true ↔ .text s ∈ items := by
  simp [isIn]

theorem isNull_iff : v.isNull = true ↔ v = .null := by
  cases v <;> simp [isNull]

@[simp] theorem text?_eq_some : v.text? = some s ↔ v = .text s := by
  cases v <;> simp [text?]

theorem mapM_text? {items : List Value} :
    items.mapM text? = some names ↔ items = names.map .text := by
  induction items generalizing names with
  | nil => simp [eq_comm]
  | cons v items ih =>
    simp only [List.mapM_cons, Option.bind_eq_bind, Option.bind_eq_some_iff, Option.pure_def,
      text?_eq_some, ih, Option.some.injEq]
    constructor
    · rintro ⟨s, rfl, rest, rfl, rfl⟩
      simp
    · intro h
      obtain ⟨s, rest, rfl, rfl, rfl⟩ := List.map_eq_cons_iff.mp h.symm
      exact ⟨s, rfl, rest, rfl, rfl⟩

end Value

namespace Value

/-- No object in the value has two members of one name. -/
inductive WellKeyed : Value → Prop
  | scalar (h : v.isContainer = false) : WellKeyed v
  | list {items : List Value} (h : ∀ v ∈ items, WellKeyed v) : WellKeyed (.list items)
  | object {members : List (String × Value)} (hnames : (members.map Prod.fst).Nodup)
      (h : ∀ m ∈ members, WellKeyed m.2) : WellKeyed (.object members)

theorem WellKeyed.items {vs : List Value} (h : WellKeyed (.list vs)) : ∀ v ∈ vs, v.WellKeyed := by
  cases h with
  | scalar h => cases h
  | list h => exact h

theorem WellKeyed.names {ms : List (String × Value)} (h : WellKeyed (.object ms)) :
    (ms.map Prod.fst).Nodup := by
  cases h with
  | scalar h => cases h
  | object hnames _ => exact hnames

theorem WellKeyed.members {ms : List (String × Value)} (h : WellKeyed (.object ms)) :
    ∀ m ∈ ms, m.2.WellKeyed := by
  cases h with
  | scalar h => cases h
  | object _ h => exact h

end Value

-- ---------------------------------------------------------------------------
-- Associations
-- ---------------------------------------------------------------------------

namespace Assoc

theorem find?_cons (n : String) (a : α) (entries : Assoc α) (name : String) :
    Assoc.find? ((n, a) :: entries) name =
      if name = n then some a else Assoc.find? entries name := by
  by_cases h : name = n
  · simp [Assoc.find?, h]
  · simp [Assoc.find?, List.lookup_cons, h, beq_false_of_ne h]

theorem find?_mem {entries : Assoc α} (h : entries.find? name = some a) : (name, a) ∈ entries := by
  induction entries with
  | nil => simp [find?] at h
  | cons e entries ih =>
    obtain ⟨n, b⟩ := e
    rw [find?_cons] at h
    split at h
    · rename_i hn
      cases h
      simp [hn]
    · exact List.mem_cons_of_mem _ (ih h)

theorem find?_isSome {entries : Assoc α} : (entries.find? name).isSome ↔ name ∈ entries.names := by
  induction entries with
  | nil => simp [find?, names]
  | cons e entries ih =>
    obtain ⟨n, b⟩ := e
    rw [find?_cons]
    by_cases h : name = n
    · simp [h, names]
    · simpa [h, names] using ih

theorem find?_of_mem {entries : Assoc α} (hnodup : entries.names.Nodup)
    (h : (name, a) ∈ entries) : entries.find? name = some a := by
  induction entries with
  | nil => simp at h
  | cons e entries ih =>
    obtain ⟨n, b⟩ := e
    obtain ⟨hnew, hrest⟩ := List.nodup_cons.mp hnodup
    rw [find?_cons]
    rcases List.mem_cons.mp h with heq | hmem
    · cases heq
      simp
    · have hne : name ≠ n := by
        rintro rfl
        exact hnew (List.mem_map.mpr ⟨_, hmem, rfl⟩)
      rw [if_neg hne]
      exact ih hrest hmem

theorem find?_put (entries : Assoc α) (name : String) (a : α) (n : String) :
    (entries.put name a).find? n = if n = name then some a else entries.find? n := by
  induction entries with
  | nil =>
    rw [put, find?_cons]
  | cons e entries ih =>
    obtain ⟨m, b⟩ := e
    simp only [put]
    by_cases hm : m = name
    · subst hm
      by_cases hn : n = m <;> simp [find?_cons, hn]
    · by_cases hn : n = m
      · subst hn
        simp [find?_cons, hm]
      · simp [find?_cons, hm, hn, ih]

theorem has_iff {entries : Assoc α} : entries.has name = true ↔ name ∈ entries.names :=
  find?_isSome

theorem names_put (entries : Assoc α) (name : String) (a : α) :
    (entries.put name a).names =
      if name ∈ entries.names then entries.names else entries.names ++ [name] := by
  induction entries with
  | nil => rfl
  | cons e entries ih =>
    obtain ⟨n, b⟩ := e
    simp only [put]
    by_cases hn : n = name
    · simp [hn, names]
    · simp only [names] at ih
      by_cases hmem : name ∈ entries.map Prod.fst <;>
        simp [hn, Ne.symm hn, names, ih, hmem]

theorem names_put_new {entries : Assoc α} (h : name ∉ entries.names) (a : α) :
    (entries.put name a).names = entries.names ++ [name] := by
  rw [names_put, if_neg h]

theorem mem_put {entries : Assoc α} (h : e ∈ entries.put name a) : e = (name, a) ∨ e ∈ entries := by
  induction entries with
  | nil => exact .inl (List.mem_singleton.mp h)
  | cons e' entries ih =>
    obtain ⟨n, b⟩ := e'
    simp only [put] at h
    split at h
    · rename_i hn
      subst hn
      exact (List.mem_cons.mp h).imp_right (List.mem_cons_of_mem _)
    · rcases List.mem_cons.mp h with rfl | h
      · exact .inr (by simp)
      · exact (ih h).imp_right (List.mem_cons_of_mem _)

/-- Entries taken one after the other are some of the entries, each name once. -/
theorem ofList_spec (entries : List (String × α)) :
    (ofList entries).names.Nodup ∧ ∀ e ∈ ofList entries, e ∈ entries := by
  suffices hall : ∀ acc : Assoc α, acc.names.Nodup →
      (entries.foldl (fun acc e => put acc e.1 e.2) acc).names.Nodup ∧
        ∀ e ∈ entries.foldl (fun acc e => put acc e.1 e.2) acc, e ∈ acc ∨ e ∈ entries by
    obtain ⟨hnames, hmem⟩ := hall [] .nil
    exact ⟨hnames, fun e he => (hmem e he).resolve_left (by simp)⟩
  intro acc hacc
  induction entries generalizing acc with
  | nil => exact ⟨hacc, fun e he => .inl he⟩
  | cons x entries ih =>
    have hput : (acc.put x.1 x.2).names.Nodup := by
      rw [names_put]
      split
      · exact hacc
      · rename_i hnew
        exact List.nodup_append_comm.mpr (List.nodup_cons.mpr ⟨hnew, hacc⟩)
    obtain ⟨hnames, hmem⟩ := ih (acc.put x.1 x.2) hput
    refine ⟨hnames, fun e he => ?_⟩
    rcases hmem e he with he | he
    · rcases mem_put he with rfl | he
      · exact .inr (by simp)
      · exact .inl he
    · exact .inr (List.mem_cons_of_mem _ he)

end Assoc

theorem Value.WellKeyed.member? {v : Value} (h : v.WellKeyed) (hx : v.member? name = some x) :
    x.WellKeyed := by
  cases v with
  | object ms => exact h.members _ (Assoc.find?_mem hx)
  | _ => cases hx

theorem Value.WellKeyed.member {v : Value} (h : v.WellKeyed) (name : String) :
    (v.member name).WellKeyed := by
  unfold Value.member
  cases hx : v.member? name with
  | none => exact .scalar rfl
  | some x => exact h.member? hx

-- ---------------------------------------------------------------------------
-- Tables with texts for keys
-- ---------------------------------------------------------------------------

namespace Table

theorem mem_put_cases {entries : Table α} (h : e ∈ entries.put key a) :
    e ∈ entries ∨ e.2 = a ∧ (e.1 = key ∨ e.1.coincides key = true) := by
  induction entries with
  | nil =>
    obtain rfl := List.mem_singleton.mp h
    exact .inr ⟨rfl, .inl rfl⟩
  | cons first entries ih =>
    rw [Table.put] at h
    split at h
    · rename_i hkey
      rcases List.mem_cons.mp h with rfl | h
      · exact .inr ⟨rfl, .inr hkey⟩
      · exact .inl (List.mem_cons_of_mem _ h)
    · rcases List.mem_cons.mp h with rfl | h
      · exact .inl List.mem_cons_self
      · exact (ih h).imp_left (List.mem_cons_of_mem _)

def TextKeys (entries : Table α) : Prop :=
  (∀ k ∈ entries.keys, ∃ s, k = .text s) ∧ entries.keys.Nodup

theorem TextKeys.nil : TextKeys ([] : Table α) :=
  ⟨by simp [keys], by simp [keys]⟩

theorem TextKeys.tail (h : TextKeys (e :: entries)) : TextKeys entries := by
  obtain ⟨ht, hn⟩ := h
  simp only [keys, List.map_cons, List.nodup_cons] at ht hn
  exact ⟨fun k hk => ht k (List.mem_cons_of_mem _ hk), hn.2⟩

theorem mem_keys {entries : Table α} : k ∈ entries.keys ↔ ∃ a, (k, a) ∈ entries := by
  simp [keys]

theorem find?_cons (k : Value) (a : α) (entries : Table α) (s : String) :
    Table.find? ((k, a) :: entries) (.text s) =
      if k.coincides (.text s) then some a else Table.find? entries (.text s) := by
  by_cases hk : k.coincides (.text s) = true
  · simp [Table.find?, List.find?, hk]
  · simp only [Bool.not_eq_true] at hk
    simp [Table.find?, List.find?, hk]

theorem find?_mem {entries : Table α} (h : entries.find? (.text s) = some a) :
    (.text s, a) ∈ entries := by
  simp only [Table.find?, Option.map_eq_some_iff] at h
  obtain ⟨⟨k, a'⟩, h, rfl⟩ := h
  have hk := List.find?_some h
  simp only [Value.coincides_text] at hk
  exact hk ▸ List.mem_of_find?_eq_some h

theorem find?_text {entries : Table α} (hk : TextKeys entries) :
    entries.find? (.text s) = some a ↔ (.text s, a) ∈ entries := by
  refine ⟨find?_mem, fun h => ?_⟩
  induction entries with
  | nil => simp at h
  | cons e entries ih =>
    obtain ⟨k, b⟩ := e
    rw [find?_cons]
    rcases List.mem_cons.mp h with he | hm
    · obtain ⟨rfl, rfl⟩ := Prod.mk.inj he
      simp
    · have hne : k ≠ .text s := by
        rintro rfl
        exact (List.nodup_cons.mp hk.2).1 (mem_keys.mpr ⟨a, hm⟩)
      rw [Value.coincides_text_of_ne hne]
      exact ih hk.tail hm

theorem put_cons (k : Value) (a : α) (entries : Table α) (s : String) (x : α) :
    Table.put ((k, a) :: entries) (.text s) x =
      if k.coincides (.text s) then (k, x) :: entries
      else (k, a) :: Table.put entries (.text s) x := by
  simp [Table.put]

theorem find?_put (entries : Table α) (s s' : String) (a : α) :
    (entries.put (.text s') a).find? (.text s) =
      if s' = s then some a else entries.find? (.text s) := by
  have hkey : (Value.text s').coincides (.text s) = true ↔ s' = s := by simp
  induction entries with
  | nil => simp only [put, find?_cons, hkey]
  | cons e entries ih =>
    rw [put_cons]
    split
    · rename_i hfound
      rw [Value.coincides_text.mp hfound, find?_cons, ← Prod.eta e, find?_cons,
        Value.coincides_text.mp hfound]
      simp only [hkey]
      split <;> rfl
    · rename_i hother
      rw [find?_cons, ih, ← Prod.eta e, find?_cons]
      split
      · rename_i hfound
        have hne : s' ≠ s := by
          rintro rfl
          exact hother hfound
        rw [if_neg hne]
      · rfl

theorem keys_put (entries : Table α) (s : String) (x : α) :
    (entries.put (.text s) x).keys = entries.keys ∧ .text s ∈ entries.keys ∨
      (entries.put (.text s) x).keys = entries.keys ++ [Value.text s] ∧
        .text s ∉ entries.keys := by
  induction entries with
  | nil => simp [put, keys]
  | cons e entries ih =>
    obtain ⟨k, a⟩ := e
    rw [put_cons]
    by_cases hk : k = .text s
    · simp [hk, keys]
    · have hc := Value.coincides_text_of_ne hk
      rcases ih with ⟨ih, hm⟩ | ⟨ih, hm⟩ <;> simp only [keys] at ih hm ⊢ <;>
        simp [hc, ih, hm, Ne.symm hk]

theorem TextKeys.put {entries : Table α} (hk : TextKeys entries) :
    TextKeys (entries.put (.text s) x) := by
  rcases keys_put entries s x with ⟨he, -⟩ | ⟨he, hm⟩
  · unfold TextKeys
    rw [he]
    exact hk
  · refine ⟨fun k h => ?_, ?_⟩
    · rw [he] at h
      rcases List.mem_append.mp h with h | h
      · exact hk.1 k h
      · exact ⟨s, by simpa using h⟩
    · rw [he]
      exact List.nodup_append.mpr ⟨hk.2, by simp, by
        intro a ha b hb; simp at hb; exact fun hab => hm (hb ▸ hab ▸ ha)⟩

/-- What an entry for a key changes: that key and nothing else. -/
theorem mem_put {entries : Table α} (hk : TextKeys entries) :
    (k, a) ∈ entries.put (.text s) x ↔
      k = .text s ∧ a = x ∨ k ≠ .text s ∧ (k, a) ∈ entries := by
  induction entries with
  | nil => simp [put]
  | cons e entries ih =>
    obtain ⟨k', b⟩ := e
    rw [put_cons]
    have hnew : (k', a) ∉ entries := fun h =>
      (List.nodup_cons.mp hk.2).1 (mem_keys.mpr ⟨a, h⟩)
    by_cases hk' : k' = .text s
    · subst hk'
      simp only [Value.coincides_text, ↓reduceIte, List.mem_cons, Prod.mk.injEq]
      grind
    · have hc := Value.coincides_text_of_ne hk'
      simp only [hc, Bool.false_eq_true, ↓reduceIte, List.mem_cons, Prod.mk.injEq, ih hk.tail]
      grind

theorem ofList_texts {entries : List (Value × α)} (h : ∀ e ∈ entries, ∃ s, e.1 = .text s) :
    TextKeys (ofList entries) ∧ ∀ e ∈ ofList entries, e ∈ entries := by
  suffices hall : ∀ acc : Table α, TextKeys acc →
      TextKeys (entries.foldl (fun acc e => put acc e.1 e.2) acc) ∧
        ∀ e ∈ entries.foldl (fun acc e => put acc e.1 e.2) acc, e ∈ acc ∨ e ∈ entries by
    obtain ⟨hkeys, hmem⟩ := hall [] .nil
    exact ⟨hkeys, fun e he => (hmem e he).resolve_left (by simp)⟩
  intro acc hacc
  induction entries generalizing acc with
  | nil => exact ⟨hacc, fun e he => .inl he⟩
  | cons x entries ih =>
    obtain ⟨k, a⟩ := x
    obtain ⟨s, rfl⟩ := h (k, a) (by simp)
    obtain ⟨hkeys, hmem⟩ := ih (fun e he => h e (by simp [he])) (acc.put (.text s) a) hacc.put
    refine ⟨hkeys, fun e he => ?_⟩
    obtain ⟨k', a'⟩ := e
    rcases hmem _ he with he | he
    · rcases (mem_put hacc).mp he with ⟨rfl, rfl⟩ | ⟨-, he⟩
      · exact .inr (by simp)
      · exact .inl he
    · exact .inr (List.mem_cons_of_mem _ he)

end Table

end BlockSketch
