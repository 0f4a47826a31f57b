import BlockSketch.Proofs.Sketch.FreshNames
import BlockSketch.Proofs.Sketch.Pieces

/-!
# What emitters write

The contract of an emitter: given pieces of code for its sockets, and fresh names that are not
declared, it makes proper definitions and yields a piece of code. `Writes` says this of the tree of
its operations, and `Writes.sound` of every run.
-/

namespace BlockSketch.Sketch

open Expression (isWord)
open Program (Balanced Headless Spelled Token literals nest scan)

-- ---------------------------------------------------------------------------
-- Preambles
-- ---------------------------------------------------------------------------

/-- Code that stands before the functions of a sketch: no literal is in it, nor the start of
`setup`. -/
structure Preamble (code : String) (ts : List Token) : Prop where
  spelled : Spelled .plain code.toList ts .plain
  balanced : Balanced ts
  textless : literals ts = []
  headless : Headless ts = true

theorem Preamble.append (h : Preamble a ts) (h' : Preamble b us) : Preamble (a ++ b) (ts ++ us) where
  spelled := by
    rw [String.toList_append]
    exact h.spelled.append h'.spelled
  balanced := h.balanced.append h'.balanced
  textless := by
    rw [literals, List.filterMap_append, ← literals, ← literals, h.textless, h'.textless]
    rfl
  headless := Program.Headless.append h.headless h'.headless

theorem nest_add (h : nest depth t = some depth') (k : Nat) :
    nest (depth + k) t = some (depth' + k) := by
  unfold nest at h ⊢
  split at h
  · rw [if_pos ‹_›, ← Option.some.inj h, Nat.add_right_comm]
  · rw [if_neg ‹_›]
    split at h
    · rw [if_pos ‹_›]
      cases depth with
      | zero => cases h
      | succ depth =>
        rw [← Option.some.inj h, Nat.succ_add]
    · rw [if_neg ‹_›, Option.some.inj h]

theorem foldlM_nest_add {ts : List Token} (h : ts.foldlM nest depth = some depth') (k : Nat) :
    ts.foldlM nest (depth + k) = some (depth' + k) := by
  induction ts generalizing depth with
  | nil => simpa using h
  | cons t ts ih =>
    simp only [List.foldlM_cons, Option.bind_eq_bind, Option.bind_eq_some_iff] at h ⊢
    obtain ⟨inner, ht, hts⟩ := h
    exact ⟨inner + k, nest_add ht k, ih hts⟩

theorem balanced_of_nest {ts : List Token} (h : ts.foldlM nest 0 = some 0) : Balanced ts := by
  intro depth
  simpa using foldlM_nest_add h depth

def readsPreamble (cs : List Char) : Bool :=
  !cs.contains '"' && (scan .plain cs).any fun read =>
    read.2 == .plain && read.1.foldlM nest 0 == some 0 && (literals read.1).isEmpty &&
      Headless read.1

def IsPreamble (code : String) : Prop :=
  ∃ cs, code = .ofList cs ∧ readsPreamble cs = true

theorem IsPreamble.tokens (h : IsPreamble code) : ∃ ts, Preamble code ts := by
  obtain ⟨cs, rfl, h⟩ := h
  rw [readsPreamble, Bool.and_eq_true] at h
  cases hscan : scan .plain cs with
  | none => simp [hscan] at h
  | some read =>
    simp only [hscan, Option.any_some, Bool.and_eq_true] at h
    obtain ⟨hquote, ⟨⟨hmode, hnest⟩, htexts⟩, hheadless⟩ := h
    refine ⟨read.1, ?_, balanced_of_nest (eq_of_beq hnest), List.isEmpty_iff.mp htexts, hheadless⟩
    rw [String.toList_ofList]
    refine .of_scan ?_ rfl (by simpa using hquote)
    rw [hscan, ← eq_of_beq hmode]

-- ---------------------------------------------------------------------------
-- Runs
-- ---------------------------------------------------------------------------

def Placement.Fits (margin : List Char) (declared : String → Bool) (code : String) :
    Placement → Prop
  | .global => ∃ ts, Preamble code ts
  | .setup => Piece margin declared .closed [] code

def Proper (margin : List Char) (declared : String → Bool) (d : Definition) : Prop :=
  ∃ code, d.text = .text code ∧ d.placement.Fits margin declared code

/-- The state of a run: all definitions fit their places, and no declared name can be given away. -/
structure Tidy (margin : List Char) (declared : String → Bool) (run : Run) : Prop where
  proper : ∀ e ∈ run.definitions, Proper margin declared e.2
  taken : ∀ s, declared s = true → .text s ∈ run.taken

section
variable {margin : List Char} {declared : String → Bool}

theorem Tidy.define (h : Tidy margin declared run) (hd : Proper margin declared d) :
    Tidy margin declared { run with definitions := run.definitions.add d } where
  proper e he := by
    rcases Table.mem_put_cases he with he | ⟨heq, -⟩
    · exact h.proper e he
    · exact heq ▸ hd
  taken := h.taken

theorem Tidy.fresh (h : Tidy margin declared run) (hbase : isWord base.toList = true) :
    ∃ name, (run.freshName (.text base)).1 = .text name ∧ isWord name.toList = true ∧
      declared name = false ∧ Tidy margin declared (run.freshName (.text base)).2 := by
  obtain ⟨name, heq, hword, hfree⟩ := freshName_spec run hbase
  refine ⟨name, by rw [heq], hword, ?_, ?_⟩
  · cases hname : declared name with
    | false => rfl
    | true => exact (hfree (h.taken name hname)).elim
  · rw [heq]
    exact ⟨h.proper, fun s hs => List.mem_cons_of_mem _ (h.taken s hs)⟩

theorem Tidy.visited (h : Tidy margin declared run) (visited : List Ref) :
    Tidy margin declared { run with visited } :=
  ⟨h.proper, h.taken⟩

end

-- ---------------------------------------------------------------------------
-- Emitters
-- ---------------------------------------------------------------------------

/-- What was produced is a piece of code that tells some marks. -/
def Yields (margin : List Char) (declared : String → Bool) (ms : List Mark) : Yield → Prop
  | .statement code => Piece margin declared .closed ms code
  | .expression code _ => code ≠ "" ∧ Piece margin declared .any ms code
  | .other _ => False

/-- An emitter yields a piece of code, whatever pieces it is given for its sockets. -/
inductive Writes (margin : List Char) (declared : String → Bool) (inside : Value → List Mark)
    (ms : List Mark) : Emit Yield → Prop
  | done (h : Yields margin declared ms yield) : Writes margin declared inside ms (.done yield)
  | complain : Writes margin declared inside ms (.complain c)
  | operand (h : ∀ code, Piece margin declared .any (inside (.text socket)) code →
        Writes margin declared inside ms (k (.text code))) :
      Writes margin declared inside ms (.operand (.text socket) outer k)
  | body (h : ∀ code, Piece margin declared .closed (inside (.text socket)) code →
        Writes margin declared inside ms (k code)) :
      Writes margin declared inside ms (.body (.text socket) k)
  | fresh (hbase : isWord base.toList = true)
      (h : ∀ name, isWord name.toList = true → declared name = false →
        Writes margin declared inside ms (k (.text name))) :
      Writes margin declared inside ms (.fresh (.text base) k)
  | define (hd : Proper margin declared ⟨.text key, .text text, placement⟩)
      (h : Writes margin declared inside ms p) :
      Writes margin declared inside ms (.define ⟨.text key, .text text, placement⟩ p)

def Operands (margin : List Char) (declared : String → Bool) (inside : Value → List Mark)
    (operand : Value → Order → Gen Value) : Prop :=
  ∀ ⦃socket outer run v run'⦄, Tidy margin declared run →
    operand (.text socket) outer run = .ok (v, run') →
    Tidy margin declared run' ∧ ∃ code, v = .text code ∧
      Piece margin declared .any (inside (.text socket)) code

def Bodies (margin : List Char) (declared : String → Bool) (inside : Value → List Mark)
    (body : Value → Gen String) : Prop :=
  ∀ ⦃socket run code run'⦄, Tidy margin declared run → body (.text socket) run = .ok (code, run') →
    Tidy margin declared run' ∧ Piece margin declared .closed (inside (.text socket)) code

section
variable {margin : List Char} {declared : String → Bool} {inside : Value → List Mark}
  {ms : List Mark}

theorem Writes.sound {operand : Value → Order → Gen Value} {body : Value → Gen String}
    {complain : Complaint → Fault} (h : Writes margin declared inside ms p)
    (hoperand : Operands margin declared inside operand) (hbody : Bodies margin declared inside body)
    (htidy : Tidy margin declared run)
    (hrun : p.run operand body complain run = .ok (yield, run')) :
    Yields margin declared ms yield ∧ Tidy margin declared run' := by
  induction h generalizing run with
  | done h =>
    obtain ⟨rfl, rfl⟩ := gen_pure_ok.mp hrun
    exact ⟨h, htidy⟩
  | complain => simp [Emit.run] at hrun
  | operand _ ih =>
    obtain ⟨v, mid, hcode, hrun⟩ := gen_bind_ok.mp hrun
    obtain ⟨htidy, code, rfl, hpiece⟩ := hoperand htidy hcode
    exact ih code hpiece htidy hrun
  | body _ ih =>
    obtain ⟨code, mid, hcode, hrun⟩ := gen_bind_ok.mp hrun
    obtain ⟨htidy, hpiece⟩ := hbody htidy hcode
    exact ih code hpiece htidy hrun
  | @fresh base k hbase _ ih =>
    obtain ⟨name, hname, hword, hfree, htidy⟩ := htidy.fresh hbase
    refine ih name hword hfree htidy ?_
    rw [← hname]
    exact hrun
  | define hd _ ih => exact ih (htidy.define hd) hrun

namespace Writes

variable {site : Site}

theorem field {k : Value → Emit Yield}
    (h : ∀ v, fieldValue site.type site.block name = .ok v →
      Writes margin declared inside ms (k v)) :
    Writes margin declared inside ms (Arduino.field site name >>= k) := by
  rw [field_eq]
  cases hv : fieldValue site.type site.block name with
  | error text => exact .complain
  | ok v => exact h v hv

theorem textField {k : String → Emit Yield} {complaint : Value → String}
    (h : ∀ s, fieldValue site.type site.block name = .ok (.text s) →
      Writes margin declared inside ms (k s)) :
    Writes margin declared inside ms (Arduino.textField site name complaint >>= k) := by
  rw [Arduino.textField, bind_assoc]
  refine .field fun v hv => ?_
  cases v with
  | text s => exact h s hv
  | _ => exact .complain

theorem chosen {k : α → Emit Yield} {table : Assoc α}
    (h : ∀ s a, table.find? s = some a → Writes margin declared inside ms (k a)) :
    Writes margin declared inside ms (Arduino.chosen site name table >>= k) := by
  rw [Arduino.chosen, bind_assoc]
  refine .field fun v _ => ?_
  cases hfind : v.text?.bind table.find? with
  | none => exact .complain
  | some a =>
    obtain ⟨s, -, ha⟩ := Option.bind_eq_some_iff.mp hfind
    exact h s a ha

theorem variableName {k : String → Emit Yield}
    (h : ∀ s, fieldValue site.type site.block "VAR" = .ok (.text s) → isVariableName s = true →
      Writes margin declared inside ms (k s)) :
    Writes margin declared inside ms (Arduino.variableName site >>= k) := by
  rw [Arduino.variableName, bind_assoc]
  refine .field fun v hv => ?_
  split
  · exact .complain
  · cases hname : v.text?.filter isVariableName with
    | none => exact .complain
    | some s =>
      obtain ⟨htext, hvalid⟩ := Option.filter_eq_some_iff.mp hname
      obtain rfl := Value.text?_eq_some.mp htext
      exact h s hv hvalid

theorem operandText {k : String → Emit Yield}
    (h : ∀ code, Piece margin declared .any (inside (.text socket)) code →
      Writes margin declared inside ms (k code)) :
    Writes margin declared inside ms (Arduino.operandText socket outer >>= k) :=
  .operand h

theorem freshText {k : String → Emit Yield} (hbase : isWord base.toList = true)
    (h : ∀ name, isWord name.toList = true → declared name = false →
      Writes margin declared inside ms (k name)) :
    Writes margin declared inside ms (Arduino.freshText base >>= k) :=
  .fresh hbase h

end Writes

end

end BlockSketch.Sketch
