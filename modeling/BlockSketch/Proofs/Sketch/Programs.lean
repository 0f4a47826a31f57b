import BlockSketch.Proofs.Sketch.Writing

/-!
# Whole programs

The entry point writes a whole program: the definitions that were made on the way and the
declarations of all variables, and then two functions. `Parts` takes a program apart again, and
`entryPoint_parts` says that what the entry point writes can be taken apart.
-/

namespace BlockSketch.Sketch

open Expression (isWord)
open Program (Balanced Headless Spelled Token bodies? flush function? function?_header
  function?_headless header literals step_closing tokens_of_spelled)

-- ---------------------------------------------------------------------------
-- Preambles
-- ---------------------------------------------------------------------------

theorem Preamble.nil : Preamble "" [] :=
  ⟨.nil, .nil, rfl, rfl⟩

theorem Preamble.unique (h : Preamble code ts) (h' : Preamble code us) : ts = us := by
  have heq := h.spelled.scan.symm.trans h'.spelled.scan
  exact congrArg Prod.fst (Option.some.inj heq)

theorem Preamble.join (h : ∀ s ∈ texts, ∃ ts, Preamble s ts) :
    ∃ ts, Preamble (String.join texts) ts ∧ ∀ s ∈ texts, ∀ us, Preamble s us → us ⊆ ts := by
  induction texts with
  | nil => exact ⟨[], .nil, by simp⟩
  | cons text texts ih =>
    obtain ⟨⟨ts, hfirst⟩, hrest⟩ := List.forall_mem_cons.mp h
    obtain ⟨us, hjoin, hin⟩ := ih hrest
    refine ⟨ts ++ us, ?_, List.forall_mem_cons.mpr ⟨?_, ?_⟩⟩
    · rw [String.join_cons]
      exact hfirst.append hjoin
    · intro vs hvs
      rw [hvs.unique hfirst]
      exact List.subset_append_left ts us
    · intro s hs vs hvs
      exact List.Subset.trans (hin s hs vs hvs) (List.subset_append_right ts us)

theorem Piece.join (h : ∀ s ∈ texts, Piece margin declared .closed [] s) :
    Piece margin declared .closed [] (String.join texts) := by
  induction texts with
  | nil => exact .empty
  | cons text texts ih =>
    obtain ⟨hfirst, hrest⟩ := List.forall_mem_cons.mp h
    rw [String.join_cons]
    exact hfirst.append (ih hrest)

theorem preamble_declaration (h : isVariableName s = true) :
    Preamble (declarationText s)
      [.word "float", .word (stem s), .sign '=', .number "0", .sign ';'] := by
  obtain ⟨ts, m, last, hname, hflush, htokens⟩ := Piece.spelled_name h
  have htype : Spelled .plain "float ".toList [.word "float"] .plain :=
    .of_scan rfl rfl (by decide)
  have hzero : Spelled .plain " = 0;\n".toList [.sign '=', .number "0", .sign ';'] .plain :=
    .of_scan rfl rfl (by decide)
  refine ⟨?_, ?_, rfl, ?_⟩
  · have hrest := hname.follow hzero (by decide) (step_closing hflush rfl)
    rw [htokens] at hrest
    rw [declarationText, String.append_assoc, String.toList_append, String.toList_append]
    exact htype.append hrest
  · exact balanced_of_nest (by simp [Program.nest])
  · simp [Headless]

-- ---------------------------------------------------------------------------
-- Definitions
-- ---------------------------------------------------------------------------

section
variable {margin : List Char} {declared : String → Bool} {operand : Value → Order → Gen Value}
  {body : Value → Gen String} {complain : Complaint → Fault}

def Declared (definitions : Definitions) (s : String) : Prop :=
  definitions.find? (declaration s).key = some (declaration s)

theorem Declared.add (h : Declared definitions s) (s' : String) :
    Declared (definitions.add (declaration s')) s := by
  rw [Declared, Definitions.add, declaration, declaration, Table.find?_put]
  split
  · rename_i hkey
    obtain rfl : s' = s := by simpa using hkey
    rfl
  · exact h

theorem declared_add (definitions : Definitions) (s : String) :
    Declared (definitions.add (declaration s)) s := by
  rw [Declared, Definitions.add, declaration, Table.find?_put, if_pos rfl]

theorem declareVariables_valid
    (hrun : (Arduino.declareVariables names).run operand body complain run = .ok (u, run')) :
    ∀ v ∈ names, ∃ s, v = .text s ∧ isVariableName s = true := by
  induction names generalizing run with
  | nil => simp
  | cons v names ih =>
    cases hname : v.text?.filter isVariableName with
    | none =>
      rw [Arduino.declareVariables, hname] at hrun
      cases hrun
    | some s =>
      obtain ⟨htext, hvalid⟩ := Option.filter_eq_some_iff.mp hname
      obtain rfl := Value.text?_eq_some.mp htext
      rw [declareVariables_cons hvalid] at hrun
      exact List.forall_mem_cons.mpr ⟨⟨s, rfl, hvalid⟩, ih hrun⟩

theorem Tidy.declare (hvalid : ∀ v ∈ names, ∃ s, v = .text s ∧ isVariableName s = true)
    (htidy : Tidy margin declared run)
    (hrun : (Arduino.declareVariables names).run operand body complain run = .ok (u, run')) :
    Tidy margin declared run' ∧ (∀ s, .text s ∈ names → Declared run'.definitions s) ∧
      ∀ s, Declared run.definitions s → Declared run'.definitions s := by
  induction names generalizing run with
  | nil =>
    obtain ⟨-, rfl⟩ := gen_pure_ok.mp hrun
    exact ⟨htidy, by simp, fun _ h => h⟩
  | cons v names ih =>
    obtain ⟨⟨name, rfl, hname⟩, hrest⟩ := List.forall_mem_cons.mp hvalid
    rw [declareVariables_cons hname] at hrun
    have hproper : Proper margin declared (declaration name) :=
      ⟨_, rfl, _, preamble_declaration hname⟩
    obtain ⟨htidy', hall, hkeep⟩ := ih hrest (htidy.define hproper) hrun
    refine ⟨htidy', fun s hs => ?_, fun s h => hkeep s (h.add name)⟩
    rcases List.mem_cons.mp hs with heq | hs
    · obtain rfl := Value.text.inj heq
      exact hkeep s (declared_add _ s)
    · exact hall s hs

theorem joinable_ok (h : Value.joinable position vs = .ok texts) : vs = texts.map .text := by
  induction vs generalizing position texts with
  | nil =>
    cases h
    rfl
  | cons v vs ih =>
    cases v with
    | text s =>
      rw [Value.joinable, map_ok] at h
      obtain ⟨rest, hrest, rfl⟩ := h
      rw [ih hrest, List.map_cons]
    | _ => cases h

theorem joined_ok
    (h : (Arduino.joined definitions placement).run operand body complain run = .ok (code, run')) :
    run' = run ∧ ∃ texts, definitions.texts (some placement) = texts.map .text ∧
      code = String.join texts := by
  rw [Arduino.joined, run_bind, gen_bind_ok] at h
  obtain ⟨texts, mid, htexts, h⟩ := h
  obtain ⟨hjoinable, rfl⟩ := run_orFault_ok.mp htexts
  obtain ⟨rfl, rfl⟩ := gen_pure_ok.mp h
  exact ⟨rfl, texts, joinable_ok hjoinable, rfl⟩

theorem Tidy.fits {texts : List String} (htidy : Tidy margin declared run)
    (htexts : run.definitions.texts (some placement) = texts.map .text) :
    ∀ text ∈ texts, placement.Fits margin declared text := by
  intro text htext
  have hmem : .text text ∈ run.definitions.texts (some placement) := by
    rw [htexts]
    exact List.mem_map_of_mem htext
  simp only [Definitions.texts, List.mem_map, List.mem_filter, Option.all_some, beq_iff_eq] at hmem
  obtain ⟨e, ⟨he, rfl⟩, heq⟩ := hmem
  obtain ⟨code, hcode, hfits⟩ := htidy.proper e he
  obtain rfl := Value.text.inj (heq.symm.trans hcode)
  exact hfits

theorem Tidy.globals (htidy : Tidy margin declared run)
    (htexts : run.definitions.texts (some .global) = texts.map .text) :
    ∃ ts, Preamble (String.join texts) ts ∧
      ∀ s, isVariableName s = true → Declared run.definitions s → .word (stem s) ∈ ts := by
  obtain ⟨ts, hjoin, hin⟩ := Preamble.join (htidy.fits htexts)
  refine ⟨ts, hjoin, fun s hvalid hdeclared => ?_⟩
  have hmem : .text (declarationText s) ∈ run.definitions.texts (some .global) :=
    List.mem_map.mpr ⟨_, List.mem_filter.mpr ⟨Table.find?_mem hdeclared, rfl⟩, rfl⟩
  rw [htexts] at hmem
  obtain ⟨text, htext, heq⟩ := List.mem_map.mp hmem
  obtain rfl := Value.text.inj heq
  exact hin _ htext _ (preamble_declaration hvalid) (by simp)

end

-- ---------------------------------------------------------------------------
-- The parts of a program
-- ---------------------------------------------------------------------------

/-- A program in parts: what stands before its functions, and their bodies. -/
structure Parts (margin : List Char) (declared : String → Bool) (setupMarks loopMarks : List Mark)
    (code : String) (before inSetup inLoop : List Token) : Prop where
  spelled : Spelled .plain code.toList
    (before ++ (header "setup" ++ inSetup ++ [.sign '\x7d']) ++
      (header "loop" ++ inLoop ++ [.sign '\x7d'])) .plain
  balanced : Balanced before
  textless : literals before = []
  headless : Headless before = true
  declares : ∀ s, declared s = true → .word s ∈ before
  setup : Balanced inSetup ∧ Tells margin declared setupMarks inSetup
  loop : Balanced inLoop ∧ Tells margin declared loopMarks inLoop

/-- The bodies are found, whatever comes behind the program. -/
theorem Parts.bodies (h : Parts margin declared setupMarks loopMarks code before inSetup inLoop)
    (hrest : Spelled .plain rest.toList ts m) (hflush : flush m = some last) :
    bodies? (code ++ rest) = some (inSetup, inLoop) := by
  have hcode := h.spelled.append hrest
  rw [← String.toList_append] at hcode
  have hloop : function? "loop" (header "loop" ++ inLoop ++ .sign '\x7d' :: (ts ++ last)) = _ :=
    function?_header h.loop.1 (ts ++ last)
  have hsetup : function? "setup" (header "setup" ++ inSetup ++ .sign '\x7d' :: _) = _ :=
    function?_header h.setup.1 (header "loop" ++ inLoop ++ .sign '\x7d' :: (ts ++ last))
  rw [bodies?, tokens_of_spelled hcode hflush]
  simp only [List.append_assoc, List.cons_append, List.nil_append, Option.bind_eq_bind,
    Option.bind_some, function?_headless h.headless] at hsetup hloop ⊢
  rw [hsetup, Option.bind_some, hloop]
  rfl

section
variable {margin : List Char} {declared : String → Bool}
  (hreserved : ∀ s ∈ Piece.fixedWords, declared s = false)
include hreserved

theorem tells_header (hname : name ∈ Piece.fixedWords) (h : Tells margin declared ms ts) :
    Tells margin declared ms (header name ++ ts ++ [Token.sign '\x7d']) := by
  have hvoid : declared "void" = false := hreserved "void" (by decide)
  have hopen : Tells margin declared [] (header name) := by
    refine .of_quiet ?_
    simp [header, tells, hvoid, hreserved name hname]
  have hclose : Tells margin declared [] [.sign '\x7d'] := .quiet rfl .nil
  simpa using (hopen.append h).append hclose

theorem Parts.piece (h : Parts margin declared setupMarks loopMarks code before inSetup inLoop) :
    Piece margin declared .closed (.program :: (setupMarks ++ loopMarks)) code := by
  have hheader : ∀ name, Balanced [.word "void", .word name, .sign '(', .sign ')'] := by
    intro name
    exact balanced_of_nest (by simp [Program.nest])
  have hblock : ∀ {name ts}, Balanced ts → Balanced (header name ++ ts ++ [Token.sign '\x7d']) := by
    intro name ts hts
    simpa [header] using (hheader name).append hts.enclosed
  refine .of_spelled h.spelled ((h.balanced.append (hblock h.setup.1)).append (hblock h.loop.1)) ?_
  rw [List.append_assoc]
  refine .program h.textless h.declares ?_
  exact (tells_header hreserved (by decide) h.setup.2).append
    (tells_header hreserved (by decide) h.loop.2)

end

-- ---------------------------------------------------------------------------
-- The entry point
-- ---------------------------------------------------------------------------

theorem Parts.of_pieces (hbefore : Preamble globals before)
    (hdeclares : ∀ s, declared s = true → .word s ∈ before)
    (hsetup : Piece margin declared .closed setupMarks setupCode)
    (hloop : Piece margin declared .closed loopMarks loopCode) :
    ∃ inSetup inLoop, Parts margin declared setupMarks loopMarks
      (globals ++ "void setup() " ++ Arduino.braces setupCode ++ "\n\n" ++
        "void loop() " ++ Arduino.braces loopCode ++ "\n") before inSetup inLoop := by
  obtain ⟨inSetup, hspelled, hbalanced, htells⟩ := hsetup.spelled
  obtain ⟨inLoop, hspelled', hbalanced', htells'⟩ := hloop.spelled
  refine ⟨inSetup, inLoop, ?_, hbefore.balanced, hbefore.textless, hbefore.headless, hdeclares,
    ⟨hbalanced, htells⟩, ⟨hbalanced', htells'⟩⟩
  have hsetupHead : Spelled .plain "void setup() ".toList
      [.word "void", .word "setup", .sign '(', .sign ')'] .plain := .of_scan rfl rfl (by decide)
  have hloopHead : Spelled .plain "void loop() ".toList
      [.word "void", .word "loop", .sign '(', .sign ')'] .plain := .of_scan rfl rfl (by decide)
  have hblank : Spelled .plain "\n\n".toList [] .plain := .of_scan rfl rfl (by decide)
  have hend : Spelled .plain "\n".toList [] .plain := .of_scan rfl rfl (by decide)
  have hfirst := hbefore.spelled.append (hsetupHead.append (Piece.spelled_braces hspelled))
  have hsecond := hloopHead.append (Piece.spelled_braces hspelled')
  simpa [header] using ((hfirst.append hblank).append hsecond).append hend

section
variable {margin : String} {declared : String → Bool} {inside : Value → List Mark} {site : Site}
  {operand : Value → Order → Gen Value} {body : Value → Gen String} {complain : Complaint → Fault}

@[simp] theorem run_body (socket : Value) :
    (Sketch.body socket).run operand body complain = body socket := by
  simp [Sketch.body, Emit.run]

theorem run_defined_ok :
    (Sketch.defined).run operand body complain run = .ok (definitions, run') ↔
      definitions = run.definitions ∧ run' = run :=
  gen_pure_ok

theorem Preamble.separated (h : Preamble globals ts) :
    Preamble (if globals.isEmpty then globals else globals ++ "\n") ts := by
  split
  · exact h
  · have hfeed : Preamble "\n" [] := ⟨.of_scan rfl rfl (by decide), .nil, rfl, rfl⟩
    simpa using h.append hfeed

theorem entryPoint_names
    (hrun : (Arduino.entryPoint site).run operand body complain run = .ok (yield, run')) :
    ∀ v ∈ site.variableNames, ∃ s, v = .text s ∧ isVariableName s = true := by
  simp only [Arduino.entryPoint, run_bind, gen_bind_ok] at hrun
  obtain ⟨_, _, -, _, _, -, _, _, hdeclare, -⟩ := hrun
  exact declareVariables_valid hdeclare

theorem entryPoint_parts (hmargin : ∀ c ∈ margin.toList, c = ' ')
    (hindent : site.indent = .text margin)
    (hvalid : ∀ v ∈ site.variableNames, ∃ s, v = .text s ∧ isVariableName s = true)
    (hdeclared : ∀ s, declared s = true → .text s ∈ site.variableNames ∧ isWord s.toList = true)
    (hbody : Bodies margin.toList declared inside body) (htidy : Tidy margin.toList declared run)
    (hrun : (Arduino.entryPoint site).run operand body complain run = .ok (yield, run')) :
    Tidy margin.toList declared run' ∧ ∃ code before inSetup inLoop, yield = .statement code ∧
      Parts margin.toList declared (inside "SETUP") (inside "LOOP") code before inSetup inLoop := by
  simp only [Arduino.entryPoint, run_bind, gen_bind_ok, run_body] at hrun
  obtain ⟨setupCode, _, hsetup, loopCode, _, hloop, _, run₁, hdeclare, definitions, _, hdefined,
    globals, _, hglobals, calls, _, hcalls, indented, _, hindented, hrun⟩ := hrun
  obtain ⟨htidy, hsetup⟩ := hbody htidy hsetup
  obtain ⟨htidy, hloop⟩ := hbody htidy hloop
  obtain ⟨htidy, hall, -⟩ := htidy.declare hvalid hdeclare
  obtain ⟨rfl, rfl⟩ := run_defined_ok.mp hdefined
  obtain ⟨rfl, globalTexts, hglobalTexts, rfl⟩ := joined_ok hglobals
  obtain ⟨rfl, callTexts, hcallTexts, rfl⟩ := joined_ok hcalls
  obtain ⟨hmoved, rfl⟩ := run_orFault_ok.mp hindented
  obtain ⟨rfl, rfl⟩ := gen_pure_ok.mp hrun
  refine ⟨htidy, ?_⟩
  obtain ⟨before, hbefore, hwords⟩ := htidy.globals hglobalTexts
  have hdeclares : ∀ s, declared s = true → .word s ∈ before := by
    intro s hs
    obtain ⟨hmem, hword⟩ := hdeclared s hs
    obtain ⟨_, heq, hname⟩ := hvalid _ hmem
    obtain rfl := Value.text.inj heq
    have hstem : stem s = s := Piece.stem_self hword
    exact hstem ▸ hwords s hname (hall s hmem)
  have hindented : Piece margin.toList declared .closed [] indented := by
    rw [hindent] at hmoved
    obtain rfl := Except.ok.inj hmoved
    exact .indent hmargin (.join (htidy.fits hcallTexts))
  obtain ⟨inSetup, inLoop, hparts⟩ :=
    Parts.of_pieces hbefore.separated hdeclares (hindented.append hsetup) hloop
  exact ⟨_, before, inSetup, inLoop, rfl, hparts⟩

end

end BlockSketch.Sketch
