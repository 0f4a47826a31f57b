import BlockSketch.Proofs.Sketch.Emit

/-!
# The walk through a workspace

Generation goes through the blocks in one fixed order and stops at the first fault. Both are said
here without any code: the order of the steps, what can be found wrong with a step after the steps
before it, and what is then reported. A workspace may be any graph. Going down further than there
are blocks meets a block a second time, which is a fault, so that a walk of more depth is as good as
an endless one. Calls are counted on the way down, as there may be no room for another one.
-/

namespace BlockSketch.Sketch

-- ---------------------------------------------------------------------------
-- Steps
-- ---------------------------------------------------------------------------

/-- A block that asks for the code in its sockets, and how many calls deep it does. -/
structure Asker where
  block : Ref
  depth : Nat
  deriving DecidableEq

/-- How many calls the emitter of a block runs below who asks for its code. -/
def callsFor (t : BlockType) : Nat :=
  if t.isStatement then 7 else 6

/-- Where a block is met. The successors in a chain are asked for by who asked for the chain; nobody
asks for a root. -/
inductive Position where
  | root
  | operand (asker : Asker)
  | statement (asker : Option Asker)
  deriving DecidableEq

namespace Position

def asker? : Position → Option Asker
  | .root => none
  | .operand asker => some asker
  | .statement asker => asker

def fits : Position → BlockType → Bool
  | .root, _ => true
  | .operand _, t => !t.isStatement
  | .statement _, t => t.isStatement

def role : Position → BlockType → Role
  | .root, t => if t.isStatement then .chain else .operand
  | .operand _, _ => .operand
  | .statement _, _ => .chain

def chains : Position → BlockType → Bool
  | .root, t => t.isStatement
  | .operand _, _ => false
  | .statement _, _ => true

def start (position : Position) : Nat :=
  position.asker?.elim 0 Asker.depth

def depth (position : Position) (t : BlockType) : Nat :=
  position.start + callsFor t

theorem role_eq (h : fits position t = true) :
    role position t = if t.isStatement then .chain else .operand := by
  cases position <;> simp_all [fits, role]

theorem chains_eq (h : fits position t = true) : chains position t = t.isStatement := by
  cases position <;> simp_all [fits, chains]

theorem depth_eq (h : fits position t = true) :
    position.depth t = position.start + (position.role t).calls := by
  rw [depth, role_eq h, callsFor]
  cases t.isStatement <;> rfl

def ofSocket (asker : Asker) : Socket → Position
  | .value _ => .operand asker
  | .statement _ => .statement (some asker)

end Position

inductive Step where
  | block (position : Position) (r : Ref)
  /-- The names of all variables are looked at for an entry point. -/
  | names (r : Ref)
  deriving DecidableEq

def inSocket (walk : Position → Ref → List Step) (asker : Asker) (b : Block) (s : Socket) :
    List Step :=
  (b.input? s.name).toList.flatMap (walk (.ofSocket asker s))

/-- A block, what is in its sockets, and what follows it. -/
def walk (w : Workspace) : Nat → Position → Ref → List Step
  | 0, _, _ => []
  | depth + 1, position, r =>
    let b := w.block r
    .block position r :: match Catalog.registry.find? b.type with
      | none => []
      | some t =>
        t.sockets.flatMap (inSocket (walk w depth) ⟨r, position.depth t⟩ b) ++
          (if w.isEntry r then [.names r] else []) ++
          (if position.chains t then
            b.next.toList.flatMap (walk w depth (.statement position.asker?))
          else [])

-- From here on the catalog is known by its lemmas. Unfolding it runs all its registrations.
seal Catalog.registry

theorem walk_succ (w : Workspace) (depth : Nat) (position : Position) (r : Ref) :
    walk w (depth + 1) position r =
      .block position r :: match Catalog.registry.find? (w.block r).type with
        | none => []
        | some t =>
          t.sockets.flatMap (inSocket (walk w depth) ⟨r, position.depth t⟩ (w.block r)) ++
            (if w.isEntry r then [.names r] else []) ++
            (if position.chains t then
              (w.block r).next.toList.flatMap (walk w depth (.statement position.asker?))
            else []) := by
  rfl

def rootOrder (w : Workspace) : List Ref :=
  match Workspace.entry? w with
  | none => w.roots
  | some entry => entry :: w.roots.filter (· ≠ entry)

def steps (w : Workspace) (depth : Nat) : List Step :=
  (rootOrder w).flatMap (walk w depth .root)

-- ---------------------------------------------------------------------------
-- Findings
-- ---------------------------------------------------------------------------

def invalidName (v : Value) : String :=
  "'" ++ v.plain ++ "' is not a valid variable name"

def nameComplaint (names : List Value) : Option String :=
  names.findSome? fun v => if v.text?.any isVariableName then none else some (invalidName v)

theorem nameComplaint_cons (v : Value) (names : List Value) :
    nameComplaint (v :: names) =
      if v.text?.any isVariableName then nameComplaint names else some (invalidName v) := by
  rw [nameComplaint, List.findSome?_cons]
  cases v.text?.any isVariableName <;> rfl

/-- What is looked at in a block before the blocks in its sockets. -/
inductive Check where
  | field (name : String)
  /-- The variable that the block names is declared under a valid name. -/
  | variable

def Check.complaint (t : BlockType) (b : Block) (names : List Value) : Check → Option String
  | .field name =>
    match fieldValue t b name with
    | .ok _ => none
    | .error text => some text
  | .variable =>
    match fieldValue t b "VAR" with
    | .error _ => none
    | .ok v =>
      if !v.isIn names then some ("Variable '" ++ v.plain ++ "' is not declared")
      else if v.text?.any isVariableName then none
      else some (invalidName v)

/-- All fields, and the variable of a block that names one. -/
def checks (t : BlockType) : List Check :=
  t.fields.names.map .field ++ if t.fields.has "VAR" then [.variable] else []

def complaint (t : BlockType) (b : Block) (names : List Value) (cs : List Check) : Option String :=
  cs.findSome? (Check.complaint t b names)

def Step.ref : Step → Ref
  | .block _ r | .names r => r

def Step.met? : Step → Option Ref
  | .block _ r => some r
  | .names _ => none

def met (walked : List Step) : List Ref :=
  walked.filterMap Step.met?

inductive Finding where
  | unregistered
  | misplaced
  | metBefore
  | tooDeep
  | complaint (text : String)
  deriving DecidableEq

/-- What is wrong with a step after the steps before it. -/
def finding (room : Option Nat) (w : Workspace) (walked : List Step) : Step → Option Finding
  | .block position r =>
    let b := w.block r
    match Catalog.registry.find? b.type with
    | none => some .unregistered
    | some t =>
      if !position.fits t then some .misplaced
      else if r ∈ met walked then some .metBefore
      else if room.any (· < position.depth t) then some .tooDeep
      else (complaint t b w.variableNames (checks t)).map .complaint
  | .names _ => (nameComplaint w.variableNames).map .complaint

/-- No step has a finding after the steps before it. -/
def Faultless (room : Option Nat) (w : Workspace) (ss : List Step) : Prop :=
  ∀ before s after, ss = before ++ s :: after → finding room w before s = none

-- ---------------------------------------------------------------------------
-- Reports of findings
-- ---------------------------------------------------------------------------

def Step.asker? : Step → Option Asker
  | .block position _ => position.asker?
  | .names _ => none

def Step.isOperand : Step → Bool
  | .block (.operand _) _ => true
  | _ => false

/-- What is reported when the emitter of a block gives up. -/
def givingUp (b : Block) (text : String) : Diagnostic where
  kind := "HandlerFailure"
  message := "Code generation failed for block '" ++ b.id.plain ++ "' (" ++ b.type.plain ++ "): " ++ text
  block := b.id
  type := b.type

/-- What is reported of a finding. If there is no room for a call, it is reported of the block that
asked, or of no block at all. -/
def Finding.diagnostic (w : Workspace) (s : Step) : Finding → Diagnostic
  | .unregistered =>
    let b := w.block s.ref
    ⟨"UnknownType", "Unknown block type: " ++ b.type.plain, b.id, b.type⟩
  | .misplaced =>
    let b := w.block s.ref
    let id := b.id.plain
    ⟨"HandlerFailure",
      if s.isOperand then "Statement block '" ++ id ++ "' cannot be used as a value"
      else "Expression block '" ++ id ++ "' cannot be used as a statement", b.id, b.type⟩
  | .metBefore =>
    let b := w.block s.ref
    ⟨"HandlerFailure", "Block '" ++ b.id.plain ++ "' is reachable more than once", b.id, b.type⟩
  | .tooDeep =>
    let text := "maximum recursion depth exceeded"
    match s.asker? with
    | some asker => givingUp (w.block asker.block) text
    | none => ⟨"HandlerFailure", text, .null, .null⟩
  | .complaint text => givingUp (w.block s.ref) text

-- ---------------------------------------------------------------------------
-- Faults
-- ---------------------------------------------------------------------------

def told (b : Block) (text : String) : Fault :=
  Generator.blockFault b (.raised text)

def Finding.fault (w : Workspace) (s : Step) : Finding → Fault
  | .unregistered => .unknownType (w.block s.ref).type (w.block s.ref).id
  | .misplaced =>
    Generator.blockFault (w.block s.ref) (if s.isOperand then .usedAsValue else .usedAsStatement)
  | .metBefore => Generator.blockFault (w.block s.ref) .revisited
  | .tooDeep => s.asker?.elim .overflow fun asker => told (w.block asker.block) overflowText
  | .complaint text => told (w.block s.ref) text

theorem Finding.fault_diagnostic (w : Workspace) (s : Step) (f : Finding) :
    (f.fault w s).diagnostic = f.diagnostic w s := by
  cases f with
  | misplaced =>
    simp only [fault, diagnostic]
    cases s.isOperand <;> rfl
  | tooDeep =>
    simp only [fault, diagnostic]
    cases s.asker? <;> rfl
  | _ => rfl

def stepFault (room : Option Nat) (w : Workspace) (walked : List Step) (s : Step) : Option Fault :=
  (finding room w walked s).map (Finding.fault w s)

def firstFault (room : Option Nat) (w : Workspace) : List Step → List Step → Option Fault
  | _, [] => none
  | walked, s :: rest => (stepFault room w walked s).or (firstFault room w (walked ++ [s]) rest)

section
variable {room : Option Nat} {w : Workspace} {walked ss before after : List Step} {s : Step}

theorem stepFault_eq_none : stepFault room w walked s = none ↔ finding room w walked s = none :=
  Option.map_eq_none_iff

theorem stepFault_names (r : Ref) : stepFault room w walked (.names r) =
    (nameComplaint w.variableNames).map (told (w.block r)) := by
  rw [stepFault, finding, Option.map_map]
  rfl

def overflowAt (room : Option Nat) (w : Workspace) (position : Position) (t : BlockType) :
    Option Fault :=
  if room.any (· < position.depth t) then
    some (position.asker?.elim .overflow fun asker => told (w.block asker.block) overflowText)
  else none

theorem stepFault_new {position : Position} (ht : Catalog.registry.find? (w.block r).type = some t)
    (hfits : position.fits t = true) (hnew : r ∉ met walked) :
    stepFault room w walked (.block position r) = (overflowAt room w position t).or
      ((complaint t (w.block r) w.variableNames (checks t)).map (told (w.block r))) := by
  simp only [stepFault, finding, ht, hfits, Bool.not_true, Bool.false_eq_true, if_false, if_neg hnew,
    overflowAt]
  split
  · rfl
  · rw [Option.map_map]
    rfl

theorem firstFault_append (room : Option Nat) (w : Workspace) (walked first second : List Step) :
    firstFault room w walked (first ++ second) =
      (firstFault room w walked first).or (firstFault room w (walked ++ first) second) := by
  induction first generalizing walked with
  | nil => simp [firstFault]
  | cons s first ih => simp [firstFault, ih, Option.or_assoc]

theorem finding_of_firstFault_none (h : firstFault room w walked ss = none)
    (hss : ss = before ++ s :: after) : finding room w (walked ++ before) s = none := by
  subst hss
  rw [firstFault_append, firstFault] at h
  simp only [Option.or_eq_none_iff] at h
  exact stepFault_eq_none.mp h.2.1

theorem Faultless.of_firstFault (h : firstFault room w [] ss = none) : Faultless room w ss :=
  fun _ _ _ hss => finding_of_firstFault_none h hss

theorem Faultless.firstFault (h : Faultless room w (walked ++ ss)) :
    firstFault room w walked ss = none := by
  induction ss generalizing walked with
  | nil => rfl
  | cons s ss ih =>
    rw [Sketch.firstFault, stepFault_eq_none.mpr (h walked s ss rfl), Option.none_or]
    exact ih (by simpa using h)

theorem firstFault_of_finding (hbefore : Faultless room w before)
    (h : finding room w before s = some f) :
    firstFault room w [] (before ++ s :: after) = some (f.fault w s) := by
  rw [firstFault_append, hbefore.firstFault, Option.none_or, firstFault, List.nil_append, stepFault, h]
  rfl

theorem firstFault_eq_some (h : firstFault room w walked ss = some f) :
    ∃ before s after, ss = before ++ s :: after ∧ stepFault room w (walked ++ before) s = some f := by
  induction ss generalizing walked with
  | nil => cases h
  | cons s ss ih =>
    simp only [firstFault, Option.or_eq_some_iff] at h
    rcases h with h | ⟨-, h⟩
    · exact ⟨[], s, ss, rfl, by simpa using h⟩
    · obtain ⟨before, s', after, rfl, hfault⟩ := ih h
      exact ⟨s :: before, s', after, rfl, by simpa using hfault⟩

-- ---------------------------------------------------------------------------
-- Faults that were told
-- ---------------------------------------------------------------------------

/-- A fault that no block has to tell any more. -/
def Told (f : Fault) : Prop :=
  ∀ b, Generator.toldBy b f = f

theorem told_told (b : Block) (text : String) : Told (told b text) :=
  fun _ => rfl

/-- Only a call without an asker is not told of any block. -/
theorem stepFault_told (h : stepFault room w walked s = some f) :
    Told f ∨ s.asker? = none ∧ f = .overflow := by
  obtain ⟨found, -, rfl⟩ := Option.map_eq_some_iff.mp h
  cases found with
  | tooDeep =>
    cases hasker : s.asker? with
    | none => exact .inr ⟨rfl, by simp [Finding.fault, hasker]⟩
    | some asker => exact .inl (by simpa [Finding.fault, hasker] using told_told _ _)
  | _ => exact .inl fun _ => rfl

def Step.Asked : Step → Prop
  | .block position _ => position.asker?.isSome = true
  | .names _ => True

theorem firstFault_told (hasked : ∀ s ∈ ss, s.Asked) (h : firstFault room w walked ss = some f) :
    Told f := by
  obtain ⟨before, s, after, rfl, hfault⟩ := firstFault_eq_some h
  rcases stepFault_told hfault with htold | ⟨hnone, rfl⟩
  · exact htold
  · have hs := hasked s (by simp)
    cases s with
    | block position r => simp [Step.Asked, show position.asker? = none from hnone] at hs
    | names r =>
      rw [stepFault_names] at hfault
      obtain ⟨text, -, htext⟩ := Option.map_eq_some_iff.mp hfault
      cases htext

theorem firstFault_not_passed (h : firstFault room w walked ss = some f) : f ≠ .passed text := by
  obtain ⟨before, s, after, -, hfault⟩ := firstFault_eq_some h
  rintro rfl
  rcases stepFault_told hfault with htold | ⟨-, heq⟩
  · cases htold (w.block 0)
  · cases heq

theorem inSocket_asked {walked : Position → Ref → List Step} {asker : Asker}
    (h : ∀ {position r}, position.asker?.isSome = true → ∀ s ∈ walked position r, s.Asked)
    (hs : s ∈ inSocket walked asker b socket) : s.Asked := by
  obtain ⟨child, -, hs⟩ := List.mem_flatMap.mp hs
  refine h ?_ s hs
  cases socket <;> rfl

theorem walk_asked {position : Position} (h : position.asker?.isSome = true) :
    ∀ s ∈ walk w depth position r, s.Asked := by
  induction depth generalizing position r with
  | zero => exact fun _ hs => (List.not_mem_nil hs).elim
  | succ depth ih =>
    rw [walk_succ]
    intro s hs
    rcases List.mem_cons.mp hs with rfl | hs
    · exact h
    · cases ht : Catalog.registry.find? (w.block r).type with
      | none => simp [ht] at hs
      | some t =>
        rw [ht] at hs
        simp only [List.mem_append, List.mem_flatMap] at hs
        rcases hs with (⟨socket, -, hs⟩ | hs) | hs
        · exact inSocket_asked ih hs
        · split at hs
          · rw [List.mem_singleton.mp hs]
            trivial
          · cases hs
        · split at hs
          · obtain ⟨next, -, hs⟩ := List.mem_flatMap.mp hs
            have hnext : (Position.statement position.asker?).asker?.isSome = true := h
            exact ih hnext s hs
          · cases hs

end

end BlockSketch.Sketch
