import BlockSketch.Proofs.FirstOccurrences
import BlockSketch.Proofs.Sketch.Demands

/-!
# Declarations in the order of first use

However many blocks demand a resource, a sketch declares it once, where it was demanded first. The
text before the functions has the scaffolding of the sensors and the declarations of the variables
in this order, and the setup part starts with one line for each resource, in the form of the last
demand for it.
-/

namespace BlockSketch.Sketch

-- ---------------------------------------------------------------------------
-- Tables
-- ---------------------------------------------------------------------------

theorem put_map [BEq α] [LawfulBEq α] {f : α → String} {v : α → β} {as : List α}
    (hnodup : as.Nodup) (hinj : ∀ b ∈ as, f b = f a → b = a) (x : β) :
    Table.put (as.map fun b => (.text (f b), v b)) (.text (f a)) x =
      (if a ∈ as then as else as ++ [a]).map fun b =>
        (.text (f b), if b == a then x else v b) := by
  induction as with
  | nil => simp [Table.put]
  | cons b as ih =>
    obtain ⟨hb, hrest⟩ := List.nodup_cons.mp hnodup
    obtain ⟨hfirst, hinj⟩ := List.forall_mem_cons.mp hinj
    rw [List.map_cons, Table.put_cons]
    by_cases hkey : f b = f a
    · obtain rfl := hfirst hkey
      have hothers : ∀ c ∈ as, c ≠ b := fun c hc heq => hb (heq ▸ hc)
      simp only [Value.coincides_text, if_true, List.mem_cons_self, List.map_cons,
        beq_self_eq_true]
      refine congrArg _ (List.map_congr_left fun c hc => ?_)
      simp [hothers c hc]
    · have hne : b ≠ a := fun heq => hkey (heq ▸ rfl)
      have hiff : a ∈ b :: as ↔ a ∈ as := by simp [Ne.symm hne]
      simp only [Value.coincides_text, Value.text.injEq, hkey, if_false, ih hrest hinj, hiff]
      split <;> simp [hne]

-- ---------------------------------------------------------------------------
-- Placements
-- ---------------------------------------------------------------------------

/-- Where the definition of a key stands, told by how the key starts. -/
def keyPlacement (key : String) : Placement :=
  if ["pinMode_", "hts_call_", "imu_call_", "mic_call_"].any fun start =>
      start.toList.isPrefixOf key.toList then .setup
  else .global

/-- A definition stands where its key does, so that those of one placement never replace those of
the other. -/
def Placed (d : Definition) : Prop :=
  ∃ key, d.key = .text key ∧ d.placement = keyPlacement key

def AllPlaced (definitions : Definitions) : Prop :=
  ∀ e ∈ definitions, ∃ key, e.1 = .text key ∧ e.2.placement = keyPlacement key

def inPlacement (placement : Placement) (definitions : Definitions) : Definitions :=
  definitions.filter fun e => e.2.placement == placement

theorem AllPlaced.add (h : AllPlaced definitions) (hd : Placed d) :
    AllPlaced (definitions.add d) := by
  obtain ⟨key, hkey, hplace⟩ := hd
  rw [Definitions.add, hkey]
  induction definitions with
  | nil => simpa [AllPlaced, Table.put] using hplace
  | cons e definitions ih =>
    obtain ⟨k, d'⟩ := e
    obtain ⟨hfirst, hrest⟩ := List.forall_mem_cons.mp h
    rw [Table.put_cons]
    split
    · rename_i hsame
      exact List.forall_mem_cons.mpr ⟨⟨key, Value.coincides_text.mp hsame, hplace⟩, hrest⟩
    · exact List.forall_mem_cons.mpr ⟨hfirst, ih hrest⟩

theorem inPlacement_cons (k : Value) (d : Definition) (definitions : Definitions)
    (placement : Placement) :
    inPlacement placement ((k, d) :: definitions) =
      if d.placement = placement then (k, d) :: inPlacement placement definitions
      else inPlacement placement definitions := by
  simp [inPlacement, List.filter_cons]

theorem inPlacement_add (h : AllPlaced definitions) (hd : Placed d) (placement : Placement) :
    inPlacement placement (definitions.add d) =
      if d.placement = placement then (inPlacement placement definitions).add d
      else inPlacement placement definitions := by
  obtain ⟨key, hkey, hplace⟩ := hd
  simp only [Definitions.add, hkey]
  induction definitions with
  | nil => exact inPlacement_cons _ d [] placement
  | cons e definitions ih =>
    obtain ⟨k, d'⟩ := e
    obtain ⟨⟨key', rfl, hplace'⟩, hrest⟩ := List.forall_mem_cons.mp h
    dsimp only at hplace'
    by_cases hsame : key' = key
    · -- The entry is replaced, and both definitions stand in the place of the key.
      subst hsame
      have hfound : (Value.text key').coincides (.text key') = true := Value.coincides_text.mpr rfl
      rw [Table.put_cons, if_pos hfound, inPlacement_cons, inPlacement_cons, hplace', hplace]
      split
      · rw [Table.put_cons, if_pos hfound]
      · rfl
    · have hother : (Value.text key').coincides (.text key) = false :=
        Value.coincides_text_of_ne (by simpa using hsame)
      rw [Table.put_cons, hother, if_neg Bool.false_ne_true, inPlacement_cons, inPlacement_cons,
        ih hrest]
      split <;> split
      · rw [Table.put_cons, hother, if_neg Bool.false_ne_true]
      all_goals rfl

/-- The definitions of one placement are made without regard to the others. -/
theorem inPlacement_foldl {ds : List Definition} (h : AllPlaced definitions)
    (hds : ∀ d ∈ ds, Placed d) (placement : Placement) :
    inPlacement placement (ds.foldl Definitions.add definitions) =
      (ds.filter (·.placement == placement)).foldl Definitions.add
        (inPlacement placement definitions) := by
  induction ds generalizing definitions with
  | nil => rfl
  | cons d ds ih =>
    obtain ⟨hd, hds⟩ := List.forall_mem_cons.mp hds
    rw [List.foldl_cons, ih (h.add hd) hds, inPlacement_add h hd, List.filter_cons]
    simp only [beq_iff_eq]
    split <;> rfl

-- ---------------------------------------------------------------------------
-- Resources
-- ---------------------------------------------------------------------------

def lastLine (demands : List Demand) (r : Resource) : String :=
  ((demands.filter fun d => d.resource = r).getLast?.map Demand.line).getD ""

theorem lastLine_concat (demands : List Demand) (d : Demand) (r : Resource) :
    lastLine (demands ++ [d]) r = if r = d.resource then d.line else lastLine demands r := by
  rw [lastLine, List.filter_append]
  by_cases hr : r = d.resource
  · simp [hr]
  · simp [lastLine, hr, Ne.symm hr]

theorem Resource.key_injective : Function.Injective Resource.key := by
  have hpin : ∀ name : String, ("pinMode_" ++ name).toList.head? = some 'p' := by simp
  have hcall : ∀ f, (Resource.sensor f).key.toList.head? ≠ some 'p' := by
    intro f
    cases f <;> simp [Resource.key]
  intro r r' heq
  cases r with
  | pin name =>
    cases r' with
    | pin name' => simpa [Resource.key] using heq
    | sensor f =>
      refine (hcall f ?_).elim
      rw [← heq]
      exact hpin name
  | sensor f =>
    cases r' with
    | pin name =>
      refine (hcall f ?_).elim
      rw [heq]
      exact hpin name
    | sensor f' => cases f <;> cases f' <;> simp_all [Resource.key]

/-- Every resource has one entry, in the place of the first demand and with the line of the last. -/
theorem foldl_calls (demands : List Demand) :
    (demands.map Demand.call).foldl Definitions.add [] =
      (demands.map Demand.resource).eraseDups.map fun r =>
        (.text r.key, ⟨.text r.key, .text (lastLine demands r), .setup⟩) := by
  induction demands using List.reverseRecOn with
  | nil => rfl
  | append_singleton demands d ih =>
    have hput := put_map (f := Resource.key) (a := d.resource)
      (v := fun r => Definition.mk (.text r.key) (.text (lastLine demands r)) .setup)
      (nodup_eraseDups (demands.map Demand.resource))
      (fun _ _ heq => Resource.key_injective heq) d.call
    rw [List.map_append, List.foldl_append, ih]
    refine hput.trans ?_
    rw [List.map_append, List.map_singleton, eraseDups_concat]
    simp only [List.mem_eraseDups]
    refine List.map_congr_left fun r _ => ?_
    rw [lastLine_concat]
    by_cases hr : r = d.resource
    · simp [hr, Demand.call]
    · simp [hr]

-- ---------------------------------------------------------------------------
-- Globals
-- ---------------------------------------------------------------------------

theorem foldl_globally {entries : List (String × String)}
    (hkeys : ∀ e ∈ entries, ∀ e' ∈ entries, e.1 = e'.1 → e = e') :
    (entries.map globally).foldl Definitions.add [] =
      entries.eraseDups.map fun e => (.text e.1, globally e) := by
  induction entries using List.reverseRecOn with
  | nil => rfl
  | append_singleton entries e ih =>
    have hkeys' : ∀ e' ∈ entries, e'.1 = e.1 → e' = e := fun e' he' =>
      hkeys e' (List.mem_append_left _ he') e (by simp)
    have hput := put_map (f := Prod.fst) (a := e) (v := globally) (nodup_eraseDups entries)
      (fun e' he' => hkeys' e' (List.mem_eraseDups.mp he')) (globally e)
    rw [List.map_append, List.foldl_append,
      ih fun a ha b hb => hkeys a (List.mem_append_left _ ha) b (List.mem_append_left _ hb)]
    refine hput.trans ?_
    rw [eraseDups_concat]
    simp only [List.mem_eraseDups]
    refine List.map_congr_left fun e' _ => ?_
    by_cases heq : e' = e
    · simp [heq]
    · simp [heq]

/-- What stands before the functions of a sketch: the scaffolding of a family of sensors, or the
declarations of all variables. -/
inductive Group where
  | family (f : Family)
  | names
  deriving DecidableEq

namespace Group

def entries (names : List String) : Group → List (String × String)
  | .family f => f.scaffolding
  | .names => names.map fun name => ("variable_" ++ name, declarationText name)

def texts (names : List String) : Group → List String
  | .family f => f.scaffolding.map Prod.snd
  | .names => names.eraseDups.map declarationText

end Group

theorem scaffolding_inj : ∀ f f' : Family, ∀ e ∈ f.scaffolding, ∀ e' ∈ f'.scaffolding,
    e.1 = e'.1 → f = f' ∧ e = e' := by
  intro f f'
  cases f <;> cases f' <;> simp [Family.scaffolding]

theorem scaffolding_nodup (f : Family) : f.scaffolding.Nodup := by
  cases f <;> simp [Family.scaffolding]

theorem scaffolding_head (f : Family) : ∀ e ∈ f.scaffolding, e.1.toList.head? ≠ some 'v' := by
  cases f <;> simp [Family.scaffolding]

theorem Group.entries_inj {names : List String} {g g' : Group} (he : e ∈ g.entries names)
    (he' : e' ∈ g'.entries names) (hkey : e.1 = e'.1) : g = g' ∧ e = e' := by
  have hvariable : ∀ name : String, ("variable_" ++ name).toList.head? = some 'v' := by simp
  cases g with
  | family f =>
    cases g' with
    | family f' =>
      obtain ⟨rfl, rfl⟩ := scaffolding_inj f f' e he e' he' hkey
      exact ⟨rfl, rfl⟩
    | names =>
      obtain ⟨name, -, rfl⟩ := List.mem_map.mp he'
      exact (scaffolding_head f e he (hkey ▸ hvariable name)).elim
  | names =>
    obtain ⟨name, -, rfl⟩ := List.mem_map.mp he
    cases g' with
    | family f => exact (scaffolding_head f e' he' (hkey ▸ hvariable name)).elim
    | names =>
      obtain ⟨name', -, rfl⟩ := List.mem_map.mp he'
      obtain rfl : name = name' := by simpa using hkey
      exact ⟨rfl, rfl⟩

theorem Group.texts_eq (names : List String) (g : Group) :
    (g.entries names).eraseDups.map Prod.snd = g.texts names := by
  cases g with
  | family f => rw [Group.entries, eraseDups_eq_self (scaffolding_nodup f), Group.texts]
  | names =>
    have hinj : Function.Injective fun name : String =>
        ("variable_" ++ name, declarationText name) := by
      intro name name' heq
      exact declarationText_inj.mp (Prod.mk.inj heq).2
    rw [Group.entries, eraseDups_map hinj, List.map_map]
    rfl

/-- Every group has its entries once, in the order in which the groups first came. -/
theorem foldl_groups (names : List String) (groups : List Group) :
    (((groups.flatMap (Group.entries names)).map globally).foldl Definitions.add []).map
        (·.2.text) = (groups.eraseDups.flatMap (Group.texts names)).map .text := by
  have hkeys : ∀ e ∈ groups.flatMap (Group.entries names),
      ∀ e' ∈ groups.flatMap (Group.entries names), e.1 = e'.1 → e = e' := by
    intro e he e' he' hkey
    obtain ⟨g, -, he⟩ := List.mem_flatMap.mp he
    obtain ⟨g', -, he'⟩ := List.mem_flatMap.mp he'
    exact (Group.entries_inj he he' hkey).2
  have hapart : ∀ g g' e, e ∈ Group.entries names g → e ∈ Group.entries names g' → g = g' :=
    fun g g' e he he' => (Group.entries_inj he he' rfl).1
  rw [foldl_globally hkeys, List.map_map, eraseDups_flatMap hapart]
  simp only [← Group.texts_eq, List.map_flatMap, List.map_map]
  rfl

-- ---------------------------------------------------------------------------
-- Steps
-- ---------------------------------------------------------------------------

namespace Step

def family? (w : Workspace) (s : Step) : Option Family :=
  match s.demand? w with
  | some (.sensor f) => some f
  | _ => none

def group? (w : Workspace) : Step → Option Group
  | .block position r => ((Step.block position r).family? w).map .family
  | .names _ => some .names

end Step

section
variable {w : Workspace}

theorem scaffolding_global (f : Family) : ∀ e ∈ f.scaffolding, keyPlacement e.1 = .global := by
  cases f <;> simp [Family.scaffolding, keyPlacement]

theorem definitions_placed : ∀ s, ∀ d ∈ Step.definitions w s, Placed d := by
  intro s d hd
  cases s with
  | block position r =>
    obtain ⟨demand, -, hd⟩ := List.mem_flatMap.mp hd
    rcases List.mem_append.mp hd with hd | hd
    · obtain ⟨e, he, rfl⟩ := List.mem_map.mp hd
      refine ⟨e.1, rfl, ?_⟩
      cases demand with
      | pin name mode => cases he
      | sensor f => exact (scaffolding_global f e he).symm
    · obtain rfl := List.mem_singleton.mp hd
      refine ⟨demand.resource.key, rfl, ?_⟩
      cases demand with
      | pin name mode => simp [Demand.call, Demand.resource, Resource.key, keyPlacement]
      | sensor f => cases f <;> rfl
  | names r =>
    obtain ⟨name, -, rfl⟩ := List.mem_map.mp hd
    refine ⟨_, rfl, ?_⟩
    simp [declaration, keyPlacement]

theorem definitions_setup (s : Step) :
    (s.definitions w).filter (·.placement == .setup) = (s.demand? w).toList.map Demand.call := by
  cases s with
  | block position r =>
    rw [Step.definitions]
    cases (Step.block position r).demand? w with
    | none => rfl
    | some d =>
      have hglobal : ∀ es : List (String × String),
          (es.map globally).filter (·.placement == .setup) = [] := by
        intro es
        simp [globally, List.filter_map, Function.comp_def]
      simp [Demand.definitions, hglobal, Demand.call]
  | names r =>
    simp [Step.definitions, Step.demand?, declaration]

theorem definitions_global (s : Step) :
    (s.definitions w).filter (·.placement == .global) =
      ((s.group? w).toList.flatMap (Group.entries (nameTexts w.variableNames))).map globally := by
  cases s with
  | block position r =>
    rw [Step.definitions, Step.group?, Step.family?]
    cases (Step.block position r).demand? w with
    | none => rfl
    | some d =>
      have hglobal : ∀ es : List (String × String),
          (es.map globally).filter (·.placement == .global) = es.map globally := by
        intro es
        simp [globally, List.filter_map, Function.comp_def]
      cases d with
      | pin name mode => rfl
      | sensor f =>
        simp [Demand.definitions, hglobal, Demand.call, Demand.scaffolding, Group.entries]
  | names r =>
    simp [Step.definitions, Step.group?, Group.entries, declaration, globally, Function.comp_def,
      List.filter_map]

variable (w) in
def declarations (ss : List Step) : List String :=
  (ss.filterMap (Step.group? w)).eraseDups.flatMap (Group.texts (nameTexts w.variableNames))

variable (w) in
def setupLines (ss : List Step) : List String :=
  ((ss.filterMap (Step.demand? w)).map Demand.resource).eraseDups.map
    (lastLine (ss.filterMap (Step.demand? w)))

theorem texts_inPlacement (ss : List Step) (placement : Placement) :
    Definitions.texts ((ss.flatMap (Step.definitions w)).foldl Definitions.add [])
        (some placement) =
      ((ss.flatMap fun s => (s.definitions w).filter (·.placement == placement)).foldl
        Definitions.add []).map (·.2.text) := by
  have hplaced : ∀ d ∈ ss.flatMap (Step.definitions w), Placed d := by
    intro d hd
    obtain ⟨s, -, hd⟩ := List.mem_flatMap.mp hd
    exact definitions_placed s d hd
  have hempty : AllPlaced [] := by simp [AllPlaced]
  rw [← List.filter_flatMap]
  exact congrArg (List.map (·.2.text)) (inPlacement_foldl hempty hplaced placement)

theorem texts_global (ss : List Step) :
    Definitions.texts ((ss.flatMap (Step.definitions w)).foldl Definitions.add [])
        (some .global) = (declarations w ss).map .text := by
  rw [texts_inPlacement, declarations, ← foldl_groups, List.filterMap_eq_flatMap_toList,
    List.flatMap_assoc, List.map_flatMap]
  simp only [definitions_global]

theorem texts_setup (ss : List Step) :
    Definitions.texts ((ss.flatMap (Step.definitions w)).foldl Definitions.add [])
        (some .setup) = (setupLines w ss).map .text := by
  have hcalls : (ss.flatMap fun s => (s.demand? w).toList.map Demand.call) =
      (ss.filterMap (Step.demand? w)).map Demand.call := by
    rw [List.filterMap_eq_flatMap_toList, List.map_flatMap]
  rw [texts_inPlacement]
  simp only [definitions_setup]
  rw [hcalls, foldl_calls, setupLines, List.map_map, List.map_map]
  rfl

end

-- ---------------------------------------------------------------------------
-- Lines
-- ---------------------------------------------------------------------------

def IsLine (s : String) : Prop :=
  ∃ c cs, s.toList = c :: (cs ++ ['\n']) ∧ Text.isBlank c = false ∧
    ∀ d ∈ c :: cs, Text.isLineBreak d = false

theorem indent_lines {lines : List String} (h : ∀ s ∈ lines, IsLine s) (margin : String) :
    Text.indent margin (String.join lines) = String.join (lines.map (margin ++ ·)) := by
  induction lines with
  | nil => rfl
  | cons line lines ih =>
    obtain ⟨⟨c, cs, hline, hblank, hbreaks⟩, hrest⟩ := List.forall_mem_cons.mp h
    have hsplit : Text.splitLines (line.toList ++ (String.join lines).toList) =
        line.toList :: Text.splitLines (String.join lines).toList := by
      rw [hline]
      simpa using Text.splitLines_line hbreaks
    have hmoved : Text.indentLine margin.toList line.toList = margin.toList ++ line.toList := by
      simp [Text.indentLine, Text.isAllBlank, hline, hblank]
    rw [List.map_cons, String.join_cons, String.join_cons, ← ih hrest, ← String.toList_inj]
    simp only [Text.indent, Text.indentChars, String.toList_ofList, String.toList_append, hsplit,
      List.flatMap_cons, hmoved]

theorem isLineBreak_numeral (h : Expression.isNumeral cs = true) :
    ∀ c ∈ cs, Text.isLineBreak c = false := by
  have htail : ∀ marked cs, Expression.isNumberTail marked cs = true →
      ∀ c ∈ cs, Text.isLineBreak c = false := by
    intro marked cs
    induction cs generalizing marked with
    | nil => simp
    | cons c cs ih =>
      intro h
      rw [Expression.isNumberTail, Bool.and_eq_true] at h
      refine List.forall_mem_cons.mpr ⟨?_, ih _ h.2⟩
      have hextends := h.1
      simp only [Expression.extendsNumber, Bool.or_eq_true, Bool.and_eq_true,
        decide_eq_true_eq] at hextends
      rcases hextends with (hname | rfl) | ⟨-, rfl | rfl⟩
      · exact isLineBreak_nameChar hname
      · rfl
      · rfl
      · rfl
  cases cs with
  | nil => cases h
  | cons c cs =>
    rw [Expression.isNumeral, Bool.and_eq_true] at h
    refine List.forall_mem_cons.mpr ⟨isLineBreak_nameChar ?_, htail false cs h.2⟩
    simp [isNameChar, Char.isAlphanum, h.1]

theorem isLineBreak_literal {n : Number} (hfinite : n.isFinite = true) :
    ∀ c ∈ (numberLiteral (.number n)).toList, Text.isLineBreak c = false := by
  have hcases := Expression.numeral_cases hfinite
  rw [Expression.numberLiteral_eq]
  split at hcases
  · rw [hcases.1, String.toList_append]
    exact List.forall_mem_append.mpr ⟨isLineBreak_none rfl, isLineBreak_numeral hcases.2⟩
  · exact isLineBreak_numeral hcases

theorem isLine_pin (hname : ∀ c ∈ name.toList, Text.isLineBreak c = false)
    (hmode : ∀ c ∈ mode.toList, Text.isLineBreak c = false) :
    IsLine (Demand.pin name mode).line := by
  have hfirst : "pinMode(".toList = 'p' :: "inMode(".toList := rfl
  have hlast : ");\n".toList = ");".toList ++ ['\n'] := rfl
  have hchars : (Demand.pin name mode).line.toList = 'p' ::
      ("inMode(".toList ++ name.toList ++ ", ".toList ++ mode.toList ++ ");".toList ++ ['\n']) := by
    simp only [Demand.line, String.toList_append, hfirst, hlast, List.cons_append,
      List.append_assoc]
  refine ⟨_, _, hchars, by decide, ?_⟩
  simp only [List.forall_mem_cons, List.forall_mem_append]
  exact ⟨rfl, ⟨⟨⟨isLineBreak_none rfl, hname⟩, isLineBreak_none rfl⟩, hmode⟩, isLineBreak_none rfl⟩

theorem pin_field : ∀ t ∈ Catalog.blockTypes, t.typeId = .text "arduino_digital_write" ∨
    t.typeId = .text "arduino_analog_write" ∨ t.typeId = .text "arduino_digital_read" →
      ∃ initial low high, t.fields.find? "PIN" = some (Catalog.number initial low high) := by
  simp only [Catalog.blockTypes, List.forall_mem_cons]
  simp [entryType]
  exact ⟨⟨_, _, _, rfl⟩, ⟨_, _, _, rfl⟩, _, _, _, rfl⟩

theorem isLine_of_pin (ht : t ∈ Catalog.blockTypes)
    (hid : t.typeId = .text "arduino_digital_write" ∨ t.typeId = .text "arduino_analog_write" ∨
      t.typeId = .text "arduino_digital_read")
    (hmode : ∀ c ∈ mode.toList, Text.isLineBreak c = false)
    (h : (pinText t b).map (Demand.pin · mode) = some d) : IsLine d.line := by
  obtain ⟨initial, low, high, hf⟩ := pin_field t ht hid
  obtain ⟨name, hname, rfl⟩ := Option.map_eq_some_iff.mp h
  cases hv : fieldValue t b "PIN" with
  | error text => simp [pinText, hv, Except.toOption] at hname
  | ok v =>
    rw [pinText_of hv] at hname
    obtain rfl := Option.some.inj hname
    obtain ⟨n, rfl, hfinite, -⟩ := fieldValue_number hf hv
    exact isLine_pin (isLineBreak_literal hfinite) hmode

theorem isLine_sensor (f : Family) : IsLine (Demand.sensor f).line := by
  have hline : ∀ c cs, Text.isBlank c = false → (c :: cs).any Text.isLineBreak = false →
      IsLine (.ofList (c :: (cs ++ ['\n']))) := fun c cs hblank hbreaks =>
    ⟨c, cs, String.toList_ofList, hblank, isLineBreak_none hbreaks⟩
  cases f with
  | hts => exact hline 'i' "nitHTS();".toList (by decide) (by decide)
  | imu => exact hline 'i' "nitIMU();".toList (by decide) (by decide)
  | microphone => exact hline 'i' "nitMicrophone();".toList (by decide) (by decide)

theorem isLine_demand (ht : t ∈ Catalog.blockTypes) (h : demand? t b = some d) : IsLine d.line := by
  have houtput : ∀ c ∈ "OUTPUT".toList, Text.isLineBreak c = false := isLineBreak_none rfl
  have hinput : ∀ c ∈ "INPUT".toList, Text.isLineBreak c = false := isLineBreak_none rfl
  cases d with
  | sensor f => exact isLine_sensor f
  | pin name mode =>
    unfold demand? at h
    split at h
    · cases h
      exact isLine_pin (isLineBreak_none rfl) houtput
    · rename_i hid
      exact isLine_of_pin ht (.inl hid) houtput h
    · rename_i hid
      exact isLine_of_pin ht (.inr (.inl hid)) houtput h
    · rename_i hid
      exact isLine_of_pin ht (.inr (.inr hid)) hinput h
    all_goals simp at h

theorem lastLine_mem {demands : List Demand} (h : r ∈ demands.map Demand.resource) :
    ∃ d ∈ demands, lastLine demands r = d.line := by
  obtain ⟨d, hd, rfl⟩ := List.mem_map.mp h
  have hne : (demands.filter fun d' => d'.resource = d.resource) ≠ [] :=
    List.ne_nil_of_mem (List.mem_filter.mpr ⟨hd, by simp⟩)
  refine ⟨_, (List.mem_filter.mp (List.getLast_mem hne)).1, ?_⟩
  rw [lastLine, List.getLast?_eq_some_getLast hne]
  rfl

theorem setupLines_names (w : Workspace) (ss : List Step) (r : Ref) :
    setupLines w (ss ++ [Step.names r]) = setupLines w ss := by
  have hdemands : (ss ++ [Step.names r]).filterMap (Step.demand? w) =
      ss.filterMap (Step.demand? w) := by
    rw [List.filterMap_append]
    exact List.append_nil _
  rw [setupLines, hdemands]
  rfl

theorem isLine_setupLines {w : Workspace} (ss : List Step) : ∀ s ∈ setupLines w ss, IsLine s := by
  intro line hline
  obtain ⟨r, hr, rfl⟩ := List.mem_map.mp hline
  obtain ⟨d, hd, heq⟩ := lastLine_mem (List.mem_eraseDups.mp hr)
  obtain ⟨s, -, hd⟩ := List.mem_filterMap.mp hd
  rw [heq]
  cases s with
  | names r => exact (Option.some_ne_none d hd.symm).elim
  | block position r =>
    rw [Step.demand?, Option.bind_eq_some_iff] at hd
    obtain ⟨t, ht, hd⟩ := hd
    exact isLine_demand (Catalog.find?_registry ht).1 hd

-- ---------------------------------------------------------------------------
-- Sketches
-- ---------------------------------------------------------------------------

/-- The steps through what is compiled under an entry point: the setup part, and then the loop. -/
def under (w : Workspace) (entry : Ref) : List Step :=
  [Socket.statement "SETUP", Socket.statement "LOOP"].flatMap
    (inSocket (walk w w.blocks.size) ⟨entry, 7⟩ (w.block entry))

/-- The code of an entry point that is compiled first. It starts with what the steps under the entry
point need, each group where it is first needed, and its setup part with a line for each resource,
in front of the code in the socket. -/
def EntryCode (margin : String) (room : Option Nat) (w : Workspace) (entry : Ref) (code : String) : Prop :=
  ∃ t setupCode mid loopCode last,
    Catalog.registry.find? (.text entryType) = some t ∧
    (arduino margin room).bodyCode ((arduino margin room).compile w w.blocks.size 7)
      (w.block entry) t "SETUP" { Run.start w.variableNames with visited := [entry] } =
        .ok (setupCode, mid) ∧
    (arduino margin room).bodyCode ((arduino margin room).compile w w.blocks.size 7)
      (w.block entry) t "LOOP" mid = .ok (loopCode, last) ∧
    code = sketchText (String.join (declarations w (under w entry ++ [Step.names entry])))
      (String.join ((setupLines w (under w entry)).map (margin ++ ·))) setupCode loopCode

section
variable {margin : String} {room : Option Nat} {w : Workspace}

theorem emitBlock_entryCode (hentry : (w.block entry).type = .text entryType)
    (h : (arduino margin room).emitBlock w ((arduino margin room).compile w w.blocks.size 7) 7
      .chain entry (Run.start w.variableNames) = .ok (.statement code, run)) :
    EntryCode margin room w entry code := by
  obtain ⟨t, emitter, ht, -, hemitter, hrun⟩ := arduino_emitBlock_ok h
  rw [hentry] at ht hemitter
  obtain rfl := entry_emitter hemitter
  obtain ⟨setupCode, mid, loopCode, last, globals, calls, hsetup, hloop, hnames, hglobals, hcalls,
    hyield⟩ := entryPoint_ok rfl hrun
  obtain rfl := Yield.statement.inj hyield
  refine ⟨t, setupCode, mid, loopCode, last, ht, hsetup, hloop, ?_⟩
  have hcompile :
      Adding w (walk w w.blocks.size) ((arduino margin room).compile w w.blocks.size 7) :=
    compile_adds (Nat.le_refl _)
  have hsocket : ∀ name, Socket.statement name ∈ t.sockets →
      socketDefinitions w (walk w w.blocks.size) ⟨entry, 7⟩ t (w.block entry) name =
        (inSocket (walk w w.blocks.size) ⟨entry, 7⟩ (w.block entry) (.statement name)).flatMap
          (Step.definitions w) :=
    fun _ hname => socketDefinitions_mem ht _ _ hname
  have hadds := ((bodyCode_adds hcompile ht _ ⟨entry, 7⟩ _ hsetup).append
    (bodyCode_adds hcompile ht _ ⟨entry, 7⟩ _ hloop)).append hnames
  rw [hsocket _ (by simp [(entry_type ht).1]), hsocket _ (by simp [(entry_type ht).1])] at hadds
  have hdefinitions : run.definitions =
      ((under w entry ++ [Step.names entry]).flatMap (Step.definitions w)).foldl
        Definitions.add [] := by
    rw [hadds]
    simp [under, Step.definitions, Run.start]
  rw [hdefinitions, texts_global, List.map_inj_right fun _ _ => Value.text.inj] at hglobals
  rw [hdefinitions, texts_setup, List.map_inj_right fun _ _ => Value.text.inj,
    setupLines_names] at hcalls
  rw [← hglobals, ← hcalls, indent_lines (isLine_setupLines _)]

theorem generate_entryCode (h : (arduino margin room).generate w = .ok report)
    (hsuccess : report.success = true) (hentry : w.entry? = some entry) :
    ∃ first rest, EntryCode margin room w entry first ∧ report.code = first ++ rest ∧
      ((w.block entry).next = none → rest = "") := by
  obtain ⟨code, run, hcompile, heq⟩ := generate_compiled h hsuccess hentry
  obtain ⟨text, mid, hemit, hnext⟩ := Generator.compile_chain_ok hcompile
  have hfirst := emitBlock_entryCode (isEntry_type hentry) hemit
  rw [heq]
  rcases hnext with ⟨-, heq, -⟩ | ⟨next, rest, hsome, -, heq⟩
  · exact ⟨text, "", hfirst, by simpa using heq, fun _ => rfl⟩
  · refine ⟨text, rest.text, hfirst, heq, fun hnone => ?_⟩
    rw [hsome] at hnone
    cases hnone

/-- An entry point that is met has its names looked at, and no other block has. -/
theorem names_mem_walk {position : Position} (h : Step.names r ∈ walk w depth position first) :
    w.isEntry r = true ∧ ∃ position', Step.block position' r ∈ walk w depth position first := by
  induction depth generalizing position first with
  | zero => cases h
  | succ depth ih =>
    rw [walk_succ] at h ⊢
    cases ht : Catalog.registry.find? (w.block first).type with
    | none => simp [ht] at h
    | some t =>
      simp only [ht, List.mem_cons, List.mem_append, List.mem_flatMap, inSocket, reduceCtorEq,
        false_or] at h ⊢
      rcases h with (⟨s, hs, child, hchild, h⟩ | h) | h
      · obtain ⟨hentry, position', h⟩ := ih h
        exact ⟨hentry, position', .inr (.inl (.inl ⟨s, hs, child, hchild, h⟩))⟩
      · split at h
        · rename_i hentry
          obtain rfl := Step.names.inj (List.mem_singleton.mp h)
          exact ⟨hentry, position, .inl rfl⟩
        · cases h
      · split at h
        · rename_i hchains
          obtain ⟨next, hnext, h⟩ := List.mem_flatMap.mp h
          obtain ⟨hentry, position', h⟩ := ih h
          refine ⟨hentry, position', .inr (.inr ?_)⟩
          rw [if_pos hchains]
          exact List.mem_flatMap.mpr ⟨next, hnext, h⟩
        · cases h

theorem declarations_names {ss : List Step} (h : ∀ r, Step.names r ∉ ss) (entry : Ref) :
    declarations w (ss ++ [Step.names entry]) =
      (ss.filterMap (Step.family? w)).eraseDups.flatMap (fun f => f.scaffolding.map Prod.snd) ++
        (nameTexts w.variableNames).eraseDups.map declarationText := by
  have hgroups : ss.filterMap (Step.group? w) = (ss.filterMap (Step.family? w)).map .family := by
    rw [List.map_filterMap]
    refine List.filterMap_congr fun s hs => ?_
    cases s with
    | block position r => rfl
    | names r => exact (h r hs).elim
  have hnew : Group.names ∉ (ss.filterMap (Step.family? w)).map .family := by simp
  have hinj : Function.Injective Group.family := fun _ _ => Group.family.inj
  have hlast : [Step.names entry].filterMap (Step.group? w) = [.names] := rfl
  rw [declarations, List.filterMap_append, hgroups, hlast, eraseDups_concat, if_neg hnew,
    eraseDups_map hinj, List.flatMap_append, List.flatMap_map, List.flatMap_singleton]
  rfl

theorem sensor_field (ht : Catalog.registry.find? (.text "arduino_sensor_begin") = some t) :
    ∃ choices, t.fields.find? "SENSOR" = some (Catalog.labelled choices) := by
  have hfield : ∃ t, Catalog.registry.find? (.text "arduino_sensor_begin") = some t ∧
      ∃ choices, t.fields.find? "SENSOR" = some (Catalog.labelled choices) := by
    rw [Catalog.registry_find?]
    exact ⟨_, rfl, _, rfl⟩
  obtain ⟨u, hu, hfacts⟩ := hfield
  obtain rfl := Option.some.inj (ht.symm.trans hu)
  exact hfacts

/-- A block that starts a sensor writes nothing, and adds no more than the definitions of the
sensor. -/
theorem begin_adds (hbegin : (w.block r).type = .text "arduino_sensor_begin" ∨
      (w.block r).type = .text "arduino_imu_begin")
    (h : (arduino margin room).emitBlock w compile calls role r run = .ok (yield, run')) :
    yield = .statement "" ∧ ∃ f, (Step.block .root r).demand? w = some (.sensor f) ∧
      run' = { run with
        visited := r :: run.visited
        definitions := (Demand.sensor f).definitions.foldl Definitions.add run.definitions } := by
  obtain ⟨t, emitter, ht, -, hemitter, hrun⟩ := arduino_emitBlock_ok h
  have hdemand : (Step.block .root r).demand? w = demand? t (w.block r) := by
    rw [Step.demand?, ht, Option.bind_some]
  have hid := (Catalog.find?_registry ht).2
  rw [hdemand]
  rcases hbegin with htype | htype
  · rw [htype] at ht hemitter
    obtain rfl : Arduino.sensorBegin = emitter := Option.some.inj hemitter
    obtain ⟨choices, hf⟩ := sensor_field ht
    rw [Arduino.sensorBegin, run_bind, gen_bind_ok, field_eq] at hrun
    obtain ⟨v, mid, hfield, hrun⟩ := hrun
    obtain ⟨hv, rfl⟩ := run_orFault_ok.mp hfield
    obtain ⟨c, -, rfl⟩ := fieldValue_labelled hf hv
    have hown : demand? t (w.block r) =
        some (.sensor (if c.2 = "PDM" then .microphone else .hts)) := by
      rw [demand?, ← hid, htype]
      exact congrArg (Option.map _) (fieldText_of hv)
    have hsame : (Value.text c.2).same (.text "PDM") = true ↔ c.2 = "PDM" := by simp
    rw [hown]
    by_cases hpdm : c.2 = "PDM"
    · rw [hsame.mpr hpdm] at hrun
      obtain ⟨rfl, rfl⟩ := Prod.mk.inj (Except.ok.inj hrun)
      exact ⟨rfl, .microphone, by rw [if_pos hpdm], rfl⟩
    · rw [Bool.eq_false_iff.mpr (mt hsame.mp hpdm)] at hrun
      obtain ⟨rfl, rfl⟩ := Prod.mk.inj (Except.ok.inj hrun)
      exact ⟨rfl, .hts, by rw [if_neg hpdm], rfl⟩
  · rw [htype] at ht hemitter
    obtain rfl : Arduino.imuBegin = emitter := Option.some.inj hemitter
    obtain ⟨rfl, rfl⟩ := Prod.mk.inj (Except.ok.inj hrun)
    refine ⟨rfl, .imu, ?_, rfl⟩
    rw [demand?, ← hid, htype]
    rfl

end

/-- How a sketch declares what its blocks demand. -/
structure DeclaresByFirstUse (margin : String) (room : Option Nat) (w : Workspace) (entry : Ref)
    (code : String) : Prop where
  names : (nameTexts w.variableNames).map .text = w.variableNames
  /-- All code is that of the entry point, and of what follows it. -/
  text : ∃ first rest, EntryCode margin room w entry first ∧ code = first ++ rest ∧
    ((w.block entry).next = none → rest = "")
  /-- Unless there is an entry point under the entry point, the sensors come first. -/
  sensorsFirst : (∀ position r, Step.block position r ∈ under w entry → w.isEntry r = false) →
    declarations w (under w entry ++ [Step.names entry]) =
      ((under w entry).filterMap (Step.family? w)).eraseDups.flatMap
          (fun f => f.scaffolding.map Prod.snd) ++
        (nameTexts w.variableNames).eraseDups.map declarationText
  /-- Blocks that start a sensor do nothing else. -/
  begins : ∀ compile calls role r run yield run',
    (w.block r).type = .text "arduino_sensor_begin" ∨
      (w.block r).type = .text "arduino_imu_begin" →
    (arduino margin room).emitBlock w compile calls role r run = .ok (yield, run') →
      yield = .statement "" ∧ ∃ f, (Step.block .root r).demand? w = some (.sensor f) ∧
        run' = { run with
          visited := r :: run.visited
          definitions := (Demand.sensor f).definitions.foldl Definitions.add run.definitions }

/-- Whatever the blocks demand is declared once, in the order of first use. -/
theorem generate_declares_by_first_use {margin : String} {w : Workspace}
    (h : (arduino margin room).generate w = .ok report) (hsuccess : report.success = true)
    (hentry : w.entry? = some entry) :
    DeclaresByFirstUse margin room w entry report.code where
  names := map_nameTexts (generate_names h hsuccess hentry)
  text := generate_entryCode h hsuccess hentry
  sensorsFirst hplain := by
    refine declarations_names (fun r hr => ?_) entry
    simp only [under, List.mem_flatMap, inSocket] at hr
    obtain ⟨s, hs, child, hchild, hr⟩ := hr
    obtain ⟨hentry, position, hmet⟩ := names_mem_walk hr
    have hunder : Step.block position r ∈ under w entry :=
      List.mem_flatMap.mpr ⟨s, hs, List.mem_flatMap.mpr ⟨child, hchild, hmet⟩⟩
    rw [hplain position r hunder] at hentry
    cases hentry
  begins _ _ _ _ _ _ _ hbegin h := begin_adds hbegin h

def demanding : Workspace where
  blocks := #[
    { type := "controls_setup", id := "entry", inputs := [("SETUP", some 1), ("LOOP", some 5)] },
    { type := "arduino_digital_write", id := "write", fields := [("PIN", .int 5)], next := some 2 },
    { type := "arduino_sensor_begin", id := "begin", fields := [("SENSOR", "PDM")],
      next := some 3 },
    { type := "arduino_imu_begin", id := "imu" },
    { type := "arduino_digital_read", id := "read", fields := [("PIN", .int 5)] },
    { type := "variables_set", id := "set", fields := [("VAR", "x")],
      inputs := [("VALUE", some 4)] }]
  roots := [0]
  variableNames := ["x"]

theorem demanding_declares :
    demanding.entry? = some 0 ∧
      setupLines demanding (under demanding 0) =
        ["pinMode(5, INPUT);\n", "initMicrophone();\n", "initIMU();\n"] ∧
      ∃ report, (arduino "  ").generate demanding = .ok report ∧ report.success = true ∧
        DeclaresByFirstUse "  " none demanding 0 report.code := by
  obtain ⟨report, hreport, hsuccess⟩ :
      ∃ report, (arduino "  ").generate demanding = .ok report ∧ report.success = true := by
    rw [arduino, Catalog.registry_eq]
    exact ⟨_, rfl, rfl⟩
  exact ⟨rfl, by decide +kernel, report, hreport, hsuccess,
    generate_declares_by_first_use hreport hsuccess rfl⟩

/-- An entry point under the entry point, before a sensor. -/
def nested : Workspace where
  blocks := #[
    { type := "controls_setup", id := "entry", inputs := [("SETUP", some 1)] },
    { type := "controls_setup", id := "inner", next := some 2 },
    { type := "arduino_imu_begin", id := "imu" }]
  roots := [0]
  variableNames := ["x"]

theorem head_append {s : String} (h : s.toList.head? = some c) (t : String) :
    (s ++ t).toList.head? = some c := by
  rw [String.toList_append, List.head?_append, h]
  rfl

theorem head_sketchText {globals : String} (h : globals.toList.head? = some c)
    (calls setupCode loopCode : String) :
    (sketchText globals calls setupCode loopCode).toList.head? = some c := by
  have hsome : globals.isEmpty = false := by
    rw [← Bool.not_eq_true, String.isEmpty_iff]
    rintro rfl
    cases h
  rw [sketchText, hsome]
  exact head_append (head_append (head_append (head_append (head_append (head_append
    (head_append h _) _) _) _) _) _) _

/-- The variables come before the sensor. -/
theorem nested_variables_first :
    nested.entry? = some 0 ∧
      ∃ report, (arduino "  ").generate nested = .ok report ∧ report.success = true ∧
        ¬(String.join (((under nested 0).filterMap (Step.family? nested)).eraseDups.flatMap
            (fun f => f.scaffolding.map Prod.snd) ++
          (nameTexts nested.variableNames).eraseDups.map declarationText)).toList <+:
            report.code.toList := by
  obtain ⟨report, hreport, hsuccess⟩ :
      ∃ report, (arduino "  ").generate nested = .ok report ∧ report.success = true := by
    rw [arduino, Catalog.registry_eq]
    exact ⟨_, rfl, rfl⟩
  refine ⟨rfl, report, hreport, hsuccess, ?_⟩
  obtain ⟨hsensors, hgroups⟩ :
      ((under nested 0).filterMap (Step.family? nested)).eraseDups = [.imu] ∧
        ((under nested 0 ++ [Step.names 0]).filterMap (Step.group? nested)).eraseDups =
          [.names, .family .imu] := by
    decide +kernel
  have hnames : (nameTexts nested.variableNames).eraseDups = ["x"] := rfl
  obtain ⟨_, rest, ⟨_, _, _, _, _, -, -, -, rfl⟩, heq, -⟩ :=
    generate_entryCode hreport hsuccess rfl
  -- The sketch starts with a declaration, and the scaffolding with a directive.
  have hcode : report.code.toList.head? = some 'f' := by
    rw [heq, declarations, hgroups, List.flatMap_cons, Group.texts, hnames, List.map_cons,
      List.cons_append, String.join_cons]
    exact head_append (head_sketchText (head_append (head_append (head_append rfl _) _) _) _ _ _) _
  have hsensor : (String.join ([Family.imu].flatMap (fun f => f.scaffolding.map Prod.snd) ++
      (nameTexts nested.variableNames).eraseDups.map declarationText)).toList.head? = some '#' := by
    rw [List.flatMap_singleton, Family.scaffolding, List.map_cons, List.cons_append,
      String.join_cons]
    exact head_append rfl _
  rw [hsensors]
  rintro ⟨tail, hstart⟩
  rw [← hstart, List.head?_append, hsensor] at hcode
  cases hcode

end BlockSketch.Sketch
