import BlockSketch.Proofs.Canvas.Variables

/-!
# Edits that are refused

An edit or a load that ends with an error leaves the canvas as it was and tells nothing; only ids
may have been drawn for it. The one check that comes after a change, that the socket of a connection
can be a key, never fails: the sockets of the types are named by texts.
-/

namespace BlockSketch

open Document (guardedDocument guardedWorkspace)

-- ---------------------------------------------------------------------------
-- Outcomes
-- ---------------------------------------------------------------------------

/-- An outcome that changes nothing on a canvas: at most ids were drawn. -/
structure Outcome.Keeps (outcome : Outcome α) (c : Canvas) : Prop where
  canvas : ∃ supply, outcome.canvas = { c with supply }
  notices : outcome.notices = []

def Outcome.Atomic (outcome : Outcome α) (c : Canvas) : Prop :=
  ∀ e, outcome.result = .error e → outcome.Keeps c

/-- The operations on the workspace that check all before they change anything. The deletion of a
variable is none of them: it goes through its users one after the other. -/
def Operation.ChecksFirst : Operation → Prop
  | .createBlock _ | .connect .. | .detach _ | .deleteBlock _ | .setField .. | .createVariable _
  | .load _ | .reload | .loadText _ => True
  | _ => False

namespace Canvas

variable {c : Canvas} {op : Operation}

theorem Ends.atomic {outcome : Outcome Value} (h : Ends c op outcome)
    (hregular : c.registry.Regular) (hop : op.ChecksFirst) : outcome.Atomic c := by
  intro e he
  cases h with
  | committed => cases he
  | refused _ hkept =>
    have hsame := hkept hregular (by rintro name rfl; exact hop)
    subst hsame
    exact ⟨⟨_, rfl⟩, rfl⟩
  | selected => cases he
  | scheduled hscheduling =>
    cases op with
    | notify _ | flush | cancel | fire _ => exact hop.elim
    | _ => exact hscheduling.elim

theorem apply_atomic (hregular : c.registry.Regular) (hop : op.ChecksFirst) :
    (c.apply op).Atomic c :=
  (c.apply_ends op).atomic hregular hop

end Canvas

-- ---------------------------------------------------------------------------
-- Sessions
-- ---------------------------------------------------------------------------

namespace Session

theorem run_edit (c : Canvas) (hop : bringsSelection op (c.apply op).result = false) :
    (run { canvas := c } [.edit op]).1.canvas = (c.apply op).canvas := by
  simp only [run, perform, heard_session, act, edit, hop]
  rfl

end Session

namespace Canvas

/-- Whatever was done in a session before: a new block, a connection, a detachment, a deletion, a
change of a field, a new variable or a load that ends with an error leaves the canvas as it was, but
for the supply of fresh ids, and tells nothing. -/
theorem refused_edit_keeps (s : Session) (hregular : s.canvas.registry.Regular)
    (actions : List Session.Action) (c : Canvas) (hreached : (s.run actions).1.canvas = c)
    (op : Operation) (hop : op.ChecksFirst) (e : Error) (hrefused : (c.apply op).result = .error e) :
    (∃ supply, (c.apply op).canvas = { c with supply }) ∧ (c.apply op).notices = [] := by
  have hregistry : c.registry = s.canvas.registry := hreached ▸ Session.run_registry s actions
  rw [← hregistry] at hregular
  have hkeeps := apply_atomic hregular hop e hrefused
  exact ⟨hkeeps.canvas, hkeeps.notices⟩

theorem guarded_misconnected : guardedWorkspace.connect Catalog.registry "a" "b" (.list []) =
    (.error (.rejected (.noSocket "variables_set" (.list []))), guardedWorkspace) := by
  have ha : guardedWorkspace.locate "a" = .ok 1 := Workspace.locate_ok.mpr guarded_find
  have hb : guardedWorkspace.locate "b" = .ok 0 :=
    Workspace.locate_ok.mpr (Workspace.search_eq_findSome? _ _ _)
  have hreaches : guardedWorkspace.reaches 1 0 = false :=
    congrArg Option.isSome (Workspace.search_eq_findSome? _ _ _)
  have hplan : guardedWorkspace.planMove Catalog.registry "a" "b" (.list []) =
      .error (.rejected (.noSocket "variables_set" (.list []))) := by
    rw [Workspace.planMove, ha, hb]
    show (if guardedWorkspace.reaches 1 0 = true then _ else _) = _
    rw [hreaches, Catalog.registry_eq]
    rfl
  rw [Workspace.connect, hplan]

/-- A connection to a socket that cannot be a key, between blocks that were loaded. -/
theorem refused_edit_keeps_guarded : ∃ c c', start {} = .ok c ∧ c.registry.Regular ∧
    (Session.run { canvas := c } [.edit (.load guardedDocument)]).1.canvas = c' ∧
    (Operation.connect "a" "b" (.list [])).ChecksFirst ∧
    (c'.apply (.connect "a" "b" (.list []))).result =
      .error (.rejected (.noSocket "variables_set" (.list []))) ∧
    (∃ supply, (c'.apply (.connect "a" "b" (.list []))).canvas = { c' with supply }) ∧
    (c'.apply (.connect "a" "b" (.list []))).notices = [] := by
  obtain ⟨c, hstart⟩ := exists_start
  have hregistry := (new_of_start hstart).registry
  have hregular : c.registry.Regular := hregistry ▸ Catalog.registry_regular
  have hreached : (Session.run { canvas := c } [.edit (.load guardedDocument)]).1.canvas =
      (c.run [.load guardedDocument]).1 := Session.run_edit c rfl
  have hworkspace := guarded_loaded hstart
  have hloaded : (c.run [.load guardedDocument]).1.registry = Catalog.registry :=
    (apply_registry c (.load guardedDocument)).trans hregistry
  have hop : (Operation.connect "a" "b" (.list [])).ChecksFirst := trivial
  have hrefused : ((c.run [.load guardedDocument]).1.apply (.connect "a" "b" (.list []))).result =
      .error (.rejected (.noSocket "variables_set" (.list []))) := by
    simp only [apply, connect, hworkspace, hloaded, guarded_misconnected]
    rfl
  exact ⟨c, _, hstart, hregular, hreached, hop, hrefused,
    refused_edit_keeps { canvas := c } hregular _ _ hreached _ hop _ hrefused⟩

end Canvas

end BlockSketch
