import BlockSketch.Api.Server
import BlockSketch.Proofs.Canvas.Gating

/-!
# States of a server

What a request does to the canvas could have been done by the actions of a session. So whatever these
keep is kept by a server, whatever is sent to it and whenever its timers fire.
-/

namespace BlockSketch

open Relation (ReflTransGen)

namespace Session

variable {c c' : Canvas}

def Reaches : Canvas → Canvas → Prop :=
  ReflTransGen fun c c' => ∃ action, Acts c action c'

theorem reaches_apply (c : Canvas) (op : Operation) : Reaches c (c.apply op).canvas :=
  .single ⟨.edit op, .edited⟩

theorem reaches_supply (c : Canvas) (supply : Supply) : Reaches c { c with supply } :=
  .single ⟨.stage [], .staged supply⟩

theorem reaches_select (c : Canvas) (selection : Selection) (a : α) :
    Reaches c (c.select selection a).canvas :=
  .single ⟨.useStaged 0, .used selection _⟩

theorem Reaches.keeps {P : Canvas → Prop} (hstep : ∀ c action c', Acts c action c' → P c → P c')
    (h : Reaches c c') (hc : P c) : P c' := by
  induction h with
  | refl => exact hc
  | tail _ hacts ih =>
    obtain ⟨action, hacts⟩ := hacts
    exact hstep _ action _ hacts ih

theorem Reaches.keyed (h : Reaches c c') (hkeyed : c.Keyed) : c'.Keyed :=
  h.keeps (fun _ _ _ hacts => hacts.keyed) hkeyed

theorem Reaches.registry (h : Reaches c c') : c'.registry = c.registry :=
  h.keeps (P := fun c' => c'.registry = c.registry) (fun _ _ _ hacts => hacts.registry.trans) rfl

end Session

namespace Api.Server

open Session (Reaches reaches_apply reaches_supply reaches_select)

variable {server : Server} {request : Request} {action : Action}

theorem withMembers_reaches {f : (String → Value) → Answer} (request : Request) (other : Reply)
    (h : ∀ arg, Reaches server.canvas (f arg).2.canvas) :
    Reaches server.canvas (server.withMembers request other f).2.canvas := by
  unfold withMembers
  split
  · exact h _
  · exact .refl

theorem loadBoth_reaches (server : Server) (document : Value) (selection : Selection) :
    Reaches server.canvas (server.loadBoth document selection).2.canvas := by
  have hload := reaches_apply server.canvas (.load document)
  simp only [loadBoth]
  split
  · exact hload
  · rename_i count _
    exact hload.trans (reaches_select _ selection count)

/-- Components are staged before anything else is touched. -/
theorem load_reaches (server : Server) (members : Assoc Value) :
    Reaches server.canvas (server.load members).2.canvas := by
  simp only [load]
  split
  · exact reaches_apply server.canvas (.load _)
  · split
    · exact .refl
    · rename_i components _
      have hstage : Reaches server.canvas (server.canvas.stageComponents components).canvas :=
        reaches_supply _ _
      split
      · exact hstage
      · exact ReflTransGen.trans hstage (loadBoth_reaches
          { server with canvas := (server.canvas.stageComponents components).canvas } _ _)

theorem perform_reaches (server : Server) (request : Request) (action : Action) :
    Reaches server.canvas (server.perform request action).2.canvas := by
  have hsettings : ∀ key (f : String → Answer), (∀ key, Reaches server.canvas (f key).2.canvas) →
      Reaches server.canvas (server.withSetting key f).2.canvas := by
    intro key f hf
    unfold withSetting
    dsimp only
    split
    · exact hf _
    · exact .refl
  cases action with
  | addComponent =>
    refine withMembers_reaches request _ fun arg => ?_
    unfold addComponent
    split
    · exact .refl
    · exact reaches_apply server.canvas (.addComponent _)
  | removeComponent id => exact reaches_apply server.canvas (.removeComponent _)
  | createBlock =>
    exact withMembers_reaches request _ fun arg => reaches_apply server.canvas (.createBlock _)
  | connect =>
    exact withMembers_reaches request _ fun arg => reaches_apply server.canvas (.connect _ _ _)
  | detach => exact withMembers_reaches request _ fun arg => reaches_apply server.canvas (.detach _)
  | deleteBlock id => exact reaches_apply server.canvas (.deleteBlock _)
  | setField id =>
    exact withMembers_reaches request _ fun arg => reaches_apply server.canvas (.setField _ _ _)
  | createVariable =>
    exact withMembers_reaches request _ fun arg => reaches_apply server.canvas (.createVariable _)
  | deleteVariable name => exact reaches_apply server.canvas (.deleteVariable _)
  | clear => exact reaches_apply server.canvas .clear
  | load =>
    simp only [perform]
    split
    · exact load_reaches server _
    · exact .refl
  | showCode => exact reaches_apply server.canvas .flush
  | download => exact reaches_apply server.canvas .flush
  | saveProject =>
    simp only [perform]
    split
    · unfold saveProject
      dsimp only
      split
      · exact .refl
      · split
        · exact .refl
        · exact reaches_supply server.canvas _
    · exact .refl
  | putSetting key =>
    exact hsettings key _ fun key => withMembers_reaches request _ fun arg => by
      unfold putSetting
      dsimp only
      split <;> exact .refl
  | showSetting key => exact hsettings key _ fun key => .refl
  | deleteSetting key => exact hsettings key _ fun key => .refl
  | _ => exact .refl

theorem respond_reaches (server : Server) (request : Request) :
    Reaches server.canvas (server.respond request).2.canvas := by
  have hanswer : Reaches server.canvas (server.answer request).2.canvas := by
    unfold answer
    split
    · exact perform_reaches server request _
    all_goals exact .refl
  unfold respond
  dsimp only
  split <;> exact hanswer

theorem respond_perform (hroute : route request.method request.path = .action action)
    (hmethod : request.method ≠ "HEAD") :
    server.respond request = server.perform request action := by
  have hanswer : server.answer request = server.perform request action := by
    unfold answer
    rw [hroute]
  rw [respond, hanswer]
  exact if_neg hmethod

/-- The states of a server that started with a new canvas, with or without a scheduler. -/
inductive Reachable : Server → Prop
  | start {settings : Settings} {c : Canvas} (h : Canvas.start settings limit = .ok c)
      (environment : Assoc String) : Reachable (Server.start settings c environment)
  | startIdle {settings : Settings} {c : Canvas} (h : Canvas.start settings limit = .ok c)
      (environment : Assoc String) :
      Reachable (Server.start settings { c with scheduler := none } environment)
  | respond {server : Server} (h : Reachable server) (request : Request) :
      Reachable (server.respond request).2
  | fire {server : Server} (h : Reachable server) (i : Nat) : Reachable (server.fire i).2.2

/-- What holds of every new canvas, does not depend on its scheduler and is kept by every action
holds whatever a server has been asked. -/
theorem Reachable.keeps {P : Canvas → Prop}
    (hstart : ∀ settings limit c, Canvas.start settings limit = .ok c → P c)
    (hidle : ∀ c, P c → P { c with scheduler := none })
    (hstep : ∀ c action c', Session.Acts c action c' → P c → P c') (h : Reachable server) :
    P server.canvas := by
  induction h with
  | start h environment => exact hstart _ _ _ h
  | startIdle h environment => exact hidle _ (hstart _ _ _ h)
  | @respond server _ request ih => exact (respond_reaches server request).keeps hstep ih
  | @fire server _ i ih => exact (reaches_apply server.canvas (.fire i)).keeps hstep ih

theorem Reachable.registry (h : Reachable server) : server.canvas.registry = Catalog.registry :=
  h.keeps (P := fun c => c.registry = Catalog.registry)
    (fun _ _ _ hstart => (Canvas.gated_start hstart).registry) (fun _ hsame => hsame)
    fun _ _ _ hacts => hacts.registry.trans

theorem Reachable.keyed (h : Reachable server) : server.canvas.Keyed :=
  h.keeps (fun _ _ _ => Canvas.keyed_start) (fun _ hkeyed => ⟨hkeyed.registry, hkeyed.workspace⟩)
    fun _ _ _ hacts => hacts.keyed

end Api.Server

end BlockSketch
