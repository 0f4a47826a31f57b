import BlockSketch.Value.Table

/-!
# Definitions

Declarations that blocks contribute to a sketch, by key. A second contribution under one key
replaces the text and keeps the place of the first.
-/

namespace BlockSketch.Sketch

inductive Placement where
  | global
  | setup
  deriving DecidableEq, Repr

def Placement.name : Placement → String
  | .global => "global"
  | .setup => "setup"

def Placement.all : List Placement :=
  [.global, .setup]

structure Definition where
  key : Value
  text : Value
  placement : Placement := .global
  deriving Repr

abbrev Definitions := Table Definition

namespace Definitions

def add (definitions : Definitions) (definition : Definition) : Definitions :=
  definitions.put definition.key definition

def texts (definitions : Definitions) (placement : Option Placement) : List Value :=
  (definitions.filter fun (_, d) => placement.all (d.placement == ·)).map (·.2.text)

end Definitions

end BlockSketch.Sketch
