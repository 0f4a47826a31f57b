import BlockSketch.Component.Kind
import BlockSketch.Text.Quoted

/-!
# Fresh ids

Ids are drawn from a counter, so that no id is drawn twice.
-/

namespace BlockSketch

structure Supply where
  drawn : Nat := 0
  deriving Repr

namespace Supply

def draw (supply : Supply) : Nat × Supply :=
  (supply.drawn + 1, ⟨supply.drawn + 1⟩)

def drawId (supply : Supply) : String × Supply :=
  let (n, supply) := supply.draw
  ("uuid-" ++ toString n, supply)

def drawComponentId (supply : Supply) (kind : ComponentKind) : String × Supply :=
  let (n, supply) := supply.draw
  (kind.name ++ "-" ++ Text.hex 8 n, supply)

end Supply

end BlockSketch
