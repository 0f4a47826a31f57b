import BlockSketch.Workspace.Basic

/-!
# Traversal

Blocks are listed in preorder: a block, then the blocks in its sockets, then its successor. The
recursive listing `preorder` is bounded by a depth, so that it is finite on cyclic graphs too; the
running traversals keep a stack of pending blocks. Below the number of blocks no path without a
repetition is cut off.
-/

namespace BlockSketch.Workspace

/-- The blocks that follow a block directly: those in its sockets, then its successor. -/
def children (w : Workspace) (r : Ref) : List Ref :=
  (w.block r).inputs.filterMap Prod.snd ++ (w.block r).next.toList

def preorder (w : Workspace) : Nat → Ref → List Ref
  | 0, r => [r]
  | d + 1, r => r :: (w.children r).flatMap (w.preorder d)

abbrev Pending := Nat × Ref

def expand (w : Workspace) : Pending → List Pending
  | (0, _) => []
  | (d + 1, r) => (w.children r).map (d, ·)

def listing (w : Workspace) (stack : List Pending) : List Ref :=
  stack.flatMap fun (d, r) => w.preorder d r

theorem listing_expand (w : Workspace) (p : Pending) (rest : List Pending) :
    w.listing (p :: rest) = p.2 :: w.listing (w.expand p ++ rest) := by
  obtain ⟨d, r⟩ := p
  cases d with
  | zero => simp [listing, preorder, expand]
  | succ d => simp [listing, preorder, expand, List.flatMap_append, List.flatMap_map]

def drain (w : Workspace) : List Pending → List Ref
  | [] => []
  | p :: rest => p.2 :: drain w (w.expand p ++ rest)
termination_by stack => (w.listing stack).length
decreasing_by simp [listing_expand]

def search (w : Workspace) (f : Ref → Option α) : List Pending → Option α
  | [] => none
  | p :: rest =>
    match f p.2 with
    | some a => some a
    | none => search w f (w.expand p ++ rest)
termination_by stack => (w.listing stack).length
decreasing_by simp [listing_expand]

theorem drain_eq_listing (w : Workspace) (stack : List Pending) :
    w.drain stack = w.listing stack := by
  fun_induction drain w stack with
  | case1 => rfl
  | case2 p rest ih => rw [ih, listing_expand]

theorem search_eq_findSome? (w : Workspace) (f : Ref → Option α) (stack : List Pending) :
    w.search f stack = (w.listing stack).findSome? f := by
  fun_induction search w f stack with
  | case1 => rfl
  | case2 p rest a h => simp [listing_expand, h]
  | case3 p rest h ih => simp [listing_expand, h, ih]

def depth (w : Workspace) : Nat :=
  w.blocks.size

def subtree (w : Workspace) (r : Ref) : List Ref :=
  w.drain [(w.depth, r)]

def rootStack (w : Workspace) : List Pending :=
  w.roots.map (w.depth, ·)

/-- Every block of the program, root by root. A shared block is listed once for every way to it. -/
def allBlocks (w : Workspace) : List Ref :=
  w.drain w.rootStack

def findBlock? (w : Workspace) (id : Value) : Option Ref :=
  w.search (fun r => if (w.block r).id.same id then some r else none) w.rootStack

/-- The first place of a block with the given content: `none` for its successor, `some socket` for
that socket. -/
def placeOf? (w : Workspace) (content : Option Ref) (r : Ref) : Option (Option Value) :=
  if (w.block r).next = content then some none
  else (List.find? (·.2 == content) (w.block r).inputs).map (some ·.1)

def findPlace? (w : Workspace) (content : Option Ref) : Option (Ref × Option Value) :=
  w.search (fun r => (w.placeOf? content r).map (r, ·)) w.rootStack

def findParent? (w : Workspace) (child : Ref) : Option (Ref × Option Value) :=
  w.findPlace? (some child)

def reaches (w : Workspace) (r target : Ref) : Bool :=
  (w.search (fun s => if s = target then some () else none) [(w.depth, r)]).isSome

def chainFrom (w : Workspace) : Nat → Ref → List Ref
  | 0, r => [r]
  | fuel + 1, r =>
    match (w.block r).next with
    | some next => r :: w.chainFrom fuel next
    | none => [r]

def chain (w : Workspace) (r : Ref) : List Ref :=
  w.chainFrom w.depth r

def chainEnd (w : Workspace) (r : Ref) : Ref :=
  (w.chain r).getLast?.getD r

end BlockSketch.Workspace
