import Tama.Parser.Grammar
import Tama.Text.Tab

/-!
# The stack

Reading, analysis and the layout of trees call themselves for what is nested in a text, and stop
where the stack that they run on has no room left. How much room there is depends on the recursion
limit and on who calls; so it is a parameter of everything that runs or shows a text.
-/

set_option autoImplicit false

namespace Tama

/-- What the stack has room for. How many frames the parser takes for a text is its own matter, so
of the reading only the outcome is given. -/
structure Stack where
  /-- Whether a text can be read that is to be run. -/
  runs : String → Bool
  /-- Whether a text can be read that is to be shown. -/
  shows : String → Bool
  /-- The frames that are left for the analysis of a program. -/
  analysis : Nat
  /-- The frames that are left for the layout of a tree. -/
  layout : Nat

namespace Stack

/-- About as many frames as the parser takes for an expression inside of another one. -/
def framesPerLevel : Nat := 8

/-- Whether a text nests less deep than so many levels. -/
def isShallow (levels : Nat) (source : String) : Bool :=
  match Parser.program levels (Tab.expand source.toList) with
  | .halted .tooDeep => false
  | _ => true

/-- The stack under a recursion limit. -/
def ofLimit (frames : Nat) : Stack where
  runs := isShallow (frames / framesPerLevel)
  shows := isShallow (frames / framesPerLevel)
  analysis := frames
  layout := frames

end Stack

/-- The stacks of a process: the first evaluation raises the recursion limit, for good. -/
structure Stacks where
  /-- The stack before the first evaluation. -/
  initial : Stack
  /-- The stack from the first evaluation on. -/
  raised : Stack

/-- The stacks under the recursion limits that are in use. -/
def Stacks.standard : Stacks :=
  ⟨.ofLimit 1000, .ofLimit 10000⟩

end Tama
