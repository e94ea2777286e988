import EdgeTemplate.Error

/-!
# Nesting of regions

The regions that are open at a point of a template. Once a region is skipped, all regions inside
it are skipped too, and closing a region restores what held before it was opened.
-/
namespace EdgeTemplate

/-- An open region: whether the text around it is skipped, and the line of its opening marker. -/
structure Region where
  inherited : Bool
  line : Nat
deriving DecidableEq, Repr

/-- The open regions, the innermost first, and whether text is skipped inside them. -/
structure Nesting where
  regions : List Region
  skipping : Bool
deriving DecidableEq, Repr

namespace Nesting

def start : Nesting := ⟨[], false⟩

def depth (nesting : Nesting) : Nat :=
  nesting.regions.length

/-- Opens a region, which is skipped if its condition is false. -/
def enter (nesting : Nesting) (condition : Bool) (line : Nat) : Nesting :=
  ⟨⟨nesting.skipping, line⟩ :: nesting.regions, nesting.skipping || !condition⟩

def leave (nesting : Nesting) (line : Nat) : Except Error Nesting :=
  match nesting.regions with
  | [] => .error (.unmatchedClose line)
  | region :: regions => .ok ⟨regions, region.inherited⟩

def finish (nesting : Nesting) : Except Error Unit :=
  match nesting.regions.getLast? with
  | none => .ok ()
  | some outermost => .error (.unclosed nesting.depth outermost.line)

@[simp]
theorem leave_enter (nesting : Nesting) (condition : Bool) (opened closed : Nat) :
    (nesting.enter condition opened).leave closed = .ok nesting := rfl

end Nesting

end EdgeTemplate
