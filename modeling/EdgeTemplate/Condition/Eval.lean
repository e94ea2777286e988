import EdgeTemplate.Condition.Parse
import EdgeTemplate.Context

/-!
# Evaluating conditions

Connectives look at their operands from left to right and stop at the first that decides. Equality
needs two scalars of one kind, and order needs two numbers.
-/
namespace EdgeTemplate

def Relation.apply (relation : Relation) (left right : Json) : Except ConditionError Bool :=
  match relation, left, right with
  | _, .number a, .number b => .ok (relation.holds (a.compare b))
  | .eq, .string a, .string b => .ok (a == b)
  | .ne, .string a, .string b => .ok (a != b)
  | .eq, .bool a, .bool b => .ok (a == b)
  | .ne, .bool a, .bool b => .ok (a != b)
  | _, _, _ => .error (.mismatch relation left right)

namespace Condition

mutual

def eval (context : Context) : Condition → Except ConditionError Json
  | literal value => .ok value
  | path segments =>
    match context.resolve segments with
    | some value => .ok value
    | none => .error (.undefined segments)
  | not operand => do
    let value ← operand.eval context
    return .bool (!value.truthy)
  | all operands => Json.bool <$> evalChain context false operands
  | any operands => Json.bool <$> evalChain context true operands
  | compare relation left right => do
    let left ← left.eval context
    let right ← right.eval context
    return .bool (← relation.apply left right)

/-- Whether a chain of operands is true. The first operand with the decisive truth value settles it,
and the operands behind that one are not looked at. -/
def evalChain (context : Context) (decisive : Bool) :
    List Condition → Except ConditionError Bool
  | [] => .ok (!decisive)
  | operand :: operands => do
    let value ← operand.eval context
    if value.truthy = decisive then return decisive else evalChain context decisive operands

end

attribute [simp] eval evalChain

/-- The value of the condition that a text holds. -/
def evaluate (context : Context) (text : List Char) : Except ConditionError Json := do
  let condition ← (parse text).mapError .malformed
  condition.eval context

def test (context : Context) (text : List Char) : Except ConditionError Bool :=
  Json.truthy <$> evaluate context text

end Condition

end EdgeTemplate
