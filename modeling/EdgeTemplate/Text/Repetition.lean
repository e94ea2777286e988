/-!
# Repeated reading

A step reads one item of a text, or declines. Repeating it collects the items of a list of unknown
length. Every item takes at least one character, so what is left of the text bounds the number of
rounds.
-/
namespace EdgeTemplate.Text

variable {m : Type → Type} [Monad m] {α : Type}

/-- Collects items until the step declines or the given number of rounds is used up. -/
def collect (step : m (Option α)) : Nat → m (List α)
  | 0 => return []
  | rounds + 1 => do
    match ← step with
    | none => return []
    | some item =>
      let items ← collect step rounds
      return item :: items

/-- Collects items until the step declines. -/
def readMany (rest : m (List Char)) (step : m (Option α)) : m (List α) := do
  let cs ← rest
  collect step cs.length

end EdgeTemplate.Text
