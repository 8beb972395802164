/-
The request that asks a model for a refinement: how much of the conversation
fits into its context, and how much room is left for the answer.

A text is its code units. A token is at least one byte, so that bytes bound
tokens.
-/
import OneHarness.Lib.Utf16

namespace OneHarness.Refinement

open Lib

abbrev Text := List Nat

def units (s : String) : Text := Utf16.encode s.toList

/-- The limits of a model, in tokens. -/
structure Model where
  contextWindow : Int
  maxTokens : Int
deriving DecidableEq

structure RefinementRequest where
  model : Model
  userPrompt : Text
deriving DecidableEq

def refinementContextOverheadTokens : Int := 1024

def refinementInputTokenBound (text : Text) : Int := Utf16.byteLength text

def noRoomError : String :=
  "Refinement prompt leaves no room for output in the model's context "
    ++ "window; retry with a smaller request."

def omissionNote : Text :=
  units "[Earlier conversation omitted to fit the model context.]\n"

/-- The loop `while (low < high)`: the largest length that fits. -/
def searchLength (fits : Nat → Bool) (low high : Nat) : Nat :=
  if low < high then
    let length := (low + high + 1) / 2
    if fits length then searchLength fits length high
    else searchLength fits low (length - 1)
  else low
termination_by high - low

section
variable (model : Model) (systemPrompt conversationText : Text)
  (buildPrompt : Text → Text) (outputReserve : Int)

def systemReserve : Int :=
  refinementInputTokenBound systemPrompt + refinementContextOverheadTokens

def inputBudget : Int :=
  model.contextWindow
    - min model.maxTokens (min outputReserve (model.contextWindow / 2))

/-- A cut does not leave a low surrogate in front. -/
def cutForLength (length : Nat) : Nat :=
  let start := conversationText.length - length
  if (conversationText[start]?).any Utf16.isLow then start + 1 else start

def promptFrom (start : Nat) : Text :=
  buildPrompt (omissionNote ++ conversationText.drop start)

def promptForLength (length : Nat) : Text :=
  promptFrom conversationText buildPrompt
    (cutForLength conversationText length)

/-- The prompt is within the input budget. -/
def withinBudget (userPrompt : Text) : Bool :=
  systemReserve systemPrompt + refinementInputTokenBound userPrompt
    ≤ inputBudget model outputReserve

def fitPrompt : Text :=
  let userPrompt := buildPrompt conversationText
  if !withinBudget model systemPrompt outputReserve userPrompt
      && 0 < conversationText.length then
    promptForLength conversationText buildPrompt
      (searchLength
        (fun length => withinBudget model systemPrompt outputReserve
          (promptForLength conversationText buildPrompt length))
        0 conversationText.length)
  else userPrompt

def refinementRequest : Except String RefinementRequest :=
  let userPrompt := fitPrompt model systemPrompt conversationText buildPrompt
    outputReserve
  let maxTokens := min model.maxTokens
    (model.contextWindow - systemReserve systemPrompt
      - refinementInputTokenBound userPrompt)
  if maxTokens ≤ 0 then .error noRoomError
  else .ok ⟨{ model with maxTokens }, userPrompt⟩

end

end OneHarness.Refinement
