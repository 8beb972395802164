/-
How the command line names a model: an exact reference, a part of an id or a
name, a provider before the first slash, a thinking level after the last colon.

A text is its code units. `toLowerCase` and the order of `localeCompare`, of
which only `le`, not greater, is used, are parameters. A model's other data is
a parameter too; of `APP_NAME` there is the one the package sets.
-/
import OneHarness.Lib.JsMap
import OneHarness.Lib.Utf16
import Mathlib.Data.List.Infix
import Mathlib.Data.List.Sort

namespace OneHarness.Cli

open Lib

abbrev Text := List Nat

def units (s : String) : Text := Utf16.encode s.toList

def slash : Nat := 0x2f

def colon : Nat := 0x3a

structure Model (β : Type) where
  provider : Text
  id : Text
  name : Option Text
  rest : β
deriving DecidableEq

/-- A text that is not empty. -/
def truthy (text : Option Text) : Option Text := text.filter (· ≠ [])

/-- `matches.length === 1 ? matches[0] : undefined`. -/
def single {α : Type} : List α → Option α
  | [a] => some a
  | _ => none

/-- Default model ids of the known providers. -/
def defaultModelPerProvider : JsMap Text Text :=
  [("amazon-bedrock", "us.anthropic.claude-opus-4-6-v1"),
    ("abliteration", "abliterated-model-large-v2"),
    ("adverserial", "lordx64/cyberkimi"), ("anthropic", "claude-opus-4-7"),
    ("audn", "necromicon"), ("openai", "gpt-5.4"),
    ("azure-openai-responses", "gpt-5.4"), ("openai-codex", "gpt-5.5"),
    ("prime-inference", "z-ai/glm-5.3"), ("deepseek", "deepseek-flash"),
    ("google", "gemini-3.1-pro-preview"),
    ("google-vertex", "gemini-3.1-pro-preview"), ("github-copilot", "gpt-5.4"),
    ("openrouter", "moonshotai/kimi-k2.6"), ("orcarouter", "orcarouter/auto"),
    ("vercel-ai-gateway", "zai/glm-5.1"), ("xai", "grok-4.20-0309-reasoning"),
    ("grok", "grok-4.6"), ("groq", "openai/gpt-oss-120b"),
    ("cerebras", "gpt-oss-120b"), ("zai", "glm-5.3"),
    ("mistral", "devstral-medium-latest"), ("minimax", "MiniMax-M2.7"),
    ("minimax-cn", "MiniMax-M2.7"), ("moonshotai", "kimi-k2.6"),
    ("moonshotai-cn", "kimi-k2.6"), ("huggingface", "moonshotai/Kimi-K2.6"),
    ("fireworks", "accounts/fireworks/models/kimi-k2p6"),
    ("opencode", "kimi-k2.6"), ("opencode-go", "kimi-k2.6"),
    ("kimi-coding", "kimi-for-coding"),
    ("cloudflare-workers-ai", "@cf/moonshotai/kimi-k2.6"),
    ("cloudflare-ai-gateway", "claude-sonnet-4.5"), ("xiaomi", "mimo-v2.5-pro"),
    ("xiaomi-token-plan-cn", "mimo-v2.5-pro"),
    ("xiaomi-token-plan-ams", "mimo-v2.5-pro"),
    ("xiaomi-token-plan-sgp", "mimo-v2.5-pro")].map
    fun p => (units p.1, units p.2)

structure ParsedModelResult (β : Type) where
  model : Option (Model β)
  thinkingLevel : Option Text
  warning : Option Text

structure ResolveCliModelResult (β : Type) where
  model : Option (Model β)
  thinkingLevel : Option Text
  warning : Option Text
  error : Option Text

section
variable {β : Type} (toLowerCase : Text → Text) (le : Text → Text → Bool)

def isPrivatePrimeInferenceModel (provider id : Text) : Bool :=
  let normalizedId := toLowerCase id
  provider = units "prime-inference"
    && (units "internal/" <+: normalizedId || units "dev/" <+: normalizedId
      || colon ∈ normalizedId)

def buildFallbackModel (provider modelId : Text)
    (availableModels : List (Model β)) : Option (Model β) :=
  let providerModels := availableModels.filter (·.provider = provider)
  let baseModel :=
    if isPrivatePrimeInferenceModel toLowerCase provider modelId then
      providerModels.find? fun m =>
        isPrivatePrimeInferenceModel toLowerCase m.provider m.id
    else
      ((defaultModelPerProvider.get provider).bind fun defaultId =>
        providerModels.find? (·.id = defaultId)).or providerModels.head?
  baseModel.map fun m => { m with id := modelId, name := some modelId }

def notFound (cliModel pattern : Text) (provider warning : Option Text)
    (availableModels : List (Model β)) : ResolveCliModelResult β :=
  let note : Text → Text := fun provider =>
    units "Model \"" ++ pattern ++ units "\" not found for provider \""
      ++ provider ++ units "\". Using custom model id."
  match provider.bind fun provider =>
      (buildFallbackModel toLowerCase provider pattern availableModels).map
        (provider, ·) with
  | some (provider, fallbackModel) =>
    ⟨some fallbackModel, none, some ((((truthy warning).map
      (· ++ units " ")).getD []) ++ note provider), none⟩
  | none =>
    ⟨none, none, warning, some (units "Model \""
      ++ provider.elim cliModel (· ++ slash :: pattern)
      ++ units "\" not found. Use \"prime-agent model list\" to see available "
      ++ units "models.")⟩

end

end OneHarness.Cli
