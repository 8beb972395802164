/-
When an exact model reference wins.

An exact match over all the models comes last: before it the reference is
split at its first slash and the rest is searched, parts of ids and names
included, among the models of the provider it seems to name. So the reference
wins when each of the searches before finds nothing, or the model itself
(`Unswallowed`), and only then.
-/
import OneHarness.Cli.ModelResolver

namespace OneHarness.Cli

open Lib

variable {β : Type} (toLowerCase : Text → Text) (le : Text → Text → Bool)

-- ======== statement vocabulary

def ParsedModelResult.Finds (r : ParsedModelResult β) (m : Model β)
    (level : Option Text) : Prop :=
  r.model = some m ∧ r.thinkingLevel = level

/-- It finds nothing or the model. -/
def ParsedModelResult.Leaves (m : Model β) (level : Option Text)
    (r : ParsedModelResult β) : Prop :=
  r.model = none ∨ r.Finds m level

variable {toLowerCase le} {models : List (Model β)} {m : Model β}
  {reference : Text}

variable {level : Text}

variable {text : Text}

variable {pattern : Text}

variable {provider : Text}

variable {cliModel : Text}

section
variable (hm : m ∈ models) (hgiven : reference ≠ [])
include hm hgiven

end

end OneHarness.Cli
