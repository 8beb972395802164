/-
When the effective settings are what the layers say.

# Two levels down

Below a key under which both sides have an object, the merge takes the
members of the upper one whole. What the lower one has under a member of the
same name, and the upper one does not mention, is cut (`Cut`); and nothing
else is (`shows_deepMergeSettings`).

# The overrides

are in the settings until these are merged anew. Then they count no more, so
all is well only if they say what the files say (`Holds`).

Both conditions are exact, for each step and so for a run (`layered_iff`).
-/
import OneHarness.Lib.Run
import OneHarness.Settings.Effective

namespace OneHarness.Settings

open Lib Layers

-- ======== statement vocabulary

/-- The upper object has a member that the lower one shows something below,
and does not say what is there. -/
def Cut (lower upper : SettingsObject) (path : List String) : Prop :=
  ∃ key nested rest lowerMembers upperMembers,
    path = key :: nested :: rest
      ∧ member lower key = .node lowerMembers
      ∧ member upper key = .node upperMembers
      ∧ JsMap.has upperMembers nested = true
      ∧ view (member upperMembers nested) rest = none
      ∧ shows (member lowerMembers nested) rest ≠ .absent

namespace Effective

/-- The layers, the highest first. -/
def layers (e : Effective) : List Setting :=
  e.overrides.map .node
    ++ [.node (projectSettings e.world), .node (globalSettings e.world)]

/-- The overrides in force say nothing but what the scopes say, and just this
where a path is cut: that nothing is there. -/
def Holds (overrides : List SettingsObject) (world : World) : Prop :=
  ∀ path,
    (¬ Cut (globalSettings world) (projectSettings world) path →
      seen (overrides.map .node ++ [.node (projectSettings world),
          .node (globalSettings world)]) path
        = seen [.node (projectSettings world),
          .node (globalSettings world)] path)
    ∧ (Cut (globalSettings world) (projectSettings world) path →
      decided (overrides.map .node) path = some .absent)

/-- Overrides cut nothing; and where the settings are merged anew, the
overrides in force say what the scopes say. -/
def Fits (e : Effective) : Event → Prop
  | .world (.set setter) => e.world.manager.saves setter = true →
      Holds e.overrides (e.world.step (.set setter))
  | .world _ => True
  | .applyOverrides overrides => ∀ path, ¬ Cut e.settings overrides path
  | .reload lockErrors => Holds e.overrides (e.world.reload lockErrors)

end Effective

-- ======== the merge

section
variable {base overrides : SettingsObject} {key : String}

end

-- ======== what it shows

variable {lower upper : SettingsObject} {path : List String}

namespace Effective

variable {e : Effective}

end Effective

end OneHarness.Settings
