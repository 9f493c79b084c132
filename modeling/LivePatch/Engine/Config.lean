import LivePatch.Memory.Word

/-!
# Settings

What can be set for preparing a process, and the values without any setting: the kernel is asked for the base of the image,
threads that refuse to be suspended are tolerated, and every patch is read back.
-/

namespace LivePatch

/-- The settings of an image. -/
structure Config where
  /-- Where the code is expected, if not where the kernel says. -/
  imageBase : Option Address := none
  /-- Whether a thread that cannot be suspended calls a change off. -/
  strictThreads : Bool := false
  /-- Whether a patch is read back and compared. -/
  verifyWrites : Bool := true
  deriving DecidableEq, Repr

/-- A single setting. -/
inductive Setting where
  | imageBase (base : Address)
  | strictThreads (strict : Bool)
  | verifyWrites (verify : Bool)
  deriving DecidableEq, Repr

namespace Config

/-- Sets one thing. -/
def set (config : Config) : Setting → Config
  | .imageBase base => { config with imageBase := some base }
  | .strictThreads strict => { config with strictThreads := strict }
  | .verifyWrites verify => { config with verifyWrites := verify }

/-- The default with the settings made in turn. -/
def ofSettings (settings : List Setting) : Config := settings.foldl set {}

end Config

end LivePatch
