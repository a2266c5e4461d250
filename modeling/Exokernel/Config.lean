import Exokernel.Layout
/-!
# Kernel configuration
-/
namespace Exokernel

/-- The sizes a kernel is started with. -/
structure Config where
  /-- The number of physical frames. -/
  frames : Nat := 1024
  /-- The number of environment slots. -/
  maxEnvs : Nat := 64
deriving DecidableEq, Inhabited

/-- Why a configuration is refused. -/
inductive ConfigError where
  | noFrames
  | noEnvSlots
  /-- There are more slots than ids tell apart. -/
  | tooManyEnvs (requested max : Nat)
deriving DecidableEq

namespace ConfigError

def message : ConfigError → String
  | noFrames => "frame pool must not be empty"
  | noEnvSlots => "at least one environment slot is required"
  | tooManyEnvs requested max => s!"{requested} environment slots requested, ids address at most {max}"

end ConfigError

namespace Config

/-- **The first thing wrong with a configuration.** -/
def validate (c : Config) : Except ConfigError Unit :=
  if c.frames = 0 then .error .noFrames
  else if c.maxEnvs = 0 then .error .noEnvSlots
  else if maxEnvSlots < c.maxEnvs then .error (.tooManyEnvs c.maxEnvs maxEnvSlots)
  else .ok ()

def describe (c : Config) : String :=
  "KernelConfig \x7b frames: " ++ toString c.frames ++ ", max_envs: " ++ toString c.maxEnvs ++ " \x7d"

end Config
end Exokernel
