import Wifucked.Policy

/-!
# The interface a class's traffic arrives on
-/

namespace Wifucked

def lanIfnameForProfile (profile : ServiceProfile) (lanMode baseInterface : String) : String :=
  if lanMode = "single" then baseInterface
  else
    let bss :=
      if lanMode = "two_psk" ∨ profile = bestEffort then baseInterface else baseInterface ++ "_1"
    bss ++ "." ++ toString profile.vlan

end Wifucked
