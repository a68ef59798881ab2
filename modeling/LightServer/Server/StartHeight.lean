/-!
# Where the server starts

Blocks carry nothing for light wallets below the height at which shielded transactions
were activated, so blocks are not asked for below that height to begin with.
-/

namespace LightServer.Server

/-- The height from which on blocks are taken in: the one to resume from, and at least
the activation height. -/
def startHeight (resume activation : Option Nat) : Nat := max (resume.getD 0) (activation.getD 0)

end LightServer.Server
