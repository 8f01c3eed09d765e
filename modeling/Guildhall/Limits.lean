-- SUMMARY: How many roles a server and how many overrides a channel can have.

namespace Guildhall

/-- How many roles and overrides there can be. -/
structure Limits where
  rolesPerServer : Nat
  overridesPerChannel : Nat
  deriving DecidableEq

def Limits.standard : Limits := ⟨250, 100⟩

end Guildhall
