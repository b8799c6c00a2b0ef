import XelmaMarket.Admin

/-!
# Participant access control

Who may bet or predict: everyone by default, only allowlisted addresses when the allowlist mode is
on, and never a denylisted address.
-/

namespace XelmaMarket

open Transaction

variable {A : Type} [DecidableEq A]

/-- Turn allowlist mode on or off. -/
def setAccessControlEnabled (enabled : Bool) : ControlM A PUnit := do
  let _ ← adminGate
  updateGovernance fun governance =>
    { governance with accessControlEnabled := if enabled then some true else none }

/-- Add a user to the allowlist and clear a denylist entry. -/
def addAllowlisted (user : A) : ControlM A PUnit := do
  let _ ← adminGate
  updateGovernance fun governance =>
    { governance with
      allowlisted := governance.allowlisted.set user true
      denylisted := governance.denylisted.remove user }

/-- Remove a user from the allowlist. -/
def removeAllowlisted (user : A) : ControlM A PUnit := do
  let _ ← adminGate
  updateGovernance fun governance =>
    { governance with allowlisted := governance.allowlisted.remove user }

/-- Add a user to the denylist and clear an allowlist entry. -/
def addDenylisted (user : A) : ControlM A PUnit := do
  let _ ← adminGate
  updateGovernance fun governance =>
    { governance with
      denylisted := governance.denylisted.set user true
      allowlisted := governance.allowlisted.remove user }

/-- Remove a user from the denylist. -/
def removeDenylisted (user : A) : ControlM A PUnit := do
  let _ ← adminGate
  updateGovernance fun governance =>
    { governance with denylisted := governance.denylisted.remove user }

/-- The single admission gate called by betting entrypoints: the denylist first, then the
allowlist when it is enabled. -/
def enforceAccessControl (user : A) : ControlM A PUnit := do
  let governance ← gets (·.governance)
  reject (governance.denylisted.has user = true) .accessDenied
  reject (governance.accessControlEnabled.getD false = true ∧
    governance.allowlisted.has user = false) .accessDenied

end XelmaMarket
