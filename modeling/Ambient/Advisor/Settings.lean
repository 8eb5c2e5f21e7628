import Ambient.Text.Basic

/-!
# Settings of the advisor

Which diagnostics a fix answers, and how proposals and fixes are labelled.
-/

namespace Ambient

/-- The settings of an advisor. -/
structure AdvisorSettings where
  /-- The codes of diagnostics that report an unresolved name. -/
  unresolvedCodes : List UInt32
  /-- The reporter from which these diagnostics must come. -/
  diagnosticSource : Text
  /-- What stands before a label in the key by which proposals are sorted. -/
  sortPrefix : Text
  fixTitle : Text
  deriving DecidableEq, Repr

namespace AdvisorSettings

/-- The settings used where none are given: codes 2304 and 2552 of the reporter `ts`. -/
def standard : AdvisorSettings :=
  ⟨[2304, 2552], "ts".toList, "_".toList, "Auto Import".toList⟩

/-- Does the code report an unresolved name? -/
def isUnresolvedCode (s : AdvisorSettings) (code : UInt32) : Bool := s.unresolvedCodes.contains code

end AdvisorSettings
end Ambient
