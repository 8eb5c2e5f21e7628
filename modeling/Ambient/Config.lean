import Ambient.Advisor.Settings
import Ambient.Discovery.Settings
import Ambient.Json.Printer
import Ambient.Json.Reader
import Ambient.Text.Blank

/-!
# Configurations

A configuration is written in JSON as a record of two records, `discovery` and `advisor`. Fields that are
left out have their standard values. A configuration that can be read may still be refused: `objection?`
gives the first objection, in the order pattern, number of files, codes.
-/

namespace Ambient

/-- All settings. -/
structure Config where
  discovery : DiscoverySettings
  advisor : AdvisorSettings
  deriving DecidableEq, Repr

namespace Config

/-- The configuration used where none is given. -/
def standard : Config := ⟨.standard, .standard⟩

/-! ## 1. Reading -/

/-- The largest diagnostic code. -/
def maxCode : Nat := UInt32.size - 1

/-- The fields of the discovery settings. -/
def discoveryFields : List (Json.Field DiscoverySettings) :=
  [.of "root".toList Json.readText fun root s => { s with root },
   .of "pattern".toList Json.readText fun pattern s => { s with pattern },
   .of "max_files".toList (Json.readNat Json.maxWord)
     fun maxFiles s => { s with maxFiles := UInt64.ofNat maxFiles },
   .of "skip_dirs".toList (Json.readList Json.readText) fun skipDirs s => { s with skipDirs },
   .of "follow_links".toList Json.readBool fun followLinks s => { s with followLinks },
   .of "respect_gitignore".toList Json.readBool fun respectGitignore s => { s with respectGitignore }]

/-- The fields of the advisor settings. -/
def advisorFields : List (Json.Field AdvisorSettings) :=
  [.of "unresolved_codes".toList (Json.readList (Json.readNat maxCode))
     fun codes s => { s with unresolvedCodes := codes.map UInt32.ofNat },
   .of "diagnostic_source".toList Json.readText fun diagnosticSource s => { s with diagnosticSource },
   .of "sort_prefix".toList Json.readText fun sortPrefix s => { s with sortPrefix },
   .of "fix_title".toList Json.readText fun fixTitle s => { s with fixTitle }]

/-- Discovery settings, standard where nothing is said. -/
def readDiscovery : Json.Reader DiscoverySettings := Json.readRecord discoveryFields .standard

/-- Advisor settings, standard where nothing is said. -/
def readAdvisor : Json.Reader AdvisorSettings := Json.readRecord advisorFields .standard

/-- The fields of a configuration. -/
def fields : List (Json.Field Config) :=
  [.of "discovery".toList readDiscovery fun discovery s => { s with discovery },
   .of "advisor".toList readAdvisor fun advisor s => { s with advisor }]

/-- The configuration that a text is. -/
def parse (t : Text) : Except Json.Fault Config := Json.readAll (Json.readRecord fields standard) t

/-! ## 2. Writing -/

/-- Discovery settings as data. -/
def discoveryJson (s : DiscoverySettings) : Json :=
  .record
    [("root".toList, .text s.root), ("pattern".toList, .text s.pattern), ("max_files".toList, .nat s.maxFiles.toNat),
     ("skip_dirs".toList, .list (s.skipDirs.map .text)), ("follow_links".toList, .bool s.followLinks),
     ("respect_gitignore".toList, .bool s.respectGitignore)]

/-- Advisor settings as data. -/
def advisorJson (s : AdvisorSettings) : Json :=
  .record
    [("unresolved_codes".toList, .list (s.unresolvedCodes.map fun code => .nat code.toNat)),
     ("diagnostic_source".toList, .text s.diagnosticSource), ("sort_prefix".toList, .text s.sortPrefix),
     ("fix_title".toList, .text s.fixTitle)]

/-- A configuration as data. -/
def toJson (c : Config) : Json :=
  .record [("discovery".toList, discoveryJson c.discovery), ("advisor".toList, advisorJson c.advisor)]

/-! ## 3. Checking -/

/-- An option whose value cannot be worked with. -/
inductive Objection where
  | emptyPattern
  | noFiles
  | noCodes
  deriving DecidableEq, Repr

/-- The objection in words. -/
def Objection.message : Objection → Text
  | emptyPattern => "invalid option 'discovery.pattern': must not be empty".toList
  | noFiles => "invalid option 'discovery.max_files': must be positive".toList
  | noCodes => "invalid option 'advisor.unresolved_codes': must list at least one diagnostic code".toList

/-- The first objection to a configuration. -/
def objection? (c : Config) : Option Objection :=
  if (Text.trim c.discovery.pattern).isEmpty then some .emptyPattern
  else if c.discovery.maxFiles = 0 then some .noFiles
  else if c.advisor.unresolvedCodes.isEmpty then some .noCodes
  else none

end Config
end Ambient
