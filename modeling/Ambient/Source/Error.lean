import Ambient.Glob.Error

/-!
# What can go wrong with files

A file that cannot be read spoils nothing but itself: the next refresh tries it again. Every other fault
stops the refresh before any file is read.
-/

namespace Ambient

/-- Why a file cannot be read. -/
inductive ReadCause where
  | missing
  | notDirectory
  | isDirectory
  | nameTooLong
  | linkLoop
  /-- The path holds the byte zero. -/
  | zeroInPath
  | notUnicode
  /-- A source that keeps its files itself lists the file and does not have it. -/
  | notHeld
  deriving DecidableEq, Repr

/-- The cause in words. -/
def ReadCause.message : ReadCause → Text
  | missing => "No such file or directory (os error 2)".toList
  | notDirectory => "Not a directory (os error 20)".toList
  | isDirectory => "Is a directory (os error 21)".toList
  | nameTooLong => "File name too long (os error 36)".toList
  | linkLoop => "Too many levels of symbolic links (os error 40)".toList
  | zeroInPath => "file name contained an unexpected NUL byte".toList
  | notUnicode => "stream did not contain valid UTF-8".toList
  | notHeld => "not in memory source".toList

/-- Why the settings of a discovery are refused. -/
inductive SettingsFault where
  | noFiles
  | rootMissing (root : Text)
  | rootNotDirectory (root : Text)
  /-- The source has been declared broken. -/
  | broken
  deriving DecidableEq, Repr

/-- The fault in words. -/
def SettingsFault.message : SettingsFault → Text
  | noFiles => "max_files must be positive".toList
  | rootMissing root => "root path does not exist: ".toList ++ root
  | rootNotDirectory root => "root path is not a directory: ".toList ++ root
  | broken => "discovery is broken".toList

/-- Why a line of an ignore file is refused. -/
inductive LineFault where
  /-- The line, without the blanks at its end, is no glob. -/
  | glob (line : Text) (cause : GlobError)
  /-- The line is no text. -/
  | notUnicode
  deriving DecidableEq, Repr

/-- The fault in words. -/
def LineFault.message : LineFault → Text
  | glob line cause => cause.message line
  | notUnicode => ReadCause.notUnicode.message

/-- A line of an ignore file that is refused. -/
structure BadLine where
  /-- The path of the file, from the top. -/
  path : Text
  /-- The number of the line, counted from 1. -/
  number : Nat
  fault : LineFault
  deriving DecidableEq, Repr

/-- Where the line is, and its fault. -/
def BadLine.message (line : BadLine) : Text :=
  line.path ++ ": line ".toList ++ Text.ofNat line.number ++ ": ".toList ++ line.fault.message

/-- Why a directory walk stops. -/
inductive WalkFault where
  /-- A followed link cannot be resolved. -/
  | unresolved (path : Text) (cause : ReadCause)
  /-- A followed link leads back to a directory above it. -/
  | cycle (path ancestor : Text)
  /-- Ignore files above the root have lines that are refused. -/
  | badIgnoreLines (lines : List BadLine)
  deriving DecidableEq, Repr

/-- The fault in words. -/
def WalkFault.message : WalkFault → Text
  | unresolved path cause =>
    path ++ ": IO error for operation on ".toList ++ path ++ ": ".toList ++ cause.message
  | cycle path ancestor =>
    "File system loop found: ".toList ++ path ++ " points to an ancestor ".toList ++ ancestor
  | badIgnoreLines lines => Text.joinWith ['\n'] (lines.map BadLine.message)

/-- A fault of a source of files. -/
inductive SourceError where
  | walk (fault : WalkFault)
  | read (path : Text) (cause : ReadCause)
  | glob (pattern : Text) (cause : GlobError)
  | settings (fault : SettingsFault)
  | nonUnicodePath (path : Text)
  deriving DecidableEq, Repr

namespace SourceError

/-- The fault in words. -/
def message : SourceError → Text
  | walk fault => "failed to walk directory: ".toList ++ fault.message
  | read path cause => "failed to read file ".toList ++ path ++ ": ".toList ++ cause.message
  | glob pattern cause => "invalid discovery pattern: ".toList ++ cause.message pattern
  | settings fault => "invalid configuration: ".toList ++ fault.message
  | nonUnicodePath path => "path is not valid UTF-8: ".toList ++ path

/-- Can a refresh go on after the fault? -/
def isRecoverable : SourceError → Bool
  | read _ _ => true
  | walk _ | glob _ _ | settings _ | nonUnicodePath _ => false

/-- The file that cannot be read. -/
def path? : SourceError → Option Text
  | read path _ => some path
  | walk _ | glob _ _ | settings _ | nonUnicodePath _ => none

end SourceError
end Ambient
