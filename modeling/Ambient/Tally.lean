/-!
# The tally of a refresh

Five counters say what a refresh did with the files it found. They are 64-bit words and wrap. A file that
was found is skipped, ingested or failed, or it is still PENDING.
-/

namespace Ambient

/-- A counter stands for a number. -/
instance coeCounter : Coe UInt64 Nat := ⟨UInt64.toNat⟩

/-- The counters of a refresh. -/
structure Tally where
  /-- Files that the source listed. -/
  discovered : UInt64
  /-- Files taken in before. -/
  skipped : UInt64
  /-- Files taken in. -/
  ingested : UInt64
  /-- Declarations of the files taken in. -/
  declarations : UInt64
  /-- Files that could not be read. -/
  errors : UInt64
  deriving DecidableEq, Repr

namespace Tally

/-- All counters at zero. -/
def zero : Tally := ⟨0, 0, 0, 0, 0⟩

/-- Counts `n` listed files. -/
def discover (t : Tally) (n : Nat) : Tally := { t with discovered := t.discovered + UInt64.ofNat n }

/-- Counts `n` skipped files. -/
def skip (t : Tally) (n : Nat) : Tally := { t with skipped := t.skipped + UInt64.ofNat n }

/-- Counts one file taken in, with `n` declarations. -/
def ingest (t : Tally) (n : Nat) : Tally :=
  { t with ingested := t.ingested + 1, declarations := t.declarations + UInt64.ofNat n }

/-- Counts one file that could not be read. -/
def fail (t : Tally) : Tally := { t with errors := t.errors + 1 }

/-- Files that are neither skipped nor ingested nor failed; none if more were handled than listed. The sum of those
    that were handled wraps as the counters do. -/
def pending (t : Tally) : UInt64 :=
  let handled := t.skipped + t.ingested + t.errors
  if t.discovered ≤ handled then 0 else t.discovered - handled

end Tally
end Ambient
