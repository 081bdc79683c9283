/-!
How a failure is reported: by a name for machines, which leads from the kind of error to its cause, and
by a sentence for people. Where a sentence ends in the words of a library, a name in angle brackets
stands for these: `<io>` for the file system's, `<toml>`, `<abi>`, `<eof>` and `<utf8>` for a reader's.
-/
namespace EpochSeal

/-- A type of errors that can be reported. -/
class Failure (ε : Type) where
  /-- The kind of error, then the names of the causes, with points between them. -/
  name : ε → String
  message : ε → String
  /-- The class of the error, if errors of this kind have one. -/
  group? : ε → Option String := fun _ => none

end EpochSeal
