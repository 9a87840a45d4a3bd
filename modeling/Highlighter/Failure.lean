/-! # Failures — what loading a grammar, a configuration or a file can run into

    Edits and rendering never fail; loading does.  A failure is a cause, and `message`
    puts it into words. -/

namespace Highlighter

/-- Which regular expression of a definition. -/
inductive PatternPart where
  | start | stop | token
  deriving DecidableEq, Repr

/-- The name of the part in a grammar file. -/
def PatternPart.key : PatternPart → String
  | .start => "start"
  | .stop => "end"
  | .token => "match"

/-- Ways in which a grammar file departs from its format. -/
inductive GrammarFault where
  /-- A required key is absent from a rule, or from the grammar itself. -/
  | missing (key context : String)
  | notAString (key context : String)
  | extensionsNotStrings
  | escapeNotAString
  | escapeTooLong
  | notTables (key : String)
  deriving DecidableEq, Repr

def GrammarFault.message : GrammarFault → String
  | .missing key context => s!"missing `{key}` in {context}"
  | .notAString key context => s!"`{key}` in {context} must be a string"
  | .extensionsNotStrings => "`extensions` must be an array of strings"
  | .escapeNotAString => "`escape` must be a string"
  | .escapeTooLong => "`escape` must be a single character"
  | .notTables key => s!"`{key}` must be an array of tables"

/-- What the file system can answer instead of a file's contents. -/
inductive FileFault where
  | notFound
  | notDirectory
  | isDirectory
  /-- A path, or a part of it, has too many bytes. -/
  | nameTooLong
  | notUtf8
  /-- Any other refusal, in the system's words. -/
  | other (words : String)
  deriving DecidableEq, Repr

def FileFault.message : FileFault → String
  | .notFound => "No such file or directory (os error 2)"
  | .notDirectory => "Not a directory (os error 20)"
  | .isDirectory => "Is a directory (os error 21)"
  | .nameTooLong => "File name too long (os error 36)"
  | .notUtf8 => "stream did not contain valid UTF-8"
  | .other words => words

/-- Misuse of the command line, or of a buffer. -/
inductive Misuse where
  | noInputFile
  | secondFile
  | unknownOption (arg : String)
  | missingValue (flag : String)
  | notANumber (flag value : String)
  | noFileName
  deriving DecidableEq, Repr

def Misuse.message : Misuse → String
  | .noInputFile => "No input file (see --help)"
  | .secondFile => "Only one file may be given"
  | .unknownOption arg => s!"Unknown option: {arg}"
  | .missingValue flag => s!"{flag} needs a value"
  | .notANumber flag value => s!"{flag} expects a number, got '{value}'"
  | .noFileName => "No filename set"

/-- Why something could not be loaded or saved. -/
inductive Failure where
  | file (fault : FileFault)
  | toml
  | grammar (fault : GrammarFault)
  | pattern (id : String) (part : PatternPart)
  | unknownLanguage (name : String)
  | misuse (fault : Misuse)
  deriving DecidableEq, Repr

def Failure.message : Failure → String
  | .file fault => "I/O error: " ++ fault.message
  | .toml => "TOML error"
  | .grammar fault => "Invalid grammar: " ++ fault.message
  | .pattern id part => s!"pattern `{id}` has an invalid {part.key} regex"
  | .unknownLanguage name => "Unknown language: " ++ name
  | .misuse fault => fault.message

end Highlighter
