import MarkedEdits.Text.Basic

/-!
# Stores

A store is where an edited text ends up. Writing to it either gives the store with the text in it
or an error, and then the store is as it was.
-/

namespace MarkedEdits

/-- What the operating system reports when an operation on a file fails. -/
inductive SystemError where
  | notFound
  | permissionDenied
  | notDirectory
  | isDirectory
  | noSpace
  | readOnly
  | nameTooLong
  | tooManyLinks
  | nulByte
  | invalidEncoding
  deriving DecidableEq, Repr

/-- The report in words. -/
def SystemError.message : SystemError → String
  | notFound => "No such file or directory (os error 2)"
  | permissionDenied => "Permission denied (os error 13)"
  | notDirectory => "Not a directory (os error 20)"
  | isDirectory => "Is a directory (os error 21)"
  | noSpace => "No space left on device (os error 28)"
  | readOnly => "Read-only file system (os error 30)"
  | nameTooLong => "File name too long (os error 36)"
  | tooManyLinks => "Too many levels of symbolic links (os error 40)"
  | nulByte => "file name contained an unexpected NUL byte"
  | invalidEncoding => "stream did not contain valid UTF-8"

/-- Why a file could not be read from a store or written to it. -/
inductive StoreError where
  | outsideRoot (path root : Text)
  | unresolved (path : Text) (cause : SystemError)
  | system (cause : SystemError)
  | modified (path : Text)
  | rejected
  deriving DecidableEq, Repr

namespace StoreError

/-- The error in words. -/
def message : StoreError → String
  | outsideRoot path root =>
      s!"path escapes the patch root: {String.ofList path} (root: {String.ofList root})"
  | unresolved path cause => s!"failed to resolve {String.ofList path}: {cause.message}"
  | system cause => s!"file I/O error: {cause.message}"
  | modified path => s!"{String.ofList path} changed on disk since it was read"
  | rejected => "writes are disabled for this sink"

/-- What the error goes back to, the nearest cause first. -/
def causes : StoreError → List String
  | unresolved _ cause | system cause => [cause.message]
  | outsideRoot _ _ | modified _ | rejected => []

end StoreError

/-- A store takes texts by the path of the file that they belong to. -/
class Store (σ : Type) where
  write : σ → (path content : Text) → Except StoreError σ

end MarkedEdits
