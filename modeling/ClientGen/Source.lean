import ClientGen.Storage.Basic

/-!
# Sources

Where documents come from: files, and addresses of the web. A `Loader` gets the text of a source.
-/

namespace ClientGen

/-- Does a source name an address instead of a file? -/
def isUrl (source : String) : Bool :=
  "http://".toList.isPrefixOf source.toList || "https://".toList.isPrefixOf source.toList

/-- Gets the text of a source, or the reason why there is none. -/
abbrev Loader (m : Type → Type) := String → m (Except String String)

/-- Loads files; addresses are not fetched. -/
def fileLoader {m : Type → Type} [Monad m] [Storage m] : Loader m := fun source => do
  if isUrl source then return .error "addresses are not fetched"
  return (← Storage.readText source).mapError FileError.message

end ClientGen
