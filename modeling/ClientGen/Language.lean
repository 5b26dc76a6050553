/-!
# Target languages

The languages that clients are written in, and sets of them.
-/

namespace ClientGen

/-- A target language. -/
inductive Language where
  /-- classes -/
  | csharp
  /-- interfaces -/
  | typescript
  deriving DecidableEq, Repr, Inhabited

namespace Language

/-- All languages; output is written in this order. -/
def all : List Language := [.csharp, .typescript]

/-- The name in configurations. -/
def name : Language → String
  | .csharp => "csharp"
  | .typescript => "typescript"

/-- The language of a name. -/
def ofName? : String → Option Language
  | "csharp" => some .csharp
  | "typescript" => some .typescript
  | _ => none

/-- The name in messages. -/
def title : Language → String
  | .csharp => "C#"
  | .typescript => "TypeScript"

/-- The extension of its files. -/
def extension : Language → String
  | .csharp => "cs"
  | .typescript => "ts"

/-- Its place in a bit mask. -/
def bit : Language → Nat
  | .csharp => 1
  | .typescript => 2

end Language

/-- A set of target languages. -/
structure Languages where
  csharp : Bool
  typescript : Bool
  deriving DecidableEq, Repr, Inhabited

namespace Languages

/-- No language. -/
def none : Languages := ⟨false, false⟩

/-- Every language. -/
def both : Languages := ⟨true, true⟩

/-- Is the language in the set? -/
def contains (s : Languages) : Language → Bool
  | .csharp => s.csharp
  | .typescript => s.typescript

/-- The set with one more language. -/
def insert (s : Languages) : Language → Languages
  | .csharp => { s with csharp := true }
  | .typescript => { s with typescript := true }

/-- The set of listed languages. -/
def ofList (languages : List Language) : Languages := languages.foldl insert none

/-- The languages of the set, in the order of `Language.all`. -/
def toList (s : Languages) : List Language := Language.all.filter s.contains

/-- Is there no language? -/
def isEmpty (s : Languages) : Bool := !s.csharp && !s.typescript

/-- The set as a bit mask. -/
def bits (s : Languages) : Nat :=
  s.toList.foldl (fun mask language => mask ||| language.bit) 0

end Languages

end ClientGen
