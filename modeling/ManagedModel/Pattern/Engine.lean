import ManagedModel.Pattern.Reader
import ManagedModel.Pattern.Search

/-! # Pattern engines

    Schemas leave it to an engine what their match patterns mean. An engine
    compiles the written form of a pattern once and for all; what comes of it
    is the test whether some part of a text matches.

    * `PatternEngine` is all that validation and registries know of an engine,
      so what is proved of them holds for every engine. An engine gives the
      same answer whenever it is asked the same.
    * `PatternEngine.standard` is the engine of this library: the reader of
      `ManagedModel.Pattern.Reader` and the search of
      `ManagedModel.Pattern.Search`. -/

namespace ManagedModel

/-- What an engine finds wrong with the written form of a pattern. -/
structure PatternRefusal where
  /-- The engine's own wording. -/
  message : String
deriving DecidableEq

/-- An engine for match patterns. -/
structure PatternEngine where
  /-- Compiles the written form of a pattern to the test whether some part of a text matches. -/
  compile : String → Except PatternRefusal (String → Bool)

/-- The engine that reads a pattern and searches with it. -/
def PatternEngine.standard : PatternEngine where
  compile source :=
    match Pattern.read source with
    | .ok pattern => .ok pattern.isFoundIn
    | .error fault => .error ⟨fault.message⟩

end ManagedModel
