/-!
# Kinds of items

What a place in a document can hold, as messages name it.
-/

namespace SynthDom

/-- The kinds of things that addresses lead to. -/
inductive ItemKind where
  | element
  | text
  | stylesheet
  | styleRule
  | conditionRule
  | keyframeStep
  | declaration
deriving DecidableEq

namespace ItemKind

/-- The name of a kind in messages. -/
def name : ItemKind → String
  | .element => "element"
  | .text => "text"
  | .stylesheet => "stylesheet"
  | .styleRule => "style rule"
  | .conditionRule => "condition rule"
  | .keyframeStep => "keyframe step"
  | .declaration => "declaration"

end ItemKind

end SynthDom
