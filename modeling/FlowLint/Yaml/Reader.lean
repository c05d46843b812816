import FlowLint.Yaml.Composer
import FlowLint.Yaml.Scanner

/-!
# YAML values from text

A text is cut into tokens, and the tokens are put together to the value of its only document.
-/

namespace FlowLint.Yaml

/-- The value of a text. -/
def read? (text : String) : Option Yaml :=
  if text.toList.all isPrintable then (tokens? (lineFeeds text.toList)).bind compose? else none

end FlowLint.Yaml
