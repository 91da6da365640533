import DocMapper.Proofs.Compile.Meaning
import DocMapper.Proofs.Query.Sides
/-!
# What an `OR` condition makes of the text

The conditions that were there before are written as before. Behind them stands an alternative for
each formula that the new condition puts side by side, so the conditions say what they said before
or any one of these. The formula of the condition asks for all of them together, so a range becomes
two alternatives, one of which always holds.
-/

namespace DocMapper

open Compile Formula Token

namespace Compile

variable {α β : Type} {r mid mid' : Registry}

end Compile

section Texts

variable {config : Config} {schema? : Option Schema}

end Texts

namespace Formula

variable {α β : Type} {related : α → β → Prop} {fs : List (Formula α)}

end Formula

namespace Fragment

end Fragment

section Rows

variable {parts : List (Logic × Part)} {texts : List (Logic × String)}

end Rows

namespace Statement

variable {config : Config} {params : Fields Value} {s : Statement} {sql sql' : Sql}

end Statement

end DocMapper
