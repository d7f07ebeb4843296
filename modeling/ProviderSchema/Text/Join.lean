/-!
# Joined texts
-/

namespace ProviderSchema.Text

/-- Texts in order, with a separator between every two of them. -/
def joinWith (separator : String) : List String → String
  | [] => ""
  | [text] => text
  | text :: rest => text ++ separator ++ joinWith separator rest

end ProviderSchema.Text
