/-! Marked up texts: a tag in brackets stands before what it applies to, and closed behind it. -/

namespace EntityRules.Text

/-- Puts a text between two tags. -/
def tagged (tag text : String) : String := "[" ++ tag ++ "]" ++ text ++ "[/" ++ tag ++ "]"

end EntityRules.Text
