/-!
# Letter case

Upper and lower case of the letters `A` to `Z`; all other characters stay.
-/

namespace MdxReader.Text

/-- The text with the letters of ASCII in upper case. -/
def upperCase (text : String) : String :=
  String.ofList (text.toList.map Char.toUpper)

/-- The text with the letters of ASCII in lower case. -/
def lowerCase (text : String) : String :=
  String.ofList (text.toList.map Char.toLower)

end MdxReader.Text
