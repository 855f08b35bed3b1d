/-!
Words made of ASCII letters, digits and underscores, and the identifiers of C among them.
-/

namespace DocWeave.Text

/-- ASCII letters, digits and the underscore. -/
def isWordChar (c : Char) : Bool :=
  c.isAlphanum || c = '_'

/-- ASCII letters and the underscore. -/
def isWordStart (c : Char) : Bool :=
  c.isAlpha || c = '_'

/-- An identifier of C: a word that does not begin with a digit. -/
def isIdentifier (name : String) : Bool :=
  match name.toList with
  | [] => false
  | c :: cs => isWordStart c && cs.all isWordChar

/-- A marker word: not empty, and all of it word characters. -/
def isWord (name : String) : Bool :=
  !name.toList.isEmpty && name.toList.all isWordChar

/-- The words that C and C++ reserve. -/
def keywords : List String :=
  ["auto", "break", "case", "char", "const", "continue", "default", "do", "double", "else",
    "enum", "extern", "float", "for", "goto", "if", "inline", "int", "long", "register",
    "restrict", "return", "short", "signed", "sizeof", "static", "struct", "switch", "typedef",
    "union", "unsigned", "void", "volatile", "while",
    "alignas", "alignof", "bool", "catch", "class", "constexpr", "const_cast", "decltype",
    "delete", "dynamic_cast", "explicit", "export", "false", "friend", "mutable", "namespace",
    "new", "noexcept", "nullptr", "operator", "private", "protected", "public",
    "reinterpret_cast", "static_assert", "static_cast", "template", "this", "throw", "true",
    "try", "typeid", "typename", "using", "virtual"]

/-- Whether C or C++ reserves a name. -/
def isKeyword (name : String) : Bool :=
  keywords.contains name

end DocWeave.Text
