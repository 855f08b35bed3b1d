/-!
The kinds of entity that carry fragments, and the keys that each kind accepts.
-/

namespace DocWeave

/-- The key of a fragment within one documentation text. -/
inductive FragmentKey where
  | default
  | header
  | new
  | free
  | copy
  | get
  | set
  deriving DecidableEq, Repr

namespace FragmentKey

def all : List FragmentKey :=
  [.default, .header, .new, .free, .copy, .get, .set]

/-- The key as it is shown. -/
def label : FragmentKey → String
  | .default => "default"
  | .header => "HEADER"
  | .new => "NEW"
  | .free => "FREE"
  | .copy => "COPY"
  | .get => "GET"
  | .set => "SET"

/-- The word that selects the key in a marker. No word selects the default key. -/
def word : FragmentKey → String
  | .default => ""
  | key => key.label

/-- The key of a marker word, in either case. -/
def ofWord? (word : String) : Option FragmentKey :=
  all.find? (·.word = word.map Char.toUpper)

end FragmentKey

/-- The kinds of entity that carry fragments. -/
inductive EntityKind where
  | module
  | function
  | «class»
  | property
  deriving DecidableEq, Repr

namespace EntityKind

def label : EntityKind → String
  | .module => "module"
  | .function => "function"
  | .class => "class"
  | .property => "property"

/-- The keys that fragments of this kind may have. -/
def keys : EntityKind → List FragmentKey
  | .module => [.default, .header]
  | .function => [.default]
  | .class => [.default, .new, .free, .copy]
  | .property => [.get, .set]

/-- The keys of this kind for a message. -/
def keyList (kind : EntityKind) : String :=
  ", ".intercalate (kind.keys.map FragmentKey.label)

/-- The key of a marker without a word, where the keys in `taken` are in use.

On a property the first such marker is the getter and the second one the setter. -/
def bareKey (kind : EntityKind) (taken : List FragmentKey) : FragmentKey :=
  if kind = .property then
    if taken.contains .get && !taken.contains .set then .set else .get
  else
    .default

/-- The key that a marker word selects, if this kind supports it. -/
def keyOfWord? (kind : EntityKind) (taken : List FragmentKey) (word : String) : Option FragmentKey :=
  if word = "" then
    some (kind.bareKey taken)
  else
    (FragmentKey.ofWord? word).filter kind.keys.contains

end EntityKind

end DocWeave
