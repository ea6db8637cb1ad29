/-!
# What can be wrong with a YAML document

A document that the grammar refuses is malformed, and nothing more is said about it. A document that
the grammar takes can still hold a scalar whose tag promises a value that its text does not spell;
each of these cases has its own fault.

The rules for tokens and plain scalars depend on the version that a document asks for.
-/

set_option autoImplicit false

namespace NodeBootstrap.Yaml

/-- Why a document has no value. -/
inductive Fault
  /-- The text is no document, or its parts do not fit together. -/
  | malformed
  /-- An escape with a number above those of the characters. -/
  | noSuchCharacter (code : Nat)
  /-- A number without digits, or with others than its base has. -/
  | notANumber
  /-- A number of no text at all. -/
  | emptyNumber
  /-- A word that is neither true nor false. -/
  | notATruthValue
  /-- A day or a time of day that does not exist. -/
  | noSuchMoment
  /-- Plain scalars have no meaning in the version that is asked for. -/
  | unknownVersion
  /-- A key of a mapping that cannot be looked up. -/
  | unusableKey
  deriving DecidableEq, Repr

/-- The version that a document asks for. -/
structure Version where
  major : Nat
  minor : Nat
  deriving DecidableEq, Repr

/-- The version of documents that ask for none. -/
def Version.current : Version := ⟨1, 2⟩

/-- The version before it, which has more words for truth values and two more kinds of number. -/
def Version.former : Version := ⟨1, 1⟩

end NodeBootstrap.Yaml
