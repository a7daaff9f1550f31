-- SUMMARY: The languages of the tool and how their names are read.
import Phrasebook.Text.Blank

/-!
# Locales

The tool speaks English and Catalan. A locale is named by its language code, in any case and
perhaps with a region or an encoding behind it, as in `ca_ES.UTF-8`.
-/
namespace Phrasebook

inductive Locale where
  | english
  | catalan
deriving DecidableEq, Repr

namespace Locale

/-- The language code. -/
def code : Locale → String
  | .english => "en"
  | .catalan => "ca"

/-- The locales, the usual one first. -/
def all : List Locale := [.english, .catalan]

/-- The locales by code. -/
def codes : List (String × Locale) := all.map fun locale => (locale.code, locale)

/-- A character in front of a region or an encoding. -/
def isSeparator (c : Char) : Bool := c == '-' || c == '_' || c == '.'

/-- The locale that a text names. -/
def ofText? (text : String) : Option Locale :=
  let language := (Text.trim text.toList).takeWhile fun c => !isSeparator c
  codes.lookup (String.ofList (language.map Char.toLower))

example : ofText? " CA_es.UTF-8" = some .catalan := by decide
example : ofText? "eng" = none := by decide

end Locale

end Phrasebook
