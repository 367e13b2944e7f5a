import QueryCache.Error
import QueryCache.Record
import QueryCache.Signature
import QueryCache.Text.Blank

/-!
# Composite indexes

A definition lists field names, separated by commas. Blanks around a name and parts that are blank
altogether do not count. A record has a place in an index if it has all fields of the index; the
place is named by the tokens of their values.

## Main definitions

* `CompositeIndex.parse` : the index of a definition, within the limit on its fields.
* `CompositeIndex.valuesKey?` : the place of a record.
* `CompositeIndex.parseAll` : the indexes of several definitions, within the limit on their number.
-/

namespace QueryCache

/-- A list of fields under which records are found. -/
structure CompositeIndex where
  /-- The definition as it was given. -/
  definition : String
  fields : List String
deriving DecidableEq

namespace CompositeIndex

/-- The parts of a text between its commas; one more than there are commas. -/
def splitCommas : List Char → List (List Char)
  | [] => [[]]
  | c :: rest =>
    if c = ',' then [] :: splitCommas rest
    else match splitCommas rest with
      | [] => [[c]]
      | part :: parts => (c :: part) :: parts

/-- The field names of a definition. -/
def fieldNames (definition : String) : List String :=
  (((splitCommas definition.toList).map trimBlankChars).filter fun part => !part.isEmpty).map
    String.ofList

/-- The index of a definition. It must name a field and at most `maxFields` of them. -/
def parse (definition : String) (maxFields : Nat) : Except IndexError CompositeIndex :=
  let fields := fieldNames definition
  if fields.isEmpty then .error (.emptyDefinition definition)
  else if maxFields < fields.length then
    .error (.tooManyCompositeFields definition fields.length maxFields)
  else .ok ⟨definition, fields⟩

/-- The name of a record's place in the index: the tokens of the fields' values, joined. A record
that lacks a field has none. -/
def valuesKey? (index : CompositeIndex) (record : Record) : Option String :=
  (index.fields.mapM fun field => (record.lookup field).map Json.token).map
    keySeparator.intercalate

/-- The indexes of several definitions. Their number is checked first; after that the first
definition that is refused decides. -/
def parseAll (definitions : List String) (maxIndexes maxFields : Nat) :
    Except IndexError (List CompositeIndex) :=
  if maxIndexes < definitions.length then
    .error (.tooManyIndexes definitions.length maxIndexes)
  else definitions.mapM fun definition => parse definition maxFields

end CompositeIndex

end QueryCache
