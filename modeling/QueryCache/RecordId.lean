/-!
# Record identifiers

A record identifier is a text. It names the entry that holds the record's payload, and pointers
hold its bytes.
-/

namespace QueryCache

/-- The name of a cached record. -/
structure RecordId where
  text : String
deriving DecidableEq

namespace RecordId

/-- The bytes that a pointer to the record holds. -/
def toBytes (id : RecordId) : ByteArray := id.text.toUTF8

/-- Identifiers in the order of their texts, each once. Texts are ordered by code points, which is
the order of their bytes. -/
def sorted (ids : List RecordId) : List RecordId :=
  let insert (sorted : List RecordId) (id : RecordId) : List RecordId :=
    let below := sorted.filter fun other => decide (other.text < id.text)
    let above := sorted.filter fun other => decide (id.text < other.text)
    below ++ id :: above
  ids.foldl insert []

end RecordId

end QueryCache
