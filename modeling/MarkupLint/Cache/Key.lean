import MarkupLint.Data.Digest
import MarkupLint.Data.Bytes

/-! # Cache keys

    A result is kept under a digest of everything that it depends on.  The
    parts are framed before they are hashed, so that no two lists of parts
    give the same bytes. -/

namespace MarkupLint.CacheKey

/-- The bytes that are hashed. -/
def hashed (parts : List Bytes) : Bytes := Data.Frame.encode parts

/-- The key of a list of parts: half of a digest, in hexadecimal. -/
def ofParts (parts : List Bytes) : String :=
  String.ofList (Data.hex ((Data.Digest.sha256 (hashed parts)).take 16))

end MarkupLint.CacheKey
