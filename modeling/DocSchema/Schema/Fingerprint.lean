import DocSchema.Digest.Sha256
import DocSchema.Json.Printer
import DocSchema.Json.Sorted
import DocSchema.Schema.Rendering

/-!
# Fingerprints

A fingerprint tells schemas apart. It is the hash of what was declared: the tree of names with the
keys of every object sorted, so that the order of declaration does not count, and the indexes
declared on the schema as a whole, whose order does count. Hooks, methods and options are left out.
-/

namespace DocSchema

variable {δ : Type}

/-- The hash of what was declared on a schema. -/
structure Fingerprint where
  bytes : List UInt8
  deriving DecidableEq

namespace Fingerprint

def hexByte (b : UInt8) : List Char :=
  [Text.Quoted.hexDigit (b.toNat / 16), Text.Quoted.hexDigit (b.toNat % 16)]

def hex (f : Fingerprint) : String := String.ofList (f.bytes.flatMap hexByte)

end Fingerprint

namespace Schema

/-- The text that names the kind and the version of a fingerprint. -/
def fingerprintMark : List Char := "schemafp:v2".toList

def fingerprintText (s : Schema δ) : List Char :=
  fingerprintMark ++ s.treeJson.sorted.chars ++
    Char.ofNat 0 :: (Json.arr (s.ownIndexes.map IndexEntry.toJson)).chars

def fingerprintBytes (s : Schema δ) : List UInt8 :=
  (String.ofList s.fingerprintText).toUTF8.toList

def fingerprint (s : Schema δ) : Fingerprint := ⟨Sha256.hash s.fingerprintBytes⟩

end Schema

end DocSchema
