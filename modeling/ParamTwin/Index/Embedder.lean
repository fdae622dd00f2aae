import ParamTwin.Error
import ParamTwin.Index.Digest
import ParamTwin.Index.Record

/-!
# Embedders

An embedder turns texts into vectors. It may fail, and nothing is promised about how many vectors it
returns. Vectors that were made once can be kept in an `EmbeddingCache`.
-/

namespace ParamTwin

/-- What turns texts into vectors. -/
structure Embedder where
  embed : List String → Except Error (List Embedding)

namespace Embedder

/-- The vector of one text. -/
def embedOne (e : Embedder) (text : String) : Except Error Embedding :=
  match e.embed [text] with
  | .error err => .error err
  | .ok (v :: _) => .ok v
  | .ok [] => .error (.naming "embedder" "Embedding returned empty result")

/-- The embedder that is loaded when there is something to embed. -/
def onDemand (load : Except Error Embedder) : Embedder where
  embed texts := if texts.isEmpty then .ok [] else load.bind fun e => e.embed texts

end Embedder

/-- Vectors by the digests of their texts, the latest first, with the number of times that one was
found and not found. -/
structure EmbeddingCache where
  entries : List (UInt64 × Embedding)
  hits : Nat
  misses : Nat
deriving Repr, DecidableEq, Inhabited

namespace EmbeddingCache

/-- The cache without vectors. -/
def empty : EmbeddingCache :=
  { entries := [], hits := 0, misses := 0 }

/-- The number of vectors. -/
def size (c : EmbeddingCache) : Nat :=
  c.entries.length

/-- The number of vectors that a cache holds at most. -/
def capacity : Nat := 10000

/-- The vector of a text if it is there, and the cache that has counted the request. -/
def find (c : EmbeddingCache) (text : String) : Option Embedding × EmbeddingCache :=
  match c.entries.lookup (Digest.xxh3 text.toUTF8) with
  | some v => (some v, { c with hits := c.hits + 1 })
  | none => (none, { c with misses := c.misses + 1 })

/-- The cache with one more vector; a full one drops half of its vectors first. -/
def insert (c : EmbeddingCache) (text : String) (v : Embedding) : EmbeddingCache :=
  let kept := if capacity ≤ c.size then c.entries.take (c.size - capacity / 2) else c.entries
  { c with entries := (Digest.xxh3 text.toUTF8, v) :: kept }

/-- Whether no request has found its vector. -/
def isCold (c : EmbeddingCache) : Bool :=
  c.hits == 0

end EmbeddingCache
end ParamTwin
