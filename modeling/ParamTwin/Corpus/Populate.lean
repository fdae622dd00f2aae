import ParamTwin.Corpus.Batch
import ParamTwin.Index.Embedder
import ParamTwin.Index.LocalIndex

/-!
# Populating an index

The records of the batch files of a directory are embedded and put into an index, which is flushed
when all of them are in. A failure before that leaves every file as it was.
-/

namespace ParamTwin

/-- What a run did. -/
structure PopulateSummary where
  filesRead : Nat := 0
  filesSkipped : Nat := 0
  recordsUpserted : Nat := 0
deriving Repr, DecidableEq, Inhabited

namespace PopulateSummary

/-- A summary as JSON. -/
def toJson (s : PopulateSummary) : Json :=
  .obj [("files_read", .nat s.filesRead), ("files_skipped", .nat s.filesSkipped),
    ("records_upserted", .nat s.recordsUpserted)]

end PopulateSummary

/-- An index that takes records, with its state `σ`. -/
structure Sink (σ : Type) where
  /-- Puts records into the index and tells how many it has taken. -/
  upsert : σ → List IndexRecord → Except Error (σ × Nat)

/-- A local index takes all records. -/
def LocalIndex.sink : Sink LocalIndex where
  upsert i rs := .ok (i.upsert rs, rs.length)

namespace Populate

variable {σ : Type}

/-- The summary and the index so far. -/
structure State (σ : Type) where
  summary : PopulateSummary
  index : σ

/-- Embeds some records together and puts them into the index. Records without a vector of their own
are left out. -/
def addChunk (sink : Sink σ) (embedder : Embedder) (s : State σ) (rs : List CorpusRecord) :
    Except Error (State σ) := do
  let vectors ← embedder.embed (rs.map (·.context))
  let (index, count) ← sink.upsert s.index (List.zipWith CorpusRecord.toIndexRecord rs vectors)
  return {
    summary := { s.summary with recordsUpserted := s.summary.recordsUpserted + count }
    index }

/-- Puts the records of a batch file into the index, or passes over a file that cannot be read. -/
def addFile (sink : Sink σ) (embedder : Embedder) (batchSize : Nat) (s : State σ) :
    Option (List CorpusRecord) → Except Error (State σ)
  | none =>
    .ok { s with summary := { s.summary with filesSkipped := s.summary.filesSkipped + 1 } }
  | some rs =>
    (Batch.split batchSize rs).foldlM (addChunk sink embedder)
      { s with summary := { s.summary with filesRead := s.summary.filesRead + 1 } }

/-- Puts the records of the batch files of a directory into the index. -/
def fill (sink : Sink σ) (files : FileTree) (dir : String) (embedder : Embedder) (index : σ)
    (batchSize : Nat) : Except Error (State σ) := do
  let paths ← Batch.paths files dir
  (paths.map (Batch.read? files)).foldlM (addFile sink embedder batchSize) { summary := {}, index }

/-- Fills a local index from a directory and flushes it. -/
def run (files : FileTree) (dir : String) (embedder : Embedder) (index : LocalIndex)
    (batchSize : Nat) : FileTree × Except Error (State LocalIndex) :=
  match fill LocalIndex.sink files dir embedder index batchSize with
  | .error e => (files, .error e)
  | .ok s =>
    match s.index.flush files with
    | (files, .ok ()) => (files, .ok s)
    | (files, .error e) => (files, .error e)

end Populate
end ParamTwin
