import ParamTwin.Command.Arguments
import ParamTwin.Command.Run
import ParamTwin.Corpus.Batch
import ParamTwin.Corpus.Harvest
import ParamTwin.Corpus.Populate
import ParamTwin.Corpus.Record
import ParamTwin.Decimal.Binary
import ParamTwin.Decimal.Number
import ParamTwin.Duplicate.Edit
import ParamTwin.Duplicate.Plan
import ParamTwin.Duplicate.Report
import ParamTwin.Duplicate.Transform
import ParamTwin.Duplicate.Usage
import ParamTwin.Error
import ParamTwin.Files.Discover
import ParamTwin.Files.Glob
import ParamTwin.Files.Ignore
import ParamTwin.Files.Path
import ParamTwin.Files.Tree
import ParamTwin.Index.Cosine
import ParamTwin.Index.Digest
import ParamTwin.Index.Embedder
import ParamTwin.Index.Hosted
import ParamTwin.Index.LocalIndex
import ParamTwin.Index.Record
import ParamTwin.Index.Store
import ParamTwin.Json.Fields
import ParamTwin.Json.Reader
import ParamTwin.Json.Value
import ParamTwin.Language
import ParamTwin.Main
import ParamTwin.Naming.Candidates
import ParamTwin.Naming.Identifier
import ParamTwin.Naming.NameSet
import ParamTwin.Naming.Similarity
import ParamTwin.Naming.Suggester
import ParamTwin.Proofs.BinderShape
import ParamTwin.Proofs.FreeName
import ParamTwin.Proofs.LexicalFacts
import ParamTwin.Proofs.LexicalScope
import ParamTwin.Proofs.TreePath
import ParamTwin.Scope.Binder
import ParamTwin.Scope.Model
import ParamTwin.Service
import ParamTwin.Settings.Basic
import ParamTwin.Settings.Document
import ParamTwin.Settings.Yaml
import ParamTwin.Syntax.Construct
import ParamTwin.Syntax.Listing
import ParamTwin.Syntax.Node
import ParamTwin.Syntax.Parameter
import ParamTwin.Syntax.Procedure
import ParamTwin.Syntax.Summary
import ParamTwin.Text.Basic
import ParamTwin.Text.Blank
import ParamTwin.Text.Letter
import ParamTwin.Text.Utf8
import ParamTwin.TypeName
import ParamTwin.Yaml.Reader
import ParamTwin.Yaml.Scalar
import ParamTwin.Yaml.Token
import ParamTwin.Yaml.Value
import ParamTwin.Yaml.Writer
import ParamTwin.Proofs.BinderTrace
import ParamTwin.Proofs.ReferenceMap
import ParamTwin.Proofs.NewName
import ParamTwin.Proofs.Outline
import ParamTwin.Proofs.ProcedurePlace
import ParamTwin.Proofs.Capture
import ParamTwin.Proofs.TextCut
import ParamTwin.Proofs.Insertion
import ParamTwin.Proofs.TextLines
import ParamTwin.Proofs.TidyContent
import ParamTwin.Proofs.TidyFixedPoint
import ParamTwin.Proofs.ClonePlace
import ParamTwin.Proofs.Definedness
import ParamTwin.Proofs.HarvestedContext
import ParamTwin.Proofs.Utf8RoundTrip
import ParamTwin.Proofs.JsonRoundTrip
import ParamTwin.Proofs.FileWrites
import ParamTwin.Proofs.BatchRoundTrip
import ParamTwin.Proofs.StoreMap
import ParamTwin.Proofs.SavedIndex
import ParamTwin.Proofs.Populated
import ParamTwin.Proofs.TransformRun
import ParamTwin.Proofs.DocumentOrder
import ParamTwin.Proofs.RenamedCopy
import ParamTwin.Proofs.ReferenceNames
import ParamTwin.Proofs.LocatedStatement
import ParamTwin.Proofs.ParameterCopy
import ParamTwin.Proofs.FirstFree
import ParamTwin.Proofs.SimilarNames
import ParamTwin.Proofs.TypeLayout
import ParamTwin.Proofs.TypeSpelling
import ParamTwin.Proofs.Utf8Order
import ParamTwin.Proofs.QueryOrder
import ParamTwin.Proofs.InsertionLine
import ParamTwin.Proofs.LineStyle
import ParamTwin.Proofs.VisitedNode
import ParamTwin.Proofs.DeclaredParameter
import ParamTwin.Proofs.ParameterPartition
import ParamTwin.Proofs.SummaryLayout
import ParamTwin.Proofs.RecordKeys
import ParamTwin.Proofs.NumberText
import ParamTwin.Proofs.PopulatedFile
import ParamTwin.Proofs.PartialSettings
import ParamTwin.Proofs.YamlScalars
import ParamTwin.Proofs.YamlLines
import ParamTwin.Proofs.YamlScan
import ParamTwin.Proofs.YamlDocuments
import ParamTwin.Proofs.SettingsRoundTrip
