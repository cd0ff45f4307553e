import DeclLayer.CommandLine.Run
import DeclLayer.Layer.Brand
import DeclLayer.Layer.Bridge
import DeclLayer.Layer.Generate
import DeclLayer.Layer.Qualification
import DeclLayer.Layer.Reference
import DeclLayer.Layer.RuntimeModule
import DeclLayer.Layer.Separation
import DeclLayer.Layer.SettingsFile
import DeclLayer.Main
import DeclLayer.Parse.Item
import DeclLayer.Parse.Report
import DeclLayer.Proofs.Layer.Atomic
import DeclLayer.Proofs.Layer.Branding
import DeclLayer.Proofs.Layer.Bridge
import DeclLayer.Proofs.Layer.Headed
import DeclLayer.Proofs.Layer.ListedNames
import DeclLayer.Proofs.Layer.MergedSites
import DeclLayer.Proofs.Layer.Merging
import DeclLayer.Proofs.Layer.Partition
import DeclLayer.Proofs.Layer.PolicyCheck
import DeclLayer.Proofs.Layer.QualifiedReferences
import DeclLayer.Proofs.Layer.Rerun
import DeclLayer.Proofs.Layer.Scoping
import DeclLayer.Proofs.Layer.StrictReferences
import DeclLayer.Proofs.Layer.StrippedNames
import DeclLayer.Proofs.Parse.ErrorPlaces
import DeclLayer.Proofs.Parse.SourceRanges
import DeclLayer.Proofs.Parse.Termination
import DeclLayer.Proofs.Render.DocBlock
import DeclLayer.Proofs.Render.TypeLength
import DeclLayer.Proofs.Roundtrip.Initializer
import DeclLayer.Proofs.Roundtrip.Items
import DeclLayer.Proofs.Text.LineEnd
import DeclLayer.Proofs.Token.BlockComment
import DeclLayer.Proofs.Token.LineComment
import DeclLayer.Proofs.Token.Quotation
import DeclLayer.Proofs.Token.Respacing
import DeclLayer.Proofs.Tree.Substitution
import DeclLayer.Render.Item
import DeclLayer.Store.FileTree
import DeclLayer.Text.Columns
import DeclLayer.Text.LineEnd
