import FlowScript.Files.Tree
import FlowScript.Main
import FlowScript.Proofs.Compile.Effects
import FlowScript.Proofs.Compile.PathTokens
import FlowScript.Proofs.Compile.Outcome
import FlowScript.Proofs.Compile.Strictness
import FlowScript.Proofs.Script.Execution
import FlowScript.Proofs.Template.Placeholders
import FlowScript.Proofs.Script.Supply
import FlowScript.Proofs.Compile.Reads
import FlowScript.Proofs.Compile.Availability
import FlowScript.Proofs.Layout.Tokens
import FlowScript.Proofs.Reader.Literals
import FlowScript.Proofs.Reader.Parser
import FlowScript.Proofs.Reader.ReadBack
import FlowScript.Proofs.Flow.Validity
import FlowScript.Proofs.Flow.Report
import FlowScript.Proofs.Layout.Relayout
import FlowScript.Proofs.Script.Freestanding
import FlowScript.Proofs.Script.Interleaving
import FlowScript.Proofs.Compile.Producers
import FlowScript.Proofs.Layout.Ends
import FlowScript.Proofs.Generate.Assets
import FlowScript.Proofs.Compile.FilledEndpoint
import FlowScript.Proofs.Flow.Sites
import FlowScript.Proofs.Flow.Completeness
import FlowScript.Proofs.Compile.ResultName
import FlowScript.Proofs.Compile.StepOrder
import FlowScript.Proofs.Flow.WireForm
import FlowScript.Proofs.Script.SectionOrder
import FlowScript.Proofs.Script.EmbeddedJson
import FlowScript.Proofs.Flow.Reduction
import FlowScript.Proofs.Flow.PassThrough
import FlowScript.Proofs.Generate.Frame
import FlowScript.Proofs.Compile.Substitution
import FlowScript.Proofs.Template.Spelling
import FlowScript.Proofs.Compile.CallShape
import FlowScript.Proofs.Compile.CheckCondition
import FlowScript.Proofs.Compile.CodeSeams
import FlowScript.Proofs.Compile.Tags
import FlowScript.Proofs.Compile.CheckLabels
import FlowScript.Proofs.Compile.StepCalls
import FlowScript.Proofs.Layout.Indentation
import FlowScript.Proofs.Layout.Alignment
import FlowScript.Proofs.Compile.QueryString
import FlowScript.Proofs.Compile.EmptyUrl
import FlowScript.Proofs.Files.Replacement
import FlowScript.Proofs.Positions.Layout
