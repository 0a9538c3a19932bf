import ShaderReflection.Grammar.Soundness
import ShaderReflection.Tree.Cursor
import ShaderReflection.Query.Language
import ShaderReflection.Query.Match
import ShaderReflection.Main
import ShaderReflection.Proofs.Tree.RoundTrip
import ShaderReflection.Proofs.Reflection.Reflect
import ShaderReflection.Proofs.Wgsl.Trivia
import ShaderReflection.Proofs.Tree.Tiling
import ShaderReflection.Proofs.Json.Reader
import ShaderReflection.Proofs.Json.Characters
import ShaderReflection.Proofs.Json.RoundTrip
import ShaderReflection.Proofs.Reflection.Report
import ShaderReflection.Proofs.NameTable
import ShaderReflection.Proofs.Tree.Parts
import ShaderReflection.Proofs.Tree.Spans
import ShaderReflection.Proofs.Reflection.Tables
import ShaderReflection.Proofs.Reflection.EntryPoints
import ShaderReflection.Proofs.Reflection.Attributes
import ShaderReflection.Proofs.Reflection.Joining
import ShaderReflection.Proofs.Reflection.Bodies
import ShaderReflection.Proofs.Tree.Totality
import ShaderReflection.Proofs.Reflection.Resolution
import ShaderReflection.Proofs.Query.Matches
import ShaderReflection.Proofs.Reflection.Formatting
import ShaderReflection.Proofs.Tree.Neighbours
import ShaderReflection.Proofs.Tree.Closers
import ShaderReflection.Proofs.Tree.Blocks
import ShaderReflection.Proofs.Query.Choices
import ShaderReflection.Proofs.Reflection.Contract
import ShaderReflection.Proofs.Tree.Rejections
import ShaderReflection.Proofs.Tree.Earliest
import ShaderReflection.Proofs.Query.RoundTrip
import ShaderReflection.Proofs.Tree.Extents
import ShaderReflection.Proofs.Tree.Navigation
import ShaderReflection.Proofs.Tree.Skeletons
import ShaderReflection.Proofs.Reflection.Arguments
import ShaderReflection.Proofs.Reflection.Numbers
import ShaderReflection.Proofs.CommandLine.Runs
