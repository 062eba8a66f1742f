import SynthDom.Address.Basic
import SynthDom.Address.Error
import SynthDom.Address.Resolve
import SynthDom.Address.Write
import SynthDom.CommandLine.Arguments
import SynthDom.CommandLine.Config
import SynthDom.CommandLine.Directory
import SynthDom.CommandLine.Run
import SynthDom.ItemKind
import SynthDom.Json.Basic
import SynthDom.Json.Double
import SynthDom.Json.Numeral
import SynthDom.Json.Printer
import SynthDom.Json.Reader
import SynthDom.Json.Record
import SynthDom.Main
import SynthDom.Mutation.Basic
import SynthDom.Mutation.Diff
import SynthDom.Mutation.Patch
import SynthDom.Proofs.Address.Display
import SynthDom.Proofs.Address.Exchange
import SynthDom.Proofs.Address.PutAt
import SynthDom.Proofs.Address.Replace
import SynthDom.Proofs.Address.View
import SynthDom.Proofs.CommandLine.Pipeline
import SynthDom.Proofs.CommandLine.Reread
import SynthDom.Proofs.Json.Extent
import SynthDom.Proofs.Json.RoundTrip
import SynthDom.Proofs.Mutation.Act
import SynthDom.Proofs.Mutation.Commute
import SynthDom.Proofs.Mutation.Congruence
import SynthDom.Proofs.Mutation.Exact
import SynthDom.Proofs.Mutation.Extent
import SynthDom.Proofs.Mutation.Fit
import SynthDom.Proofs.Mutation.Frame
import SynthDom.Proofs.Mutation.Lists
import SynthDom.Proofs.Mutation.OldOrder
import SynthDom.Proofs.Mutation.OneNode
import SynthDom.Proofs.Mutation.Order
import SynthDom.Proofs.Mutation.Paired
import SynthDom.Proofs.Mutation.Refusal
import SynthDom.Proofs.Mutation.ReplacedNodes
import SynthDom.Proofs.Mutation.ReplacedRules
import SynthDom.Proofs.Mutation.RoundTrip
import SynthDom.Proofs.Mutation.Source
import SynthDom.Proofs.Mutation.Subtree
import SynthDom.Proofs.Mutation.Sync
import SynthDom.Proofs.PropertyList.History
import SynthDom.Proofs.PropertyList.Lookup
import SynthDom.Proofs.PropertyList.Pairs
import SynthDom.Proofs.PropertyList.Placement
import SynthDom.Proofs.PropertyList.Sync
import SynthDom.Proofs.Render.Css
import SynthDom.Proofs.Render.Html
import SynthDom.Proofs.Run
import SynthDom.Proofs.Session.Cache
import SynthDom.Proofs.Text.Parts
import SynthDom.Proofs.Tree.Alike
import SynthDom.Proofs.Tree.Identical
import SynthDom.Proofs.Tree.Indistinguishable
import SynthDom.Proofs.Visit.Census
import SynthDom.Proofs.Visit.Recording
import SynthDom.Proofs.Wire.Extent
import SynthDom.Proofs.Wire.Limit
import SynthDom.Proofs.Wire.RoundTrip
import SynthDom.Proofs.Wire.Text
import SynthDom.PropertyList.Basic
import SynthDom.PropertyList.Change
import SynthDom.Query
import SynthDom.Render.Css
import SynthDom.Render.Html
import SynthDom.Session
import SynthDom.Stylesheet.Basic
import SynthDom.Text.Quoted
import SynthDom.Text.Unprintable
import SynthDom.Tree.Basic
import SynthDom.Visit
import SynthDom.Wire.Decode
import SynthDom.Wire.Encode
