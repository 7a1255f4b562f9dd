import StackTemplate.Config.Read
import StackTemplate.Config.Write
import StackTemplate.Grammar.Asset
import StackTemplate.Proofs.Grammar.Provider
import StackTemplate.Proofs.Json.Truncation
import StackTemplate.Proofs.Sections.Queries
import StackTemplate.Proofs.Session.Delivery
import StackTemplate.Proofs.Session.History
import StackTemplate.Proofs.Syntax.KeyText
import StackTemplate.Proofs.Syntax.LookupOfPath
import StackTemplate.Proofs.Syntax.PathOfLookup
import StackTemplate.Session.Basic
import StackTemplate.Syntax.Context
import StackTemplate.Proofs.Syntax.EntityRoot
import StackTemplate.Proofs.Syntax.EnclosingSection
import StackTemplate.Session.Shared
import StackTemplate.Proofs.Session.Shared
import StackTemplate.Proofs.Session.Trees
import StackTemplate.Proofs.Session.Undisturbed
import StackTemplate.Proofs.Syntax.PlaceAtPosition
import StackTemplate.Proofs.Yaml.TaggedData
import StackTemplate.Proofs.Yaml.TagSpelling
import StackTemplate.Proofs.Json.Occurrences
import StackTemplate.Proofs.Syntax.TagName
import StackTemplate.Proofs.Syntax.RepeatedKeys
import StackTemplate.Proofs.Syntax.Descendants
import StackTemplate.Proofs.Syntax.ContainerRole
import StackTemplate.Proofs.Yaml.Retries
import StackTemplate.Proofs.Yaml.Budget
import StackTemplate.Proofs.Values.Integers
import StackTemplate.Proofs.Entities.TextFields
import StackTemplate.Proofs.Entities.Addresses
import StackTemplate.Proofs.Entities.ValueFields
import StackTemplate.Proofs.Json.Safety
import StackTemplate.Proofs.Syntax.Faults
import StackTemplate.Proofs.Syntax.TopLevelSections
import StackTemplate.Proofs.Syntax.DocumentContent
import StackTemplate.Proofs.Syntax.IntrinsicCalls
import StackTemplate.Proofs.Syntax.PairSides
import StackTemplate.Proofs.Syntax.SingleQuotes
import StackTemplate.Proofs.Grammar.Retries
import StackTemplate.Proofs.Config.RoundTrip
