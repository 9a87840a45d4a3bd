import Highlighter.Main
import Highlighter.FileTree
import Highlighter.Proofs.Lines
import Highlighter.Proofs.LineLocal
import Highlighter.Proofs.Delimiters
import Highlighter.Proofs.Batches
import Highlighter.Proofs.Edits
import Highlighter.Proofs.Repair
import Highlighter.Proofs.Absorption
import Highlighter.Proofs.Painted
import Highlighter.Proofs.Passes
import Highlighter.Proofs.Laziness
import Highlighter.Proofs.Stale
import Highlighter.Proofs.Sweeps
import Highlighter.Proofs.TokenWalk
import Highlighter.Proofs.Upkeep
import Highlighter.Proofs.Rebuild
import Highlighter.Proofs.TableShape
import Highlighter.Proofs.Rendered
import Highlighter.Proofs.Reachable
import Highlighter.Proofs.Background
import Highlighter.Proofs.OffsetSets
import Highlighter.Proofs.StyleMap
import Highlighter.Proofs.UpToDate
import Highlighter.Proofs.Notices
import Highlighter.Proofs.Actions
import Highlighter.Proofs.Brackets
import Highlighter.Proofs.Switching
import Highlighter.Proofs.Bytes
import Highlighter.Proofs.CharList
import Highlighter.Word.Buffer
import Highlighter.Proofs.Words
import Highlighter.Proofs.WordAnalysis
import Highlighter.Proofs.WordRendering
import Highlighter.Proofs.WordSession
import Highlighter.Proofs.Overflow
import Highlighter.Proofs.NearestPartner
import Highlighter.Proofs.RegionStarts
import Highlighter.Proofs.TokenSearch
import Highlighter.Proofs.Restriction
import Highlighter.Proofs.Attempts
import Highlighter.Proofs.Display
import Highlighter.Proofs.LineCuts
import Highlighter.Proofs.Ownership
import Highlighter.Proofs.Results
import Highlighter.Proofs.GrammarFormat
import Highlighter.Escape.Encoded
import Highlighter.Proofs.Definitions
import Highlighter.Proofs.EscapedSearch
