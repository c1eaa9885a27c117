import MarkdownEdits.Event.Json
import MarkdownEdits.Main
import MarkdownEdits.Machine.Scripted
import MarkdownEdits.Service.Scripted
import MarkdownEdits.Proofs.Placement
import MarkdownEdits.Proofs.Assembly
import MarkdownEdits.Proofs.Checking
import MarkdownEdits.Proofs.WellFormed
import MarkdownEdits.Proofs.Document
import MarkdownEdits.Proofs.Replay
import MarkdownEdits.Proofs.Slices
import MarkdownEdits.Proofs.Forest
import MarkdownEdits.Proofs.Layout
import MarkdownEdits.Proofs.Gaps
import MarkdownEdits.Proofs.Trimming
import MarkdownEdits.Proofs.InlineForest
import MarkdownEdits.Proofs.ListTree
import MarkdownEdits.Proofs.Flattening
import MarkdownEdits.Proofs.Groups
import MarkdownEdits.Proofs.InlineRun
import MarkdownEdits.Proofs.Locality
import MarkdownEdits.Proofs.Extraction
import MarkdownEdits.Proofs.Recognition
import MarkdownEdits.Proofs.JsonReading
import MarkdownEdits.Proofs.JsonBodies
import MarkdownEdits.Proofs.Resubmission
import MarkdownEdits.Proofs.Concatenation
import MarkdownEdits.Proofs.Consistency
import MarkdownEdits.Proofs.FirstFault
import MarkdownEdits.Proofs.Drafting
import MarkdownEdits.Proofs.Recovery
import MarkdownEdits.Proofs.Session
import MarkdownEdits.Proofs.Clearing
import MarkdownEdits.Proofs.Translation
import MarkdownEdits.Proofs.NormalForm
import MarkdownEdits.Proofs.SafeLexing
import MarkdownEdits.Proofs.TableShape
import MarkdownEdits.Proofs.TableReading
import MarkdownEdits.Proofs.ListContent
import MarkdownEdits.Proofs.ItemBlocks
import MarkdownEdits.Proofs.StyleSpans
import MarkdownEdits.Proofs.Wrapping
