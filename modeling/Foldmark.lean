import Foldmark.Main
import Foldmark.Outline.Reading
import Foldmark.Proofs.Exchange.Decoding
import Foldmark.Proofs.Fold.Decoding
import Foldmark.Proofs.Gutter.Rows
import Foldmark.Proofs.Marker.LetterCase
import Foldmark.Proofs.Outline.Closing
import Foldmark.Proofs.Outline.Faults
import Foldmark.Proofs.Report.Printing
import Foldmark.Proofs.Session.History
import Foldmark.Proofs.Survey.Bounds
import Foldmark.Proofs.Survey.Location
import Foldmark.Proofs.Outline.Renumbering
import Foldmark.Proofs.Comment.Returns
import Foldmark.Proofs.Comment.PythonReturns
import Foldmark.Proofs.Comment.JavaScriptReturns
import Foldmark.Proofs.Outline.LineEnds
import Foldmark.Proofs.Survey.Exactness
import Foldmark.Proofs.Marker.KeywordOrder
import Foldmark.Proofs.Marker.Naming
import Foldmark.Proofs.Outline.Folding
import Foldmark.Proofs.Marker.Excerpt
import Foldmark.Proofs.Marker.Styles
import Foldmark.Proofs.Outline.Repetition
import Foldmark.Proofs.Comment.Positions
import Foldmark.Proofs.Gutter.Layout
import Foldmark.Proofs.Text.Escapes
import Foldmark.Proofs.Report.Colours
import Foldmark.Proofs.Report.Problems
import Foldmark.Proofs.Outline.Insertion
import Foldmark.Proofs.Outline.Rebuilding
import Foldmark.Proofs.Gutter.LineEnds
