import LineTally.FileTree.Edit
import LineTally.Main
import LineTally.Proofs.Candidates.Lost
import LineTally.Proofs.Candidates.Reached
import LineTally.Proofs.Line.Octets
import LineTally.Proofs.Survey.Events
import LineTally.Proofs.Survey.Outcomes
import LineTally.Proofs.Walk.Search
import LineTally.Record.Results
import LineTally.Text.Alphanumeric
import LineTally.Text.Blank
import LineTally.Proofs.FileTree.Lexical
import LineTally.Proofs.FileTree.Within
import LineTally.Proofs.Candidates.LinkFree
import LineTally.Proofs.Survey.Added
import LineTally.Proofs.Candidates.Subwalk
import LineTally.Proofs.FileTree.Spelling
import LineTally.Proofs.Survey.Permissions
import LineTally.Proofs.Survey.Spelling
import LineTally.Proofs.Line.Marks
import LineTally.Proofs.Line.Endings
import LineTally.Proofs.Survey.Contents
import LineTally.Proofs.CommandLine.Report
import LineTally.Proofs.Line.Chunks
import LineTally.Proofs.Line.Layout
import LineTally.Proofs.Distinct.Positions
import LineTally.Proofs.Survey.Words
import LineTally.Proofs.Record.Results
import LineTally.Proofs.Tally.Report
import LineTally.Proofs.Distinct.Occurrences
import LineTally.Proofs.Distinct.Requests
