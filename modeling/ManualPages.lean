import ManualPages.Main
import ManualPages.Proofs.Configuration.Retry
import ManualPages.Proofs.Configuration.SystemAnswers
import ManualPages.Proofs.Configuration.LineByLine
import ManualPages.Proofs.Configuration.RecordShape
import ManualPages.Proofs.Declaration.ByWords
import ManualPages.Proofs.DirectoryList.FinalList
import ManualPages.Proofs.DirectoryList.Fixpoint
import ManualPages.Proofs.DirectoryList.Growth
import ManualPages.Proofs.SearchPath.Appending
import ManualPages.Proofs.Finder.Programs
import ManualPages.Proofs.Finder.Mandatory
import ManualPages.Proofs.Finder.Resolution
import ManualPages.Proofs.LocaleDirectories.OneLocale
import ManualPages.Proofs.LocaleDirectories.TranslatedFirst
import ManualPages.Proofs.LocaleDirectories.ColonsInNames
import ManualPages.Proofs.Locale.Parts
import ManualPages.Proofs.SystemDirectories.Extension
import ManualPages.Proofs.SystemDirectories.Additions
import ManualPages.Proofs.Finder.Overriding
import ManualPages.Proofs.CachePath.Serving
import ManualPages.Proofs.CachePath.Precedence
import ManualPages.Proofs.CachePath.LegacyLayout
import ManualPages.Proofs.CachePath.Containment
import ManualPages.Proofs.CachePath.Positions
import ManualPages.Proofs.CachePath.Distinctness
import ManualPages.Proofs.FileTree.Outline
import ManualPages.Proofs.Wildcard.Expansion
import ManualPages.Proofs.Finder.Appearance
import ManualPages.Proofs.Finder.Lifecycle
import ManualPages.Proofs.CommandLine.Failures
import ManualPages.Proofs.Catalog.KeysAbout
import ManualPages.Proofs.Catalog.Walking
import ManualPages.Proofs.LocaleDirectories.MoreSpecific
import ManualPages.Proofs.SearchPath.Accumulation
import ManualPages.Proofs.SearchPath.Concatenation
import ManualPages.Proofs.CachePath.NormalForm
import ManualPages.Proofs.CachePath.GlobalDirectories
import ManualPages.Proofs.Finder.OverridesFirst
import ManualPages.Proofs.Text.Numerals
import ManualPages.Proofs.Configuration.Widths
