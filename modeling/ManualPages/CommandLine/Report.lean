import ManualPages.Configuration.Basic
import ManualPages.DirectoryList
import ManualPages.Text.Json

/-! # Reports

The listings of directories and of the configuration, in lines and in JSON.

* `directoryLines`, `directoryJson` — a list of directories.
* `configLines`, `configJson` — sources, formatting and records.
-/

namespace ManualPages

namespace CommandLine

def onLine (t : Text) : Text := t ++ ['\n']

def directoryLines (list : DirectoryList) : Text := list.directories.flatMap onLine

def directoryJson (list : DirectoryList) : Json := .list (list.directories.map Json.text)

/-- The line of a source: its path and which of the two files it is. -/
def sourceLine (source : Source) : Text :=
  onLine ("# ".toList ++ source.path.decodeLossy ++ " (".toList ++ source.owner.name ++ [')'])

/-- The line of a record: subject, key and content, divided by tabs. -/
def recordLine (record : Record) : Text :=
  onLine (record.subject.name ++ '\t' :: record.key ++ '\t' :: record.content)

def widthLine (which : Width) (value : Int) : Text :=
  onLine ((Keyword.width which).name ++ ' ' :: Text.ofInt value)

def formattingLines (formatting : Formatting) : Text :=
  widthLine .least formatting.leastWidth ++ widthLine .greatest formatting.greatestWidth
    ++ widthLine .fixed formatting.fixedWidth
    ++ if formatting.noCache then onLine Declaration.noCacheWord else []

def configLines (config : Configuration) : Text :=
  config.sources.flatMap sourceLine ++ formattingLines config.formatting
    ++ config.catalog.records.flatMap recordLine

def sourceJson (source : Source) : Json :=
  .object [("path".toList, .path source.path), ("scope".toList, .text source.owner.name)]

def formattingJson (formatting : Formatting) : Json :=
  .object [("min_cat_width".toList, .number formatting.leastWidth),
    ("max_cat_width".toList, .number formatting.greatestWidth),
    ("cat_width".toList, .number formatting.fixedWidth),
    ("disable_cache".toList, .flag formatting.noCache)]

def recordJson (record : Record) : Json :=
  .object [("key".toList, .text record.key), ("content".toList, .text record.content),
    ("category".toList, .text record.subject.name)]

def configJson (config : Configuration) : Json :=
  .object [("sources".toList, .list (config.sources.map sourceJson)),
    ("settings".toList, formattingJson config.formatting),
    ("records".toList, .list (config.catalog.records.map recordJson))]

end CommandLine

end ManualPages
