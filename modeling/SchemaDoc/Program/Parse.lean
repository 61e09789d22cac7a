import SchemaDoc.Error
import SchemaDoc.Program.OfTree
import SchemaDoc.Script.Grammar

/-!
# Parsing a source file

From the text of a file to a program and the modules it mentions. A byte order mark in front of the
text is skipped: offsets do not count it, while the program keeps the text as it was given.
-/

namespace SchemaDoc

/-- A parsed file: its program and the specifiers that it mentions. -/
structure ParsedSource where
  program : Program
  requires : List String

namespace ParsedSource

/-- The language of a file, by its extension. -/
def languageOf (path : Path) : Script.Language :=
  match Path.extension? path with
  | some "ts" | some "mts" | some "cts" => { types := true, markup := false }
  | some "tsx" => { types := true, markup := true }
  | _ => { types := false, markup := true }

/-- The line to report for an offset: past the end it is the line of the last byte. -/
def failureLine (text : List Char) (offset : Nat) : Nat :=
  Text.lineAt (Text.lineStarts 0 text) (min offset (Text.byteLength text - 1))

/-- Parses the text of a file. Fuel cannot run out before the text does, so its end is reported as
the end of the text. -/
def ofText (source : String) (path : Path) : Except ParseFailure ParsedSource :=
  let text := Text.dropByteOrderMark source.toList
  match Script.parseText (languageOf path) text with
  | .ok parsed =>
    let layout := Layout.of text parsed.comments
    .ok
      { program := { source, body := layout.statements 0 parsed.file.items }
        requires := parsed.file.references }
  | .error (.unexpected span) => .error { path, line := failureLine text span.lo }
  | .error .exhausted => .error { path, line := failureLine text (Text.byteLength text) }

end ParsedSource

end SchemaDoc
