import MarkdownEdits.Edit
import MarkdownEdits.Json.Printer

/-!
# Batches

The edits of a batch are sent in one request. This module writes edits in the form that the document
service takes, and names the service's paths.
-/

namespace MarkdownEdits

def TextRange.json (r : TextRange) : Json :=
  .object [("startIndex", .ofNat r.start), ("endIndex", .ofNat r.stop)]

/-- The one attribute of a style, under the name that is its field mask. -/
def TextStyle.json (s : TextStyle) : Json :=
  .object [(s.fieldMask,
    match s with
    | .bold | .italic => .bool true
    | .link url => .object [("url", .string url)]
    | .font family => .object [("fontFamily", .string family)])]

/-- An edit as a request: an object with the kind of request as its only member. -/
def Edit.json : Edit → Json
  | .insertText text =>
    .object [("insertText",
      .object [("text", .string text), ("endOfSegmentLocation", .object [])])]
  | .paragraphStyle name range =>
    .object [("updateParagraphStyle",
      .object [("paragraphStyle", .object [("namedStyleType", .string name)]),
        ("range", range.json), ("fields", .string "namedStyleType")])]
  | .textStyle style range =>
    .object [("updateTextStyle",
      .object [("textStyle", style.json), ("range", range.json),
        ("fields", .string style.fieldMask)])]
  | .listBullet preset range =>
    .object [("createParagraphBullets",
      .object [("range", range.json), ("bulletPreset", .string preset)])]
  | .delete range => .object [("deleteContentRange", .object [("range", range.json)])]

/-- A list of edits as the body of a request. -/
def batchJson (edits : List Edit) : Json :=
  .object [("requests", .array (edits.map Edit.json))]

/-- Where a batch is posted. -/
def batchUpdatePath (documentId : String) : String := s!"/v1/documents/{documentId}:batchUpdate"

/-- Where a document is read. -/
def documentPath (documentId : String) : String := s!"/v1/documents/{documentId}"

end MarkdownEdits
