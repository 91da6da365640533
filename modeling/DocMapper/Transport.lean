import DocMapper.Compile.Statement
import DocMapper.Value.Json
import DocMapper.Value.TaggedText
/-!
The way to a database: what is sent, and a transport that keeps what it was sent and answers from a
queue.
-/

namespace DocMapper

/-- What goes with a text: its parameters, and options that pass through unread. -/
structure ExecOptions where
  params : Fields Value
  extra : Fields Json

namespace ExecOptions

/-- The options of a finished statement, with others written over them. -/
def ofSql (sql : Sql) (overrides : Fields Json) : ExecOptions :=
  ⟨sql.params, Fields.merge sql.options.extra overrides⟩

def paramsJson (options : ExecOptions) : Json :=
  .obj (Fields.mapValues Value.toJson options.params)

end ExecOptions

inductive CallKind where
  | execute
  | query
  deriving DecidableEq

def CallKind.name : CallKind → String
  | .execute => "execute"
  | .query => "query"

def CallKind.ofName? : String → Option CallKind
  | "execute" => some .execute
  | "query" => some .query
  | _ => none

structure RecordedCall where
  kind : CallKind
  text : String
  options : ExecOptions

namespace RecordedCall

def toJson (call : RecordedCall) : Json :=
  .obj [("kind", .str call.kind.name), ("text", .str call.text),
    ("options", .obj [("params", .obj (Value.entriesToTagged call.options.params)),
      ("extra", .obj call.options.extra)])]

def optionsOfJson? (json : Json) : Option ExecOptions := do
  match ← Json.fields? ["params", "extra"] json with
  | [params, extra] =>
    let params ← (params.bind Json.obj?).bind (Value.entriesOfTagged? false)
    let extra ← extra.bind Json.obj?
    pure ⟨Fields.ofList params, Fields.ofList (Json.sortedEntries extra)⟩
  | _ => none

/-- Reads a recorded call; every field must be there. -/
def ofJson? (json : Json) : Option RecordedCall := do
  match ← Json.fields? ["kind", "text", "options"] json with
  | [kind, text, options] =>
    let kind ← (kind.bind Json.caseName?).bind CallKind.ofName?
    let text ← text.bind Json.str?
    let options ← options.bind optionsOfJson?
    pure ⟨kind, text, options⟩
  | _ => none

def look : Json.Draft.Look :=
  let whole := Json.Draft.finish?
  let options := Json.Draft.record? [("params", Value.lookAtContents?), ("extra", whole)]
  Json.Draft.record? [("kind", whole), ("text", whole), ("options", options)]

def ofText? (s : String) : Option RecordedCall := do
  let draft ← Json.Draft.parse? s
  ofJson? (← look Json.maxDepth draft)

end RecordedCall

abbrev Response := Except Error (List Row)

/-- A transport in memory. It records every call and answers with the next response in its queue,
or with no rows when the queue is empty. -/
structure MemoryTransport where
  calls : List RecordedCall
  responses : List Response

namespace MemoryTransport

def empty : MemoryTransport :=
  ⟨[], []⟩

def pushResponse (t : MemoryTransport) (response : Response) : MemoryTransport :=
  { t with responses := t.responses ++ [response] }

def pushRows (t : MemoryTransport) (rows : List Row) : MemoryTransport :=
  t.pushResponse (.ok rows)

def pushError (t : MemoryTransport) (e : Error) : MemoryTransport :=
  t.pushResponse (.error e)

/-- The rows of an answer: one object, or the objects of an array. -/
def rowsOf : Json → List Row
  | .obj row => [row]
  | .arr items => items.filterMap Json.obj?
  | _ => []

def pushJson (t : MemoryTransport) (json : Json) : MemoryTransport :=
  t.pushRows (rowsOf json)

def texts (t : MemoryTransport) : List String :=
  t.calls.map (·.text)

/-- Records a call and takes the answer to it. -/
def call (t : MemoryTransport) (kind : CallKind) (text : String) (options : ExecOptions) :
    Response × MemoryTransport :=
  let calls := t.calls ++ [⟨kind, text, options⟩]
  match t.responses with
  | [] => (.ok [], ⟨calls, []⟩)
  | response :: rest => (response, ⟨calls, rest⟩)

def query (t : MemoryTransport) (text : String) (options : ExecOptions) :
    Response × MemoryTransport :=
  t.call .query text options

/-- The untyped result of a command: null without rows. -/
def rawResult (rows : List Row) : Json :=
  if rows.isEmpty then .null else .arr (rows.map .obj)

def execute (t : MemoryTransport) (text : String) (options : ExecOptions) :
    Except Error Json × MemoryTransport :=
  let (response, t) := t.call .execute text options
  (response.map rawResult, t)

end MemoryTransport

end DocMapper
