import DocMapper.Query.Shortcut
import DocMapper.Transport
/-!
Commands: statements and finished texts that are sent in order over a transport.
-/

namespace DocMapper

structure Connection where
  config : Config
  transport : MemoryTransport

inductive CommandEntry where
  | statement (s : Statement)
  | sql (sql : Sql)

namespace CommandEntry

def toSql (config : Config) : CommandEntry → Except Error Sql
  | .statement s => s.compile config
  | .sql finished => .ok finished

def bind (name : String) (v : Value) : CommandEntry → CommandEntry
  | .statement s => .statement (s.setParam name v)
  | .sql finished => .sql { finished with params := Fields.put finished.params name v }

end CommandEntry

structure Command where
  entries : List CommandEntry

namespace Command

def empty : Command :=
  ⟨[]⟩

def add (c : Command) (entry : CommandEntry) : Command :=
  ⟨c.entries ++ [entry]⟩

def addText (c : Command) (text : String) : Command :=
  c.add (.sql (.ofText text))

def ofEntry (entry : CommandEntry) : Command :=
  empty.add entry

def ofTexts (texts : List String) : Command :=
  texts.foldl addText empty

/-- Gives a parameter to the entry at an index, if there is one. -/
def bindValue (c : Command) (name : String) (v : Value) (index : Nat) : Command :=
  ⟨c.entries.modify index (CommandEntry.bind name v)⟩

def bindValues (c : Command) (values : Fields Value) (index : Nat) : Command :=
  values.foldl (fun c entry => c.bindValue entry.1 entry.2 index) c

/-- Sends the entries in order, those without text left out, and counts those sent. The first
failure ends it. -/
def executeFrom (config : Config) (options : Fields Json) (sent : Nat) :
    List CommandEntry → MemoryTransport → Except Error Nat × MemoryTransport
  | [], t => (.ok sent, t)
  | entry :: rest, t =>
    match entry.toSql config with
    | .error e => (.error e, t)
    | .ok sql =>
      if sql.isEmpty then executeFrom config options sent rest t
      else
        match t.execute sql.text (.ofSql sql options) with
        | (.error e, t) => (.error e, t)
        | (.ok _, t) => executeFrom config options (sent + 1) rest t

def execute (c : Command) (options : Fields Json) (conn : Connection) :
    Except Error Nat × Connection :=
  let (result, t) := executeFrom conn.config options 0 c.entries conn.transport
  (result, { conn with transport := t })

/-- Sends the first entry as a query and changes the rows as it asks. -/
def queryRows (c : Command) (options : Fields Json) (one : Bool) (conn : Connection) :
    Except Error (List Row) × Connection :=
  match c.entries with
  | [] => (.ok [], conn)
  | entry :: _ =>
    match entry.toSql conn.config with
    | .error e => (.error e, conn)
    | .ok sql =>
      let (response, t) := conn.transport.query sql.text (.ofSql sql options)
      let rows := response.map fun rows =>
        (if one then rows.take 1 else rows).map sql.options.apply
      (rows, { conn with transport := t })

def all (c : Command) (options : Fields Json) (conn : Connection) :
    Except Error (List Row) × Connection :=
  c.queryRows options false conn

def one (c : Command) (options : Fields Json) (conn : Connection) :
    Except Error (Option Row) × Connection :=
  let (result, conn) := c.queryRows options true conn
  (result.map List.head?, conn)

/-- Names that start with `@` belong to the database. -/
def firstPlainField (row : Row) : Option String :=
  (Fields.names row).find? fun name => name.toList.head? ≠ some '@'

/-- The first plain field of a row, or the row itself if it has none. -/
def scalarOf (row : Row) : Json :=
  match firstPlainField row with
  | some name => (Fields.get? row name).getD .null
  | none => .obj row

def scalar (c : Command) (options : Fields Json) (conn : Connection) :
    Except Error (Option Json) × Connection :=
  let (result, conn) := c.queryRows options false conn
  (result.map fun rows => rows.head?.map scalarOf, conn)

/-- One field of every row. Without a name, the first plain field of the first row that has one. -/
def columnOf : Option String → List Row → List Json
  | _, [] => []
  | name?, row :: rest =>
    let name? := name?.or (firstPlainField row)
    ((name?.bind (Fields.get? row)).getD .null) :: columnOf name? rest

def column (c : Command) (name? : Option String) (options : Fields Json) (conn : Connection) :
    Except Error (List Json) × Connection :=
  let (result, conn) := c.queryRows options false conn
  (result.map (columnOf name?), conn)

end Command

end DocMapper
