import DocMapper.Command
import DocMapper.Tracking.Document
/-!
Storing documents: the statements that insert, update and delete their records, and saving over a
connection.
-/

namespace DocMapper.Document

def missingRid (doc : Document) : Error :=
  .invalidArgument s!"{doc.className} document has no record id"

def toInsert (doc : Document) : Statement :=
  ((((Statement.insert.setSchema doc.schema).setInto doc.className).addChanges .set
    doc.values)).returnExpression "@rid"

/-- The `UPDATE` with the changes of a document, or nothing if it has none. -/
def toUpdate (doc : Document) : Except Error (Option Statement) × Document :=
  let (delta, doc) := doc.delta
  if delta.isEmpty then (.ok none, doc)
  else
    match doc.rid? with
    | none => (.error doc.missingRid, doc)
    | some id =>
      let s := delta.apply ((Statement.update id.text).setSchema doc.schema)
      (.ok (some (s.returnMode "AFTER" (some "@this"))), doc)

def toDelete (doc : Document) : Except Error Statement :=
  match doc.rid? with
  | none => .error doc.missingRid
  | some id =>
    let s := (Statement.delete.setSchema doc.schema).setSource (.target doc.className)
    .ok ((s.returnMode "BEFORE" none).andWhere (.forPath "@rid" (.link id)))

/-- The address in the answer to an `INSERT`. -/
def insertedRid (doc : Document) (row? : Option Row) : Except Error RecordId :=
  match row?.bind (Fields.get? · "@rid") with
  | some (.str s) =>
    match RecordId.ofText? s with
    | some id => .ok id
    | none => .error (.invalidRecordId s)
  | some other => .error (.invalidRecordId other.text)
  | none => .error doc.missingRid

/-- Inserts a new document and keeps the address it gets. -/
def insert (doc : Document) (conn : Connection) : Except Error Nat × Document × Connection :=
  let (result, conn) := (Command.ofEntry (.statement doc.toInsert)).one [] conn
  match result.bind doc.insertedRid with
  | .error e => (.error e, doc, conn)
  | .ok id => (.ok 1, { { doc with rid? := some id }.reset with isNew := false }, conn)

/-- Updates the record of a loaded document, if anything has changed. -/
def update (doc : Document) (conn : Connection) : Except Error Nat × Document × Connection :=
  match doc.toUpdate with
  | (.error e, doc) => (.error e, doc, conn)
  | (.ok none, doc) => (.ok 0, doc.reset, conn)
  | (.ok (some s), doc) =>
    match (Command.ofEntry (.statement s)).execute [] conn with
    | (.error e, conn) => (.error e, doc, conn)
    | (.ok _, conn) => (.ok 1, doc.reset, conn)

/-- Checks and stores a document, in the dialect of the connection. The answer counts the records
concerned. -/
def save (doc : Document) (conn : Connection) : Except Error Nat × Document × Connection :=
  let doc := { doc with dialect := conn.config.dialect }
  match doc.validate with
  | .error e => (.error e, doc, conn)
  | .ok () => if doc.isNew then doc.insert conn else doc.update conn

def remove (doc : Document) (conn : Connection) : Except Error Unit × Connection :=
  match doc.toDelete with
  | .error e => (.error e, conn)
  | .ok s =>
    let (result, conn) := (Command.ofEntry (.statement s)).execute [] conn
    (result.map fun _ => (), conn)

end DocMapper.Document
