import DocMapper.Number.Reading
import DocMapper.Text.Split
/-!
Addresses of stored records, written `#cluster:position`.
-/

namespace DocMapper

structure RecordId where
  cluster : Int32
  position : Int64
  deriving DecidableEq

namespace RecordId

def intChars (n : Int) : List Char :=
  if n < 0 then '-' :: Nat.toDigits 10 n.natAbs else Nat.toDigits 10 n.natAbs

def chars (id : RecordId) : List Char :=
  '#' :: (intChars id.cluster.toInt ++ ':' :: intChars id.position.toInt)

def text (id : RecordId) : String :=
  String.ofList id.chars

/-- An optional minus sign and one or more digits. -/
def readSigned? : List Char → Option Int
  | '-' :: digits => (Number.readNat? digits).map fun n => -(n : Int)
  | digits => (Number.readNat? digits).map fun n => (n : Int)

def cluster? (n : Int) : Option Int32 :=
  if Int32.minValue.toInt ≤ n ∧ n ≤ Int32.maxValue.toInt then some (Int32.ofInt n) else none

/-- Reads an address; the `#` may be missing. -/
def ofChars? (cs : List Char) : Option RecordId := do
  let body := match cs with
    | '#' :: rest => rest
    | _ => cs
  let (before, after) ← Text.cutAt? ':' body
  let cluster ← (readSigned? before).bind cluster?
  let position ← (readSigned? after).bind Number.int64?
  pure ⟨cluster, position⟩

def ofText? (s : String) : Option RecordId :=
  ofChars? s.toList

def isValid (s : String) : Bool :=
  (ofText? s).isSome

/-- There is at least one text and each is an address. -/
def allValid (texts : List String) : Bool :=
  !texts.isEmpty && texts.all isValid

/-- By cluster, then by position. -/
def le (a b : RecordId) : Bool :=
  a.cluster < b.cluster || (a.cluster = b.cluster && a.position ≤ b.position)

end RecordId

end DocMapper
