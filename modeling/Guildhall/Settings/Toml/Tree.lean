-- SUMMARY: The tables of a TOML document as they are being defined, and the rules against defining one twice.
import Guildhall.Settings.Value

/-!
# Documents

A document is a tree of tables. A table is defined once: by a header of its own, by dotted keys
inside one other table, or as an inline value. The headers of the tables inside it do not define
it, so its own header may come later. Of a series of tables only the last one grows.
-/

namespace Guildhall.Settings.Toml

/-- How a table came about. -/
inductive Kind where
  /-- By the headers of tables inside it. -/
  | implied
  /-- By dotted keys. -/
  | dotted
  /-- By a header of its own. -/
  | defined
  deriving DecidableEq, Repr

mutual

/-- What a key stands for. -/
inductive Node where
  | value (value : Value)
  | table (kind : Kind) (entries : Nodes)
  /-- A series of tables, the last one first. -/
  | series (tables : List Nodes)

/-- The keys of a table. -/
inductive Nodes where
  | nil
  | cons (key : String) (node : Node) (rest : Nodes)

end

instance : Inhabited Nodes := ⟨.nil⟩

namespace Nodes

def get? (key : String) : Nodes → Option Node
  | nil => none
  | cons k n rest => if k = key then some n else rest.get? key

/-- Gives a key a node; a new key goes to the end. -/
def put (key : String) (node : Node) : Nodes → Nodes
  | nil => cons key node nil
  | cons k n rest => if k = key then cons k node rest else cons k n (rest.put key node)

def erase (key : String) : Nodes → Nodes
  | nil => nil
  | cons k n rest => if k = key then rest else cons k n (rest.erase key)

/-- Changes the table at the end of a path and returns what else the change yields. Missing
tables are made on the way. Dotted keys do not lead into tables that have a header. -/
def change (dotted : Bool) (f : Kind → Nodes → Option (Nodes × α)) :
    List String → Kind → Nodes → Option (Nodes × α)
  | [], kind, es => f kind es
  | key :: rest, _, es =>
    match es.get? key with
    | none => do
      let kind := if dotted then .dotted else .implied
      let (inner, a) ← change dotted f rest kind nil
      return (es.put key (.table kind inner), a)
    | some (.table kind inner) =>
      if dotted ∧ kind = .defined then none
      else do
        let (inner, a) ← change dotted f rest kind inner
        return (es.put key (.table kind inner), a)
    | some (.series (last :: earlier)) => do
      let (last, a) ← change dotted f rest .defined last
      return (es.put key (.series (last :: earlier)), a)
    | some (.series []) => none
    | some (.value _) => none

/-- Gives the key at the end of a path a value in a table. The key must be new, and dotted keys
must not add to a table that came about in another way. -/
def define (path : List String) (key : String) (value : Value) (es : Nodes) : Option Nodes := do
  let (es, ()) ← change true
    (fun kind es =>
      if (kind == .dotted) == path.isEmpty then none
      else if (es.get? key).isSome then none
      else some (es.put key (.value value), ()))
    path .defined es
  return es

end Nodes

mutual

def Node.toValue : Node → Value
  | .value v => v
  | .table _ es => .table es.toEntries
  | .series tables => .list (seriesValues tables).reverse

def Nodes.toEntries : Nodes → Entries
  | .nil => .nil
  | .cons k n rest => .cons k n.toValue rest.toEntries

def seriesValues : List Nodes → List Value
  | [] => []
  | es :: rest => .table es.toEntries :: seriesValues rest

end

/-! ## Documents -/

/-- A document with the table that is being read. -/
structure Document where
  /-- All tables but the one being read. -/
  root : Nodes
  /-- The header of the table being read; empty before the first header. -/
  header : List String
  /-- Whether the header continues a series. -/
  inSeries : Bool
  entries : Nodes

namespace Document

def empty : Document := ⟨.nil, [], false, .nil⟩

/-- Adds the table being read to the others. -/
def close (d : Document) : Option Nodes :=
  match d.header.getLast? with
  | none => some d.entries
  | some key => do
    let (root, ()) ← Nodes.change false
      (fun _ es =>
        if d.inSeries then
          match es.get? key with
          | some (.series tables) => some (es.put key (.series (d.entries :: tables)), ())
          | _ => none
        else some (es.put key (.table .defined d.entries), ()))
      d.header.dropLast .defined d.root
    return root

/-- Starts the table of a header. Only tables that are merely implied can still be defined. -/
def openTable (header : List String) (d : Document) : Option Document := do
  let root ← d.close
  let key ← header.getLast?
  let (root, entries) ← Nodes.change false
    (fun _ es =>
      match es.get? key with
      | none => some (es, .nil)
      | some (.table .implied inner) => some (es.erase key, inner)
      | _ => none)
    header.dropLast .defined root
  return ⟨root, header, false, entries⟩

/-- Starts the next table of a series. -/
def openSeries (header : List String) (d : Document) : Option Document := do
  let root ← d.close
  let key ← header.getLast?
  let (root, ()) ← Nodes.change false
    (fun _ es =>
      match es.get? key with
      | none => some (es.put key (.series []), ())
      | some (.series _) => some (es, ())
      | _ => none)
    header.dropLast .defined root
  return ⟨root, header, true, .nil⟩

/-- Gives a key a value in the table being read. -/
def define (path : List String) (key : String) (value : Value) (d : Document) :
    Option Document := do
  return { d with entries := ← d.entries.define path key value }

/-- The values that the document gives. -/
def toEntries (d : Document) : Entries := (d.close.getD d.root).toEntries

end Document

end Guildhall.Settings.Toml
