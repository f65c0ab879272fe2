/-!
# Data for other programs

Trees are handed to other programs as plain data: flags, numbers, texts, options, lists, records and
choices. A `Datum` says both what a value is made of and what its parts are called, so that formats
with names and formats without can be read off it.
-/

namespace TvmAssembly

mutual

inductive Datum where
  | flag (b : Bool)
  | byte (n : UInt8)
  | word (n : UInt32)
  | text (s : String)
  | absent
  | present (d : Datum)
  | list (items : List Datum)
  | record (fields : List Field)
  /-- One of several names, by its position among them. -/
  | choice (index : Nat) (name : String)
  /-- One of several names with what belongs to it. -/
  | tagged (index : Nat) (name : String) (content : Datum)

structure Field where
  name : String
  content : Datum

end

/-- A value of a format with names: what is not there is null, a choice is its name, and a tagged
value is a record with one field. -/
inductive Document where
  | null
  | flag (b : Bool)
  | number (n : Nat)
  | text (s : String)
  | list (items : List Document)
  | object (fields : List (String × Document))

mutual

def Datum.document : Datum → Document
  | .flag b => .flag b
  | .byte n => .number n.toNat
  | .word n => .number n.toNat
  | .text s => .text s
  | .absent => .null
  | .present d => d.document
  | .list items => .list (documents items)
  | .record fields => .object (documentFields fields)
  | .choice _ name => .text name
  | .tagged _ name content => .object [(name, content.document)]
  termination_by structural d => d

def Field.document : Field → String × Document
  | ⟨name, content⟩ => (name, content.document)
  termination_by structural f => f

def documents : List Datum → List Document
  | [] => []
  | d :: ds => d.document :: documents ds
  termination_by structural ds => ds

def documentFields : List Field → List (String × Document)
  | [] => []
  | f :: fs => f.document :: documentFields fs
  termination_by structural fs => fs

end

def Datum.optional {α : Type} (datum : α → Datum) : Option α → Datum
  | none => .absent
  | some a => .present (datum a)

end TvmAssembly
