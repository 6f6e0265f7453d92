/-!
# TOML documents as tables

A document is a table of values. How a table came to be decides what may still be added to it,
so tables carry a kind:

* a table opened by a header takes keys under that header only;
* a table that only a longer header passed through may still get a header of its own;
* a table that dotted keys made may get more dotted keys, and no header;
* an inline table is complete.

Nothing is ever defined twice. Numbers with a fraction, dates and times are checked when they
are read and then kept as their kind alone.
-/

namespace DeviceLayout

namespace Toml

/-- How a table came to be. -/
inductive TableKind where
  /-- By a header of its own. -/
  | header
  /-- By a header that passed through it. -/
  | implied
  /-- By a dotted key that passed through it. -/
  | dotted
  /-- Between braces. -/
  | inline
  deriving DecidableEq, Repr

end Toml

/-- A TOML value. -/
inductive Toml where
  | string (s : String)
  | integer (n : Int)
  | boolean (b : Bool)
  | float
  | date
  | array (items : List Toml)
  | table (kind : Toml.TableKind) (entries : List (String × Toml))
  /-- Tables opened one after another by array headers: all but the last, and the last. -/
  | tables (before : List (List (String × Toml))) (last : List (String × Toml))
  deriving Repr

namespace Toml

/-- The entries of a table, in the order their keys were defined. -/
abbrev Entries := List (String × Toml)

/-- The value of a key. -/
def Entries.get? (entries : Entries) (key : String) : Option Toml :=
  (entries.find? fun e => e.1 = key).map (·.2)

/-- Give a key a value: at its place if it has one, and at the end otherwise. -/
def Entries.put (key : String) (v : Toml) : Entries → Entries
  | [] => [(key, v)]
  | e :: rest => if e.1 = key then (key, v) :: rest else e :: Entries.put key v rest

/-! ## Dotted keys -/

/-- Whether a dotted key may pass through a table, or define a key in it if it is the `last`
one on the way. -/
def TableKind.takesDotted (last : Bool) : TableKind → Bool
  | dotted => true
  | implied => !last
  | header | inline => false

/-- Define a dotted key below a table. Tables on the way that are missing are made; the last
of them has to be one that dotted keys made. -/
def define (v : Toml) : List String → Entries → Option Entries
  | [], _ => none
  | [key], entries => if (entries.get? key).isSome then none else some (entries.put key v)
  | key :: next :: path, entries =>
    match entries.get? key with
    | none => (define v (next :: path) []).map fun below => entries.put key (table .dotted below)
    | some (table kind below) =>
      if kind.takesDotted path.isEmpty then
        (define v (next :: path) below).map fun below => entries.put key (table kind below)
      else none
    | some (tables before last) =>
      if path.isEmpty then none
      else (define v (next :: path) last).map fun last => entries.put key (tables before last)
    | some _ => none

/-- The inline table with the given dotted keys. -/
def inlineTable? (members : List (List String × Toml)) : Option Toml :=
  (members.foldlM (fun entries m => define m.2 m.1 entries) []).map (table .inline)

/-! ## Headers -/

/-- Change what stands at the path of a header. Tables on the way that are missing are implied;
of tables opened by array headers the last one is meant. -/
def atHeader (f : Option Toml → Option Toml) : List String → Entries → Option Entries
  | [], _ => none
  | [key], entries => (f (entries.get? key)).map fun v => entries.put key v
  | key :: next :: path, entries =>
    match entries.get? key with
    | none =>
      (atHeader f (next :: path) []).map fun below => entries.put key (table .implied below)
    | some (table .inline _) => none
    | some (table kind below) =>
      (atHeader f (next :: path) below).map fun below => entries.put key (table kind below)
    | some (tables before last) =>
      (atHeader f (next :: path) last).map fun last => entries.put key (tables before last)
    | some _ => none

/-- Open a table: a new one, or one that was only implied so far. -/
def openTable : Option Toml → Option Toml
  | none => some (table .header [])
  | some (table .implied entries) => some (table .header entries)
  | _ => none

/-- Open one more table of an array of tables. -/
def openElement : Option Toml → Option Toml
  | none => some (tables [] [])
  | some (tables before last) => some (tables (before ++ [last]) [])
  | _ => none

/-- Define a dotted key below an open table. -/
def defineIn (key : List String) (v : Toml) : Option Toml → Option Toml
  | some (table kind entries) => (define v key entries).map (table kind)
  | some (tables before last) => (define v key last).map (tables before)
  | _ => none

/-! ## Documents -/

/-- A line of a document. -/
inductive Statement where
  /-- The header of a table. -/
  | header (path : List String)
  /-- The header of one more table of an array. -/
  | element (path : List String)
  /-- A dotted key with its value. -/
  | pair (key : List String) (v : Toml)

/-- A document that has been read so far: the header in force, and the entries of the root. -/
structure Document where
  current : List String := []
  root : Entries := []

namespace Document

/-- Read one more statement. -/
def add (d : Document) : Statement → Option Document
  | .header path => (atHeader openTable path d.root).map fun root => ⟨path, root⟩
  | .element path => (atHeader openElement path d.root).map fun root => ⟨path, root⟩
  | .pair key v =>
    let root :=
      if d.current.isEmpty then define v key d.root
      else atHeader (defineIn key v) d.current d.root
    root.map fun root => { d with root }

/-- The document made of some statements; nothing may be defined twice. -/
def ofStatements? (statements : List Statement) : Option Document :=
  statements.foldlM add {}

end Document

end Toml

end DeviceLayout
