/-! # Values of configuration files

A configuration file in the TOML format holds a table of values.  A table knows how it came about,
because that decides whether later lines may add to it.
-/

namespace ModelLabels.Toml
set_option autoImplicit false

/-- How a table came about. -/
inductive Origin where
  /-- Written out between braces; nothing can be added to it. -/
  | inline
  /-- Passed on the way to the table of a header. -/
  | passed
  /-- Passed on the way to the key of a line. -/
  | dotted
  /-- Opened by a header of its own, or the table of the whole file. -/
  | header
  deriving Repr, DecidableEq

/-- A value of a configuration file. -/
inductive Value where
  | string (s : String)
  | integer (n : Int)
  /-- A floating-point number as it is written. -/
  | float (written : String)
  | boolean (b : Bool)
  /-- A date, a time, or both, as it is written. -/
  | dateTime (written : String)
  | array (items : List Value)
  | table (origin : Origin) (entries : List (String × Value))
  /-- The tables that headers with double brackets have added up to. -/
  | tables (items : List (List (String × Value)))
  deriving Repr

/-- The values of a table by key. -/
abbrev Entries := List (String × Value)

namespace Entries

/-- The value of a key. -/
def get? (entries : Entries) (key : String) : Option Value :=
  (entries.find? (·.1 = key)).map (·.2)

/-- Put a value in place of the one its key has. -/
def replace (entries : Entries) (key : String) (value : Value) : Entries :=
  entries.map fun e => if e.1 = key then (key, value) else e

/-- Add a key with its value; no key may occur twice. -/
def add? (entries : Entries) (key : String) (value : Value) : Option Entries :=
  match entries.get? key with
  | none => some (entries ++ [(key, value)])
  | some _ => none

end Entries

/-- Change the last item of a list, if the change succeeds. -/
def changeLast? {α : Type} (change : α → Option α) : List α → Option (List α)
  | [] => none
  | [a] => (change a).map ([·])
  | a :: rest => (changeLast? change rest).map (a :: ·)

/-- Change the table at the end of a path, making the tables on the way that are missing.  A path
behind a header (`isDotted` is false) may pass every table but those between braces; a path in front
of a value may not pass a table that was opened by a header of its own.  Either passes the last of
several tables of one header. -/
def changeAt? (isDotted : Bool) (change : Origin → Entries → Option Entries) (origin : Origin)
    (entries : Entries) : List String → Option Entries
  | [] => change origin entries
  | key :: rest =>
    match entries.get? key with
    | none => do
      let made : Origin := if isDotted then .dotted else .passed
      let sub ← changeAt? isDotted change made [] rest
      return entries ++ [(key, .table made sub)]
    | some (.table found sub) =>
      if found = .inline ∨ isDotted ∧ found = .header then none
      else do
        let sub ← changeAt? isDotted change found sub rest
        return entries.replace key (.table found sub)
    | some (.tables items) => do
      let items ← changeLast? (fun sub => changeAt? isDotted change .header sub rest) items
      return entries.replace key (.tables items)
    | some _ => none

/-- Add the value of a key at the end of a path.  A path of several keys must end in a table that such
paths have made. -/
def addAt? (path : List String) (key : String) (value : Value) (origin : Origin)
    (entries : Entries) : Option Entries :=
  changeAt? true
    (fun found entries =>
      if (found = .dotted) ↔ path.isEmpty then none else entries.add? key value)
    origin entries path

end ModelLabels.Toml
