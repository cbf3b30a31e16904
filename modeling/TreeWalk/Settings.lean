import TreeWalk.Checker
import TreeWalk.Printer
import TreeWalk.Toml.Read

/-! Settings for a run, read from a TOML text with the optional sections `printer`, `check` and `log`.
Each section has one optional key and no other; it may be written as an array that starts with the
value of that key. The whole text is understood before its values are judged. -/

namespace TreeWalk

/-- How much is logged. -/
inductive LogLevel where
  | error
  | warn
  | info
  | debug
  | trace
deriving DecidableEq, Repr

namespace LogLevel

def all : List LogLevel := [.error, .warn, .info, .debug, .trace]

def name : LogLevel → String
  | .error => "ERROR"
  | .warn => "WARN"
  | .info => "INFO"
  | .debug => "DEBUG"
  | .trace => "TRACE"

/-- The level with a name, in capital or small letters. -/
def ofName? (name : String) : Option LogLevel :=
  all.find? (·.name == String.ofList (name.toList.map Char.toUpper))

end LogLevel

/-- The settings of a run. -/
structure Settings where
  /-- Blanks per level of printed text. -/
  width : Nat := defaultWidth
  /-- The number of parameters a function may have. -/
  limit : Nat := defaultLimit
  level : LogLevel := .warn
deriving DecidableEq, Repr

/-- Why a text gives no settings. -/
inductive SettingsError where
  /-- It is no TOML, or not made of the known sections and keys. -/
  | unreadable
  | zeroWidth
  | unknownLevel (name : String)
deriving DecidableEq, Repr

/-- What is wrong with settings; why they are not readable is not kept. -/
def SettingsError.message : SettingsError → String
  | .unreadable => "not readable"
  | .zeroWidth => "printer.indent_width must be at least 1"
  | .unknownLevel name => "log.level '" ++ name ++ "': expected one of trace, debug, info, warn, error"

namespace Settings

section Sections

variable {α : Type}

def natural? : Toml → Option Nat
  | .integer (.ofNat n) => some n
  | _ => none

def text? : Toml → Option String
  | .string s => some s
  | _ => none

/-- The value of the only key of a section, if it is given; fails if the section is malformed. -/
def sectionValue? (key : String) (read? : Toml → Option α) : Toml → Option (Option α)
  | .table _ [] => some none
  | .table _ [(k, v)] => if k = key then (read? v).map some else none
  | .array (v :: _) => (read? v).map some
  | _ => none

/-- The value of the only key of a section that may be absent. -/
def optionalSection? (entries : Toml.Entries) (name key : String) (read? : Toml → Option α) :
    Option (Option α) :=
  match entries.lookup name with
  | none => some none
  | some value => sectionValue? key read? value

end Sections

/-- The values given in a document: blanks per level, number of parameters and log level. -/
def given? (entries : Toml.Entries) : Option (Option Nat × Option Nat × Option String) := do
  if entries.all fun (name, _) => ["printer", "check", "log"].contains name then
    let width ← optionalSection? entries "printer" "indent_width" natural?
    let limit ← optionalSection? entries "check" "max_parameters" natural?
    let level ← optionalSection? entries "log" "level" text?
    return (width, limit, level)
  else none

/-- The settings that a text gives. -/
def ofText (text : String) : Except SettingsError Settings := do
  match (Toml.parse? text).bind given? with
  | none => .error .unreadable
  | some (width, limit, level) =>
    if width = some 0 then .error .zeroWidth
    else
      let settings : Settings := { width := width.getD defaultWidth, limit := limit.getD defaultLimit }
      match level with
      | none => .ok settings
      | some name =>
        match LogLevel.ofName? name with
        | some level => .ok { settings with level }
        | none => .error (.unknownLevel name)

end Settings

end TreeWalk
