import MonitorExport.Export.Compiler
import MonitorExport.Toml.Document

/-!
Settings of a project, read from a TOML file. What the file does not set has a standard value, and what it
sets beyond is ignored. An address may name an environment variable that holds it.
-/

namespace MonitorExport.CommandLine

/-- The settings of a project. -/
structure Settings where
  version : String
  indent : Nat
  /-- The standard rules are left out. -/
  replaceRules : Bool
  extraRules : List PruningRule
  apiUrl : String
  apiUser : String
  senderServer : String

namespace Settings

def fileName : String := "zbxconf.toml"

/-- The settings of a project without a file. -/
def standard : Settings where
  version := Compiler.exportVersion
  indent := Xml.standardIndent
  replaceRules := false
  extraRules := []
  apiUrl := "$\x7bZABBIX_URL\x7d"
  apiUser := "Admin"
  senderServer := "127.0.0.1:10051"

/-- The scalar that a TOML value is. -/
def value? : Toml → Option Value
  | .bool flag => some (.bool flag)
  | .int n => some (.int n)
  | .float x => some (.float x)
  | .str s => some (.text s)
  | _ => none

/-- The rule that a TOML value is. -/
def rule? (t : Toml) : Option PruningRule := do
  match ← t.record? ["path", "value"] with
  | [some path, some value] => return ⟨← path.text?, ← value? value⟩
  | _ => none

/-- What is read from a member, or the standard if it is left out. -/
def orStandard {α : Type} (read : Toml → Option α) (standard : α) : Option Toml → Option α
  | some t => read t
  | none => some standard

/-- The members of a section, none of which is set if it is left out. -/
def section? (declared : List String) : Option Toml → Option (List (Option Toml))
  | some t => t.record? declared
  | none => some (declared.map fun _ => none)

/-- The settings that a TOML document holds. -/
def ofToml? (t : Toml) : Option Settings := do
  match ← t.record? ["export", "rules", "api", "sender"] with
  | [output, rules, api, sender] =>
    match ← section? ["version", "indent"] output, ← section? ["replace", "extra"] rules,
      ← section? ["url", "user"] api, ← section? ["server"] sender with
    | [version, indent], [replace, extra], [url, user], [server] =>
      return {
        version := ← orStandard Toml.text? standard.version version
        indent := ← orStandard Toml.count? standard.indent indent
        replaceRules := ← orStandard Toml.bool? standard.replaceRules replace
        extraRules := ← orStandard (fun t => do (← t.items?).mapM rule?) standard.extraRules extra
        apiUrl := ← orStandard Toml.text? standard.apiUrl url
        apiUser := ← orStandard Toml.text? standard.apiUser user
        senderServer := ← orStandard Toml.text? standard.senderServer server }
    | _, _, _, _ => none
  | _ => none

def read? (s : String) : Option Settings :=
  (Toml.read? s).bind ofToml?

def rules (s : Settings) : PruningRules :=
  (if s.replaceRules then PruningRules.empty else PruningRules.standard).extend s.extraRules

def compiler (s : Settings) (now : Timestamp) : Compiler :=
  { Compiler.unpinned now with rules := s.rules, version := s.version, indent := s.indent }

/-- The environment variable that holds a value, if the value names one: the name stands between a
dollar sign with an opening brace and a closing brace at the end. -/
def placeholder? (s : String) : Option String :=
  match s.toList with
  | '$' :: '\x7b' :: cs =>
    if cs.getLast? = some '\x7d' then some (String.ofList cs.dropLast) else none
  | _ => none

end Settings

end MonitorExport.CommandLine
