import X86.Settings
import X86.Toml.Document

/-!
# Settings as text

Settings are written as a TOML document. Each setting has a key at the top of the document; other
keys and sections are allowed and mean nothing.
-/

namespace X86

/-- A setting. -/
inductive SettingKey where
  | model
  | memory
  | a20
  | period
  | masterBase
  | slaveBase
  | trace
deriving DecidableEq, Repr

namespace SettingKey

/-- All settings. -/
def all : List SettingKey := [model, memory, a20, period, masterBase, slaveBase, trace]

/-- The key of a setting. -/
def name : SettingKey → String
  | model => "cpu"
  | memory => "memory_kb"
  | a20 => "a20_enabled"
  | period => "instructions_per_tick"
  | masterBase => "irq_base_master"
  | slaveBase => "irq_base_slave"
  | trace => "trace"

/-- The setting with the given key. -/
def ofName? (s : String) : Option SettingKey :=
  all.find? (·.name == s)

end SettingKey

namespace Toml.Value

/-- A number below `limit`. -/
def toNat? (limit : Nat) : Value → Option Nat
  | integer n => if 0 ≤ n ∧ n < limit then some n.toNat else none
  | _ => none

/-- A model: its number as a string, or as the one key of a table in braces, with an empty table. -/
def toModel? : Value → Option Model
  | string s => Model.ofName? s
  | table [(name, table [] _)] false => Model.ofName? name
  | _ => none

end Toml.Value

namespace Settings

open Toml (Value)

/-- Changes one setting. -/
def set? (s : Settings) (k : SettingKey) (v : Value) : Option Settings :=
  match k, v with
  | .model, v => v.toModel?.map fun model => { s with model }
  | .memory, v => (v.toNat? 0x100000000).map fun memoryKb => { s with memoryKb }
  | .a20, .boolean a20 => some { s with a20 }
  | .period, v => (v.toNat? 0x8000000000000000).map fun period => { s with period }
  | .masterBase, v => (v.toNat? 256).map fun n => { s with masterBase := UInt8.ofNat n }
  | .slaveBase, v => (v.toNat? 256).map fun n => { s with slaveBase := UInt8.ofNat n }
  | .trace, .string t => some { s with trace := some t }
  | _, _ => none

/-- Whether no setting has two entries. -/
def distinctKeys (entries : Toml.Entries) : Bool :=
  SettingKey.all.all fun k => entries.countP (·.1 == k.name) ≤ 1

/-- Changes the settings that entries name. -/
def setAll? (s : Settings) (entries : Toml.Entries) : Option Settings :=
  entries.foldlM
    (fun s (name, v) =>
      match SettingKey.ofName? name with
      | some k => s.set? k v
      | none => some s)
    s

/-- The settings that the sections of a document change. A setting is no section, with one
exception: a document that is one empty section can name the model by the last part of its
header. -/
def ofSections? (d : Toml.Document) : Option Settings :=
  let settings : List SettingKey :=
    d.sections.filterMap fun s => s.header.path.head?.bind SettingKey.ofName?
  match settings, d with
  | [], _ => some {}
  | [.model], { entries := [], sections := [s] } =>
    match s.entries, s.header.path.getLast? with
    | [], some name => (Model.ofName? name).map fun model => { model }
    | _, _ => none
  | _, _ => none

/-- The settings that a document describes; what it does not name has its usual value. -/
def ofDocument? (d : Toml.Document) : Option Settings := do
  let s ← ofSections? d
  if distinctKeys d.entries then s.setAll? d.entries else none

/-- Reads settings and checks their limits. -/
def parse (text : String) : Except SettingsFault Settings :=
  match (Toml.Document.parse? text).bind ofDocument? with
  | none => .error .malformed
  | some s => s.validate

end Settings

end X86
