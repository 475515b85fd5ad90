import TypeWatch.File.Store
import TypeWatch.Text.Escaped
import TypeWatch.Toml.Document

/-! What a monitor is told to watch, and configurations as TOML texts. Keys that mean nothing here may
stand in them. -/
namespace TypeWatch
set_option autoImplicit false

/-! ## Configurations -/

structure Config where
  /-- What the path of a file has to begin with. -/
  pathPrefix : String
  deriving DecidableEq, Repr

namespace Config

def standard : Config := ⟨""⟩

def observes (c : Config) (file : String) : Bool := c.pathPrefix.toList.isPrefixOf file.toList

/-- The files that are observed are those with the prefix before some rest. -/
theorem observes_iff (c : Config) (file : String) :
    c.observes file = true ↔ ∃ rest, file = c.pathPrefix ++ rest := by
  rw [observes, List.isPrefixOf_iff_prefix]
  constructor
  · rintro ⟨rest, hrest⟩
    refine ⟨String.ofList rest, String.toList_injective ?_⟩
    rw [String.toList_append, String.toList_ofList, hrest]
  · rintro ⟨rest, rfl⟩
    exact ⟨rest.toList, String.toList_append.symm⟩

end Config

/-! ## Reading -/

inductive ConfigError where
  | unreadable (path : String) (reason : ReadError)
  | malformed
  deriving DecidableEq, Repr

def ConfigError.message : ConfigError → String
  | unreadable path reason => "failed to read config file " ++ Text.escaped path ++ ": " ++ reason.message
  | malformed => "invalid config"

namespace Config

def ofTable (t : Toml.Table) : Except ConfigError Config :=
  match t.find? "path_prefix" with
  | none => .ok standard
  | some (.string text) => .ok ⟨text⟩
  | some _ => .error .malformed

def ofText (text : String) : Except ConfigError Config :=
  match Toml.Table.ofText text with
  | some t => ofTable t
  | none => .error .malformed

def ofFile (read : Reader) (path : String) : Except ConfigError Config := do
  ofText (← (read path).mapError (.unreadable path))

end Config
end TypeWatch
