import CoSimBridge.Config.Check
import CoSimBridge.Layout.Configure
/-!
From a configuration to layout options.

The variable and structure sections become the overrides of the layout; the names that CAN
controllers and remote functions serve are reserved, so they get no data topic of their own.
Custom types come from the registry the types section builds.
-/

namespace CoSimBridge

namespace Config

/-- The layout options of a configuration, with `reg` for custom types. -/
def layoutOptions (c : Config) (reg : Registry) : Layout.Options :=
  { registry := reg
    overrides := c.variableDecls.map fun v =>
      { name := v.name, topic := v.topic, type := v.type, transform := v.transform, skip := v.skip }
    structures := c.structures.map fun s => { name := s.name, topic := s.topic, type := s.type }
    reserved := c.reserved }

/-- Lays out a model as the configuration says: builds the registry of declared types, then
binds the model's variables to topics. Nothing is defaulted or validated first. -/
def layout (c : Config) (md : Fmu.ModelDescription) : Except Fault Layout := do
  let reg ← c.types.registry
  Layout.configure md (c.layoutOptions reg)

end Config

end CoSimBridge
