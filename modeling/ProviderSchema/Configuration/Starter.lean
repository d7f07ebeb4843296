import ProviderSchema.Text.Join

/-!
# The configuration to start from

The text of a configuration that shows what may be configured.
-/

namespace ProviderSchema

namespace Configuration

/-- The lines of the text. -/
def starterLines : List String :=
  ["# pir generator configuration",
    "provider:",
    "  name: petstore",
    "  # schema_ref: \"#/components/schemas/ProviderConfig\"",
    "  # ignores: []",
    "",
    "resources:",
    "  pet:",
    "    create:",
    "      path: /pet",
    "      method: POST",
    "    read:",
    "      path: /pet/{petId}",
    "      method: GET",
    "    update:",
    "      path: /pet/{petId}",
    "      method: PUT",
    "    delete:",
    "      path: /pet/{petId}",
    "      method: DELETE",
    "    schema:",
    "      ignores: []             # dotted attribute paths, e.g. tags.color",
    "      attributes:",
    "        aliases:",
    "          petId: id           # parameter name → attribute name",
    "        overrides: {}",
    "          # name:",
    "          #   description: The pet's name",
    "",
    "data_sources:",
    "  pet:",
    "    read:",
    "      path: /pet/{petId}",
    "      method: GET",
    "    schema:",
    "      attributes:",
    "        aliases:",
    "          petId: id"]

/-- The text of the configuration to start from. -/
def starter : String := Text.joinWith "\n" starterLines ++ "\n"

end Configuration

end ProviderSchema
