import Whittle.Grammar.Registry

/-!
The built-in grammars.
-/

namespace Whittle.Grammar.Builtin

def replacements (entries : List (String × String)) : List (String × Bytes) :=
  entries.map fun entry => (entry.1, Bytes.ofText entry.2)

def rustKinds : Kinds :=
  Kinds.ofBlocks
    ["source_file", "block", "declaration_list", "token_tree", "arguments", "parameters",
      "field_declaration_list", "field_initializer_list", "enum_variant_list", "match_block",
      "array_expression", "tuple_expression", "use_list"]
    (replacements [
      ("block", "\x7b\x7d"),
      ("declaration_list", "\x7b\x7d"),
      ("token_tree", "()"),
      ("arguments", "()"),
      ("array_expression", "[]"),
      ("match_block", "\x7b\x7d"),
      ("integer_literal", "0"),
      ("string_literal", "\"\"")])

def cKinds : Kinds :=
  Kinds.ofBlocks
    ["translation_unit", "compound_statement", "argument_list", "parameter_list",
      "initializer_list", "field_declaration_list", "enumerator_list", "declaration_list"]
    (replacements [
      ("compound_statement", "\x7b\x7d"),
      ("argument_list", "()"),
      ("field_declaration_list", "\x7b\x7d"),
      ("declaration_list", "\x7b\x7d"),
      ("number_literal", "0"),
      ("string_literal", "\"\"")])

def goKinds : Kinds :=
  Kinds.ofBlocks
    ["source_file", "block", "statement_list", "argument_list", "parameter_list",
      "field_declaration_list", "literal_value", "import_spec_list"]
    (replacements [
      ("block", "\x7b\x7d"),
      ("argument_list", "()"),
      ("literal_value", "\x7b\x7d"),
      ("int_literal", "0"),
      ("interpreted_string_literal", "\"\""),
      ("raw_string_literal", "``")])

def scriptKinds : Kinds :=
  Kinds.ofBlocks
    ["program", "statement_block", "class_body", "arguments", "formal_parameters", "array",
      "object", "switch_body"]
    (replacements [
      ("statement_block", "\x7b\x7d"),
      ("class_body", "\x7b\x7d"),
      ("arguments", "()"),
      ("array", "[]"),
      ("object", "\x7b\x7d"),
      ("number", "0"),
      ("string", "\"\""),
      ("template_string", "``")])

def pythonKinds : Kinds := [
  ("module", { name := "module", block := true }),
  ("suite", { name := "suite", block := true, simpler := [Bytes.ofText "pass"] }),
  ("handlers", { name := "handlers", block := true }),
  ("cases", { name := "cases", block := true }),
  ("Pass", { name := "Pass", leaf := true })]

def lineKinds : Kinds := [
  ("file", { name := "file", block := true }),
  ("line", { name := "line", leaf := true })]

def concrete (name : String) (suffixes : List String) (kinds : Kinds) : Grammar :=
  { name, suffixes, kinds, reading := .concrete }

/-- The grammars that are for files with certain suffixes, in order. -/
def grammars : List Grammar := [
  concrete "rust" [".rs"] rustKinds,
  concrete "c" [".c", ".h"] cKinds,
  concrete "cpp" [".cc", ".cpp", ".cxx", ".hh", ".hpp", ".hxx"] cKinds,
  concrete "go" [".go"] goKinds,
  concrete "javascript" [".js", ".mjs", ".cjs", ".jsx"] scriptKinds,
  concrete "typescript" [".ts", ".mts", ".cts"] scriptKinds,
  concrete "tsx" [".tsx"] scriptKinds,
  { name := "python", suffixes := [".py", ".pyi"], kinds := pythonKinds, reading := .statements }]

def lines : Grammar :=
  { name := "lines", anyFile := true, kinds := lineKinds, reading := .lines }

def registry : Registry :=
  { grammars, fallback := some lines }

end Whittle.Grammar.Builtin
