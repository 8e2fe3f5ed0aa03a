import MessageCodec.Source.Module

/-!
# Generated packages

All the files of a package: a registry of the messages, the shared runtime, one module a message, and a
readme.
-/

namespace MessageCodec.Source

/-- A generated file, named relative to the output directory. -/
structure GeneratedFile where
  name : String
  content : String

/-- The module that lists the message modules. -/
def messagesModule (messages : List MessagePlan) : String :=
  unlines ([header, docstring "Generated message codec modules, one per message.", "", "__all__ = ["]
    ++ messages.map (fun m => "    " ++ textLiteral m.symbol ++ ",")
    ++ ["]", ""])

/-- The module that finds the codec of a message by name. -/
def registryModule (messages : List MessagePlan) : String :=
  unlines ([header, docstring "Registry of generated protobuf wire codecs.", "",
      "from collections import namedtuple",
      "from importlib import import_module",
      "",
      "MessageHandler = namedtuple(\"MessageHandler\", [\"encode\", \"decode\"])",
      "",
      "_MESSAGES = \x7b"]
    ++ messages.map (fun m => "    " ++ textLiteral m.fullName ++ ": " ++ textLiteral m.symbol ++ ",")
    ++ ["\x7d", "", "",
      "def get_message_handlers():",
      "    " ++ docstring "Return encode/decode handlers keyed by full message name and by symbol.",
      "",
      "    handlers = \x7b\x7d",
      "    for full_name, symbol in _MESSAGES.items():",
      "        module = import_module(f\"\x7b__name__\x7d.messages.\x7bsymbol\x7d\")",
      "        handler = MessageHandler(",
      "            getattr(module, f\"\x7bsymbol\x7dEncode\"),",
      "            getattr(module, f\"\x7bsymbol\x7dDecode\"),",
      "        )",
      "        handlers[full_name] = handler",
      "        handlers.setdefault(symbol, handler)",
      "    return handlers",
      "", "",
      "__all__ = [\"MessageHandler\", \"get_message_handlers\"]",
      ""])

def readme (inputs : List String) (messages : List MessagePlan) : String :=
  let listed := inputs.map fun name => "- " ++ name
  let described := messages.map fun m =>
    "- `" ++ m.fullName ++ "`: `messages/" ++ m.symbol ++ ".py` (`" ++ m.symbol ++ "Encode`, `" ++ m.symbol
      ++ "Decode`)"
  let sample :=
    match messages with
    | m :: _ =>
      ["encoded = handlers[\"" ++ m.fullName ++ "\"].encode(\x7b\x7d)",
        "decoded = handlers[\"" ++ m.fullName ++ "\"].decode(encoded)"]
    | [] => []
  unlines (["# Generated protobuf wire codecs", "", "Files in this directory are produced by proto2wire.", "",
      "## Proto inputs"]
    ++ (if inputs.isEmpty then ["- (none)"] else listed)
    ++ ["", "## Supported messages"]
    ++ (if messages.isEmpty then ["- (none detected)"] else described)
    ++ ["", "## Usage", "", "```python", "from . import get_message_handlers", "",
      "handlers = get_message_handlers()", ""]
    ++ sample
    ++ ["```", ""])

def messageFile (settings : Settings) (symbols : Table String) (m : MessagePlan) :
    Except Error GeneratedFile := do
  let content ← ({ message := m, symbols, settings } : Emitter).render
  return ⟨Naming.sanitizePath ("messages/" ++ m.symbol ++ ".py"), content⟩

/-- All the files of a package. `runtime` is the text of the shared runtime module. -/
def package (settings : Settings) (runtime : String) (inputs : List String) (messages : List MessagePlan) :
    Except Error (List GeneratedFile) := do
  let symbols := Table.ofPairs (messages.map fun m => (m.fullName, m.symbol))
  let modules ← messages.mapM (messageFile settings symbols)
  return [⟨"__init__.py", registryModule messages⟩,
      ⟨settings.runtimeModule ++ ".py", runtime⟩,
      ⟨"messages/__init__.py", messagesModule messages⟩]
    ++ modules ++ [⟨"README.md", readme inputs messages⟩]

end MessageCodec.Source
