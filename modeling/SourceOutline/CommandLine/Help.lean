/-! Texts about the program itself. -/
namespace SourceOutline.CommandLine

def versionText : String := "cxx-dump 0.1.0\n"

def usage : String := "Usage: cxx-dump [OPTIONS] <PATHS>...\n"

def about : String := "Dump rewritten C++ token streams and declaration outlines\n"

def refusedText : String :=
  "error: invalid arguments\n\n" ++ usage ++ "\nFor more information, try '--help'.\n"

/-- One line for each option. -/
def shortHelp : String :=
  about ++ "\n" ++ usage ++ "\nArguments:\n  <PATHS>...  Source files or directories\n\nOptions:\n"
  ++ "  -D, --define <NAME[=VALUE]>    Replace every NAME token (NAME or NAME=VALUE)\n"
  ++ "  -M, --macro <NAME[=VALUE]>     "
  ++ "Replace NAME(...) calls, dropping the arguments (NAME or NAME=VALUE)\n"
  ++ "      --definitions <FILE>       TOML file with [defines] and [macros] tables\n"
  ++ "      --mode <MODE>              [default: tokens] [possible values: tokens, outline]\n"
  ++ "      --format <FORMAT>          [default: text] [possible values: text, json]\n"
  ++ "      --trivia                   Print comments and directives attached to tokens\n"
  ++ "      --no-recursive             "
  ++ "Only take sources directly inside the given directories\n"
  ++ "  -v, --verbose...               Raise log verbosity (-v info, -vv debug)\n"
  ++ "      --log-output <LOG_OUTPUT>  "
  ++ "[default: facade] [possible values: facade, console, json]\n"
  ++ "  -h, --help                     Print help (see more with '--help')\n"
  ++ "  -V, --version                  Print version\n"

/-- A paragraph for each option. -/
def longHelp : String :=
  about ++ "\n" ++ usage ++ "\nArguments:\n  <PATHS>...\n          Source files or directories\n"
  ++ "\nOptions:\n"
  ++ "  -D, --define <NAME[=VALUE]>\n"
  ++ "          Replace every NAME token (NAME or NAME=VALUE)\n\n"
  ++ "  -M, --macro <NAME[=VALUE]>\n"
  ++ "          Replace NAME(...) calls, dropping the arguments (NAME or NAME=VALUE)\n\n"
  ++ "      --definitions <FILE>\n"
  ++ "          TOML file with [defines] and [macros] tables\n\n"
  ++ "      --mode <MODE>\n"
  ++ "          [default: tokens]\n\n"
  ++ "          Possible values:\n"
  ++ "          - tokens:  Rewritten token stream\n"
  ++ "          - outline: Fully-qualified namespaces, classes and type aliases\n\n"
  ++ "      --format <FORMAT>\n"
  ++ "          [default: text]\n\n"
  ++ "          Possible values:\n"
  ++ "          - text: One aligned line per item\n"
  ++ "          - json: One JSON object per line\n\n"
  ++ "      --trivia\n"
  ++ "          Print comments and directives attached to tokens\n\n"
  ++ "      --no-recursive\n"
  ++ "          Only take sources directly inside the given directories\n\n"
  ++ "  -v, --verbose...\n"
  ++ "          Raise log verbosity (-v info, -vv debug)\n\n"
  ++ "      --log-output <LOG_OUTPUT>\n"
  ++ "          [default: facade]\n\n"
  ++ "          Possible values:\n"
  ++ "          - facade:  Through the `log` facade to env_logger (honours RUST_LOG)\n"
  ++ "          - console: Human readable lines on stderr\n"
  ++ "          - json:    JSON lines on stderr\n\n"
  ++ "  -h, --help\n"
  ++ "          Print help (see a summary with '-h')\n\n"
  ++ "  -V, --version\n"
  ++ "          Print version\n"

end SourceOutline.CommandLine
