/-
Switch — the options of the command line.

Every option has a long name, and some have a letter too.  An option that
takes a value takes exactly one; some may be given again and again, all
others once.
-/

namespace AndroidLint

namespace CommandLine

/-- The options. -/
inductive Switch where
  | config
  | target
  | exclude
  | format
  | output
  | minSdk
  | enable
  | disable
  | listRules
  | parallel
  | noFail
  | verbose
  | quiet
  | completions
  | help
  | version
deriving DecidableEq

namespace Switch

/-- All options, in the order in which they are described. -/
def all : List Switch :=
  [config, target, exclude, format, output, minSdk, enable, disable, listRules, parallel, noFail,
    verbose, quiet, completions, help, version]

/-- The long name of an option. -/
def long : Switch → String
  | config => "config"
  | target => "target"
  | exclude => "exclude"
  | format => "format"
  | output => "output"
  | minSdk => "min-sdk"
  | enable => "enable"
  | disable => "disable"
  | listRules => "list-rules"
  | parallel => "parallel"
  | noFail => "no-fail"
  | verbose => "verbose"
  | quiet => "quiet"
  | completions => "completions"
  | help => "help"
  | version => "version"

/-- The letter of an option. -/
def letter? : Switch → Option Char
  | config => some 'c'
  | target => some 't'
  | exclude => some 'e'
  | format => some 'f'
  | output => some 'o'
  | verbose => some 'v'
  | quiet => some 'q'
  | help => some 'h'
  | version => some 'V'
  | _ => none

/-- Whether an option takes a value. -/
def takesValue : Switch → Bool
  | config | target | exclude | format | output | minSdk | enable | disable | parallel
  | completions => true
  | listRules | noFail | verbose | quiet | help | version => false

/-- Whether an option may be given more than once. -/
def mayRepeat : Switch → Bool
  | target | exclude | enable | disable => true
  | _ => false

/-- What an option is for. -/
def purpose : Switch → String
  | config => "Path to configuration file"
  | target => "Folder to analyze, below the project; may be repeated"
  | exclude => "Pattern of paths to leave out; may be repeated"
  | format => "Output format: terminal, compact, json or sarif"
  | output => "Output file, for json and sarif"
  | minSdk => "Lowest level of the platform"
  | enable => "Rules to add, with commas between them; \"all\" adds every rule"
  | disable => "Rules to leave out, with commas between them"
  | listRules => "Print the rules and exit"
  | parallel => "Whether files may be checked at the same time: true or false"
  | noFail => "Exit with status 0 even when errors are reported"
  | verbose => "Verbose output"
  | quiet => "Print results only"
  | completions => "Print the words that a shell can complete"
  | help => "Print help"
  | version => "Print version"

/-- The option with a long name. -/
def ofLong? (name : String) : Option Switch :=
  all.find? (·.long == name)

/-- The option with a letter. -/
def ofLetter? (c : Char) : Option Switch :=
  all.find? (·.letter? == some c)

end Switch

end CommandLine

end AndroidLint
