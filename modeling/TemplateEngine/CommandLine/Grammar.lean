-- The words of the command line: commands inside commands, and the options of each.
namespace TemplateEngine.CommandLine

-- Why a command line runs nothing. Help and the version are asked for; all else is a mistake.
inductive Refusal where
  | help
  | version
  | nothingGiven
  | missingCommand
  | unknownCommand
  | unknownArgument
  | missingArgument
  | conflict
  | invalidValue
  | needlessValue
deriving DecidableEq, Repr

def Refusal.status : Refusal → Nat
  | help | version => 0
  | _ => 2

-- A command, or the place before any.
inductive Level where
  | root
  | render
  | compile
  | cache
  | list
  | clear
deriving DecidableEq, Repr

inductive Flag where
  | verbose
  | quiet
  | strict
  | codeOnly
deriving DecidableEq, Repr

inductive Setting where
  | config
  | templateDir
  | cacheDir
  | var
  | varsFile
deriving DecidableEq, Repr

namespace Setting

-- Only variables may be set more than once.
def repeats (s : Setting) : Bool := s == var

-- All other settings are paths, and paths are not empty.
def accepts (s : Setting) (value : String) : Bool := s == var || !value.isEmpty

end Setting

-- What an option stands for: a request that ends the reading, a flag, or a setting, which has a
-- value.
inductive Switch where
  | request (r : Refusal)
  | flag (f : Flag)
  | setting (s : Setting)
deriving DecidableEq, Repr

namespace Level

def commonSwitches : List (String × Switch) :=
  [("help", .request .help),
   ("verbose", .flag .verbose),
   ("quiet", .flag .quiet),
   ("config", .setting .config),
   ("template-dir", .setting .templateDir),
   ("cache-dir", .setting .cacheDir)]

def ownSwitches : Level → List (String × Switch)
  | root => [("version", .request .version)]
  | render =>
    [("var", .setting .var), ("vars-file", .setting .varsFile), ("strict", .flag .strict)]
  | compile => [("code-only", .flag .codeOnly)]
  | _ => []

def switch? (l : Level) (name : String) : Option Switch := (commonSwitches ++ l.ownSwitches).lookup name

def letter? (l : Level) (c : Char) : Option Switch :=
  match c, l with
  | 'h', _ => some (.request .help)
  | 'v', _ => some (.flag .verbose)
  | 'q', _ => some (.flag .quiet)
  | 'V', root => some (.request .version)
  | _, _ => none

def commands : Level → List (String × Level)
  | root => [("render", render), ("compile", compile), ("cache", cache)]
  | cache => [("list", list), ("clear", clear)]
  | _ => []

def command? (l : Level) (name : String) : Option Level := l.commands.lookup name

def hasCommands (l : Level) : Bool := !l.commands.isEmpty

-- Whether a word is a command of its level. Where there are commands there is one for help.
def isCommand (l : Level) (name : String) : Bool :=
  (l.command? name).isSome || (l.hasCommands && name == "help")

def takesName (l : Level) : Bool := l == render || l == compile

end Level

end TemplateEngine.CommandLine
