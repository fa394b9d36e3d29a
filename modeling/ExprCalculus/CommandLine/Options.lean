/-!
# Options

Options stand before the other arguments.  A short option is a letter after one dash, and several may share
the dash; a long one is a word after two dashes, of which a beginning is enough that fits no other word.  The
value of a short option is the rest of its argument or the next argument, that of a long one follows an equals
sign or is the next argument.  A lone dash is no option, and two dashes end the options.
-/

namespace ExprCalculus.CommandLine

/-- What an option asks for. -/
inductive Choice where
  | help
  | version
  | debug
  | real
  | vector
  | interval
  | derive
  | simplify
  | fixpoint
  | algebra
  | plainProducts
  | limit
  deriving DecidableEq, Repr

/-- Whether an option has a value. -/
def Choice.hasValue : Choice → Bool
  | .derive | .limit => true
  | _ => false

/-- The letters of the short options. -/
def shortOptions : List (Char × Choice) :=
  [('h', .help), ('v', .version), ('d', .debug), ('r', .real), ('V', .vector), ('i', .interval),
    ('D', .derive), ('s', .simplify), ('f', .fixpoint), ('S', .algebra)]

/-- The words of the long options. -/
def longOptions : List (String × Choice) :=
  [("help", .help), ("version", .version), ("debug", .debug), ("real", .real), ("vector", .vector),
    ("interval", .interval), ("derive", .derive), ("simplify", .simplify), ("fixpoint", .fixpoint),
    ("sympy", .algebra), ("nomul", .plainProducts), ("limit", .limit)]

/-- An option as given. -/
structure Given where
  choice : Choice
  isLong : Bool
  value : String
  deriving DecidableEq, Repr

/-- Why the options cannot be read. -/
inductive OptionError where
  | notRecognized (dashed : String)
  | needsValue (dashed : String)
  | takesNoValue (dashed : String)
  | notUnique (dashed : String)
  deriving DecidableEq, Repr

/-- The message of an error. -/
def OptionError.message : OptionError → String
  | .notRecognized o => "option " ++ o ++ " not recognized"
  | .needsValue o => "option " ++ o ++ " requires argument"
  | .takesNoValue o => "option " ++ o ++ " must not have an argument"
  | .notUnique o => "option " ++ o ++ " not a unique prefix"

/-- The options of one argument. -/
inductive Scanned where
  | complete (options : List Given)
  /-- the last option still needs a value -/
  | pending (options : List Given) (choice : Choice) (isLong : Bool) (dashed : String)

/-- Puts an option before others. -/
def Scanned.cons (g : Given) : Scanned → Scanned
  | .complete gs => .complete (g :: gs)
  | .pending gs c l d => .pending (g :: gs) c l d

/-- The options behind one dash. -/
def scanShort : List Char → Except OptionError Scanned
  | [] => .ok (.complete [])
  | c :: cs =>
    let dashed := String.ofList ['-', c]
    match shortOptions.lookup c with
    | none => .error (.notRecognized dashed)
    | some choice =>
      if choice.hasValue then
        if cs.isEmpty then .ok (.pending [] choice false dashed)
        else .ok (.complete [⟨choice, false, String.ofList cs⟩])
      else (scanShort cs).map (.cons ⟨choice, false, ""⟩)

/-- The long option that a word stands for: the word itself, or the only one it begins. -/
def findLong (word : List Char) : Except OptionError (String × Choice) :=
  let dashed := "--" ++ String.ofList word
  match longOptions.filter fun o => word.isPrefixOf o.1.toList with
  | [] => .error (.notRecognized dashed)
  | [o] => .ok o
  | os =>
    match os.find? fun o => o.1.toList == word with
    | some o => .ok o
    | none => .error (.notUnique dashed)

/-- A text split at the first occurrence of a character. -/
def splitFirst (sep : Char) (cs : List Char) : List Char × Option (List Char) :=
  (cs.takeWhile (· ≠ sep),
    match cs.dropWhile (· ≠ sep) with
    | [] => none
    | _ :: rest => some rest)

/-- The option behind two dashes. -/
def scanLong (cs : List Char) : Except OptionError Scanned :=
  let (word, value) := splitFirst '=' cs
  match findLong word with
  | .error e => .error e
  | .ok (name, choice) =>
    let dashed := "--" ++ name
    match choice.hasValue, value with
    | true, some v => .ok (.complete [⟨choice, true, String.ofList v⟩])
    | true, none => .ok (.pending [] choice true dashed)
    | false, some _ => .error (.takesNoValue dashed)
    | false, none => .ok (.complete [⟨choice, true, ""⟩])

/-- The options of one argument; none if it is not one. -/
def scan (arg : List Char) : Option (Except OptionError Scanned) :=
  match arg with
  | '-' :: '-' :: cs => some (scanLong cs)
  | '-' :: c :: cs => some (scanShort (c :: cs))
  | _ => none

/-- The options at the start of a list of arguments, and the arguments after them. -/
def readOptions : List String → Except OptionError (List Given × List String)
  | [] => .ok ([], [])
  | arg :: rest =>
    if arg = "--" then .ok ([], rest)
    else
      match scan arg.toList with
      | none => .ok ([], arg :: rest)
      | some (.error e) => .error e
      | some (.ok (.complete gs)) => (readOptions rest).map fun (hs, args) => (gs ++ hs, args)
      | some (.ok (.pending gs choice isLong dashed)) =>
        match rest with
        | [] => .error (.needsValue dashed)
        | v :: rest =>
          (readOptions rest).map fun (hs, args) => (gs ++ ⟨choice, isLong, v⟩ :: hs, args)

/-- Whether an option is given. -/
def isGiven (gs : List Given) (c : Choice) : Bool := gs.any fun g => g.choice = c

/-- The last value of an option; one of the long form counts before all of the short form. -/
def valueOf (gs : List Given) (c : Choice) : Option String :=
  let last (isLong : Bool) := gs.reverse.find? fun g => g.choice = c ∧ g.isLong = isLong
  ((last true).or (last false)).map Given.value

/-- How the program is used. -/
def usage : String :=
  "usage: mathexpr [options] expression [name=value ...]\n"
    ++ "\n"
    ++ "  -h, --help               - Show help information\n"
    ++ "  -v, --version            - Show version string\n"
    ++ "  -d, --debug              - Log debug info to stderr\n"
    ++ "  -r, --real               - Evaluate as real number (default)\n"
    ++ "  -V, --vector             - Evaluate as vector, bind values as name=a,b,c\n"
    ++ "  -i, --interval           - Evaluate as interval, bind values as name=lo:hi\n"
    ++ "  -D, --derive=var         - Differentiate with respect to var before anything else\n"
    ++ "  -s, --simplify           - Simplify with a single pass\n"
    ++ "  -f, --fixpoint           - Simplify repeatedly until the expression stops changing\n"
    ++ "  -S, --sympy              - Print SymPy form of expression\n"
    ++ "  --nomul                  - Turn off implicit multiplication\n"
    ++ "  --limit=N                - Maximum number of passes for --fixpoint\n"

/-- The version of the program. -/
def version : String := "1.0.0"

end ExprCalculus.CommandLine
