import DreamWorld.Path

/-!
# Command-line options

The commands that read a compiled world take the name of its file, further
arguments, and a directory for resources.  The directory may stand anywhere, as
two arguments or as one; of several the last counts.  Without one, resources are
looked for beside the compiled file.
-/

namespace DreamWorld.Command

/-- What a command is asked to work on. -/
structure Config where
  /-- The file of the compiled world. -/
  compiled : String
  /-- The directory of the resources. -/
  resources : String
  /-- What follows the compiled file. -/
  arguments : List String
deriving DecidableEq

inductive ConfigError where
  | missingCompiledFile
  | missingValue (option : String)
  | unknownOption (option : String)
deriving DecidableEq

def ConfigError.message : ConfigError → String
  | .missingCompiledFile => "missing compiled file"
  | .missingValue option => "option '" ++ option ++ "' requires a value"
  | .unknownOption option => "unknown option '" ++ option ++ "'"

/-! ## The directory of a file -/

/-- Pieces of a file path without the last ones that name nothing. -/
def trimPieces (pieces : List String) : List String :=
  (pieces.reverse.dropWhile fun piece => piece == "" || piece == ".").reverse

/-- Pieces without the last one that names something, trimmed. -/
def parentPieces (pieces : List String) : List String :=
  trimPieces (trimPieces pieces).dropLast

/-- The directory part of a file path, as it is spelled there.  It is empty if
the path has none. -/
def directoryOf (file : String) : String :=
  match Path.allPieces file with
  | [] => ""
  | first :: rest =>
      if first = "" ∧ rest ≠ [] then
        if trimPieces rest = [] then "" else "/" ++ String.intercalate "/" (parentPieces rest)
      else if first = "." then
        if trimPieces rest = [] then "" else String.intercalate "/" (first :: parentPieces rest)
      else String.intercalate "/" (parentPieces (first :: rest))

/-- Where the resources of a compiled file are looked for. -/
def defaultResources (compiled : String) : String :=
  let directory := directoryOf compiled
  if directory = "" then "." else directory

/-! ## Reading arguments -/

/-- Arguments sorted into those with a place of their own and the rest. -/
structure Options where
  resources? : Option String := none
  positional : List String := []
deriving DecidableEq

def resourcesOption : String :=
  "--resources"

/-- The text after a given start. -/
def afterStart? (start text : String) : Option String :=
  if start.toList.isPrefixOf text.toList then
    some (String.ofList (text.toList.drop start.toList.length))
  else none

/-- Sorts further arguments from left to right. -/
def Options.read (options : Options) : List String → Except ConfigError Options
  | [] => .ok options
  | argument :: rest =>
      if argument = resourcesOption then
        match rest with
        | [] => .error (.missingValue argument)
        | value :: rest => Options.read { options with resources? := some value } rest
      else
        match afterStart? (resourcesOption ++ "=") argument with
        | some value => Options.read { options with resources? := some value } rest
        | none =>
            if (afterStart? "--" argument).isSome then .error (.unknownOption argument)
            else Options.read { options with positional := options.positional ++ [argument] } rest

/-- Reads the arguments that follow the name of a command. -/
def Config.parse (arguments : List String) : Except ConfigError Config :=
  match Options.read {} arguments with
  | .error error => .error error
  | .ok options =>
      match options.positional with
      | [] => .error .missingCompiledFile
      | compiled :: arguments =>
          .ok
            { compiled
              resources := options.resources?.getD (defaultResources compiled)
              arguments }

end DreamWorld.Command
