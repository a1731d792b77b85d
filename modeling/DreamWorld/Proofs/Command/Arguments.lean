import DreamWorld.Proofs.Command.Directory

/-!
# Arguments as units

What follows the name of a command is a row of units: the directory of the resources, which
takes two arguments or one, options that no command knows, and operands.  A list of arguments
is a row of units in at most one way, although a directory may look like an option.  Reading
goes through the units one by one; what it gives rests only on the directories, the unknown
options and the operands, each in their order, and not on how these stand among one another.
Only the option at the end whose directory is missing belongs to no unit.
-/

namespace DreamWorld.Command

variable {start text : String}

/-! ## Beginnings of arguments -/

/-- A text begins with another one. -/
def Begins (start text : String) : Prop :=
  start.toList <+: text.toList

instance (start text : String) : Decidable (Begins start text) :=
  inferInstanceAs (Decidable (start.toList <+: text.toList))

theorem begins_append (start text : String) : Begins start (start ++ text) := by
  simp [Begins]

theorem begins_iff : Begins start text ↔ ∃ rest, text = start ++ rest := by
  constructor
  · rintro ⟨rest, chars⟩
    exact ⟨String.ofList rest, by rw [← String.toList_inj, String.toList_append, ← chars]; simp⟩
  · rintro ⟨rest, rfl⟩
    exact begins_append start rest

theorem afterStart?_append (start text : String) :
    afterStart? start (start ++ text) = some text := by
  simp [afterStart?]

theorem isSome_afterStart?_iff : (afterStart? start text).isSome = true ↔ Begins start text := by
  simp [afterStart?, Begins]

theorem afterStart?_eq_none_iff : afterStart? start text = none ↔ ¬ Begins start text := by
  simp [afterStart?, Begins]

/-! ## Units -/

/-- An option other than the one for the directory of the resources. -/
@[ext]
structure UnknownOption where
  text : String
  begins_dashes : Begins "--" text
  ne_resources : text ≠ "--resources"
  not_joined : ¬ Begins "--resources=" text
deriving DecidableEq

/-- An argument that is no option. -/
@[ext]
structure Operand where
  text : String
  not_begins_dashes : ¬ Begins "--" text
deriving DecidableEq

/-- Arguments that are read together. -/
inductive ArgumentUnit where
  /-- The directory of the resources, as an argument after the option. -/
  | spaced (directory : String)
  /-- The directory of the resources, in one argument with the option. -/
  | joined (directory : String)
  | unknown (option : UnknownOption)
  | operand (argument : Operand)
deriving DecidableEq

namespace ArgumentUnit

/-- The arguments that a unit consists of. -/
def arguments : ArgumentUnit → List String
  | .spaced directory => ["--resources", directory]
  | .joined directory => ["--resources=" ++ directory]
  | .unknown option => [option.text]
  | .operand argument => [argument.text]

def directory? : ArgumentUnit → Option String
  | .spaced directory | .joined directory => some directory
  | .unknown _ | .operand _ => none

def unknown? : ArgumentUnit → Option String
  | .unknown option => some option.text
  | .spaced _ | .joined _ | .operand _ => none

def operand? : ArgumentUnit → Option String
  | .operand argument => some argument.text
  | .spaced _ | .joined _ | .unknown _ => none

/-- The unit gives the directory of the resources. -/
def isDirectory (unit : ArgumentUnit) : Bool :=
  unit.directory?.isSome

end ArgumentUnit

/-- The arguments of a row of units. -/
def argumentsOf (units : List ArgumentUnit) : List String :=
  units.flatMap ArgumentUnit.arguments

def directories (units : List ArgumentUnit) : List String :=
  units.filterMap ArgumentUnit.directory?

def unknownOptions (units : List ArgumentUnit) : List String :=
  units.filterMap ArgumentUnit.unknown?

def operands (units : List ArgumentUnit) : List String :=
  units.filterMap ArgumentUnit.operand?

/-- The directories stand elsewhere among the other units; they keep their order, and so do
the others. -/
structure Rearranged (units others : List ArgumentUnit) : Prop where
  directories_eq :
    others.filter ArgumentUnit.isDirectory = units.filter ArgumentUnit.isDirectory
  rest_eq :
    (others.filter fun unit => !unit.isDirectory) = units.filter fun unit => !unit.isDirectory

/-! ## One row for a list of arguments -/

/-- What an argument begins: a unit with the directory as the next argument or as part of this
one, an unknown option or an operand. -/
inductive UnitKind where
  | spaced
  | joined
  | unknown
  | operand
deriving DecidableEq

/-- The kind of the unit whose first argument this is. -/
def kindOf (argument : String) : UnitKind :=
  if argument = "--resources" then .spaced
  else if Begins "--resources=" argument then .joined
  else if Begins "--" argument then .unknown
  else .operand

theorem joined_ne_resources (directory : String) :
    "--resources=" ++ directory ≠ "--resources" := by
  intro same
  have begun := begins_append "--resources=" directory
  rw [same] at begun
  exact absurd begun (by decide)

theorem kindOf_joined (directory : String) :
    kindOf ("--resources=" ++ directory) = .joined := by
  rw [kindOf, if_neg (joined_ne_resources directory), if_pos (begins_append _ directory)]

theorem UnknownOption.kindOf_text (option : UnknownOption) : kindOf option.text = .unknown := by
  rw [kindOf, if_neg option.ne_resources, if_neg option.not_joined, if_pos option.begins_dashes]

namespace Operand

variable (argument : Operand)

theorem ne_resources : argument.text ≠ "--resources" := by
  intro same
  exact argument.not_begins_dashes (by rw [same]; decide)

theorem not_joined : ¬ Begins "--resources=" argument.text := by
  have dashed : Begins "--" "--resources=" := by decide
  exact fun joined => argument.not_begins_dashes (dashed.trans joined)

theorem kindOf_text : kindOf argument.text = .operand := by
  rw [kindOf, if_neg argument.ne_resources, if_neg argument.not_joined,
    if_neg argument.not_begins_dashes]

end Operand

namespace ArgumentUnit

variable {unit other : ArgumentUnit} {rest otherRest : List String}

def kind : ArgumentUnit → UnitKind
  | .spaced _ => .spaced
  | .joined _ => .joined
  | .unknown _ => .unknown
  | .operand _ => .operand

theorem exists_arguments_eq (unit : ArgumentUnit) :
    ∃ first more, unit.arguments = first :: more ∧ kindOf first = unit.kind := by
  cases unit with
  | spaced directory => exact ⟨_, [directory], rfl, rfl⟩
  | joined directory => exact ⟨_, [], rfl, kindOf_joined directory⟩
  | unknown option => exact ⟨_, [], rfl, option.kindOf_text⟩
  | operand argument => exact ⟨_, [], rfl, argument.kindOf_text⟩

/-- Two rows that give the same arguments begin with the same unit. -/
theorem arguments_append_inj (same : unit.arguments ++ rest = other.arguments ++ otherRest) :
    unit = other ∧ rest = otherRest := by
  have kindEq : unit.kind = other.kind := by
    rcases unit.exists_arguments_eq with ⟨first, more, arguments, kind⟩
    rcases other.exists_arguments_eq with ⟨otherFirst, otherMore, otherArguments, otherKind⟩
    rw [arguments, otherArguments] at same
    rw [← kind, ← otherKind, (List.cons_eq_cons.mp same).1]
  -- Only units of one kind are left to compare, as the first arguments agree.
  cases unit with
  | spaced directory =>
      cases other <;> cases kindEq
      simpa [arguments] using same
  | joined directory =>
      cases other <;> cases kindEq
      simpa [arguments] using same
  | unknown option =>
      cases other <;> cases kindEq
      simpa [arguments, UnknownOption.ext_iff] using same
  | operand argument =>
      cases other <;> cases kindEq
      simpa [arguments, Operand.ext_iff] using same

end ArgumentUnit

theorem argumentsOf_cons (unit : ArgumentUnit) (units : List ArgumentUnit) :
    argumentsOf (unit :: units) = unit.arguments ++ argumentsOf units :=
  List.flatMap_cons

theorem argumentsOf_cons_ne_nil (unit : ArgumentUnit) (units : List ArgumentUnit) :
    argumentsOf (unit :: units) ≠ [] := by
  rcases unit.exists_arguments_eq with ⟨first, more, arguments, _⟩
  rw [argumentsOf_cons, arguments, List.cons_append]
  exact List.cons_ne_nil _ _

/-- A list of arguments is one row of units at most. -/
theorem argumentsOf_inj {units others : List ArgumentUnit}
    (same : argumentsOf units = argumentsOf others) : units = others := by
  induction units generalizing others with
  | nil =>
      cases others with
      | nil => rfl
      | cons other others => exact absurd same.symm (argumentsOf_cons_ne_nil other others)
  | cons unit units ih =>
      cases others with
      | nil => exact absurd same (argumentsOf_cons_ne_nil unit units)
      | cons other others =>
          rw [argumentsOf_cons, argumentsOf_cons] at same
          rcases ArgumentUnit.arguments_append_inj same with ⟨rfl, restEq⟩
          rw [ih restEq]

theorem exists_unit_of_ne_resources {argument : String}
    (ne_resources : argument ≠ "--resources") :
    ∃ unit : ArgumentUnit, unit.arguments = [argument] := by
  by_cases joined : Begins "--resources=" argument
  · rcases begins_iff.mp joined with ⟨directory, rfl⟩
    exact ⟨.joined directory, rfl⟩
  · by_cases dashes : Begins "--" argument
    · exact ⟨.unknown ⟨argument, dashes, ne_resources, joined⟩, rfl⟩
    · exact ⟨.operand ⟨argument, dashes⟩, rfl⟩

/-- Every list of arguments is a row of units, but for an option at its end whose directory is
missing. -/
theorem exists_units : (arguments : List String) → ∃ units,
    arguments = argumentsOf units ∨ arguments = argumentsOf units ++ ["--resources"]
  | [] => ⟨[], .inl rfl⟩
  | argument :: rest => by
      by_cases separate : argument = "--resources"
      -- What follows the option is its directory, so it is never looked at by itself.
      · subst separate
        match rest with
        | [] => exact ⟨[], .inr rfl⟩
        | directory :: rest =>
            rcases exists_units rest with ⟨units, rfl | rfl⟩
            · exact ⟨.spaced directory :: units, .inl rfl⟩
            · exact ⟨.spaced directory :: units, .inr rfl⟩
      · rcases exists_unit_of_ne_resources separate with ⟨unit, unitEq⟩
        have split (units : List ArgumentUnit) :
            argumentsOf (unit :: units) = argument :: argumentsOf units := by
          rw [argumentsOf_cons, unitEq, List.singleton_append]
        rcases exists_units rest with ⟨units, rfl | rfl⟩
        · exact ⟨unit :: units, .inl (split units).symm⟩
        · exact ⟨unit :: units, .inr (by rw [split, List.cons_append])⟩

/-! ## Reading units -/

/-- What has been read so far, together with the next unit. -/
def Options.take (options : Options) : ArgumentUnit → Except ConfigError Options
  | .spaced directory | .joined directory => .ok { options with resources? := some directory }
  | .unknown option => .error (.unknownOption option.text)
  | .operand argument => .ok { options with positional := options.positional ++ [argument.text] }

theorem resourcesOption_eq : resourcesOption = "--resources" :=
  rfl

theorem joinedStart_eq : "--resources" ++ "=" = "--resources=" :=
  rfl

namespace Options

/-- The arguments of a unit are read together. -/
theorem read_arguments_append (options : Options) (unit : ArgumentUnit) (rest : List String) :
    options.read (unit.arguments ++ rest) =
      (options.take unit).bind fun next => next.read rest := by
  cases unit with
  | spaced directory => rfl
  | joined directory =>
      rw [ArgumentUnit.arguments, List.singleton_append, Options.read.eq_def]
      simp only [resourcesOption_eq, joinedStart_eq, joined_ne_resources,
        afterStart?_append, if_false]
      rfl
  | unknown option =>
      have dashed := isSome_afterStart?_iff.mpr option.begins_dashes
      have notJoined := afterStart?_eq_none_iff.mpr option.not_joined
      rw [ArgumentUnit.arguments, List.singleton_append, Options.read.eq_def]
      simp only [resourcesOption_eq, joinedStart_eq, option.ne_resources, notJoined,
        dashed, if_false, if_true]
      rfl
  | operand argument =>
      have notDashed := afterStart?_eq_none_iff.mpr argument.not_begins_dashes
      have notJoined := afterStart?_eq_none_iff.mpr argument.not_joined
      rw [ArgumentUnit.arguments, List.singleton_append, Options.read.eq_def]
      simp only [resourcesOption_eq, joinedStart_eq, argument.ne_resources, notJoined,
        notDashed, if_false, Option.isSome_none]
      rfl

/-- Reading a row of units takes one unit after another. -/
theorem read_argumentsOf_append (options : Options) (units : List ArgumentUnit)
    (rest : List String) :
    options.read (argumentsOf units ++ rest) =
      (units.foldlM take options).bind fun next => next.read rest := by
  induction units generalizing options with
  | nil => rfl
  | cons unit units ih =>
      rw [argumentsOf_cons, List.append_assoc, read_arguments_append, List.foldlM_cons]
      cases options.take unit with
      | error error => rfl
      | ok next => exact ih next

/-- What has been read after a row of units without unknown options. -/
def after (options : Options) (units : List ArgumentUnit) : Options :=
  { resources? := (directories units).getLast?.or options.resources?
    positional := options.positional ++ operands units }

theorem after_directory (options : Options) (directory : String) (units : List ArgumentUnit) :
    after { options with resources? := some directory } units =
      { resources? := (directory :: directories units).getLast?.or options.resources?
        positional := options.positional ++ operands units } := by
  rw [after, List.getLast?_cons]
  cases (directories units).getLast? <;> rfl

theorem after_operand (options : Options) (argument : String) (units : List ArgumentUnit) :
    after { options with positional := options.positional ++ [argument] } units =
      { resources? := (directories units).getLast?.or options.resources?
        positional := options.positional ++ argument :: operands units } := by
  rw [after, List.append_assoc, List.singleton_append]

/-- The first unknown option ends the reading.  Without one all units are read. -/
theorem foldlM_take (options : Options) (units : List ArgumentUnit) :
    units.foldlM take options =
      match unknownOptions units with
      | [] => .ok (options.after units)
      | option :: _ => .error (.unknownOption option) := by
  induction units generalizing options with
  | nil => exact congrArg Except.ok (by simp [after, directories, operands])
  | cons unit units ih =>
      rw [List.foldlM_cons]
      cases unit with
      | spaced directory | joined directory =>
          exact (ih _).trans (by rw [after_directory]; rfl)
      | unknown option => rfl
      | operand argument => exact (ih _).trans (by rw [after_operand]; rfl)

end Options

/-! ## Parsing units -/

namespace Config

variable {units others : List ArgumentUnit}

/-- What a row of units without unknown options asks for. -/
def ofUnits (units : List ArgumentUnit) : Except ConfigError Config :=
  match operands units with
  | [] => .error .missingCompiledFile
  | compiled :: arguments =>
      .ok
        { compiled
          resources := (directories units).getLast?.getD (defaultResources compiled)
          arguments }

/-- What parsing gives rests on the unknown options, the operands and the directories. -/
theorem parse_argumentsOf (units : List ArgumentUnit) :
    parse (argumentsOf units) =
      match unknownOptions units with
      | [] => ofUnits units
      | option :: _ => .error (.unknownOption option) := by
  have run := Options.read_argumentsOf_append {} units []
  rw [List.append_nil, Options.foldlM_take] at run
  rw [parse, run]
  cases unknownOptions units with
  | nil =>
      have last : (Options.after {} units).resources? = (directories units).getLast? := by
        rw [Options.after, Option.or_none]
      simp only [Except.bind, Options.read, last]
      rfl
  | cons option more => rfl

/-- Where the option for the directory ends a row of units, the directory is missing, unless
an unknown option comes first. -/
theorem parse_argumentsOf_append_resources (units : List ArgumentUnit) :
    parse (argumentsOf units ++ ["--resources"]) =
      match unknownOptions units with
      | [] => .error (.missingValue "--resources")
      | option :: _ => .error (.unknownOption option) := by
  rw [parse, Options.read_argumentsOf_append, Options.foldlM_take]
  cases unknownOptions units <;> rfl

theorem parse_congr (sameUnknown : unknownOptions others = unknownOptions units)
    (sameOperands : operands others = operands units)
    (sameDirectories : directories others = directories units) :
    parse (argumentsOf others) = parse (argumentsOf units) := by
  rw [parse_argumentsOf, parse_argumentsOf, ofUnits, ofUnits, sameUnknown, sameOperands,
    sameDirectories]

theorem ofUnits_eq_ok_iff {config : Config} :
    ofUnits units = .ok config ↔ operands units = config.compiled :: config.arguments ∧
      config.resources = (directories units).getLast?.getD (defaultResources config.compiled) := by
  rcases config with ⟨compiled, resources, arguments⟩
  unfold ofUnits
  cases operands units with
  | nil => simp
  | cons first more =>
      simp only [Except.ok.injEq, mk.injEq, List.cons.injEq]
      constructor
      · rintro ⟨rfl, rfl, rfl⟩
        exact ⟨⟨rfl, rfl⟩, rfl⟩
      · rintro ⟨⟨rfl, rfl⟩, rfl⟩
        exact ⟨rfl, rfl, rfl⟩

end Config

/-! ## Moving units -/

/-- What is read off the units that two rows share is read off both rows. -/
theorem filterMap_eq_of_filter_eq {units others : List ArgumentUnit}
    {shared : ArgumentUnit → Bool} {part : ArgumentUnit → Option String}
    (same : others.filter shared = units.filter shared)
    (absent : ∀ unit, shared unit = false → part unit = none) :
    others.filterMap part = units.filterMap part := by
  have of_shared (row : List ArgumentUnit) :
      (row.filter shared).filterMap part = row.filterMap part := by
    rw [List.filterMap_filter]
    apply List.filterMap_congr
    intro unit _
    cases kept : shared unit with
    | true => rfl
    | false => rw [absent unit kept]; rfl
  rw [← of_shared others, same, of_shared units]

namespace Config

theorem parse_of_rearranged {units others : List ArgumentUnit}
    (rearranged : Rearranged units others) :
    parse (argumentsOf others) = parse (argumentsOf units) := by
  apply parse_congr
  · apply filterMap_eq_of_filter_eq rearranged.rest_eq
    intro unit directory
    cases unit with
    | spaced | joined | operand => rfl
    | unknown => cases directory
  · apply filterMap_eq_of_filter_eq rearranged.rest_eq
    intro unit directory
    cases unit with
    | spaced | joined | unknown => rfl
    | operand => cases directory
  · apply filterMap_eq_of_filter_eq rearranged.directories_eq
    intro unit other
    exact Option.not_isSome_iff_eq_none.mp (Bool.eq_false_iff.mp other)

theorem parse_of_joined (before after : List ArgumentUnit) (directory : String) :
    parse (argumentsOf (before ++ .joined directory :: after)) =
      parse (argumentsOf (before ++ .spaced directory :: after)) := by
  apply parse_congr
  · rw [unknownOptions, unknownOptions, List.filterMap_append, List.filterMap_append]
    rfl
  · rw [operands, operands, List.filterMap_append, List.filterMap_append]
    rfl
  · rw [directories, directories, List.filterMap_append, List.filterMap_append]
    rfl

/-- Every list of arguments is a row of units, but for an option at its end whose directory is
missing, and it is so in one way at most.  Parsing gives the same if a directory is written in
one argument with its option, and if directories are moved among the other units without
changing their order.  If it succeeds, the compiled file is the first operand, the arguments are
the other operands in order, and the resources are in the last directory that is given, or else
in that of the compiled file.  It fails with the first unknown option if there is one.  Without
one it fails if a directory is missing, and otherwise exactly if there is no operand, as the
compiled file is missing then. -/
theorem parse_units (units : List ArgumentUnit) :
    (∀ arguments, ∃ row,
      arguments = argumentsOf row ∨ arguments = argumentsOf row ++ ["--resources"]) ∧
    (∀ others, argumentsOf others = argumentsOf units → others = units) ∧
    (∀ before directory after, units = before ++ .spaced directory :: after →
      parse (argumentsOf (before ++ .joined directory :: after)) = parse (argumentsOf units)) ∧
    (∀ others, Rearranged units others →
      parse (argumentsOf others) = parse (argumentsOf units)) ∧
    (∀ config, parse (argumentsOf units) = .ok config →
      operands units = config.compiled :: config.arguments ∧
      (∀ directory, (directories units).getLast? = some directory →
        config.resources = directory) ∧
      (directories units = [] → IsDefault config.compiled config.resources)) ∧
    (∀ option, (unknownOptions units).head? = some option →
      parse (argumentsOf units) = .error (.unknownOption option) ∧
      parse (argumentsOf units ++ ["--resources"]) = .error (.unknownOption option)) ∧
    (unknownOptions units = [] →
      parse (argumentsOf units ++ ["--resources"]) = .error (.missingValue "--resources") ∧
      (parse (argumentsOf units) = .error .missingCompiledFile ↔ operands units = []) ∧
      (operands units ≠ [] → ∃ config, parse (argumentsOf units) = .ok config)) := by
  refine ⟨exists_units, fun _ same => argumentsOf_inj same, ?_,
    fun _ moved => parse_of_rearranged moved, ?_, ?_, ?_⟩
  · rintro before directory after rfl
    exact parse_of_joined before after directory
  · intro config parsed
    rw [parse_argumentsOf] at parsed
    cases unknownEq : unknownOptions units with
    | nil =>
        rw [unknownEq] at parsed
        rcases ofUnits_eq_ok_iff.mp parsed with ⟨operandsEq, resourcesEq⟩
        refine ⟨operandsEq, ?_, ?_⟩
        · intro directory last
          rw [resourcesEq, last, Option.getD_some]
        · intro none
          rw [resourcesEq, none]
          exact isDefault_defaultResources config.compiled
    | cons option more =>
        rw [unknownEq] at parsed
        cases parsed
  · intro option first
    rcases List.head?_eq_some_iff.mp first with ⟨more, unknownEq⟩
    rw [parse_argumentsOf, parse_argumentsOf_append_resources, unknownEq]
    exact ⟨rfl, rfl⟩
  · intro known
    rw [parse_argumentsOf, parse_argumentsOf_append_resources, known]
    unfold ofUnits
    cases operands units <;> simp

/-- A directory that looks like an option, and another one after the compiled file. -/
def galleryUnits : List ArgumentUnit :=
  [.spaced "--frames", .operand ⟨"build/world.json", by decide⟩, .joined "assets",
    .operand ⟨"/mob", by decide⟩]

/-- The same units with an option that is not known. -/
def verboseUnits : List ArgumentUnit :=
  galleryUnits ++ [.unknown ⟨"--verbose", by decide, by decide, by decide⟩]

/-- The compiled file alone, with more slashes and dots than its path needs. -/
def mapsUnits : List ArgumentUnit :=
  [.operand ⟨"build//maps/./world.json", by decide⟩]

/-- Both directories of the sample can be moved to the end, and an unknown option is found
behind them.  If no directory is given, resources are looked for in that of the compiled file as
its path spells it, or where the command runs. -/
theorem parse_units_galleryUnits :
    argumentsOf galleryUnits =
      ["--resources", "--frames", "build/world.json", "--resources=assets", "/mob"] ∧
    parse (argumentsOf galleryUnits) =
      .ok { compiled := "build/world.json", resources := "assets", arguments := ["/mob"] } ∧
    parse ["--resources=--frames", "build/world.json", "--resources=assets", "/mob"] =
      parse (argumentsOf galleryUnits) ∧
    parse ["build/world.json", "/mob", "--resources", "--frames", "--resources=assets"] =
      parse (argumentsOf galleryUnits) ∧
    parse (argumentsOf verboseUnits) = .error (.unknownOption "--verbose") ∧
    parse ["build//maps/./world.json"] =
      .ok { compiled := "build//maps/./world.json", resources := "build//maps", arguments := [] } ∧
    IsDirectoryOf "build//maps" "build//maps/./world.json" ∧
    parse ["world.json"] =
      .ok { compiled := "world.json", resources := ".", arguments := [] } := by
  obtain ⟨_, _, respelled, moved, answers, _, succeeds⟩ := parse_units galleryUnits
  obtain ⟨_, _, _, _, _, fails, _⟩ := parse_units verboseUnits
  obtain ⟨_, _, _, _, defaults, _⟩ := parse_units mapsUnits
  have rearranged : Rearranged galleryUnits
      [.operand ⟨"build/world.json", by decide⟩, .operand ⟨"/mob", by decide⟩,
        .spaced "--frames", .joined "assets"] := ⟨rfl, rfl⟩
  have mapsParsed : parse ["build//maps/./world.json"] =
      .ok { compiled := "build//maps/./world.json", resources := "build//maps", arguments := [] } :=
    rfl
  refine ⟨rfl, ?_, respelled [] "--frames" _ rfl, moved _ rearranged,
    (fails "--verbose" rfl).1, mapsParsed, ?_, rfl⟩
  · rcases (succeeds rfl).2.2 (by decide) with ⟨⟨compiled, resources, arguments⟩, parsed⟩
    rcases answers _ parsed with ⟨operandsEq, resourcesEq, _⟩
    cases operandsEq
    cases resourcesEq "assets" rfl
    exact parsed
  · obtain ⟨_, _, isDefault⟩ := defaults _ mapsParsed
    rcases isDefault rfl with ⟨_, isDirectoryOf⟩ | ⟨_, here⟩
    · exact isDirectoryOf
    · exact absurd here (by decide)

end Config

end DreamWorld.Command
